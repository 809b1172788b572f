import Cosmid.Run

/-! Clients that keep a count of what they have written and what is still to be
acknowledged, over a connection that can break and be made again. -/
namespace Cosmid

/-- A client with the count `debt`. A step pays `acked` off it and adds what it has
`written`; making a connection, with what `κ` says about it, leaves it alone. -/
structure CreditClient (σ ε κ : Type) where
  step : σ → ε → Option σ
  connect : κ → σ → σ
  debt : σ → ℕ
  written : σ → σ → ℕ
  acked : σ → ε → ℕ
  Valid : σ → Prop
  step_debt : ∀ s e, Valid s → acked s e ≤ debt s →
    ∃ s', step s e = some s' ∧ Valid s' ∧ debt s'+acked s e = debt s+written s s'
  connect_debt : ∀ k s, Valid s → Valid (connect k s) ∧ debt (connect k s) = debt s

/-- The client with what it has written since it last connected, and what has been
acknowledged of that. -/
structure Link (σ : Type) where
  client : σ
  connected : Bool
  sent : ℕ
  acked : ℕ

inductive LinkEvent (ε κ : Type)
  | op (e : ε)
  | lose
  | connect (k : κ)

namespace CreditClient

variable {σ ε κ : Type} (c : CreditClient σ ε κ)

/-- Before the first connection. -/
def offline (s : σ) : Link σ := ⟨s,false,0,0⟩

def linkStep (l : Link σ) : LinkEvent ε κ → Option (Link σ)
  | .op e => (c.step l.client e).map fun s => {l with
      client := s
      sent := l.sent+c.written l.client s
      acked := l.acked+c.acked l.client e}
  | .lose => some {l with connected := false}
  | .connect k => some ⟨c.connect k l.client,true,0,0⟩

/-- The peer acknowledges only what was written on this connection, and nothing is
acknowledged without one. -/
def Honest (l : Link σ) : LinkEvent ε κ → Prop
  | .op e => c.acked l.client e ≤ if l.connected then l.sent-l.acked else 0
  | _ => True

/-- When a connection is made, everything written before it has been acknowledged. -/
def Settled (l : Link σ) : LinkEvent ε κ → Prop
  | .connect _ => l.sent = l.acked
  | _ => True

/-- The count is about the current connection. -/
def Current (l : Link σ) : Prop := l.connected = true → c.debt l.client ≤ l.sent-l.acked

/-- The invariant of settled runs: the count is exact. -/
structure Exact (l : Link σ) : Prop where
  valid : c.Valid l.client
  debt_eq : c.debt l.client+l.acked = l.sent

theorem Exact.current {l : Link σ} (h : c.Exact l) : c.Current l := by
  intro _
  have := h.debt_eq
  omega

theorem exact_offline (s : σ) (hv : c.Valid s) (hz : c.debt s = 0) : c.Exact (offline s) :=
  ⟨hv, hz⟩

theorem linkStep_exact (l : Link σ) (e : LinkEvent ε κ) (h : c.Exact l) (hh : c.Honest l e)
    (hs : Settled l e) : ∃ l', c.linkStep l e = some l' ∧ c.Exact l' := by
  have hdebt := h.debt_eq
  cases e with
  | op e =>
    have hle : c.acked l.client e ≤ c.debt l.client := by
      have hpeer : c.acked l.client e ≤ if l.connected then l.sent-l.acked else 0 := hh
      split_ifs at hpeer <;> omega
    obtain ⟨s', hs', hv, heq⟩ := c.step_debt l.client e h.valid hle
    refine ⟨_, by rw [linkStep, hs']; rfl, hv, ?_⟩
    dsimp only
    omega
  | lose => exact ⟨_, rfl, h.valid, hdebt⟩
  | connect k =>
    obtain ⟨hv, heq⟩ := c.connect_debt k l.client h.valid
    unfold Settled at hs
    refine ⟨_, rfl, hv, ?_⟩
    dsimp only
    omega

/-- An unsettled connection starts with a debt from the one before. -/
theorem linkStep_unsettled (l l' : Link σ) (e : LinkEvent ε κ) (h : c.Exact l)
    (hs : ¬Settled l e) (hl : c.linkStep l e = some l') :
    l'.connected = true ∧ l'.sent = 0 ∧ 0 < c.debt l'.client := by
  have hdebt := h.debt_eq
  cases e with
  | connect k =>
    obtain ⟨-, heq⟩ := c.connect_debt k l.client h.valid
    obtain rfl := Option.some.inj hl
    unfold Settled at hs
    refine ⟨rfl, rfl, ?_⟩
    dsimp only
    omega
  | _ => exact absurd trivial hs

/-- What `Current` implies, and a debt at the start of a connection contradicts,
holds throughout a run if and only if every connection is made after the one before
is settled. -/
theorem throughout_iff_settled (Q : Link σ → Prop) (hcurrent : ∀ l, c.Current l → Q l)
    (hdebt : ∀ l, l.connected = true → l.sent = 0 → 0 < c.debt l.client → ¬Q l)
    (s : σ) (hv : c.Valid s) (hz : c.debt s = 0) (es : List (LinkEvent ε κ))
    (hh : Run.Along c.linkStep c.Honest (offline s) es) :
    Run.Throughout c.linkStep (fun _ l => Q l) (offline s) es ↔
      Run.Along c.linkStep Settled (offline s) es := by
  refine Run.throughout_iff_along c.linkStep c.Honest Settled (fun _ l => c.Exact l)
    (fun _ l => Q l) (fun _ l h => hcurrent l (h.current c)) ?_ ?_ (offline s) es
    (c.exact_offline s hv hz) hh
  · exact fun _ l e h hh hs => c.linkStep_exact l e h hh hs
  · intro _ l e l' h _ hs hl
    obtain ⟨h1, h2, h3⟩ := c.linkStep_unsettled l l' e h hs hl
    exact hdebt l' h1 h2 h3

/-- A debt from one connection is still there on the next one. -/
theorem lost_debt (Q : Link σ → Prop)
    (hdebt : ∀ l, l.connected = true → l.sent = 0 → 0 < c.debt l.client → ¬Q l) (s s' : σ)
    (k : κ) (e : ε) (hs : c.step (c.connect k s) e = some s') (hv : c.Valid s')
    (hack : c.acked (c.connect k s) e = 0) (hpos : 0 < c.debt s') :
    Run.Along c.linkStep c.Honest (offline s) [.connect k, .op e, .lose, .connect k] ∧
    ¬Run.Throughout c.linkStep (fun _ l => Q l) (offline s)
      [.connect k, .op e, .lose, .connect k] := by
  have h1 : c.linkStep (offline s) (.connect k) = some ⟨c.connect k s,true,0,0⟩ := rfl
  have h2 : c.linkStep ⟨c.connect k s,true,0,0⟩ (.op e) =
      some ⟨s',true,0+c.written (c.connect k s) s',0+c.acked (c.connect k s) e⟩ := by
    rw [linkStep, hs]
    rfl
  refine ⟨?_, fun h => ?_⟩
  · rw [Run.along_cons_of_step _ h1, Run.along_cons_of_step _ h2]
    refine ⟨trivial, ?_, trivial, fun _ _ => ⟨trivial, fun _ _ => trivial⟩⟩
    exact Nat.le_trans (Nat.le_of_eq hack) (Nat.zero_le _)
  · obtain ⟨l, hr, hq⟩ := h _ List.prefix_rfl
    rw [Run.run_cons_of_step _ h1, Run.run_cons_of_step _ h2] at hr
    obtain rfl := Option.some.inj hr
    refine hdebt _ rfl rfl ?_ hq
    rw [(c.connect_debt k s' hv).2]
    exact hpos

/-- Something is written, and acknowledged before the connection is lost. -/
def answeredRun (k : κ) (e a : ε) : List (LinkEvent ε κ) :=
  [.connect k, .op e, .op a, .lose, .connect k]

/-- Acknowledged in full, the next connection finds nothing of it. -/
theorem answered_settled (s s' t : σ) (k : κ) (e a : ε)
    (hs : c.step (c.connect k s) e = some s') (ht : c.step s' a = some t)
    (hfree : c.acked (c.connect k s) e = 0) (hpaid : c.acked s' a = c.written (c.connect k s) s')
    (hdone : c.written s' t = 0) :
    Run.Along c.linkStep c.Honest (offline s) (answeredRun k e a) ∧
    Run.Along c.linkStep Settled (offline s) (answeredRun k e a) := by
  let n := c.written (c.connect k s) s'
  have h1 : c.linkStep (offline s) (.connect k) = some ⟨c.connect k s,true,0,0⟩ := rfl
  have h2 : c.linkStep ⟨c.connect k s,true,0,0⟩ (.op e) = some ⟨s',true,n,0⟩ := by
    rw [linkStep, hs, Option.map_some, hfree, Nat.zero_add]
  have h3 : c.linkStep ⟨s',true,n,0⟩ (.op a) = some ⟨t,true,n,n⟩ := by
    rw [linkStep, ht, Option.map_some, hdone, hpaid, Nat.zero_add]
    rfl
  have h4 : c.linkStep ⟨t,true,n,n⟩ .lose = some ⟨t,false,n,n⟩ := rfl
  constructor
  · rw [answeredRun, Run.along_cons_of_step _ h1, Run.along_cons_of_step _ h2,
      Run.along_cons_of_step _ h3, Run.along_cons_of_step _ h4]
    exact ⟨trivial, Nat.le_of_eq hfree, Nat.le_of_eq hpaid, trivial, trivial, fun _ _ => trivial⟩
  · rw [answeredRun, Run.along_cons_of_step _ h1, Run.along_cons_of_step _ h2,
      Run.along_cons_of_step _ h3, Run.along_cons_of_step _ h4]
    exact ⟨rfl, trivial, trivial, trivial, rfl, fun _ _ => trivial⟩

end CreditClient
end Cosmid
