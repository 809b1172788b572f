import Mathlib.Data.List.Basic
import Mathlib.Tactic.Common

/-! Timed scripts with reactions. A partition is always in one of its states. While it
is in a state it reacts to what it sees at every update, and runs the script of the
state from the time at which it entered the state. -/
namespace Cosmid.Tma

/-- Send a command, hold until a condition is met or a limit is reached, let some time
pass, or go to another state. A script sees an `ε`. -/
inductive Stmt (ε σ κ : Type)
  | send (cmd : κ)
  | hold (cond : ε → Bool) (limit : Option ℕ)
  | wait (secs : ℕ)
  | validate (target : σ)

structure Reaction (ε σ : Type) where
  when : ε → Bool
  target : σ

structure Partition (ε σ κ : Type) where
  reactions : σ → List (Reaction ε σ)
  script : σ → List (Stmt ε σ κ)

/-- Where a partition is: its state, the rest of the script, and the time of the
statement before. -/
structure Place (ε σ κ : Type) where
  state : σ
  rest : List (Stmt ε σ κ)
  since : ℕ

section Script

variable {ε σ κ : Type} (now : ℕ) (env : ε)

/-- Run a script until it has to stop or leaves the state: the commands sent, and the
rest of the script with its time or the next state. -/
def runScript : List (Stmt ε σ κ) → ℕ → List κ × (List (Stmt ε σ κ) × ℕ ⊕ σ)
  | [], since => ([], .inl ([], since))
  | .send cmd :: rest, since => (cmd :: (runScript rest since).1, (runScript rest since).2)
  | .hold cond limit :: rest, since =>
    if cond env ∨ ∃ n ∈ limit, since+n ≤ now then runScript rest now
    else ([], .inl (.hold cond limit :: rest, since))
  | .wait secs :: rest, since =>
    if since+secs ≤ now then runScript rest (since+secs)
    else ([], .inl (.wait secs :: rest, since))
  | .validate target :: _, _ => ([], .inr target)

theorem runScript_hold (cond : ε → Bool) (limit : Option ℕ) (rest : List (Stmt ε σ κ))
    (since : ℕ) (h : cond env = true) :
    runScript now env (.hold cond limit :: rest) since = runScript now env rest now := by
  rw [runScript, if_pos (Or.inl h)]

theorem runScript_hold_false (cond : ε → Bool) (rest : List (Stmt ε σ κ)) (since : ℕ)
    (h : cond env = false) :
    runScript now env (.hold cond none :: rest) since =
      ([], .inl (.hold cond none :: rest, since)) := by
  rw [runScript, if_neg]
  rintro (hcond | ⟨n, hn, -⟩)
  · rw [h] at hcond
    cases hcond
  · cases hn

theorem runScript_wait (secs : ℕ) (rest : List (Stmt ε σ κ)) (since : ℕ) (h : since+secs ≤ now) :
    runScript now env (.wait secs :: rest) since = runScript now env rest (since+secs) := by
  rw [runScript, if_pos h]

theorem runScript_wait_more (secs : ℕ) (rest : List (Stmt ε σ κ)) (since : ℕ)
    (h : ¬since+secs ≤ now) :
    runScript now env (.wait secs :: rest) since = ([], .inl (.wait secs :: rest, since)) := by
  rw [runScript, if_neg h]

theorem runScript_sends (cmds : List κ) (script : List (Stmt ε σ κ)) (since : ℕ) :
    runScript now env (cmds.map .send ++ script) since =
      (cmds ++ (runScript now env script since).1, (runScript now env script since).2) := by
  induction cmds with
  | nil => rfl
  | cons cmd cmds ih => rw [List.map_cons, List.cons_append, runScript, ih]; rfl

/-- Every command sent and every state gone to is in the script, and what is left of it
is its end. -/
theorem runScript_spec (script : List (Stmt ε σ κ)) (since : ℕ) :
    (∀ cmd ∈ (runScript now env script since).1, .send cmd ∈ script) ∧
    match (runScript now env script since).2 with
    | .inl (rest, _) => rest <:+ script
    | .inr target => .validate target ∈ script := by
  induction script generalizing since with
  | nil => exact ⟨fun cmd h => absurd h List.not_mem_nil, List.suffix_rfl⟩
  | cons stmt script ih =>
    have hmore (t : ℕ) : (∀ cmd ∈ (runScript now env script t).1, .send cmd ∈ stmt :: script) ∧
        match (runScript now env script t).2 with
        | .inl (rest, _) => rest <:+ stmt :: script
        | .inr target => .validate target ∈ stmt :: script := by
      obtain ⟨hsent, hrest⟩ := ih t
      refine ⟨fun cmd h => List.mem_cons_of_mem _ (hsent cmd h), ?_⟩
      split at hrest
      · exact hrest.trans (List.suffix_cons ..)
      · exact List.mem_cons_of_mem _ hrest
    cases stmt with
    | send cmd =>
      obtain ⟨hsent, hrest⟩ := hmore since
      refine ⟨fun c h => ?_, hrest⟩
      rcases List.mem_cons.mp h with rfl | h
      · exact List.mem_cons_self ..
      · exact hsent c h
    | hold cond limit =>
      rw [runScript]
      split_ifs
      · exact hmore now
      · exact ⟨fun cmd h => absurd h List.not_mem_nil, List.suffix_rfl⟩
    | wait secs =>
      rw [runScript]
      split_ifs
      · exact hmore (since+secs)
      · exact ⟨fun cmd h => absurd h List.not_mem_nil, List.suffix_rfl⟩
    | validate target =>
      exact ⟨fun cmd h => absurd h List.not_mem_nil, List.mem_cons_self ..⟩

/-- Before a hold that is not met a script without `validate` stops. -/
theorem runScript_barred (pre : List (Stmt ε σ κ)) (cond : ε → Bool)
    (post : List (Stmt ε σ κ)) (since : ℕ) (hpre : ∀ target, .validate target ∉ pre)
    (hcond : cond env = false) :
    ∃ cmds pre' t, pre' <:+ pre ∧ runScript now env (pre ++ .hold cond none :: post) since =
      (cmds, .inl (pre' ++ .hold cond none :: post, t)) := by
  induction pre generalizing since with
  | nil => exact ⟨[], [], since, List.suffix_rfl, runScript_hold_false now env cond post since hcond⟩
  | cons stmt pre ih =>
    have hrest : ∀ target, .validate target ∉ pre := fun target h =>
      hpre target (List.mem_cons_of_mem _ h)
    have hmore (t : ℕ) := ih t hrest
    cases stmt with
    | send cmd =>
      obtain ⟨cmds, pre', t, hsub, hrun⟩ := hmore since
      refine ⟨cmd :: cmds, pre', t, hsub.trans (List.suffix_cons ..), ?_⟩
      rw [List.cons_append, runScript, hrun]
    | hold cond' limit =>
      rw [List.cons_append, runScript]
      split_ifs
      · obtain ⟨cmds, pre', t, hsub, hrun⟩ := hmore now
        exact ⟨cmds, pre', t, hsub.trans (List.suffix_cons ..), hrun⟩
      · exact ⟨[], .hold cond' limit :: pre, since, List.suffix_rfl, rfl⟩
    | wait secs =>
      rw [List.cons_append, runScript]
      split_ifs
      · obtain ⟨cmds, pre', t, hsub, hrun⟩ := hmore (since+secs)
        exact ⟨cmds, pre', t, hsub.trans (List.suffix_cons ..), hrun⟩
      · exact ⟨[], .wait secs :: pre, since, List.suffix_rfl, rfl⟩
    | validate target => exact absurd (List.mem_cons_self ..) (hpre target)

end Script

namespace Partition

variable {ε σ κ : Type} (P : Partition ε σ κ) (now : ℕ) (env : ε)

/-- `Validate`: the script of the state starts at its beginning. -/
def enter (s : σ) : Place ε σ κ := ⟨s,P.script s,now⟩

/-- The place in which the script of `s` has stopped, or the state it has gone to. -/
def stopped (s : σ) (r : List κ × (List (Stmt ε σ κ) × ℕ ⊕ σ)) : List κ × Place ε σ κ :=
  match r.2 with
  | .inl (rest, since) => (r.1, ⟨s,rest,since⟩)
  | .inr target => (r.1, P.enter now target)

/-- What a partition does at an update, and the commands it sends: the first reaction
that is enabled takes it to another state, and otherwise its script goes on. -/
def visit (place : Place ε σ κ) : List κ × Place ε σ κ :=
  match (P.reactions place.state).find? (fun r => r.when env) with
  | some r => ([], P.enter now r.target)
  | none => P.stopped now place.state (runScript now env place.rest place.since)

/-- What is left to run is an end of the script of the state. -/
def OnScript (place : Place ε σ κ) : Prop := place.rest <:+ P.script place.state

theorem enter_onScript (s : σ) : P.OnScript (P.enter now s) := List.suffix_rfl

/-- The first reaction comes before all others and before the script. -/
theorem visit_first (place : Place ε σ κ) (r : Reaction ε σ) (rs : List (Reaction ε σ))
    (hr : P.reactions place.state = r :: rs) (h : r.when env = true) :
    P.visit now env place = ([], P.enter now r.target) := by
  have hfind : (P.reactions place.state).find? (fun r => r.when env) = some r := by
    rw [hr]
    exact List.find?_cons_of_pos (p := fun r : Reaction ε σ => r.when env) h
  rw [visit, hfind]

/-- Without an enabled reaction the script goes on. -/
theorem visit_quiet (place : Place ε σ κ) (h : ∀ r ∈ P.reactions place.state, r.when env = false) :
    P.visit now env place =
      P.stopped now place.state (runScript now env place.rest place.since) := by
  have hnone : (P.reactions place.state).find? (fun r => r.when env) = none := by
    rw [List.find?_eq_none]
    intro r hr
    rw [h r hr]
    exact Bool.false_ne_true
  rw [visit, hnone]

/-- A visit stays on the scripts, sends what is in the script, and goes where a reaction
or the script says. -/
theorem visit_spec (place : Place ε σ κ) (h : P.OnScript place) :
    P.OnScript (P.visit now env place).2 ∧
    (∀ cmd ∈ (P.visit now env place).1, .send cmd ∈ P.script place.state) ∧
    ((P.visit now env place).2.state = place.state ∨
      (∃ r ∈ P.reactions place.state, r.when env = true ∧
        (P.visit now env place).2.state = r.target) ∨
      .validate (P.visit now env place).2.state ∈ P.script place.state) := by
  unfold visit
  split
  · rename_i r hr
    have hwhen : r.when env = true :=
      List.find?_some (p := fun r : Reaction ε σ => r.when env) hr
    exact ⟨P.enter_onScript now r.target, fun cmd h => absurd h List.not_mem_nil,
      Or.inr (Or.inl ⟨r, List.mem_of_find?_eq_some hr, hwhen, rfl⟩)⟩
  · obtain ⟨hsent, hrest⟩ := runScript_spec now env place.rest place.since
    unfold stopped
    split
    · rename_i rest since hrun
      rw [hrun] at hrest
      exact ⟨hrest.trans h, fun cmd hcmd => h.subset (hsent cmd hcmd), Or.inl rfl⟩
    · rename_i target hrun
      rw [hrun] at hrest
      exact ⟨P.enter_onScript now target, fun cmd hcmd => h.subset (hsent cmd hcmd),
        Or.inr (Or.inr (h.subset hrest))⟩

/-- The script sends some commands, holds until a condition without a limit, and then
goes to `target`. -/
def Awaits (place : Place ε σ κ) (cond : ε → Bool) (target : σ) : Prop :=
  ∃ cmds : List κ, place.rest = cmds.map .send ++ [.hold cond none, .validate target]

/-- As long as nothing is enabled, a partition that waits goes on waiting until the
condition is met. -/
theorem visit_awaits (place : Place ε σ κ) (cond : ε → Bool) (target : σ)
    (hwait : Awaits place cond target) (hquiet : ∀ r ∈ P.reactions place.state, r.when env = false) :
    (cond env = false → (P.visit now env place).2.state = place.state ∧
      Awaits (P.visit now env place).2 cond target) ∧
    (cond env = true → (P.visit now env place).2 = P.enter now target) := by
  obtain ⟨cmds, hrest⟩ := hwait
  rw [P.visit_quiet now env place hquiet, hrest, runScript_sends]
  constructor
  · intro hcond
    rw [runScript_hold_false now env cond _ place.since hcond]
    exact ⟨rfl, [], rfl⟩
  · intro hcond
    rw [runScript_hold now env cond none _ place.since hcond]
    rfl

/-- The script has a hold without a limit before it goes to another state. -/
def Barred (place : Place ε σ κ) (cond : ε → Bool) : Prop :=
  ∃ pre post : List (Stmt ε σ κ), (∀ target, .validate target ∉ pre) ∧
    place.rest = pre ++ .hold cond none :: post

/-- As long as nothing is enabled and the condition is not met, the partition stays. -/
theorem visit_barred (place : Place ε σ κ) (cond : ε → Bool) (hbar : Barred place cond)
    (hquiet : ∀ r ∈ P.reactions place.state, r.when env = false) (hcond : cond env = false) :
    (P.visit now env place).2.state = place.state ∧ Barred (P.visit now env place).2 cond := by
  obtain ⟨pre, post, hpre, hrest⟩ := hbar
  -- The script may go on within `pre`, but not past the hold.
  obtain ⟨cmds, pre', t, hsub, hrun⟩ :=
    runScript_barred now env pre cond post place.since hpre hcond
  rw [P.visit_quiet now env place hquiet, hrest, hrun]
  exact ⟨rfl, pre', post, fun target h => hpre target (hsub.subset h), rfl⟩

end Partition
end Cosmid.Tma
