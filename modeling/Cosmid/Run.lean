import Mathlib.Data.List.Induction
import Mathlib.Tactic.Common

/-! Runs of a partial step function over a list of events. A step that returns
`none` is an aborted program, so every rule below also delivers the next state. -/
namespace Cosmid.Run

variable {σ ε : Type*}

/-- Take the events in order; the run fails as soon as one step does. -/
def run (step : σ → ε → Option σ) : σ → List ε → Option σ
  | s, [] => some s
  | s, e :: es => (step s e).bind (fun s' => run step s' es)

/-- `P` holds of every event in the state in which it is taken. -/
def Along (step : σ → ε → Option σ) (P : σ → ε → Prop) : σ → List ε → Prop
  | _, [] => True
  | s, e :: es => P s e ∧ ∀ s', step s e = some s' → Along step P s' es

/-- No step fails, and `Q` holds of every state reached and the events up to it. -/
def Throughout (step : σ → ε → Option σ) (Q : List ε → σ → Prop) (s : σ) (es : List ε) : Prop :=
  ∀ fs, fs <+: es → ∃ s', run step s fs = some s' ∧ Q fs s'

@[simp] theorem run_nil (step : σ → ε → Option σ) (s : σ) : run step s [] = some s := rfl

theorem run_cons_of_step (step : σ → ε → Option σ) {s s' : σ} {e : ε} (h : step s e = some s')
    (es : List ε) : run step s (e :: es) = run step s' es := by
  simp only [run, h, Option.bind_some]

theorem run_cons_eq_some_iff (step : σ → ε → Option σ) {s s' : σ} {e : ε} {es : List ε} :
    run step s (e :: es) = some s' ↔ ∃ t, step s e = some t ∧ run step t es = some s' :=
  Option.bind_eq_some_iff

theorem run_append (step : σ → ε → Option σ) (s : σ) (es fs : List ε) :
    run step s (es ++ fs) = (run step s es).bind (fun s' => run step s' fs) := by
  induction es generalizing s with
  | nil => rfl
  | cons e es ih =>
    simp only [List.cons_append, run, Option.bind_assoc]
    exact congrArg _ (funext ih)

theorem run_map {ε' : Type*} (step : σ → ε → Option σ) (f : ε' → ε) (s : σ) (es : List ε') :
    run step s (es.map f) = run (fun s e => step s (f e)) s es := by
  induction es generalizing s with
  | nil => rfl
  | cons e es ih =>
    simp only [List.map_cons, run]
    exact congrArg _ (funext ih)

theorem along_cons_of_step (step : σ → ε → Option σ) {P : σ → ε → Prop} {s s' : σ} {e : ε}
    (h : step s e = some s') (es : List ε) :
    Along step P s (e :: es) ↔ P s e ∧ Along step P s' es := by
  simp only [Along, h, Option.some.injEq, forall_eq']

theorem along_of_mem (step : σ → ε → Option σ) {P : σ → ε → Prop} (s : σ) (es : List ε)
    (h : ∀ e ∈ es, ∀ s, P s e) : Along step P s es := by
  induction es generalizing s with
  | nil => trivial
  | cons e es ih =>
    exact ⟨h e (by simp) s, fun s' _ => ih s' (fun f hf => h f (by simp [hf]))⟩

theorem along_true (step : σ → ε → Option σ) (s : σ) (es : List ε) :
    Along step (fun _ _ => True) s es := along_of_mem step s es (fun _ _ _ => trivial)

theorem along_append (step : σ → ε → Option σ) {P : σ → ε → Prop} {s s' : σ} {es : List ε}
    (hr : run step s es = some s') (fs : List ε) :
    Along step P s (es ++ fs) ↔ Along step P s es ∧ Along step P s' fs := by
  induction es generalizing s with
  | nil =>
    obtain rfl := Option.some.inj hr
    simp only [List.nil_append, Along, true_and]
  | cons e es ih =>
    obtain ⟨t, ht, hr⟩ := (run_cons_eq_some_iff step).mp hr
    rw [List.cons_append, along_cons_of_step step ht, along_cons_of_step step ht, ih hr, and_assoc]

theorem along_of_isPrefix (step : σ → ε → Option σ) {P : σ → ε → Prop} (s : σ) (fs es : List ε)
    (hpre : fs <+: es) (h : Along step P s es) : Along step P s fs := by
  induction fs generalizing s es with
  | nil => trivial
  | cons f fs ih =>
    cases es with
    | nil => exact absurd hpre (by simp)
    | cons e es =>
      obtain ⟨rfl, htail⟩ := List.cons_prefix_cons.mp hpre
      exact ⟨h.1, fun s' hs => ih s' es htail (h.2 s' hs)⟩

/-- The invariant rule: one step preserves `Inv`, so a whole run does. -/
theorem run_invariant (step : σ → ε → Option σ) (P : σ → ε → Prop) (Inv : σ → Prop)
    (hstep : ∀ s e, Inv s → P s e → ∃ s', step s e = some s' ∧ Inv s')
    (s : σ) (es : List ε) (hs : Inv s) (hp : Along step P s es) :
    ∃ s', run step s es = some s' ∧ Inv s' := by
  induction es generalizing s with
  | nil => exact ⟨s, rfl, hs⟩
  | cons e es ih =>
    obtain ⟨s', he, hi⟩ := hstep s e hs hp.1
    rw [run_cons_of_step step he]
    exact ih s' hi (hp.2 s' he)

/-- The invariant rule with the history of the run as a part of the invariant. -/
theorem run_history (step : σ → ε → Option σ) (P : σ → ε → Prop) (Inv : List ε → σ → Prop)
    (hstep : ∀ h s e, Inv h s → P s e → ∃ s', step s e = some s' ∧ Inv (h ++ [e]) s')
    (h : List ε) (s : σ) (es : List ε) (hs : Inv h s) (hp : Along step P s es) :
    ∃ s', run step s es = some s' ∧ Inv (h ++ es) s' := by
  induction es generalizing h s with
  | nil => exact ⟨s, rfl, by simpa using hs⟩
  | cons e es ih =>
    obtain ⟨s', he, hi⟩ := hstep h s e hs hp.1
    rw [run_cons_of_step step he]
    simpa only [List.append_assoc, List.singleton_append] using ih (h ++ [e]) s' hi (hp.2 s' he)

/-- The same for the steps taken only: whether a step can be taken is left open. -/
theorem run_keeps (step : σ → ε → Option σ) (P : σ → ε → Prop) (Inv : List ε → σ → Prop)
    (hstep : ∀ h s e s', Inv h s → P s e → step s e = some s' → Inv (h ++ [e]) s')
    (h : List ε) (s s' : σ) (es : List ε) (hs : Inv h s) (hp : Along step P s es)
    (hr : run step s es = some s') : Inv (h ++ es) s' := by
  induction es generalizing h s with
  | nil =>
    obtain rfl := Option.some.inj hr
    rwa [List.append_nil]
  | cons e es ih =>
    obtain ⟨t, ht, hr⟩ := (run_cons_eq_some_iff step).mp hr
    have hrest := ih (h ++ [e]) t (hstep h s e t hs hp.1 ht) (hp.2 t ht) hr
    rwa [List.append_assoc] at hrest

/-- `P` holds of every event, the events before it and the state in which it is taken. -/
def AlongHistory (step : σ → ε → Option σ) (P : List ε → σ → ε → Prop) (s : σ) (es : List ε) :
    Prop :=
  ∀ fs e s', fs ++ [e] <+: es → run step s fs = some s' → P fs s' e

theorem run_concat (step : σ → ε → Option σ) {s s' : σ} {es : List ε}
    (hr : run step s es = some s') (e : ε) : run step s (es ++ [e]) = step s' e := by
  rw [run_append, hr, Option.bind_some]
  cases h : step s' e <;> simp [run, h]

/-- What `f` adds up to over a run. -/
def total (step : σ → ε → Option σ) (f : σ → ε → ℕ) : σ → List ε → ℕ
  | _, [] => 0
  | s, e :: es => f s e+(step s e).elim 0 fun s' => total step f s' es

theorem total_concat (step : σ → ε → Option σ) (f : σ → ε → ℕ) {s s' : σ} {es : List ε}
    (hr : run step s es = some s') (e : ε) :
    total step f s (es ++ [e]) = total step f s es+f s' e := by
  induction es generalizing s with
  | nil =>
    obtain rfl := Option.some.inj hr
    cases h : step s e <;> simp [total, h]
  | cons d es ih =>
    obtain ⟨t, ht, hr⟩ := (run_cons_eq_some_iff step).mp hr
    simp only [List.cons_append, total, ht, Option.elim_some, ih hr, Nat.add_assoc]

theorem along_iff_alongHistory (step : σ → ε → Option σ) (P : σ → ε → Prop) (s : σ)
    (es : List ε) : Along step P s es ↔ AlongHistory step (fun _ => P) s es := by
  constructor
  · intro h fs e s' hfs hr
    have hpre := along_of_isPrefix step s _ es hfs h
    exact ((along_append step hr [e]).mp hpre).2.1
  · intro h
    induction es generalizing s with
    | nil => trivial
    | cons e es ih =>
      refine ⟨h [] e s (by simp) rfl, fun s' hs => ih s' ?_⟩
      intro fs f t hfs hr
      refine h (e :: fs) f t (List.cons_prefix_cons.mpr ⟨rfl, hfs⟩) ?_
      rw [run_cons_of_step step hs, hr]

/-- When a bad event always breaks `Q` at once, the runs that keep `Q` are
exactly the runs without bad events. The first bad one ends the argument, so
nothing has to be known about what comes after it. -/
theorem throughout_iff_alongHistory (step : σ → ε → Option σ) (P Good : List ε → σ → ε → Prop)
    (Inv Q : List ε → σ → Prop) (hQ : ∀ h s, Inv h s → Q h s)
    (hgood : ∀ h s e, Inv h s → P h s e → Good h s e →
      ∃ s', step s e = some s' ∧ Inv (h ++ [e]) s')
    (hbad : ∀ h s e s', Inv h s → P h s e → ¬Good h s e → step s e = some s' →
      ¬Q (h ++ [e]) s')
    (s : σ) (es : List ε) (hs : Inv [] s) (hp : AlongHistory step P s es) :
    Throughout step Q s es ↔ AlongHistory step Good s es := by
  -- Both directions know of every event that it is good in a state with the invariant.
  have hreach (hg : ∀ fs e t, fs ++ [e] <+: es → run step s fs = some t → Inv fs t →
      Good fs t e) : ∀ fs, fs <+: es → ∃ t, run step s fs = some t ∧ Inv fs t := by
    intro fs
    induction fs using List.reverseRecOn with
    | nil => exact fun _ => ⟨s, rfl, hs⟩
    | append_singleton fs e ih =>
      intro hfs
      obtain ⟨t, ht, hi⟩ := ih ((List.prefix_append fs [e]).trans hfs)
      obtain ⟨t', he, hi'⟩ := hgood fs t e hi (hp fs e t hfs ht) (hg fs e t hfs ht hi)
      exact ⟨t', (run_concat step ht e).trans he, hi'⟩
  constructor
  · intro hq
    have hg : ∀ fs e t, fs ++ [e] <+: es → run step s fs = some t → Inv fs t → Good fs t e := by
      intro fs e t hfs ht hi
      obtain ⟨t', hr, hqt⟩ := hq _ hfs
      rw [run_concat step ht] at hr
      by_contra hn
      exact hbad fs t e t' hi (hp fs e t hfs ht) hn hr hqt
    intro fs e t hfs ht
    obtain ⟨t', ht', hi⟩ := hreach hg fs ((List.prefix_append fs [e]).trans hfs)
    obtain rfl : t = t' := Option.some.inj (ht.symm.trans ht')
    exact hg fs e t hfs ht hi
  · intro hg fs hfs
    obtain ⟨t, ht, hi⟩ := hreach (fun fs e t hfs ht _ => hg fs e t hfs ht) fs hfs
    exact ⟨t, ht, hQ fs t hi⟩

/-- The same for a condition on the state and the event. -/
theorem throughout_iff_along (step : σ → ε → Option σ) (P Good : σ → ε → Prop)
    (Inv Q : List ε → σ → Prop) (hQ : ∀ h s, Inv h s → Q h s)
    (hgood : ∀ h s e, Inv h s → P s e → Good s e → ∃ s', step s e = some s' ∧ Inv (h ++ [e]) s')
    (hbad : ∀ h s e s', Inv h s → P s e → ¬Good s e → step s e = some s' → ¬Q (h ++ [e]) s')
    (s : σ) (es : List ε) (hs : Inv [] s) (hp : Along step P s es) :
    Throughout step Q s es ↔ Along step Good s es := by
  rw [along_iff_alongHistory] at hp ⊢
  exact throughout_iff_alongHistory step _ _ Inv Q hQ hgood hbad s es hs hp

/-- The same for a condition on the event and the events before it. -/
theorem throughout_iff_events (step : σ → ε → Option σ) (P : σ → ε → Prop)
    (Good : List ε → ε → Prop) (Inv Q : List ε → σ → Prop) (hQ : ∀ h s, Inv h s → Q h s)
    (hgood : ∀ h s e, Inv h s → P s e → Good h e → ∃ s', step s e = some s' ∧ Inv (h ++ [e]) s')
    (hbad : ∀ h s e s', Inv h s → P s e → ¬Good h e → step s e = some s' → ¬Q (h ++ [e]) s')
    (s : σ) (es : List ε) (hs : Inv [] s) (hp : Along step P s es) :
    Throughout step Q s es ↔ ∀ fs e, fs ++ [e] <+: es → Good fs e := by
  have hiff := throughout_iff_alongHistory step _ (fun h _ e => Good h e) Inv Q hQ hgood hbad s es
    hs ((along_iff_alongHistory step P s es).mp hp)
  constructor
  · intro hq fs e hfs
    obtain ⟨t, ht, -⟩ := hq fs ((List.prefix_append fs [e]).trans hfs)
    exact hiff.mp hq fs e t hfs ht
  · exact fun h => hiff.mpr fun fs e _ hfs _ => h fs e hfs

/-- The same for a condition on the events so far. -/
theorem throughout_iff_prefixes (step : σ → ε → Option σ) (P : σ → ε → Prop)
    (Good : List ε → Prop) (Inv Q : List ε → σ → Prop) (hQ : ∀ h s, Inv h s → Q h s)
    (hnil : Good [])
    (hgood : ∀ h s e, Inv h s → P s e → Good (h ++ [e]) →
      ∃ s', step s e = some s' ∧ Inv (h ++ [e]) s')
    (hbad : ∀ h s e s', Inv h s → P s e → ¬Good (h ++ [e]) → step s e = some s' → ¬Q (h ++ [e]) s')
    (s : σ) (es : List ε) (hs : Inv [] s) (hp : Along step P s es) :
    Throughout step Q s es ↔ ∀ fs, fs <+: es → Good fs := by
  rw [throughout_iff_events step P (fun h e => Good (h ++ [e])) Inv Q hQ hgood hbad s es hs hp]
  constructor
  · intro h fs hfs
    cases fs using List.reverseRecOn with
    | nil => exact hnil
    | append_singleton fs e => exact h fs e hfs
  · exact fun h fs e hfs => h (fs ++ [e]) hfs

end Cosmid.Run
