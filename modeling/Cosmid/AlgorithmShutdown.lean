import Cosmid.CosmidAlgorithm

/-! No instrument is started after `Shutdown`: P3 reacts to it in every state, and P2
does not in `POPS1_Init`. -/
namespace Cosmid.Algorithm

open Tma

/-- The updates from the one on that ends the hold of `POPS1_Init`. -/
def sinceHold (h : List Update) : List Update := h.dropWhile fun v => v.tm.popsSrvr ≠ 1

theorem sinceHold_concat (h : List Update) (u : Update) :
    sinceHold (h ++ [u]) =
      if sinceHold h = [] then (if u.tm.popsSrvr = 1 then [u] else []) else sinceHold h ++ [u] := by
  induction h with
  | nil =>
    by_cases hu : u.tm.popsSrvr = 1 <;> simp [sinceHold, hu]
  | cons v h ih =>
    by_cases hv : v.tm.popsSrvr = 1
    · simp [sinceHold, hv]
    · simpa [sinceHold, hv] using ih

/-- `u` is the first update that comes 4 s or more after POPS_srvr has become 1, and
POPS_srvr has not been 2. -/
def StartDue (h : List Update) (u : Update) : Prop :=
  (∀ v ∈ h ++ [u], v.tm.popsSrvr ≠ 2) ∧ ∃ v post, sinceHold h = v :: post ∧
    (∀ w ∈ post, w.now < v.now+4) ∧ v.now+4 ≤ u.now

/-- The script of `POPS1_Init` behind its hold. -/
def startScript : List (Stmt View P2State Command) := [.wait 4, .send .popsStart]

/-- Where P2 is in `POPS1_Init`: in the hold, in the wait, or at the end. -/
def InitRest (h : List Update) (place : Place View P2State Command) : Prop :=
  match sinceHold h with
  | [] => place.rest = pops1.script .pops1Init ∨ place.rest = (pops1.script .pops1Init).tail
  | v :: post =>
    if ∀ w ∈ post, w.now < v.now+4 then place.rest = startScript ∧ place.since = v.now
    else place.rest = []

/-- P2 is in `POPS1_Init` until POPS_srvr is 2. -/
def P2Follows (h : List Update) (place : Place View P2State Command) : Prop :=
  if ∀ v ∈ h, v.tm.popsSrvr ≠ 2 then place.state = .pops1Init ∧ InitRest h place
  else place.state ≠ .pops1Init

theorem pops2Start_mem (s : P3State) (h : .send .pops2Start ∈ pops2.script s) : s = .pops2Idle := by
  cases s <;> simp [pops2] at h ⊢

/-- The wait of `POPS1_Init` and what follows it. -/
theorem runScript_startScript (now since : ℕ) (env : View) :
    runScript now env startScript since = if since+4 ≤ now then ([.popsStart], .inl ([], since+4))
      else ([], .inl (startScript, since)) := by
  by_cases h : since+4 ≤ now
  · rw [if_pos h, startScript, runScript_wait now env 4 _ since h]
    rfl
  · rw [if_neg h, startScript, runScript_wait_more now env 4 _ since h]

/-- The hold of `POPS1_Init`, with or without the command before it. -/
theorem runScript_init (now : ℕ) (env : View) (place : Place View P2State Command)
    (h : place.rest = pops1.script .pops1Init ∨ place.rest = (pops1.script .pops1Init).tail) :
    ∃ cmds, .popsStart ∉ cmds ∧ runScript now env place.rest place.since =
      (cmds, if env.tm.popsSrvr = 1 then .inl (startScript, now)
        else .inl ((pops1.script .pops1Init).tail, place.since)) := by
  have hhold : runScript now env (pops1.script .pops1Init).tail place.since =
      ([], if env.tm.popsSrvr = 1 then .inl (startScript, now)
        else .inl ((pops1.script .pops1Init).tail, place.since)) := by
    by_cases hone : env.tm.popsSrvr = 1
    · rw [if_pos hone]
      refine (runScript_hold now env _ none _ place.since (decide_eq_true hone)).trans ?_
      exact (runScript_startScript now now env).trans (if_neg (by omega))
    · rw [if_neg hone]
      exact runScript_hold_false now env _ _ place.since (decide_eq_false hone)
  rcases h with h | h
  · refine ⟨[.algoP2 .pops1Init], by decide, ?_⟩
    rw [h]
    exact congrArg (fun r => (Command.algoP2 .pops1Init :: r.1, r.2)) hhold
  · exact ⟨[], List.not_mem_nil, by rw [h, hhold]⟩

/-- An update that finds P2 in `POPS1_Init` and leaves it there. -/
def StaysInInit (h : List Update) (u : Update) (r : List Command × Place View P2State Command) :
    Prop :=
  (r.2.state = .pops1Init ∧ InitRest (h ++ [u]) r.2) ∧ (.popsStart ∈ r.1 ↔ StartDue h u)

/-- In the hold: it has not been over before this update, so nothing is started. -/
theorem staysInInit_hold (h : List Update) (u : Update) (env : View) (henv : env.tm = u.tm)
    (place : Place View P2State Command) (hsince : sinceHold h = []) (hrest : InitRest h place) :
    StaysInInit h u
      (pops1.stopped u.now .pops1Init (runScript u.now env place.rest place.since)) := by
  have hnot : ¬StartDue h u := by
    rintro ⟨-, v, post, hv, -⟩
    rw [hsince] at hv
    cases hv
  have hconcat := sinceHold_concat h u
  rw [InitRest, hsince] at hrest
  rw [hsince, if_pos rfl] at hconcat
  obtain ⟨cmds, hcmds, hrun⟩ := runScript_init u.now env place hrest
  rw [hrun, henv, StaysInInit, InitRest, hconcat]
  by_cases hone : u.tm.popsSrvr = 1
  · rw [if_pos hone, if_pos hone]
    dsimp only
    rw [if_pos (fun w hw => absurd hw List.not_mem_nil)]
    exact ⟨⟨rfl, rfl, rfl⟩, iff_of_false hcmds hnot⟩
  · rw [if_neg hone, if_neg hone]
    exact ⟨⟨rfl, Or.inr rfl⟩, iff_of_false hcmds hnot⟩

/-- Behind the hold, which `v` has ended: the wait is over once, after 4 s. -/
theorem staysInInit_wait (h : List Update) (u v : Update) (post : List Update) (env : View)
    (place : Place View P2State Command) (hnow : ∀ w ∈ h ++ [u], w.tm.popsSrvr ≠ 2)
    (hsince : sinceHold h = v :: post) (hrest : InitRest h place) :
    StaysInInit h u
      (pops1.stopped u.now .pops1Init (runScript u.now env place.rest place.since)) := by
  have hconcat := sinceHold_concat h u
  have hdue : StartDue h u ↔ (∀ w ∈ post, w.now < v.now+4) ∧ v.now+4 ≤ u.now := by
    constructor
    · rintro ⟨-, v', post', hv, hdue⟩
      obtain ⟨rfl, rfl⟩ := List.cons.inj (hsince.symm.trans hv)
      exact hdue
    · exact fun hdue => ⟨hnow, v, post, hsince, hdue⟩
  rw [InitRest, hsince] at hrest
  rw [hsince, if_neg (List.cons_ne_nil v post), List.cons_append] at hconcat
  rw [StaysInInit, InitRest, hconcat, hdue]
  dsimp only at hrest ⊢
  by_cases hearly : ∀ w ∈ post, w.now < v.now+4
  · rw [if_pos hearly] at hrest
    rw [hrest.1, hrest.2, runScript_startScript]
    by_cases hover : v.now+4 ≤ u.now
    · have hpast : ¬∀ w ∈ post ++ [u], w.now < v.now+4 := by
        intro hall
        have := hall u (by simp)
        omega
      rw [if_pos hover, if_neg hpast]
      exact ⟨⟨rfl, rfl⟩, iff_of_true (List.mem_singleton_self _) ⟨hearly, hover⟩⟩
    · have hstill : ∀ w ∈ post ++ [u], w.now < v.now+4 := by
        rw [List.forall_mem_append, List.forall_mem_singleton]
        exact ⟨hearly, by omega⟩
      rw [if_neg hover, if_pos hstill]
      exact ⟨⟨rfl, rfl, rfl⟩, iff_of_false List.not_mem_nil fun hd => hover hd.2⟩
  · have hpast : ¬∀ w ∈ post ++ [u], w.now < v.now+4 :=
      fun hall => hearly fun w hw => hall w (List.mem_append_left _ hw)
    rw [if_neg hearly] at hrest
    rw [hrest, if_neg hpast, runScript]
    exact ⟨⟨rfl, rfl⟩, iff_of_false List.not_mem_nil fun hd => hearly hd.1⟩

/-- One update of P2, against the updates so far. -/
theorem visit_pops1_follows (h : List Update) (u : Update) (env : View) (henv : env.tm = u.tm)
    (place : Place View P2State Command) (hscript : pops1.OnScript place)
    (hfollows : P2Follows h place) :
    P2Follows (h ++ [u]) (pops1.visit u.now env place).2 ∧
      (.popsStart ∈ (pops1.visit u.now env place).1 ↔ StartDue h u) := by
  by_cases hseen : ∀ v ∈ h, v.tm.popsSrvr ≠ 2
  · rw [P2Follows, if_pos hseen] at hfollows
    obtain ⟨hstate, hrest⟩ := hfollows
    by_cases htwo : u.tm.popsSrvr = 2
    · have hnow : ¬∀ v ∈ h ++ [u], v.tm.popsSrvr ≠ 2 := fun hall => hall u (by simp) htwo
      rw [visit_pops1_active u.now env place hstate (by rw [henv]; exact htwo), P2Follows, if_neg hnow]
      refine ⟨?_, ?_⟩
      · intro hinit
        cases hinit
      · exact ⟨fun hmem => absurd hmem List.not_mem_nil, fun hdue => absurd hdue.1 hnow⟩
    · have hnow : ∀ v ∈ h ++ [u], v.tm.popsSrvr ≠ 2 := by
        rw [List.forall_mem_append, List.forall_mem_singleton]
        exact ⟨hseen, htwo⟩
      rw [visit_pops1_init u.now env place hstate (by rw [henv]; exact htwo), P2Follows, if_pos hnow]
      cases hsince : sinceHold h with
      | nil => exact staysInInit_hold h u env henv place hsince hrest
      | cons v post => exact staysInInit_wait h u v post env place hnow hsince hrest
  · rw [P2Follows, if_neg hseen] at hfollows
    have hnow : ¬∀ v ∈ h ++ [u], v.tm.popsSrvr ≠ 2 :=
      fun hall => hseen fun v hv => hall v (List.mem_append_left _ hv)
    obtain ⟨hleft, hsent⟩ := visit_pops1_left u.now env place hscript hfollows
    rw [P2Follows, if_neg hnow]
    exact ⟨hleft, iff_of_false hsent fun hdue => hnow hdue.1⟩

/-- Every state of P3 reacts to `Shutdown`, and the last one starts nothing. -/
theorem visit_pops2_shutdown (now : ℕ) (env : View) (henv : env.p1 = .shutdown)
    (place : Place View P3State Command) (hscript : pops2.OnScript place) :
    (pops2.visit now env place).2.state = .pops2Shutdown ∧
      .pops2Start ∉ (pops2.visit now env place).1 := by
  have hleave (rs : List (Reaction View P3State)) (hr : pops2.reactions place.state =
      ⟨fun v => v.p1 = .shutdown,.pops2Shutdown⟩ :: rs) :
      (pops2.visit now env place).2.state = .pops2Shutdown ∧
        .pops2Start ∉ (pops2.visit now env place).1 := by
    rw [pops2.visit_first now env place _ rs hr (decide_eq_true henv)]
    exact ⟨rfl, List.not_mem_nil⟩
  cases hs : place.state with
  | pops2Init => exact hleave _ (by rw [hs]; rfl)
  | pops2Idle => exact hleave _ (by rw [hs]; rfl)
  | pops2Active => exact hleave _ (by rw [hs]; rfl)
  | pops2Shutdown =>
    obtain ⟨-, hsent, hnext⟩ := pops2.visit_spec now env place hscript
    rw [hs] at hsent hnext
    refine ⟨?_, fun h => by cases pops2Start_mem _ (hsent _ h)⟩
    rcases hnext with hsame | ⟨r, hr, -⟩ | hval
    · exact hsame
    · cases hr
    · simp [pops2] at hval

namespace Config

/-- Nothing has been started by an update after the one with `SWS_SHUTDOWN`. -/
def QuietAfterShutdown (h : List Update) (c : Config) : Prop :=
  (∃ v ∈ h.dropLast, v.shutdown = true) → .popsStart ∉ c.issued ∧ .pops2Start ∉ c.issued

/-- The invariant. -/
structure Flying (h : List Update) (c : Config) : Prop where
  onScript : c.OnScript
  p2Follows : P2Follows h c.p2
  shutdown : (∃ v ∈ h, v.shutdown = true) →
    c.p1.state = .shutdown ∧ c.p3.state = .pops2Shutdown

theorem start_flying (now : ℕ) : (start now).Flying [] := by
  refine ⟨start_onScript now, ?_, ?_⟩
  · rw [P2Follows, if_pos (fun v hv => absurd hv List.not_mem_nil)]
    exact ⟨rfl, Or.inl rfl⟩
  · rintro ⟨v, hv, -⟩
    exact absurd hv List.not_mem_nil

/-- The mainline starts neither instrument. -/
theorem visitP1_starts (c : Config) (u : Update) (h : c.OnScript) :
    .popsStart ∉ (c.visitP1 u).1 ∧ .pops2Start ∉ (c.visitP1 u).1 := by
  obtain ⟨-, hsent, -⟩ := mainline.visit_spec u.now
    ⟨u.tm,(if u.shutdown then mainline.enter u.now .shutdown else c.p1).state,c.p2.state,c.p3.state⟩
    _ (h.place u)
  have hscript (s : P1State) : .send .popsStart ∉ mainline.script s ∧
      .send .pops2Start ∉ mainline.script s := by
    cases s <;> simp [mainline]
  exact ⟨fun h => (hscript _).1 (hsent _ h), fun h => (hscript _).2 (hsent _ h)⟩

theorem visitP2_pops2Start (c : Config) (u : Update) (h : c.OnScript) :
    .pops2Start ∉ (c.visitP2 u).1 := by
  obtain ⟨-, hsent, -⟩ := pops1.visit_spec u.now
    ⟨u.tm,(c.visitP1 u).2.state,c.p2.state,c.p3.state⟩ _ h.p2
  intro hmem
  have hscript := hsent _ hmem
  cases hs : c.p2.state <;> rw [hs] at hscript <;> simp [pops1] at hscript

theorem visitP3_popsStart (c : Config) (u : Update) (h : c.OnScript) :
    .popsStart ∉ (c.visitP3 u).1 := by
  obtain ⟨-, hsent, -⟩ := pops2.visit_spec u.now
    ⟨u.tm,(c.visitP1 u).2.state,(c.visitP2 u).2.state,c.p3.state⟩ _ h.p3
  intro hmem
  have hscript := hsent _ hmem
  cases hs : c.p3.state <;> rw [hs] at hscript <;> simp [pops2] at hscript

/-- What one update does: P2 starts POPS when that is due, and once `Shutdown` is valid
nobody starts POPS2. -/
theorem step_flying (h : List Update) (c : Config) (u : Update) (hc : c.Flying h) :
    ∃ c', c.step u = some c' ∧ c'.Flying (h ++ [u]) ∧ (.popsStart ∈ c'.issued ↔ StartDue h u) ∧
      ((∃ v ∈ h ++ [u], v.shutdown = true) → .pops2Start ∉ c'.issued) := by
  obtain ⟨hp2, hstart⟩ := visit_pops1_follows h u
    ⟨u.tm,(c.visitP1 u).2.state,c.p2.state,c.p3.state⟩ rfl c.p2 hc.onScript.p2 hc.p2Follows
  have hshut (hv : ∃ v ∈ h ++ [u], v.shutdown = true) :
      (c.visitP1 u).2.state = .shutdown ∧ (c.visitP3 u).2.state = .pops2Shutdown ∧
        .pops2Start ∉ (c.visitP3 u).1 := by
    have hp1 : (c.visitP1 u).2.state = .shutdown := by
      refine c.visitP1_shutdown u hc.onScript ?_
      obtain ⟨v, hv, hshut⟩ := hv
      rcases List.mem_append.mp hv with hv | hv
      · exact Or.inr (hc.shutdown ⟨v, hv, hshut⟩).1
      · obtain rfl := List.mem_singleton.mp hv
        exact Or.inl hshut
    exact ⟨hp1, visit_pops2_shutdown u.now _ hp1 c.p3 hc.onScript.p3⟩
  refine ⟨_, rfl, ⟨hc.onScript.step rfl, hp2, fun hv => ⟨(hshut hv).1, (hshut hv).2.1⟩⟩, ?_, ?_⟩
  · rw [List.mem_append, List.mem_append, or_iff_left (c.visitP3_popsStart u hc.onScript),
      or_iff_right (c.visitP1_starts u hc.onScript).1]
    exact hstart
  · intro hv hmem
    rw [List.mem_append, List.mem_append] at hmem
    rcases hmem with (hmem | hmem) | hmem
    · exact (c.visitP1_starts u hc.onScript).2 hmem
    · exact c.visitP2_pops2Start u hc.onScript hmem
    · exact (hshut hv).2.2 hmem

/-- Nothing is started after `Shutdown` if and only if no update after `Shutdown` is the
one at which the wait of `POPS1_Init` is over, with POPS_srvr never 2 so far. -/
theorem quiet_after_shutdown_iff (now : ℕ) (us : List Update) :
    Run.Throughout step QuietAfterShutdown (start now) us ↔
      ∀ h u, h ++ [u] <+: us → (∃ v ∈ h, v.shutdown = true) → ¬StartDue h u := by
  refine Run.throughout_iff_events step (fun _ _ => True)
    (fun h u => (∃ v ∈ h, v.shutdown = true) → ¬StartDue h u)
    (fun h c => c.Flying h ∧ c.QuietAfterShutdown h) QuietAfterShutdown (fun _ _ h => h.2)
    ?_ ?_ (start now) us ?_ (Run.along_true _ _ us)
  · intro h c u hc _ hgood
    obtain ⟨c', hc', hfly, hstart, hno⟩ := step_flying h c u hc.1
    refine ⟨c', hc', hfly, ?_⟩
    intro hv
    rw [List.dropLast_concat] at hv
    obtain ⟨v, hmem, hshut⟩ := hv
    exact ⟨fun hs => hgood ⟨v, hmem, hshut⟩ (hstart.mp hs),
      hno ⟨v, List.mem_append_left _ hmem, hshut⟩⟩
  · intro h c u c' hc _ hbad hc' hquiet
    obtain ⟨t, ht, -, hstart, -⟩ := step_flying h c u hc.1
    obtain rfl := Option.some.inj (ht.symm.trans hc')
    refine hbad fun hv hdue => ?_
    have hlast : (h ++ [u]).dropLast = h := List.dropLast_concat
    exact (hquiet (by rwa [hlast])).1 (hstart.mpr hdue)
  · refine ⟨start_flying now, ?_⟩
    rintro ⟨v, hv, -⟩
    exact absurd hv List.not_mem_nil

/-- POPS_srvr is 1 from the start, and `SWS_SHUTDOWN` comes within the 4 s. -/
def shutdownInWait : List Update :=
  [⟨0,⟨1,1,1000⟩,false⟩,⟨2,⟨1,1,1000⟩,true⟩,⟨4,⟨1,1,1000⟩,false⟩]

theorem started_after_shutdown :
    ¬Run.Throughout step QuietAfterShutdown (start 0) shutdownInWait := by
  intro hall
  obtain ⟨c, hc, hquiet⟩ := hall shutdownInWait List.prefix_rfl
  obtain rfl := Option.some.inj hc
  exact (hquiet ⟨⟨2,⟨1,1,1000⟩,true⟩, by simp [shutdownInWait], rfl⟩).1 (by decide)

end Config
end Cosmid.Algorithm
