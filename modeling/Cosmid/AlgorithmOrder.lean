import Cosmid.AlgorithmShutdown
import Cosmid.TmaOrder

/-! The order in which the flight algorithm commands the instruments, over whole runs. -/
namespace Cosmid.Algorithm

open Tma

def pops1Order : List P2State := [.pops1Init,.pops1Active,.pops1Shutdown]
def pops2Order : List P3State := [.pops2Init,.pops2Idle,.pops2Active,.pops2Shutdown]

theorem pops1_forward : pops1.Forward pops1Order := by
  refine Partition.forward_of_drop (by decide) fun s t hedge => ?_
  rcases hedge with ⟨r, hr, rfl⟩ | hval
  · cases s <;> simp only [pops1, List.mem_singleton, List.not_mem_nil] at hr
    · rw [hr]
      decide
    · rw [hr]
      decide
  · cases s <;> simp [pops1] at hval

theorem pops2_forward : pops2.Forward pops2Order := by
  refine Partition.forward_of_drop (by decide) fun s t hedge => ?_
  rcases hedge with ⟨r, hr, rfl⟩ | hval
  · cases s <;>
      simp only [pops2, List.mem_cons, List.not_mem_nil, or_false] at hr
    · rcases hr with rfl | rfl <;> decide
    · rcases hr with rfl | rfl <;> decide
    · rw [hr]
      decide
  · cases s <;> simp [pops2] at hval
    · rw [hval]
      decide
    · rw [hval]
      decide

/-- The commands of the POPS(1) partition, and those of the POPS2 partition. -/
def isPops1 : Command → Bool
  | .algoP2 _ | .popsStart | .popsShutdown => true
  | _ => false

def isPops2 : Command → Bool
  | .algoP3 _ | .pops2Start | .pops2Shutdown => true
  | _ => false

theorem mainline_commands (s : P1State) (cmd : Command) (h : .send cmd ∈ mainline.script s) :
    isPops1 cmd = false ∧ isPops2 cmd = false := by
  cases s <;> simp [mainline] at h <;> grind [isPops1, isPops2]

theorem pops1_commands (s : P2State) (cmd : Command) (h : .send cmd ∈ pops1.script s) :
    isPops1 cmd = true ∧ isPops2 cmd = false := by
  cases s <;> simp [pops1] at h <;> grind [isPops1, isPops2]

theorem pops2_commands (s : P3State) (cmd : Command) (h : .send cmd ∈ pops2.script s) :
    isPops1 cmd = false ∧ isPops2 cmd = true := by
  cases s <;> simp [pops2] at h <;> grind [isPops1, isPops2]

/-- Of what a partition sends `p` keeps all or nothing. -/
theorem filter_visit_true {σ : Type} {P : Partition View σ Command} {p : Command → Bool}
    (hP : ∀ s cmd, .send cmd ∈ P.script s → p cmd = true) (now : ℕ) (env : View)
    {place : Place View σ Command} (h : P.OnScript place) :
    (P.visit now env place).1.filter p = (P.visit now env place).1 := by
  obtain ⟨-, hsent, -⟩ := P.visit_spec now env place h
  rw [List.filter_eq_self]
  exact fun cmd hcmd => hP _ cmd (hsent cmd hcmd)

theorem filter_visit_false {σ : Type} {P : Partition View σ Command} {p : Command → Bool}
    (hP : ∀ s cmd, .send cmd ∈ P.script s → p cmd = false) (now : ℕ) (env : View)
    {place : Place View σ Command} (h : P.OnScript place) :
    (P.visit now env place).1.filter p = [] := by
  obtain ⟨-, hsent, -⟩ := P.visit_spec now env place h
  rw [List.filter_eq_nil_iff]
  intro cmd hcmd htrue
  rw [hP _ cmd (hsent cmd hcmd)] at htrue
  cases htrue

/-- The updates `h` have come to `v` with POPS_srvr at 2, 5 s or more have passed since then,
and then to `w` with the pressure below 750. -/
def Pumped (h : List Update) (v w : Update) : Prop :=
  ∃ h1 h2 h3, h = h1 ++ v :: h2 ++ w :: h3 ∧ v.tm.popsSrvr = 2 ∧
    (∃ x ∈ h2 ++ [w], v.now+5 ≤ x.now) ∧ w.tm.popsPMbar < 750

/-- What is left of the script of `POPS2_Idle` behind its first `k` statements. -/
def idleRest (k : ℕ) : List (Stmt View P3State Command) := (pops2.script .pops2Idle).drop k

/-- Where P3 is in this script, and what the updates so far have shown. -/
inductive Idle (h : List Update) : List (Stmt View P3State Command) → ℕ → Prop
  | holding (k : ℕ) (hk : k ≤ 1) (since : ℕ) : Idle h (idleRest k) since
  | active (h1 h2 : List Update) (v : Update) (hsplit : h = h1 ++ v :: h2)
    (htwo : v.tm.popsSrvr = 2) : Idle h (idleRest 2) v.now
  | waited (h1 h2 : List Update) (v : Update) (hsplit : h = h1 ++ v :: h2)
    (htwo : v.tm.popsSrvr = 2) (hpast : ∃ x ∈ h2, v.now+5 ≤ x.now) (since : ℕ) :
    Idle h (idleRest 3) since
  | pumped (v w : Update) (hpumped : Pumped h v w) : Idle h (idleRest 4) w.now
  | started (since : ℕ) : Idle h (idleRest 6) since

/-- The hold for POPS_srvr at 2. -/
theorem idle_holding (h : List Update) (u : Update) (env : View) (henv : env.tm = u.tm) (k : ℕ)
    (hk : k ≤ 1) (since : ℕ) :
    ∃ cmds rest t, runScript u.now env (idleRest k) since = (cmds, .inl (rest, t)) ∧
      Idle (h ++ [u]) rest t ∧ .pops2Start ∉ cmds := by
  have hhold : ∃ rest t, runScript u.now env (idleRest 1) since = ([], .inl (rest, t)) ∧
      Idle (h ++ [u]) rest t := by
    by_cases htwo : env.tm.popsSrvr = 2
    · refine ⟨_, _, ?_, .active h [] u rfl (by rw [← henv]; exact htwo)⟩
      exact (runScript_hold u.now env _ none _ since (decide_eq_true htwo)).trans
        (runScript_wait_more u.now env 5 _ u.now (by omega))
    · exact ⟨_, _, runScript_hold_false u.now env _ _ since (decide_eq_false htwo),
        .holding 1 (Nat.le_refl 1) since⟩
  obtain ⟨rest, t, hrun, hidle⟩ := hhold
  match k with
  | 0 =>
    refine ⟨[.algoP3 .pops2Idle], rest, t, ?_, hidle, by decide⟩
    exact congrArg (fun r => (Command.algoP3 .pops2Idle :: r.1, r.2)) hrun
  | 1 => exact ⟨[], rest, t, hrun, hidle, List.not_mem_nil⟩

/-- The hold for the pressure. -/
theorem idle_waited (h h1 h2 : List Update) (u v : Update) (env : View) (henv : env.tm = u.tm)
    (hsplit : h = h1 ++ v :: h2) (htwo : v.tm.popsSrvr = 2)
    (hpast : ∃ x ∈ h2 ++ [u], v.now+5 ≤ x.now) (since : ℕ) :
    ∃ rest t, runScript u.now env (idleRest 3) since = ([], .inl (rest, t)) ∧
      Idle (h ++ [u]) rest t := by
  by_cases hlow : env.tm.popsPMbar < 750
  · refine ⟨_, _, ?_, .pumped v u ⟨h1, h2, [], ?_, htwo, hpast, by rw [← henv]; exact hlow⟩⟩
    · exact (runScript_hold u.now env _ none _ since (decide_eq_true hlow)).trans
        (runScript_wait_more u.now env 1 _ u.now (by omega))
    · rw [hsplit]
  · refine ⟨_, _, runScript_hold_false u.now env _ _ since (decide_eq_false hlow),
      .waited h1 (h2 ++ [u]) v ?_ htwo hpast since⟩
    rw [hsplit, List.append_assoc]
    rfl

/-- An update that finds P3 in `POPS2_Idle`, with POPS2_srvr not 2. -/
theorem idle_runScript (h : List Update) (u : Update) (env : View) (henv : env.tm = u.tm)
    (hnot : env.tm.pops2Srvr ≠ 2) (rest : List (Stmt View P3State Command)) (since : ℕ)
    (hidle : Idle h rest since) :
    ∃ cmds rest' t, runScript u.now env rest since = (cmds, .inl (rest', t)) ∧
      Idle (h ++ [u]) rest' t ∧
      (.pops2Start ∈ cmds → ∃ v w, Pumped h v w ∧ w.now+1 ≤ u.now) := by
  have hlast (t : ℕ) : runScript u.now env (idleRest 6) t = ([], .inl (idleRest 6, t)) :=
    runScript_hold_false u.now env _ _ t (decide_eq_false hnot)
  cases hidle with
  | holding k hk since =>
    obtain ⟨cmds, rest', t, hrun, hidle', hno⟩ := idle_holding h u env henv k hk since
    exact ⟨cmds, rest', t, hrun, hidle', fun hmem => absurd hmem hno⟩
  | active h1 h2 v hsplit htwo =>
    by_cases hover : v.now+5 ≤ u.now
    · obtain ⟨rest', t, hrun, hidle'⟩ := idle_waited h h1 h2 u v env henv hsplit htwo
        ⟨u, by simp, hover⟩ (v.now+5)
      exact ⟨[], rest', t, (runScript_wait u.now env 5 _ v.now hover).trans hrun, hidle',
        fun hmem => by cases hmem⟩
    · refine ⟨[], _, _, runScript_wait_more u.now env 5 _ v.now hover,
        .active h1 (h2 ++ [u]) v ?_ htwo, fun hmem => by cases hmem⟩
      rw [hsplit, List.append_assoc]
      rfl
  | waited h1 h2 v hsplit htwo hpast =>
    obtain ⟨x, hx, hpast⟩ := hpast
    obtain ⟨rest', t, hrun, hidle'⟩ := idle_waited h h1 h2 u v env henv hsplit htwo
      ⟨x, List.mem_append_left _ hx, hpast⟩ since
    exact ⟨[], rest', t, hrun, hidle', fun hmem => by cases hmem⟩
  | pumped v w hpumped =>
    by_cases hover : w.now+1 ≤ u.now
    · refine ⟨[.pops2Start], idleRest 6, w.now+1, ?_, .started _, fun _ => ⟨v, w, hpumped, hover⟩⟩
      refine (runScript_wait u.now env 1 _ w.now hover).trans ?_
      exact congrArg (fun r => (Command.pops2Start :: r.1, r.2)) (hlast (w.now+1))
    · refine ⟨[], _, _, runScript_wait_more u.now env 1 _ w.now hover, .pumped v w ?_,
        fun hmem => by cases hmem⟩
      obtain ⟨h1, h2, h3, hsplit, hrest⟩ := hpumped
      refine ⟨h1, h2, h3 ++ [u], ?_, hrest⟩
      rw [hsplit, List.append_assoc, List.append_assoc, List.append_assoc]
      rfl
  | started since =>
    exact ⟨[], _, _, hlast since, .started since, fun hmem => by cases hmem⟩

/-- In `POPS2_Idle` P3 is in the script as the updates so far say. -/
def P3Follows (h : List Update) (place : Place View P3State Command) : Prop :=
  place.state = .pops2Idle → Idle h place.rest place.since

/-- Only the script of `POPS2_Idle`, without a reaction, starts POPS2. -/
theorem visit_pops2_follows (h : List Update) (u : Update) (env : View) (henv : env.tm = u.tm)
    (place : Place View P3State Command) (hscript : pops2.OnScript place)
    (hfollows : P3Follows h place) :
    P3Follows (h ++ [u]) (pops2.visit u.now env place).2 ∧
      (.pops2Start ∈ (pops2.visit u.now env place).1 →
        u.tm.pops2Srvr ≠ 2 ∧ ∃ v w, Pumped h v w ∧ w.now+1 ≤ u.now) := by
  have henter (s : P3State) : P3Follows (h ++ [u]) (pops2.enter u.now s) := by
    rintro rfl
    exact .holding 0 (Nat.zero_le 1) u.now
  by_cases hstate : place.state = .pops2Idle
  · unfold Partition.visit
    split
    · exact ⟨henter _, fun hmem => by cases hmem⟩
    · rename_i hnone
      have hnot : env.tm.pops2Srvr ≠ 2 := by
        intro htwo
        rw [hstate, List.find?_eq_none] at hnone
        exact hnone ⟨fun v => v.tm.pops2Srvr = 2,.pops2Active⟩ (by simp [pops2])
          (decide_eq_true htwo)
      obtain ⟨cmds, rest', t, hrun, hidle, hdue⟩ :=
        idle_runScript h u env henv hnot _ _ (hfollows hstate)
      rw [hrun]
      refine ⟨fun _ => hidle, fun hmem => ⟨?_, hdue hmem⟩⟩
      rw [← henv]
      exact hnot
  · obtain ⟨-, hsent, hnext⟩ := pops2.visit_spec u.now env place hscript
    refine ⟨?_, fun hmem => absurd (pops2Start_mem _ (hsent _ hmem)) hstate⟩
    -- `POPS2_Idle` is reached by its script's beginning only.
    intro hidle
    unfold Partition.visit at hidle ⊢
    split at hidle
    · exact henter _ hidle
    · unfold Partition.stopped at hidle ⊢
      split at hidle
      · exact absurd hidle hstate
      · exact henter _ hidle

namespace Config

/-- The commands of a run, in order. -/
def commanded (c : Config) : List Update → List Command
  | [] => []
  | u :: us => (c.step u).elim [] fun c' => c'.issued ++ commanded c' us

/-- The partitions have sent `sent1` and `sent2`. -/
structure Ordered (sent1 sent2 : List Command) (c : Config) : Prop where
  onScript : c.OnScript
  pops1 : Algorithm.pops1.Spent pops1Order sent1 c.p2
  pops2 : Algorithm.pops2.Spent pops2Order sent2 c.p3

theorem start_ordered (now : ℕ) : (start now).Ordered [] [] :=
  ⟨start_onScript now, Partition.spent_enter now _ _ rfl, Partition.spent_enter now _ _ rfl⟩

/-- An update adds the commands that it issues. -/
theorem step_ordered {sent1 sent2 : List Command} {c : Config} (h : c.Ordered sent1 sent2)
    (u : Update) : ∃ c', c.step u = some c' ∧
      c'.Ordered (sent1 ++ c'.issued.filter isPops1) (sent2 ++ c'.issued.filter isPops2) := by
  refine ⟨_, rfl, h.onScript.step rfl, ?_, ?_⟩
  · rw [List.filter_append, List.filter_append, visitP1, visitP3,
      filter_visit_false (fun s cmd hc => (mainline_commands s cmd hc).1) _ _ (h.onScript.place u),
      filter_visit_false (fun s cmd hc => (pops2_commands s cmd hc).1) _ _ h.onScript.p3,
      visitP2, filter_visit_true (fun s cmd hc => (pops1_commands s cmd hc).1) _ _ h.onScript.p2,
      List.nil_append, List.append_nil]
    exact h.pops1.visit pops1_forward h.onScript.p2 u.now _
  · rw [List.filter_append, List.filter_append, visitP1, visitP2,
      filter_visit_false (fun s cmd hc => (mainline_commands s cmd hc).2) _ _ (h.onScript.place u),
      filter_visit_false (fun s cmd hc => (pops1_commands s cmd hc).2) _ _ h.onScript.p2,
      visitP3, filter_visit_true (fun s cmd hc => (pops2_commands s cmd hc).2) _ _ h.onScript.p3,
      List.nil_append, List.nil_append]
    exact h.pops2.visit pops2_forward h.onScript.p3 u.now _

theorem commanded_ordered {sent1 sent2 : List Command} {c : Config} (h : c.Ordered sent1 sent2)
    (us : List Update) : ∃ c', Run.run step c us = some c' ∧
      c'.Ordered (sent1 ++ (c.commanded us).filter isPops1)
        (sent2 ++ (c.commanded us).filter isPops2) := by
  induction us generalizing sent1 sent2 c with
  | nil =>
    refine ⟨c, rfl, ?_⟩
    rw [commanded, List.filter_nil, List.filter_nil, List.append_nil, List.append_nil]
    exact h
  | cons u us ih =>
    obtain ⟨c', hc', hord⟩ := step_ordered h u
    obtain ⟨c'', hc'', hord'⟩ := ih hord
    refine ⟨c'', (Run.run_cons_of_step step hc' us).trans hc'', ?_⟩
    rw [commanded, hc', Option.elim_some, List.filter_append, List.filter_append,
      ← List.append_assoc, ← List.append_assoc]
    exact hord'

/-- Whatever the telemetry says and whenever it comes, every instrument gets each of its commands
at most once, and in order: it is not started again after its shutdown. -/
theorem instruments_in_order (now : ℕ) (us : List Update) :
    (((start now).commanded us).filter isPops1).Sublist
      [.algoP2 .pops1Init, .popsStart, .algoP2 .pops1Active, .algoP2 .pops1Shutdown,
        .popsShutdown] ∧
    (((start now).commanded us).filter isPops2).Sublist
      [.algoP3 .pops2Init, .algoP3 .pops2Idle, .pops2Start, .algoP3 .pops2Active,
        .algoP3 .pops2Shutdown, .pops2Shutdown] := by
  obtain ⟨c, -, h⟩ := commanded_ordered (start_ordered now) us
  exact ⟨h.pops1.sublist, h.pops2.sublist⟩

/-- The invariant for P3. -/
structure Following (h : List Update) (c : Config) : Prop where
  flying : c.Flying h
  p3Follows : P3Follows h c.p3

/-- POPS2 is started only after POPS(1) has been seen active, then the pressure below 750 from 5 s
on, and 1 s more; never once `SWS_SHUTDOWN` has come, and not when it is active already. -/
theorem pops2_started_after (now : ℕ) (h : List Update) (u : Update) (c : Config)
    (hc : Run.run step (start now) (h ++ [u]) = some c) (hstart : .pops2Start ∈ c.issued) :
    (∃ v w, Pumped h v w ∧ w.now+1 ≤ u.now) ∧ u.tm.pops2Srvr ≠ 2 ∧
      ∀ v ∈ h ++ [u], v.shutdown = false := by
  have hstep (h : List Update) (c : Config) (u : Update) (hc : c.Following h) :
      ∃ c', c.step u = some c' ∧ c'.Following (h ++ [u]) := by
    obtain ⟨c', hc', hfly, -⟩ := step_flying h c u hc.flying
    refine ⟨c', hc', hfly, ?_⟩
    obtain rfl := Option.some.inj hc'
    exact (visit_pops2_follows h u _ rfl c.p3 hc.flying.onScript.p3 hc.p3Follows).1
  obtain ⟨d, hd, hfollow⟩ := Run.run_history step (fun _ _ => True) (fun h c => c.Following h)
    (fun h c u hc _ => hstep h c u hc) [] (start now) h
    ⟨start_flying now, fun hidle => by cases hidle⟩ (Run.along_true step _ h)
  rw [List.nil_append] at hfollow
  rw [Run.run_concat step hd] at hc
  obtain ⟨c', hc', -, -, hno⟩ := step_flying h d u hfollow.flying
  obtain rfl := Option.some.inj (hc'.symm.trans hc)
  have hmem : .pops2Start ∈ (d.visitP3 u).1 := by
    obtain rfl := Option.some.inj hc
    rw [List.mem_append, List.mem_append] at hstart
    rcases hstart with (hmem | hmem) | hmem
    · exact absurd hmem (d.visitP1_starts u hfollow.flying.onScript).2
    · exact absurd hmem (d.visitP2_pops2Start u hfollow.flying.onScript)
    · exact hmem
  obtain ⟨htwo, hdue⟩ := (visit_pops2_follows h u ⟨u.tm,_,_,_⟩ rfl d.p3
    hfollow.flying.onScript.p3 hfollow.p3Follows).2 hmem
  refine ⟨hdue, htwo, fun v hv => ?_⟩
  by_contra hshut
  exact hno ⟨v, hv, by simpa using hshut⟩ hstart

/-- POPS(1) comes up idle, is active, and the pressure falls. -/
theorem pops2_started_after_seven : ∃ c : Config,
    .pops2Start ∈ c.issued ∧
    ∃ v w, Pumped [⟨0,⟨1,1,1000⟩,false⟩,⟨1,⟨2,1,1000⟩,false⟩,⟨6,⟨2,1,700⟩,false⟩] v w ∧
      w.now+1 ≤ 7 := by
  have hrun : ∃ c, Run.run step (start 0)
      ([⟨0,⟨1,1,1000⟩,false⟩,⟨1,⟨2,1,1000⟩,false⟩,⟨6,⟨2,1,700⟩,false⟩] ++ [⟨7,⟨2,1,700⟩,false⟩]) =
        some c ∧ .pops2Start ∈ c.issued := ⟨_, rfl, by decide⟩
  obtain ⟨c, hc, hstart⟩ := hrun
  exact ⟨c, hstart, (pops2_started_after 0 _ _ c hc hstart).1⟩

end Config
end Cosmid.Algorithm
