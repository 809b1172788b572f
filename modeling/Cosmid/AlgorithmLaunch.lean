import Cosmid.CosmidAlgorithm

/-! Before the launch: P3 waits in `POPS2_Init` for POPS_srvr to be 1, and P1 waits in
`Init` for P2 in `POPS1_Active` and P3 in `POPS2_Idle`. When POPS_srvr is 2 from the
start, or POPS2_srvr is 2 too early, P1 does not go on. -/
namespace Cosmid.Algorithm

open Tma

/-- The conditions of the holds before the launch. -/
def initHold (v : View) : Bool := v.p2 = .pops1Active ∧ v.p3 = .pops2Idle
def pops2InitHold (v : View) : Bool := v.tm.popsSrvr = 1
def pops2IdleHold (v : View) : Bool := v.tm.pops2Srvr = 2

/-- P1 in `Init`, before the end of the hold. -/
def InInit (place : Place View P1State Command) : Prop :=
  place.state = .init ∧ Partition.Awaits place initHold .launchHold

/-- P3 in `POPS2_Init`, before the end of the hold. -/
def InPops2Init (place : Place View P3State Command) : Prop :=
  place.state = .pops2Init ∧ Partition.Awaits place pops2InitHold .pops2Idle

/-- P3 in `POPS2_Idle`, before the end of the last hold. -/
def InPops2Idle (place : Place View P3State Command) : Prop :=
  place.state = .pops2Idle ∧ Partition.Barred place pops2IdleHold

theorem enter_init (now : ℕ) : InInit (mainline.enter now .init) :=
  ⟨rfl,[.algoP1 .init, .telemetryStart],rfl⟩

theorem enter_pops2Init (now : ℕ) : InPops2Init (pops2.enter now .pops2Init) :=
  ⟨rfl,[.algoP3 .pops2Init],rfl⟩

theorem enter_pops2Idle (now : ℕ) : InPops2Idle (pops2.enter now .pops2Idle) := by
  refine ⟨rfl, [.send (.algoP3 .pops2Idle), .hold (fun v => v.tm.popsSrvr = 2) none, .wait 5,
    .hold (fun v => v.tm.popsPMbar < 750) none, .wait 1, .send .pops2Start],
    [.validate .pops2Active], ?_, rfl⟩
  intro target h
  simp at h

/-- P1 goes on exactly when it sees P2 in `POPS1_Active` and P3 in `POPS2_Idle`. -/
theorem visit_mainline_init (now : ℕ) (env : View) (place : Place View P1State Command)
    (h : InInit place) :
    (¬(env.p2 = .pops1Active ∧ env.p3 = .pops2Idle) → InInit (mainline.visit now env place).2) ∧
    (env.p2 = .pops1Active → env.p3 = .pops2Idle →
      (mainline.visit now env place).2 = mainline.enter now .launchHold) := by
  obtain ⟨hstays, hgoes⟩ := mainline.visit_awaits now env place initHold .launchHold h.2
    (fun r hr => absurd hr List.not_mem_nil)
  refine ⟨fun hno => ?_, fun hp2 hp3 => hgoes (decide_eq_true ⟨hp2, hp3⟩)⟩
  obtain ⟨hstate, hwait⟩ := hstays (decide_eq_false hno)
  exact ⟨hstate.trans h.1, hwait⟩

/-- No script of P1 goes to `Init` or to `Shutdown`. -/
theorem validate_mainline (s target : P1State) (h : .validate target ∈ mainline.script s) :
    target ≠ .init ∧ target ≠ .shutdown := by
  cases s <;> simp [mainline] at h <;> rw [h] <;> decide

/-- P1 does not come back to `Init`, and without `SWS_SHUTDOWN` not to `Shutdown`. -/
theorem visit_mainline_left (now : ℕ) (env : View) (place : Place View P1State Command)
    (hscript : mainline.OnScript place) (hshut : place.state ≠ .shutdown) :
    (mainline.visit now env place).2.state ≠ .shutdown ∧
    (place.state ≠ .init → (mainline.visit now env place).2.state ≠ .init) := by
  obtain ⟨-, -, hnext⟩ := mainline.visit_spec now env place hscript
  rcases hnext with hsame | ⟨r, hr, -⟩ | hval
  · rw [hsame]
    exact ⟨hshut, id⟩
  · cases hr
  · obtain ⟨hinit, hdown⟩ := validate_mainline place.state _ hval
    exact ⟨hdown, fun _ => hinit⟩

/-- Without `Shutdown` P2 goes to `POPS1_Active` at POPS_srvr 2, and stays there. -/
theorem visit_pops1_state (now : ℕ) (env : View) (place : Place View P2State Command)
    (hscript : pops1.OnScript place) (hshut : env.p1 ≠ .shutdown) :
    (place.state = .pops1Active → (pops1.visit now env place).2.state = .pops1Active) ∧
    (place.state = .pops1Init → env.tm.popsSrvr = 2 →
      (pops1.visit now env place).2.state = .pops1Active) ∧
    (place.state = .pops1Init → env.tm.popsSrvr ≠ 2 →
      (pops1.visit now env place).2.state = .pops1Init) := by
  obtain ⟨-, -, hnext⟩ := pops1.visit_spec now env place hscript
  refine ⟨fun hstate => ?_, fun hstate htwo => ?_, fun hstate htwo => ?_⟩
  · rw [hstate] at hnext
    rcases hnext with hsame | ⟨r, hr, hwhen, -⟩ | hval
    · exact hsame
    · obtain rfl := List.mem_singleton.mp hr
      exact absurd (of_decide_eq_true hwhen) hshut
    · simp [pops1] at hval
  · rw [visit_pops1_active now env place hstate htwo]
    rfl
  · rw [hstate] at hnext
    rcases hnext with hsame | ⟨r, hr, hwhen, -⟩ | hval
    · exact hsame
    · obtain rfl := List.mem_singleton.mp hr
      exact absurd (of_decide_eq_true hwhen) htwo
    · simp [pops1] at hval

/-- Without `Shutdown`, and with POPS2_srvr not 2, P3 has no reaction before the launch. -/
theorem pops2_quiet (env : View) (hshut : env.p1 ≠ .shutdown) (htwo : env.tm.pops2Srvr ≠ 2)
    (s : P3State) (hs : s = .pops2Init ∨ s = .pops2Idle) :
    ∀ r ∈ pops2.reactions s, r.when env = false := by
  intro r hr
  rcases hs with rfl | rfl
  all_goals
    simp only [pops2, List.mem_cons, List.not_mem_nil, or_false] at hr
    rcases hr with rfl | rfl
    · exact decide_eq_false hshut
    · exact decide_eq_false htwo

/-- With POPS2_srvr at 2 P3 goes to `POPS2_Active`, whatever it waits for. -/
theorem visit_pops2_two (now : ℕ) (env : View) (place : Place View P3State Command)
    (hshut : env.p1 ≠ .shutdown) (htwo : env.tm.pops2Srvr = 2)
    (hs : place.state = .pops2Init ∨ place.state = .pops2Idle) :
    pops2.visit now env place = ([], pops2.enter now .pops2Active) := by
  have hreactions : pops2.reactions place.state = [⟨fun v => v.p1 = .shutdown,.pops2Shutdown⟩,
      ⟨fun v => v.tm.pops2Srvr = 2,.pops2Active⟩] := by
    rcases hs with hs | hs <;> rw [hs] <;> rfl
  have hfind : (pops2.reactions place.state).find? (fun r => r.when env) =
      some ⟨fun v => v.tm.pops2Srvr = 2,.pops2Active⟩ := by
    rw [hreactions, List.find?_cons_of_neg (by simpa using hshut),
      List.find?_cons_of_pos (by simpa using htwo)]
  rw [Partition.visit, hfind]

/-- Without `Shutdown` P3 stays in `POPS2_Active`. -/
theorem visit_pops2_active (now : ℕ) (env : View) (place : Place View P3State Command)
    (hscript : pops2.OnScript place) (hshut : env.p1 ≠ .shutdown)
    (hstate : place.state = .pops2Active) :
    (pops2.visit now env place).2.state = .pops2Active := by
  obtain ⟨-, -, hnext⟩ := pops2.visit_spec now env place hscript
  rw [hstate] at hnext
  rcases hnext with hsame | ⟨r, hr, hwhen, -⟩ | hval
  · exact hsame
  · obtain rfl := List.mem_singleton.mp hr
    exact absurd (of_decide_eq_true hwhen) hshut
  · simp [pops2] at hval

/-- With POPS2_srvr not at 2 P3 leaves `POPS2_Init` for `POPS2_Idle` at POPS_srvr 1. -/
theorem visit_pops2_init (now : ℕ) (env : View) (place : Place View P3State Command)
    (h : InPops2Init place) (hshut : env.p1 ≠ .shutdown) (htwo : env.tm.pops2Srvr ≠ 2) :
    (env.tm.popsSrvr ≠ 1 → InPops2Init (pops2.visit now env place).2) ∧
    (env.tm.popsSrvr = 1 → InPops2Idle (pops2.visit now env place).2) := by
  obtain ⟨hstays, hgoes⟩ := pops2.visit_awaits now env place pops2InitHold .pops2Idle h.2
    (pops2_quiet env hshut htwo place.state (Or.inl h.1))
  constructor
  · intro hone
    obtain ⟨hstate, hwait⟩ := hstays (decide_eq_false hone)
    exact ⟨hstate.trans h.1, hwait⟩
  · intro hone
    rw [hgoes (decide_eq_true hone)]
    exact enter_pops2Idle now

/-- With POPS2_srvr not at 2 P3 stays in `POPS2_Idle`. -/
theorem visit_pops2_idle (now : ℕ) (env : View) (place : Place View P3State Command)
    (h : InPops2Idle place) (hshut : env.p1 ≠ .shutdown) (htwo : env.tm.pops2Srvr ≠ 2) :
    InPops2Idle (pops2.visit now env place).2 := by
  obtain ⟨hstate, hbar⟩ := pops2.visit_barred now env place pops2IdleHold h.2
    (pops2_quiet env hshut htwo place.state (Or.inr h.1)) (decide_eq_false htwo)
  exact ⟨hstate.trans h.1, hbar⟩

namespace Config

/-- POPS_srvr has been `n`, and POPS2_srvr has been `n`. -/
def Pops (n : ℕ) (h : List Update) : Prop := ∃ v ∈ h, v.tm.popsSrvr = n
def Pops2 (n : ℕ) (h : List Update) : Prop := ∃ v ∈ h, v.tm.pops2Srvr = n

theorem not_pops_nil (n : ℕ) : ¬Pops n [] := fun ⟨_, hv, _⟩ => List.not_mem_nil hv
theorem not_pops2_nil (n : ℕ) : ¬Pops2 n [] := fun ⟨_, hv, _⟩ => List.not_mem_nil hv

theorem pops_append (n : ℕ) (g h : List Update) : Pops n (g ++ h) ↔ Pops n g ∨ Pops n h := by
  simp only [Pops, List.mem_append, or_and_right, exists_or]

theorem pops2_append (n : ℕ) (g h : List Update) : Pops2 n (g ++ h) ↔ Pops2 n g ∨ Pops2 n h := by
  simp only [Pops2, List.mem_append, or_and_right, exists_or]

theorem pops_singleton (n : ℕ) (u : Update) : Pops n [u] ↔ u.tm.popsSrvr = n := by
  simp only [Pops, List.mem_singleton, exists_eq_left]

theorem pops2_singleton (n : ℕ) (u : Update) : Pops2 n [u] ↔ u.tm.pops2Srvr = n := by
  simp only [Pops2, List.mem_singleton, exists_eq_left]

/-- POPS has been idle and active, all of it while POPS2 was not active yet. -/
def Ready (h : List Update) : Prop := ∃ g, g <+: h ∧ Pops 1 g ∧ Pops 2 g ∧ ¬Pops2 2 g

theorem Ready.mono {g h : List Update} (hg : Ready g) (hpre : g <+: h) : Ready h := by
  obtain ⟨f, hf, hseen⟩ := hg
  exact ⟨f, hf.trans hpre, hseen⟩

theorem Ready.pops {h : List Update} (hready : Ready h) : Pops 1 h := by
  obtain ⟨g, hg, ⟨v, hv, hone⟩, -⟩ := hready
  exact ⟨v, hg.subset hv, hone⟩

/-- When POPS has been active, updates in which it is not idle do not make it ready. -/
theorem Ready.of_append {h us : List Update} (hready : Ready (h ++ us)) (htwo : Pops 2 h)
    (hone : ¬Pops 1 us) : Ready h := by
  obtain ⟨g, hg, h1, h2, hnot⟩ := hready
  -- The time up to which all has been seen is in `h`, or in the updates behind it.
  rcases List.prefix_or_prefix_of_prefix hg (List.prefix_append h us) with hpre | ⟨w, rfl⟩
  · exact ⟨g, hpre, h1, h2, hnot⟩
  · have hw : w <+: us := (List.prefix_append_right_inj h).mp hg
    obtain ⟨v, hv, hv1⟩ | ⟨v, hv, hv1⟩ := (pops_append 1 h w).mp h1
    · exact ⟨h, List.prefix_rfl, ⟨v, hv, hv1⟩, htwo,
        fun hpops2 => hnot ((pops2_append 2 h w).mpr (Or.inl hpops2))⟩
    · exact absurd ⟨v, hw.subset hv, hv1⟩ hone

/-- The servers' statuses stay as they are, and there is no `SWS_SHUTDOWN`. -/
def Stays (tm : Telemetry) (us : List Update) : Prop :=
  ∀ u ∈ us, u.tm.popsSrvr = tm.popsSrvr ∧ u.tm.pops2Srvr = tm.pops2Srvr ∧ u.shutdown = false

theorem Stays.not_pops {tm : Telemetry} {us : List Update} (hus : Stays tm us) {n : ℕ}
    (hn : tm.popsSrvr ≠ n) : ¬Pops n us := by
  rintro ⟨v, hv, rfl⟩
  exact hn (hus v hv).1.symm

theorem Stays.not_pops2 {tm : Telemetry} {us : List Update} (hus : Stays tm us) {n : ℕ}
    (hn : tm.pops2Srvr ≠ n) : ¬Pops2 n us := by
  rintro ⟨v, hv, rfl⟩
  exact hn (hus v hv).2.1.symm

theorem Stays.no_shutdown {tm : Telemetry} {us : List Update} (hus : Stays tm us) :
    ∀ u ∈ us, u.shutdown = false := fun u hu => (hus u hu).2.2

/-- No partition leaves its state as long as the telemetry stays as it is. -/
def Stuck (c : Config) (tm : Telemetry) : Prop :=
  ∀ us, Stays tm us → ∀ c', Run.run step c us = some c' →
    c'.p1.state = c.p1.state ∧ c'.p2.state = c.p2.state ∧ c'.p3.state = c.p3.state

/-- POPS is active and POPS2 is idle, but P3 is in `POPS2_Init` and nothing goes on. -/
def Wedged (h : List Update) (c : Config) : Prop :=
  ∃ h' u, h = h' ++ [u] ∧ u.tm.popsSrvr = 2 ∧ u.tm.pops2Srvr = 1 ∧
    c.p2.state = .pops1Active ∧ c.p3.state = .pops2Init ∧ c.Stuck u.tm

/-- The run up to `h` has come through a configuration with `P`, or does so before long
when the telemetry stays as it is. -/
def Comes (now : ℕ) (h : List Update) (tm : Telemetry) (P : Config → Prop) : Prop :=
  ∃ n, ∀ us, n ≤ us.length → Stays tm us →
    ∃ g c, g <+: h ++ us ∧ Run.run step (start now) g = some c ∧ P c

/-- When POPS is active and POPS2 is idle, P3 reaches `POPS2_Idle` and P1 leaves `Init`. -/
def Proceeds (now : ℕ) (h : List Update) : Prop :=
  ∀ h' u, h = h' ++ [u] → u.tm.popsSrvr = 2 → u.tm.pops2Srvr = 1 →
    Comes now h u.tm (fun c => c.p3.state = .pops2Idle) ∧
    Comes now h u.tm (fun c => c.p1.state ≠ .init)

/-- Where the partitions are before the launch, from what the telemetry has shown. -/
structure Prelaunch (h : List Update) (c : Config) : Prop where
  onScript : c.OnScript
  p1_ne : c.p1.state ≠ .shutdown
  p1_init : c.p1.state = .init → InInit c.p1
  p1_stays : ¬Ready h → c.p1.state = .init
  p2_init : ¬Pops 2 h → c.p2.state = .pops1Init
  p2_active : Pops 2 h → c.p2.state = .pops1Active
  p3_init : ¬Pops 1 h → ¬Pops2 2 h → InPops2Init c.p3
  p3_idle : Pops 1 h → ¬Pops2 2 h → InPops2Idle c.p3
  p3_active : Pops2 2 h → c.p3.state = .pops2Active

theorem start_prelaunch (now : ℕ) : (start now).Prelaunch [] where
  onScript := start_onScript now
  p1_ne := by
    intro h
    cases h
  p1_init _ := enter_init now
  p1_stays _ := rfl
  p2_init _ := rfl
  p2_active h := absurd h (not_pops_nil 2)
  p3_init _ _ := enter_pops2Init now
  p3_idle h := absurd h (not_pops_nil 1)
  p3_active h := absurd h (not_pops2_nil 2)

namespace Prelaunch

variable {h : List Update} {c : Config}

/-- P1 sees P2 in `POPS1_Active` and P3 in `POPS2_Idle` only when both have been shown. -/
theorem ready (hc : c.Prelaunch h) (hp2 : c.p2.state = .pops1Active)
    (hp3 : c.p3.state = .pops2Idle) : Ready h := by
  have htwo : Pops 2 h := by
    by_contra hno
    have hstate := hc.p2_init hno
    rw [hp2] at hstate
    cases hstate
  have hnot : ¬Pops2 2 h := by
    intro hyes
    have hstate := hc.p3_active hyes
    rw [hp3] at hstate
    cases hstate
  have hone : Pops 1 h := by
    by_contra hno
    have hstate := (hc.p3_init hno hnot).1
    rw [hp3] at hstate
    cases hstate
  exact ⟨h, List.prefix_rfl, hone, htwo, hnot⟩

theorem visitP1_state (hc : c.Prelaunch h) (u : Update) (hu : u.shutdown = false) :
    (c.visitP1 u).2.state ≠ .shutdown ∧
    ((c.visitP1 u).2.state = .init → InInit (c.visitP1 u).2) ∧
    (¬Ready (h ++ [u]) → (c.visitP1 u).2.state = .init) ∧
    (c.p2.state = .pops1Active → c.p3.state = .pops2Idle → (c.visitP1 u).2.state ≠ .init) := by
  let env : View := ⟨u.tm,c.p1.state,c.p2.state,c.p3.state⟩
  have hplace : c.visitP1 u = mainline.visit u.now env c.p1 := by
    rw [visitP1, hu]
    rfl
  rw [hplace]
  obtain ⟨hshut, hleft⟩ := visit_mainline_left u.now env c.p1 hc.onScript.p1 hc.p1_ne
  refine ⟨hshut, ?_⟩
  -- P1 is visited first: it sees where P2 and P3 have been before this update.
  by_cases hinit : c.p1.state = .init
  · obtain ⟨hstays, hgoes⟩ := visit_mainline_init u.now env c.p1 (hc.p1_init hinit)
    by_cases hboth : c.p2.state = .pops1Active ∧ c.p3.state = .pops2Idle
    · have hready := (hc.ready hboth.1 hboth.2).mono (List.prefix_append h [u])
      rw [hgoes hboth.1 hboth.2]
      exact ⟨nofun, fun hno => absurd hready hno, fun _ _ => nofun⟩
    · have hwait := hstays hboth
      exact ⟨fun _ => hwait, fun _ => hwait.1, fun hp2 hp3 => absurd ⟨hp2, hp3⟩ hboth⟩
  · refine ⟨fun hback => absurd hback (hleft hinit), fun hno => ?_, fun _ _ => hleft hinit⟩
    exact absurd (hc.p1_stays fun hready => hno (hready.mono (List.prefix_append h [u]))) hinit

theorem visitP2_state (hc : c.Prelaunch h) (u : Update) (hp1 : (c.visitP1 u).2.state ≠ .shutdown) :
    (¬Pops 2 (h ++ [u]) → (c.visitP2 u).2.state = .pops1Init) ∧
    (Pops 2 (h ++ [u]) → (c.visitP2 u).2.state = .pops1Active) := by
  obtain ⟨hactive, hgoes, hstays⟩ := visit_pops1_state u.now
    ⟨u.tm,(c.visitP1 u).2.state,c.p2.state,c.p3.state⟩ c.p2 hc.onScript.p2 hp1
  rw [pops_append, pops_singleton]
  constructor
  · intro hno
    obtain ⟨hpast, hu⟩ := not_or.mp hno
    exact hstays (hc.p2_init hpast) hu
  · intro hyes
    by_cases hpast : Pops 2 h
    · exact hactive (hc.p2_active hpast)
    · exact hgoes (hc.p2_init hpast) (hyes.resolve_left hpast)

theorem visitP3_state (hc : c.Prelaunch h) (u : Update) (hp1 : (c.visitP1 u).2.state ≠ .shutdown) :
    (¬Pops 1 (h ++ [u]) → ¬Pops2 2 (h ++ [u]) → InPops2Init (c.visitP3 u).2) ∧
    (Pops 1 (h ++ [u]) → ¬Pops2 2 (h ++ [u]) → InPops2Idle (c.visitP3 u).2) ∧
    (Pops2 2 (h ++ [u]) → (c.visitP3 u).2.state = .pops2Active) := by
  rw [pops_append, pops_singleton, pops2_append, pops2_singleton]
  refine ⟨fun hone htwo => ?_, fun hone htwo => ?_, fun htwo => ?_⟩
  · obtain ⟨hone, hu1⟩ := not_or.mp hone
    obtain ⟨htwo, hu2⟩ := not_or.mp htwo
    exact (visit_pops2_init u.now _ c.p3 (hc.p3_init hone htwo) hp1 hu2).1 hu1
  · obtain ⟨htwo, hu2⟩ := not_or.mp htwo
    by_cases hpast : Pops 1 h
    · exact visit_pops2_idle u.now _ c.p3 (hc.p3_idle hpast htwo) hp1 hu2
    · exact (visit_pops2_init u.now _ c.p3 (hc.p3_init hpast htwo) hp1 hu2).2
        (hone.resolve_left hpast)
  · by_cases hpast : Pops2 2 h
    · exact visit_pops2_active u.now _ c.p3 hc.onScript.p3 hp1 (hc.p3_active hpast)
    · have hstate : c.p3.state = .pops2Init ∨ c.p3.state = .pops2Idle := by
        by_cases hone : Pops 1 h
        · exact Or.inr (hc.p3_idle hone hpast).1
        · exact Or.inl (hc.p3_init hone hpast).1
      rw [visitP3, visit_pops2_two u.now _ c.p3 hp1 (htwo.resolve_left hpast) hstate]
      rfl

/-- An update without `SWS_SHUTDOWN` takes P1 out of `Init` once both have come. -/
theorem step (hc : c.Prelaunch h) (u : Update) (hu : u.shutdown = false) :
    ∃ c', c.step u = some c' ∧ c'.Prelaunch (h ++ [u]) ∧
      (c.p2.state = .pops1Active → c.p3.state = .pops2Idle → c'.p1.state ≠ .init) := by
  obtain ⟨hp1, hinit, hstays, hgoes⟩ := hc.visitP1_state u hu
  obtain ⟨hp2i, hp2a⟩ := hc.visitP2_state u hp1
  obtain ⟨hp3i, hp3d, hp3a⟩ := hc.visitP3_state u hp1
  exact ⟨_, rfl, ⟨hc.onScript.step rfl, hp1, hinit, hstays, hp2i, hp2a, hp3i, hp3d, hp3a⟩, hgoes⟩

theorem run (hc : c.Prelaunch h) (us : List Update) (hus : ∀ u ∈ us, u.shutdown = false) :
    ∃ c', Run.run Config.step c us = some c' ∧ c'.Prelaunch (h ++ us) := by
  refine Run.run_history Config.step (fun _ u => u.shutdown = false) (fun h c => c.Prelaunch h)
    ?_ h c us hc (Run.along_of_mem Config.step c us fun u hu _ => hus u hu)
  intro h c u hc hu
  obtain ⟨c', hc', hpre, -⟩ := hc.step u hu
  exact ⟨c', hc', hpre⟩

/-- With POPS_srvr at 2 and POPS2_srvr at 1 P3 waits for ever for a POPS_srvr of 1. -/
theorem stuck (hc : c.Prelaunch h) (hone : ¬Pops 1 h) (hpops2 : ¬Pops2 2 h) (htwo : Pops 2 h)
    (tm : Telemetry) (htm : tm.popsSrvr = 2) (htm2 : tm.pops2Srvr = 1) : c.Stuck tm := by
  intro us hus c' hr
  obtain ⟨d, hd, hpre⟩ := hc.run us hus.no_shutdown
  obtain rfl := Option.some.inj (hr.symm.trans hd)
  have hone' : ¬Pops 1 (h ++ us) := by
    rw [pops_append, not_or]
    exact ⟨hone, hus.not_pops (by omega)⟩
  have hpops2' : ¬Pops2 2 (h ++ us) := by
    rw [pops2_append, not_or]
    exact ⟨hpops2, hus.not_pops2 (by omega)⟩
  have htwo' : Pops 2 (h ++ us) := (pops_append 2 h us).mpr (Or.inl htwo)
  have hp1 := hc.p1_stays fun hready => hone hready.pops
  have hp1' := hpre.p1_stays fun hready => hone' hready.pops
  exact ⟨hp1'.trans hp1.symm, (hpre.p2_active htwo').trans (hc.p2_active htwo).symm,
    (hpre.p3_init hone' hpops2').1.trans (hc.p3_init hone hpops2).1.symm⟩

/-- When POPS is active before it has been idle, the algorithm is wedged. -/
theorem wedged {u : Update} (hc : c.Prelaunch (h ++ [u])) (hone : ¬Pops 1 (h ++ [u]))
    (hpops2 : ¬Pops2 2 (h ++ [u])) (htm : u.tm.popsSrvr = 2) (htm2 : u.tm.pops2Srvr = 1) :
    Wedged (h ++ [u]) c := by
  have htwo : Pops 2 (h ++ [u]) := (pops_append 2 h [u]).mpr (Or.inr ((pops_singleton 2 u).mpr htm))
  exact ⟨h, u, rfl, htm, htm2, hc.p2_active htwo, (hc.p3_init hone hpops2).1,
    hc.stuck hone hpops2 htwo u.tm htm htm2⟩

end Prelaunch

/-- Once both have come together, P1 leaves `Init` with the next update. -/
theorem Ready.proceeds (now : ℕ) {h : List Update} (hshut : ∀ v ∈ h, v.shutdown = false)
    (hready : Ready h) (tm : Telemetry) :
    Comes now h tm (fun c => c.p3.state = .pops2Idle) ∧
    Comes now h tm (fun c => c.p1.state ≠ .init) := by
  obtain ⟨g, ⟨w, rfl⟩, hone, htwo, hnot⟩ := hready
  obtain ⟨hg, hw⟩ := List.forall_mem_append.mp hshut
  obtain ⟨c, hr, hc⟩ := (start_prelaunch now).run g hg
  have hidle := (hc.p3_idle hone hnot).1
  refine ⟨⟨0, fun us _ _ => ⟨g, c, ?_, hr, hidle⟩⟩, 1, fun us hlen hus => ?_⟩
  · rw [List.append_assoc]
    exact List.prefix_append g (w ++ us)
  · -- `v` is the update behind the one that has brought both together.
    obtain ⟨v, vs, hv⟩ := List.exists_cons_of_length_pos (l := w ++ us)
      (by rw [List.length_append]; omega)
    have hno : v.shutdown = false := by
      have hmem : v ∈ w ++ us := by
        rw [hv]
        exact List.mem_cons_self ..
      exact List.forall_mem_append.mpr ⟨hw, hus.no_shutdown⟩ v hmem
    obtain ⟨c', hc', -, hleaves⟩ := hc.step v hno
    refine ⟨g ++ [v], c', ?_, (Run.run_concat step hr v).trans hc',
      hleaves (hc.p2_active htwo) hidle⟩
    rw [List.append_assoc, hv]
    exact ⟨vs, by simp⟩

/-- Otherwise P1 stays in `Init` for ever as long as POPS is active. -/
theorem ready_of_comes (now : ℕ) {h : List Update} (hshut : ∀ v ∈ h, v.shutdown = false)
    (tm : Telemetry) (htm : tm.popsSrvr ≠ 1) (htwo : Pops 2 h)
    (hcomes : Comes now h tm (fun c => c.p1.state ≠ .init)) : Ready h := by
  obtain ⟨n, hn⟩ := hcomes
  have hstays : Stays tm (List.replicate n ⟨0,tm,false⟩) := by
    intro u hu
    obtain rfl := List.eq_of_mem_replicate hu
    exact ⟨rfl, rfl, rfl⟩
  obtain ⟨g, c, hg, hr, hleft⟩ := hn _ (Nat.le_of_eq List.length_replicate.symm) hstays
  have hg' : ∀ v ∈ g, v.shutdown = false := fun v hv =>
    List.forall_mem_append.mpr ⟨hshut, hstays.no_shutdown⟩ v (hg.subset hv)
  obtain ⟨d, hd, hpre⟩ := (start_prelaunch now).run g hg'
  obtain rfl := Option.some.inj (hr.symm.trans hd)
  -- P1 has left `Init` within `g`, and what stays at `tm` has not made it ready.
  have hready : Ready g := by
    by_contra hno
    exact hleft (hpre.p1_stays hno)
  exact (hready.mono hg).of_append htwo (hstays.not_pops htm)

/-- The run never gets wedged, and P1 and P3 always go on, if and only if POPS has been
idle and active before POPS2 was active whenever POPS is active and POPS2 idle. -/
theorem not_wedged_iff (now : ℕ) (us : List Update) (hus : ∀ u ∈ us, u.shutdown = false) :
    Run.Throughout step (fun h c => ¬Wedged h c ∧ Proceeds now h) (start now) us ↔
      ∀ h u, h ++ [u] <+: us → u.tm.popsSrvr = 2 → u.tm.pops2Srvr = 1 → Ready (h ++ [u]) := by
  constructor
  · -- That P1 leaves `Init` is enough here.
    intro hall h u hpre htm htm2
    obtain ⟨c, -, -, hproceeds⟩ := hall _ hpre
    have hshut : ∀ v ∈ h ++ [u], v.shutdown = false := fun v hv => hus v (hpre.subset hv)
    refine ready_of_comes now hshut u.tm (by omega) ?_ (hproceeds h u rfl htm htm2).2
    exact (pops_append 2 h [u]).mpr (Or.inr ((pops_singleton 2 u).mpr htm))
  · intro hall fs hfs
    have hshut : ∀ v ∈ fs, v.shutdown = false := fun v hv => hus v (hfs.subset hv)
    obtain ⟨c, hr, hpre⟩ := (start_prelaunch now).run fs hshut
    refine ⟨c, hr, ?_, ?_⟩
    · rintro ⟨h, u, rfl, htm, htm2, -, hp3, -⟩
      have hone := (hall h u hfs htm htm2).pops
      have hstate : c.p3.state ≠ .pops2Init := by
        by_cases htwo : Pops2 2 (h ++ [u])
        · rw [hpre.p3_active htwo]
          decide
        · rw [(hpre.p3_idle hone htwo).1]
          decide
      exact hstate hp3
    · rintro h u rfl htm htm2
      exact Ready.proceeds now hshut (hall h u hfs htm htm2) u.tm

/-- POPS comes up idle, is active later, and POPS2 comes up after it. -/
theorem not_wedged_in_order :
    Run.Throughout step (fun h c => ¬Wedged h c ∧ Proceeds 0 h) (start 0)
      [⟨0,⟨0,0,1000⟩,false⟩,⟨1,⟨1,0,1000⟩,false⟩,⟨2,⟨2,1,1000⟩,false⟩] := by
  refine (not_wedged_iff 0 _ (by simp)).mpr ?_
  intro h u hpre htm htm2
  rcases h with - | ⟨v, - | ⟨w, h⟩⟩
  · obtain ⟨rfl, -⟩ := List.cons_prefix_cons.mp hpre
    cases htm
  · obtain ⟨-, hpre⟩ := List.cons_prefix_cons.mp hpre
    obtain ⟨rfl, -⟩ := List.cons_prefix_cons.mp hpre
    cases htm
  · have hfull : v :: w :: h ++ [u] =
        [⟨0,⟨0,0,1000⟩,false⟩,⟨1,⟨1,0,1000⟩,false⟩,⟨2,⟨2,1,1000⟩,false⟩] :=
      hpre.eq_of_length_le (by simp)
    rw [hfull]
    exact ⟨_, List.prefix_rfl, by simp [Pops], by simp [Pops], by simp [Pops2]⟩

/-- POPS is active already when the algorithm starts. -/
theorem wedged_at_start :
    ¬Run.Throughout step (fun h c => ¬Wedged h c ∧ Proceeds 0 h) (start 0)
      [⟨0,⟨2,1,1000⟩,false⟩] := by
  intro hall
  obtain ⟨c, hr, hno, -⟩ := hall _ List.prefix_rfl
  obtain ⟨d, hd, hpre⟩ := (start_prelaunch 0).run [⟨0,⟨2,1,1000⟩,false⟩] (by simp)
  obtain rfl := Option.some.inj (hr.symm.trans hd)
  exact hno (hpre.wedged (h := []) (by simp [Pops]) (by simp [Pops2]) rfl rfl)

end Config
end Cosmid.Algorithm
