import Cosmid.Run
import Cosmid.Tma
import Mathlib.Data.Rat.Init

/-! The flight algorithm (TM/cosmid.tma, and `SWS_SHUTDOWN` of TM/cosmid.sws): three
partitions that watch the telemetry and each other. -/
namespace Cosmid.Algorithm

open Tma

/-- The mainline partition. -/
inductive P1State
  | init
  | launchHold
  | flight
  | shutdown
deriving DecidableEq

/-- The POPS(1) partition. -/
inductive P2State
  | pops1Init
  | pops1Active
  | pops1Shutdown
deriving DecidableEq

/-- The POPS2 partition. -/
inductive P3State
  | pops2Init
  | pops2Idle
  | pops2Active
  | pops2Shutdown
deriving DecidableEq

inductive Command
  | algoP1 (state : P1State)
  | algoP2 (state : P2State)
  | algoP3 (state : P3State)
  | telemetryStart
  | popsStart
  | popsShutdown
  | pops2Start
  | pops2Shutdown
  | quit
deriving DecidableEq

structure Telemetry where
  popsSrvr : ℕ
  pops2Srvr : ℕ
  popsPMbar : ℚ
deriving DecidableEq

/-- What the conditions see: the telemetry and which states are valid. -/
structure View where
  tm : Telemetry
  p1 : P1State
  p2 : P2State
  p3 : P3State

def mainline : Partition View P1State Command where
  reactions _ := []
  script
    | .init => [
      .send (.algoP1 .init),
      .send .telemetryStart,
      .hold (fun v => v.p2 = .pops1Active ∧ v.p3 = .pops2Idle) none,
      .validate .launchHold]
    | .launchHold => [
      .send (.algoP1 .launchHold),
      .hold (fun v => v.p3 = .pops2Active) none,
      .validate .flight]
    | .flight => [.send (.algoP1 .flight)]
    | .shutdown => [
      .send (.algoP1 .shutdown),
      .hold (fun v => v.tm.popsSrvr = 1 ∧ v.tm.pops2Srvr = 1) (some 10),
      .wait 1,
      .send .quit]

def pops1 : Partition View P2State Command where
  reactions
    | .pops1Init => [⟨fun v => v.tm.popsSrvr = 2,.pops1Active⟩]
    | .pops1Active => [⟨fun v => v.p1 = .shutdown,.pops1Shutdown⟩]
    | .pops1Shutdown => []
  script
    | .pops1Init => [
      .send (.algoP2 .pops1Init),
      .hold (fun v => v.tm.popsSrvr = 1) none,
      .wait 4,
      .send .popsStart]
    | .pops1Active => [.send (.algoP2 .pops1Active)]
    | .pops1Shutdown => [.send (.algoP2 .pops1Shutdown), .send .popsShutdown]

def pops2 : Partition View P3State Command where
  reactions
    | .pops2Init | .pops2Idle => [
      ⟨fun v => v.p1 = .shutdown,.pops2Shutdown⟩,
      ⟨fun v => v.tm.pops2Srvr = 2,.pops2Active⟩]
    | .pops2Active => [⟨fun v => v.p1 = .shutdown,.pops2Shutdown⟩]
    | .pops2Shutdown => []
  script
    | .pops2Init => [
      .send (.algoP3 .pops2Init),
      .hold (fun v => v.tm.popsSrvr = 1) none,
      .validate .pops2Idle]
    | .pops2Idle => [
      .send (.algoP3 .pops2Idle),
      .hold (fun v => v.tm.popsSrvr = 2) none,
      .wait 5,
      .hold (fun v => v.tm.popsPMbar < 750) none,
      .wait 1,
      .send .pops2Start,
      .hold (fun v => v.tm.pops2Srvr = 2) none,
      .validate .pops2Active]
    | .pops2Active => [.send (.algoP3 .pops2Active)]
    | .pops2Shutdown => [.send (.algoP3 .pops2Shutdown), .send .pops2Shutdown]

/-- Only `POPS1_Init` starts POPS. -/
theorem popsStart_mem (s : P2State) (h : .send .popsStart ∈ pops1.script s) : s = .pops1Init := by
  cases s <;> simp [pops1] at h ⊢

/-- P2 does not come back to `POPS1_Init`. -/
theorem visit_pops1_left (now : ℕ) (env : View) (place : Place View P2State Command)
    (hscript : pops1.OnScript place) (hstate : place.state ≠ .pops1Init) :
    (pops1.visit now env place).2.state ≠ .pops1Init ∧
      .popsStart ∉ (pops1.visit now env place).1 := by
  obtain ⟨-, hsent, hnext⟩ := pops1.visit_spec now env place hscript
  refine ⟨?_, fun h => hstate (popsStart_mem _ (hsent _ h))⟩
  rcases hnext with hsame | ⟨r, hr, -, htarget⟩ | hval
  · rwa [hsame]
  · rw [htarget]
    cases hs : place.state <;> rw [hs] at hr <;> simp [pops1] at hr <;> rw [hr] <;> decide
  · cases hs : place.state <;> rw [hs] at hval <;> simp [pops1] at hval

/-- With POPS_srvr at 2 P2 leaves `POPS1_Init` and sends nothing. -/
theorem visit_pops1_active (now : ℕ) (env : View) (place : Place View P2State Command)
    (hstate : place.state = .pops1Init) (htwo : env.tm.popsSrvr = 2) :
    pops1.visit now env place = ([], pops1.enter now .pops1Active) := by
  refine pops1.visit_first now env place ⟨fun v => v.tm.popsSrvr = 2,.pops1Active⟩ [] ?_
    (decide_eq_true htwo)
  rw [hstate]
  rfl

/-- Otherwise it goes on with the script. -/
theorem visit_pops1_init (now : ℕ) (env : View) (place : Place View P2State Command)
    (hstate : place.state = .pops1Init) (htwo : env.tm.popsSrvr ≠ 2) :
    pops1.visit now env place =
      pops1.stopped now .pops1Init (runScript now env place.rest place.since) := by
  rw [pops1.visit_quiet, hstate]
  rw [hstate]
  intro r hr
  obtain rfl := List.mem_singleton.mp hr
  exact decide_eq_false htwo

/-- `issued` are the commands of the last update. -/
structure Config where
  p1 : Place View P1State Command
  p2 : Place View P2State Command
  p3 : Place View P3State Command
  issued : List Command

/-- A telemetry update. With `shutdown` the software status is `SWS_SHUTDOWN`. -/
structure Update where
  now : ℕ
  tm : Telemetry
  shutdown : Bool
deriving DecidableEq

namespace Config

def start (now : ℕ) : Config :=
  ⟨mainline.enter now .init,pops1.enter now .pops1Init,pops2.enter now .pops2Init,[]⟩

/-- `SWS_SHUTDOWN` comes first, and then the partitions take their turns; each one
sees what the ones before it have done. -/
def visitP1 (c : Config) (u : Update) : List Command × Place View P1State Command :=
  let place := if u.shutdown then mainline.enter u.now .shutdown else c.p1
  mainline.visit u.now ⟨u.tm,place.state,c.p2.state,c.p3.state⟩ place

def visitP2 (c : Config) (u : Update) : List Command × Place View P2State Command :=
  pops1.visit u.now ⟨u.tm,(c.visitP1 u).2.state,c.p2.state,c.p3.state⟩ c.p2

def visitP3 (c : Config) (u : Update) : List Command × Place View P3State Command :=
  pops2.visit u.now ⟨u.tm,(c.visitP1 u).2.state,(c.visitP2 u).2.state,c.p3.state⟩ c.p3

def step (c : Config) (u : Update) : Option Config :=
  some ⟨(c.visitP1 u).2,(c.visitP2 u).2,(c.visitP3 u).2,
    (c.visitP1 u).1 ++ (c.visitP2 u).1 ++ (c.visitP3 u).1⟩

/-- Every partition is on the script of its state. -/
structure OnScript (c : Config) : Prop where
  p1 : mainline.OnScript c.p1
  p2 : pops1.OnScript c.p2
  p3 : pops2.OnScript c.p3

theorem start_onScript (now : ℕ) : (start now).OnScript :=
  ⟨mainline.enter_onScript now _,pops1.enter_onScript now _,pops2.enter_onScript now _⟩

theorem OnScript.place {c : Config} (h : c.OnScript) (u : Update) :
    mainline.OnScript (if u.shutdown then mainline.enter u.now .shutdown else c.p1) := by
  split_ifs
  · exact mainline.enter_onScript u.now _
  · exact h.p1

theorem OnScript.step {c c' : Config} (h : c.OnScript) {u : Update} (hs : c.step u = some c') :
    c'.OnScript := by
  obtain rfl := Option.some.inj hs
  exact ⟨(mainline.visit_spec u.now _ _ (h.place u)).1,(pops1.visit_spec u.now _ _ h.p2).1,
    (pops2.visit_spec u.now _ _ h.p3).1⟩

/-- `Shutdown` has no reaction and nothing to validate. -/
theorem visitP1_shutdown (c : Config) (u : Update) (h : c.OnScript)
    (hshut : u.shutdown = true ∨ c.p1.state = .shutdown) : (c.visitP1 u).2.state = .shutdown := by
  have hstate : (if u.shutdown then mainline.enter u.now .shutdown else c.p1).state = .shutdown := by
    split_ifs with hu
    · rfl
    · exact hshut.resolve_left hu
  obtain ⟨-, -, hnext⟩ := mainline.visit_spec u.now
    ⟨u.tm,(if u.shutdown then mainline.enter u.now .shutdown else c.p1).state,c.p2.state,c.p3.state⟩
    _ (h.place u)
  rcases hnext with hsame | ⟨r, hr, -⟩ | hval
  · exact hsame.trans hstate
  · cases hr
  · rw [hstate] at hval
    simp [mainline] at hval

end Config
end Cosmid.Algorithm
