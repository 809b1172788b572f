import Cosmid.NephexEmulator
import Cosmid.Run

/-! The turns of the emulator's loop: where a turn comes to a complete frame, which time stamp
it looks at, and which positions of the buffer it reads. -/
namespace Cosmid.Nephex

/-- A look at the time stamp of a frame, with the time base it is held against. -/
structure Look where
  base : TimeBase
  pktSecs : ℕ
  pktMsecs : ℕ

/-- The time base behind the look; `none` where the assertion fails. -/
def Look.updated (l : Look) : Option TimeBase := l.base.update l.pktSecs l.pktMsecs

namespace NEIngest

/-- Where a turn comes to a complete frame: `cp` behind its header. -/
def turnPos (io : DasIO) (s : NEIngest) : Option ℕ :=
  match io.notFound 0xaa s.ibuf with
  | (true, _) => none
  | (false, b) =>
    if b.cp < b.nc ∧ b.buf.getD b.cp 0 ≠ 0xaa then none
    else if b.nc < b.cp+1+6 then none
    else if b.nc < b.cp+1+6+word b.buf (b.cp+1+4)+1 then none
    else some (b.cp+1+6)

/-- The look at the time stamp at `cp`. -/
def stampAt (s : NEIngest) (cp : ℕ) : Look :=
  ⟨s.time,word s.ibuf.buf cp+65536*word s.ibuf.buf (cp+2),word s.ibuf.buf (cp+4)⟩

/-- The look that a turn takes at a time stamp. -/
def turnLook (io : DasIO) (s : NEIngest) : Option Look := (s.turnPos io).map s.stampAt

/-- What a frame does to the time base. -/
theorem replayFrame_time (due : Bool) (s : NEIngest) (cp len : ℕ) :
    ((s.setIbuf ⟨s.ibuf.buf,cp⟩).replayFrame due len).map (fun r => r.1.time) =
      (s.stampAt cp).updated := by
  unfold replayFrame
  rw [Option.map_map]
  refine Eq.trans (congrArg (fun f => Option.map f _) (funext ?_)) Option.map_id'
  intro time
  dsimp only [Function.comp_apply]
  split_ifs <;> rfl

/-- A turn that comes to no complete frame only moves `cp`; one that does replays it. -/
theorem loopBody_turn (io : DasIO) (due : Bool) (s : NEIngest) :
    (s.turnPos io = none ∧ ∃ b turn, s.loopBody io due = some (s.setIbuf b, turn) ∧
      turn ≠ .leave) ∨
    ∃ cp, s.turnPos io = some cp ∧ 8 ≤ cp ∧ cp+word s.ibuf.buf (cp-2)+1 ≤ s.ibuf.nc ∧
      s.loopBody io due =
        (s.setIbuf ⟨s.ibuf.buf,cp⟩).replayFrame due (word s.ibuf.buf (cp-2)) := by
  unfold turnPos loopBody
  rcases io.notFound_cases 0xaa s.ibuf with ⟨-, hm⟩ | ⟨pre, post, -, -, hm⟩
  · rw [hm]
    exact Or.inl ⟨rfl, _, _, rfl, by decide⟩
  · rw [hm]
    dsimp only
    split_ifs with h1 h2 h3
    · exact Or.inl ⟨rfl, _, _, rfl, by decide⟩
    · exact Or.inl ⟨rfl, _, _, rfl, by decide⟩
    · exact Or.inl ⟨rfl, _, _, rfl, by decide⟩
    · refine Or.inr ⟨_, rfl, by omega, ?_, rfl⟩
      exact Nat.not_lt.mp h3

/-- The states in which the turns of a call begin, with what `TO.Expired()` says in them. -/
def callTurns (io : DasIO) (due : ℕ → Bool) (s : NEIngest) : List (Bool × NEIngest) :=
  if s.ibuf.cp < s.ibuf.nc then
    (due 0, s) :: match _h : s.loopBody io (due 0) with
      | some (s', .again) => callTurns io (fun n => due (n+1)) s'
      | _ => []
  else []
termination_by s.ibuf.nc-s.ibuf.cp
decreasing_by
  obtain ⟨hnc, hcp⟩ := loopBody_again io (due 0) s s' _h
  omega

theorem callTurns_end (io : DasIO) (due : ℕ → Bool) (s : NEIngest) (h : s.ibuf.unread = []) :
    s.callTurns io due = [] := by
  have hlen := s.ibuf.length_unread
  rw [h, List.length_nil] at hlen
  rw [callTurns, if_neg (by omega)]

theorem callTurns_turn (io : DasIO) (due : ℕ → Bool) (s : NEIngest) (h : s.ibuf.unread ≠ []) :
    s.callTurns io due = (due 0, s) :: match s.loopBody io (due 0) with
      | some (s', .again) => callTurns io (fun n => due (n+1)) s'
      | _ => [] := by
  have hpos := List.length_pos_of_ne_nil h
  rw [s.ibuf.length_unread] at hpos
  rw [callTurns, if_pos (by omega)]
  congr 1
  split <;> rename_i hbody <;> simp [hbody]

/-- The rule of induction for a call: along its turns. -/
@[elab_as_elim]
theorem call_induction (io : DasIO) {P : (ℕ → Bool) → NEIngest → Prop}
    (hend : ∀ due s, s.ibuf.unread = [] → P due s)
    (hturn : ∀ due s, s.ibuf.unread ≠ [] →
      (∀ s', s.loopBody io (due 0) = some (s', .again) → P (fun n => due (n+1)) s') → P due s)
    (due : ℕ → Bool) (s : NEIngest) : P due s := by
  induction hn : s.ibuf.nc-s.ibuf.cp using Nat.strongRecOn generalizing s due with
  | _ n ih =>
    by_cases hnil : s.ibuf.unread = []
    · exact hend due s hnil
    · refine hturn due s hnil ?_
      intro s' hs'
      obtain ⟨hnc, hcp⟩ := loopBody_again io (due 0) s s' hs'
      have hlen := List.length_pos_of_ne_nil hnil
      rw [s.ibuf.length_unread] at hlen
      exact ih _ (by omega) _ s' rfl

/-- The looks of a call. -/
def callLooks (io : DasIO) (due : ℕ → Bool) (s : NEIngest) : List Look :=
  (s.callTurns io due).filterMap fun t => t.2.turnLook io

theorem callLooks_end (io : DasIO) (due : ℕ → Bool) (s : NEIngest) (h : s.ibuf.unread = []) :
    s.callLooks io due = [] := by
  rw [callLooks, callTurns_end io due s h, List.filterMap_nil]

theorem callLooks_turn (io : DasIO) (due : ℕ → Bool) (s : NEIngest) (h : s.ibuf.unread ≠ []) :
    s.callLooks io due = (s.turnLook io).toList ++ match s.loopBody io (due 0) with
      | some (s', .again) => s'.callLooks io fun n => due (n+1)
      | _ => [] := by
  rw [callLooks, callTurns_turn io due s h, List.filterMap_cons]
  have hrest : (match s.loopBody io (due 0) with
      | some (s', .again) => callTurns io (fun n => due (n+1)) s'
      | _ => []).filterMap (fun t : Bool × NEIngest => t.2.turnLook io) =
      match s.loopBody io (due 0) with
      | some (s', .again) => s'.callLooks io fun n => due (n+1)
      | _ => [] := by
    split <;> rfl
  rw [hrest]
  cases s.turnLook io <;> rfl

end NEIngest

namespace Emulator

/-- The state and the clock with which a step calls the loop of `protocol_input`. -/
def callOf (io : DasIO) (s : Emulator) : EmulatorEvent → Option (NEIngest × (ℕ → Bool))
  | .input bytes due =>
    if s.ingest.flRead then some (s.ingest.setIbuf (io.read s.ingest.ibuf bytes), due) else none
  | _ => none

/-- A step is a call of the loop, or it keeps the time base unless it ends the session. -/
theorem step_callOf (io : DasIO) (s : Emulator) (e : EmulatorEvent) :
    (∃ t due, s.callOf io e = some (t, due) ∧ t.time = s.ingest.time ∧
      s.step io e = (t.protocolInputLoop io due).map fun ingest => {s with ingest := ingest}) ∨
    (s.callOf io e = none ∧ ∃ s', s.step io e = some s' ∧
      ((∀ client, e ≠ .destroyed client) → s'.ingest.time = s.ingest.time)) := by
  cases e with
  | connected client =>
    refine Or.inr ⟨rfl, _, rfl, fun _ => ?_⟩
    unfold connected NEIngest.setClient
    split_ifs <;> rfl
  | destroyed client => exact Or.inr ⟨rfl, _, rfl, fun h => absurd rfl (h client)⟩
  | input bytes due =>
    unfold callOf step
    dsimp only
    split_ifs
    · exact Or.inl ⟨_, due, rfl, rfl, rfl⟩
    · exact Or.inr ⟨rfl, s, rfl, fun _ => rfl⟩

end Emulator
end Cosmid.Nephex
