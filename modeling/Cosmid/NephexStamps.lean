import Cosmid.NephexTurns

/-! The emulator on an arbitrary file: the positions of the buffer it reads, and the assertion
on its time stamps. Six bytes are read behind every header, whatever `Len` says. -/
namespace Cosmid.Nephex

/-- A stamp of a later second is less than a second of milliseconds behind. The first stamp is
held against itself. -/
def Look.Ordered (l : Look) : Prop :=
  l.base.toSet = true → l.base.lastSecs < l.pktSecs → l.base.lastMsecs < l.pktMsecs+1000

theorem Look.updated_isSome_iff (l : Look) : l.updated.isSome ↔ l.Ordered := by
  unfold updated TimeBase.update Ordered
  by_cases hset : l.base.toSet = true
  · rw [if_pos hset]
    dsimp only
    split_ifs with hlater hborrow
    · simp only [Option.isSome_none, Bool.false_eq_true, false_iff]
      intro h
      exact hborrow.2 (h hset (by omega))
    · exact iff_of_true rfl (by omega)
    · exact iff_of_true rfl (by omega)
  · have hnot : ¬(l.pktSecs > l.pktSecs ∨ (l.pktSecs = l.pktSecs ∧ l.pktMsecs > l.pktMsecs)) := by
      omega
    rw [if_neg hset]
    dsimp only
    rw [if_neg hnot]
    exact iff_of_true rfl (fun h => absurd h hset)

namespace NEIngest

/-- The positions read for a complete frame, with `cp` behind its header. What lies behind
`nc` counts as zero, so nothing is said of a turn after the first that reads there. -/
def frameReads (s : NEIngest) (due : Bool) (cp : ℕ) : List ℕ :=
  List.range' cp 6 ++
    if (s.stampAt cp).updated.isSome ∧ due ∧ s.client.isSome then
      List.range' (cp-8) (u16 (word s.ibuf.buf (cp-2)+9))
    else []

/-- The positions of `buf` that a turn reads. -/
def turnReads (io : DasIO) (due : Bool) (s : NEIngest) : List ℕ :=
  match io.notFound 0xaa s.ibuf with
  | (true, _) => []
  | (false, b) =>
    let sync := if b.cp < b.nc then [b.cp] else []
    if b.cp < b.nc ∧ b.buf.getD b.cp 0 ≠ 0xaa then sync
    else
      let cp := b.cp+1
      if b.nc < cp+6 then sync
      else
        let len := word b.buf (cp+4)
        let header := [cp+4,cp+4+1]
        let cp := cp+6
        if b.nc < cp+len+1 then sync ++ header
        else sync ++ header ++ (s.setIbuf b).frameReads due cp

/-- What `forward_packet` reads lies within the frame. -/
theorem frameReads_lt_iff (s : NEIngest) (due : Bool) (cp : ℕ) (hcp : 8 ≤ cp)
    (hend : cp+word s.ibuf.buf (cp-2)+1 ≤ s.ibuf.nc) :
    (∀ p ∈ s.frameReads due cp, p < s.ibuf.nc) ↔ cp+6 ≤ s.ibuf.nc := by
  have hlen : u16 (word s.ibuf.buf (cp-2)+9) ≤ word s.ibuf.buf (cp-2)+9 := Nat.mod_le _ _
  unfold frameReads
  constructor
  · intro h
    have hlast := h (cp+5) (List.mem_append_left _ (List.mem_range'_1.mpr (by omega)))
    omega
  · intro h p hp
    rcases List.mem_append.mp hp with hp | hp
    · have hp := List.mem_range'_1.mp hp
      omega
    · split_ifs at hp
      · have hp := List.mem_range'_1.mp hp
        omega
      · cases hp

/-- Only the six bytes behind a header are ever read without a look at `nc`. -/
theorem turnReads_lt_iff (io : DasIO) (due : Bool) (s : NEIngest) :
    (∀ p ∈ s.turnReads io due, p < s.ibuf.nc) ↔
      ∀ cp, s.turnPos io = some cp → cp+6 ≤ s.ibuf.nc := by
  -- `turnReads` and `turnPos` make the same tests, so one case distinction serves both.
  unfold turnReads turnPos
  rcases io.notFound_cases 0xaa s.ibuf with ⟨-, hm⟩ | ⟨pre, post, -, -, hm⟩
  · rw [hm]
    simp
  · rw [hm]
    dsimp only
    generalize hq : s.ibuf.cp+(pre.length+1) = q
    have hnc : InputBuffer.nc ⟨s.ibuf.buf,q⟩ = s.ibuf.nc := rfl
    have hsync : ∀ p ∈ (if q < s.ibuf.nc then [q] else []), p < s.ibuf.nc := by
      split_ifs with hlt
      · simpa using hlt
      · simp
    rw [hnc]
    generalize (if q < s.ibuf.nc then [q] else []) = sync at hsync ⊢
    split_ifs with h1 h2 h3
    · simpa using hsync
    · simpa using hsync
    · simp only [List.mem_append, List.mem_cons, List.not_mem_nil, or_false,
        false_implies, implies_true, iff_true]
      rintro p (hp | rfl | rfl)
      · exact hsync p hp
      · omega
      · omega
    · have hframe : (∀ p ∈ (s.setIbuf ⟨s.ibuf.buf,q⟩).frameReads due (q+1+6), p < s.ibuf.nc) ↔
          q+1+6+6 ≤ s.ibuf.nc := (s.setIbuf ⟨s.ibuf.buf,q⟩).frameReads_lt_iff due (q+1+6) (by omega)
        (Nat.not_lt.mp h3)
      simp only [Option.some.injEq, forall_eq']
      rw [← hframe, List.forall_mem_append]
      -- The header is in the buffer, which leaves the reads of the frame.
      apply and_iff_right
      simp only [List.mem_append, List.mem_cons, List.not_mem_nil, or_false]
      rintro p (hp | rfl | rfl)
      · exact hsync p hp
      · omega
      · omega

/-- Where a turn comes to a complete frame, six bytes follow its header, and the assertion
holds of the stamp that they are. -/
def TurnSound (io : DasIO) (s : NEIngest) : Prop :=
  ∀ cp, s.turnPos io = some cp → cp+6 ≤ s.ibuf.nc ∧ (s.stampAt cp).Ordered

theorem loopBody_isSome_iff (io : DasIO) (due : Bool) (s : NEIngest) :
    (s.loopBody io due).isSome ↔ ∀ l, s.turnLook io = some l → l.Ordered := by
  rcases s.loopBody_turn io due with ⟨hpos, b, turn, hbody, -⟩ | ⟨cp, hpos, -, -, hbody⟩
  · rw [hbody, turnLook, hpos]
    simp
  · have htime := s.replayFrame_time due cp (word s.ibuf.buf (cp-2))
    have hiff := (s.stampAt cp).updated_isSome_iff
    rw [← htime, Option.isSome_map] at hiff
    rw [hbody, turnLook, hpos, hiff]
    simp

/-- A call fails the assertion if and only if one of its stamps does. -/
theorem loop_isSome_iff (io : DasIO) (due : ℕ → Bool) (s : NEIngest) :
    (s.protocolInputLoop io due).isSome ↔ ∀ l ∈ s.callLooks io due, l.Ordered := by
  induction due, s using call_induction io with
  | hend due s hnil =>
    rw [protocolInputLoop_end io due s hnil, callLooks_end io due s hnil]
    simp
  | hturn due s hne ih =>
    have hturn := s.loopBody_isSome_iff io (due 0)
    rw [protocolInputLoop_turn io due s hne, callLooks_turn io due s hne, List.forall_mem_append]
    simp only [Option.mem_toList]
    cases hbody : s.loopBody io (due 0) with
    | none =>
      rw [hbody] at hturn
      simp [← hturn]
    | some r =>
      obtain ⟨s', turn⟩ := r
      rw [hbody] at hturn
      rw [Option.bind_some, ← hturn]
      cases turn with
      | again => simpa using ih s' hbody
      | leave => simp
      | giveUp => simp

/-- The positions that a call reads, each with `nc`. -/
def callReads (io : DasIO) (due : ℕ → Bool) (s : NEIngest) : List (ℕ × ℕ) :=
  (s.callTurns io due).flatMap fun t => (t.2.turnReads io t.1).map fun p => (p, t.2.ibuf.nc)

/-- A call whose turns are sound fails no assertion and reads below `nc` only. -/
theorem call_sound_iff (io : DasIO) (due : ℕ → Bool) (s : NEIngest) :
    ((s.protocolInputLoop io due).isSome ∧ ∀ r ∈ s.callReads io due, r.1 < r.2) ↔
      ∀ t ∈ s.callTurns io due, t.2.TurnSound io := by
  have hreads : (∀ r ∈ s.callReads io due, r.1 < r.2) ↔
      ∀ t ∈ s.callTurns io due, ∀ cp, t.2.turnPos io = some cp → cp+6 ≤ t.2.ibuf.nc := by
    simp only [callReads, List.forall_mem_flatMap, List.forall_mem_map, turnReads_lt_iff]
  have hlooks : (∀ l ∈ s.callLooks io due, l.Ordered) ↔
      ∀ t ∈ s.callTurns io due, ∀ cp, t.2.turnPos io = some cp → (t.2.stampAt cp).Ordered := by
    simp only [callLooks, turnLook, List.mem_filterMap, Option.map_eq_some_iff]
    constructor
    · exact fun h t ht cp hcp => h _ ⟨t, ht, cp, hcp, rfl⟩
    · rintro h _ ⟨t, ht, cp, hcp, rfl⟩
      exact h t ht cp hcp
  rw [loop_isSome_iff, hlooks, hreads]
  constructor
  · exact fun h t ht cp hcp => ⟨h.2 t ht cp hcp, h.1 t ht cp hcp⟩
  · exact fun h => ⟨fun t ht cp hcp => (h t ht cp hcp).2, fun t ht cp hcp => (h t ht cp hcp).1⟩

end NEIngest

/-- The emulator, and the positions it has read. -/
structure Probed where
  emu : Emulator
  reads : List (ℕ × ℕ)

namespace Probed

def step (io : DasIO) (w : Probed) (e : EmulatorEvent) : Option Probed :=
  (w.emu.step io e).map fun emu =>
    ⟨emu,w.reads ++ ((w.emu.callOf io e).map fun c => c.1.callReads io c.2).getD []⟩

/-- All reads so far were below `nc`. -/
def InBounds (w : Probed) : Prop := ∀ r ∈ w.reads, r.1 < r.2

/-- Every complete frame that the call comes to is sound. -/
def FramesSound (io : DasIO) (w : Probed) (e : EmulatorEvent) : Prop :=
  ∀ s due, w.emu.callOf io e = some (s, due) → ∀ t ∈ s.callTurns io due, t.2.TurnSound io

theorem step_sound_iff (io : DasIO) (w : Probed) (e : EmulatorEvent) (h : w.InBounds) :
    (∃ w', w.step io e = some w' ∧ w'.InBounds) ↔ w.FramesSound io e := by
  unfold step FramesSound
  rcases w.emu.step_callOf io e with ⟨t, due, hcall, -, hs⟩ | ⟨hcall, s', hs, -⟩
  · have hiff := t.call_sound_iff io due
    rw [hcall, hs, Option.map_some, Option.getD_some]
    constructor
    · rintro ⟨w', hw', hin⟩ _ _ ⟨⟩
      obtain ⟨emu, hemu, rfl⟩ := Option.map_eq_some_iff.mp hw'
      obtain ⟨ingest, hingest, -⟩ := Option.map_eq_some_iff.mp hemu
      refine hiff.mp ⟨by rw [hingest]; rfl, ?_⟩
      exact fun r hr => hin r (List.mem_append_right _ hr)
    · intro hsound
      obtain ⟨hsome, hreads⟩ := hiff.mpr (hsound t due rfl)
      obtain ⟨ingest, hingest⟩ := Option.isSome_iff_exists.mp hsome
      rw [hingest]
      exact ⟨_, rfl, List.forall_mem_append.mpr ⟨h, hreads⟩⟩
  · rw [hcall, hs]
    refine iff_of_true ⟨_, rfl, ?_⟩ nofun
    simpa [InBounds] using h

/-- The emulator fails no assertion and reads below `nc` only, if and only if every complete
frame it comes to has its stamp within the buffer, and that stamp is less than a second of
milliseconds behind when its second is a later one. -/
theorem robust_iff (io : DasIO) (lastSecs lastMsecs : ℕ) (es : List EmulatorEvent) :
    Run.Throughout (step io) (fun _ w => w.InBounds) ⟨.new lastSecs lastMsecs,[]⟩ es ↔
      Run.Along (step io) (FramesSound io) ⟨.new lastSecs lastMsecs,[]⟩ es := by
  refine Run.throughout_iff_along (step io) (fun _ _ => True) (FramesSound io)
    (fun _ w => w.InBounds) (fun _ w => w.InBounds) (fun _ _ h => h) ?_ ?_ _ es ?_
    (Run.along_true _ _ es)
  · intro _ w e h _ hsound
    exact (step_sound_iff io w e h).mpr hsound
  · intro _ w e w' h _ hbad hstep hw'
    exact hbad ((step_sound_iff io w e h).mp ⟨w', hstep, hw'⟩)
  · exact nofun

/-- `NE_ingest` with its first client and `bytes` read. -/
def firstRead (bytes : List UInt8) : NEIngest := ⟨⟨bytes,0⟩,true,⟨false,0,0⟩,0,some 7,[]⟩

theorem firstRead_sound (bytes : List UInt8) (due : ℕ → Bool)
    (h : Run.Throughout (step .keeping) (fun _ w => w.InBounds) ⟨.new 0 0,[]⟩
      [.connected 7,.input bytes due]) :
    ∀ t ∈ (firstRead bytes).callTurns .keeping due, t.2.TurnSound .keeping := by
  obtain ⟨w, hw, hin⟩ := h _ List.prefix_rfl
  rw [Run.run_cons_of_step (step .keeping) rfl] at hw
  obtain ⟨w', hw', ⟨⟩⟩ := Option.bind_eq_some_iff.mp hw
  have hnil : InBounds ⟨(Emulator.new 0 0).connected 7,[]⟩ := fun _ hr => absurd hr List.not_mem_nil
  exact (step_sound_iff .keeping _ (.input bytes due) hnil).mp ⟨w, hw', hin⟩ _ due rfl

def emptyFrame : List UInt8 := [0xaa,0xaa,1,0,0,0,0,0,0x55]

/-- A frame of second 1 with 2000 milliseconds, and one of second 2 with 500. -/
def lateFrames : List UInt8 :=
  [0xaa,0xaa,1,0,0,0,5,0,1,0,0,0,0xd0,7] ++ [0xaa,0xaa,1,0,0,0,5,0,2,0,0,0,0xf4,1]

/-- The stamp of a frame without data lies behind `nc`, and a frame of the next second can be
1500 milliseconds behind. -/
theorem stamps_unchecked :
    ¬Run.Throughout (step .keeping) (fun _ w => w.InBounds) ⟨.new 0 0,[]⟩
      [.connected 7,.input emptyFrame fun _ => true] ∧
    ¬Run.Throughout (step .keeping) (fun _ w => w.InBounds) ⟨.new 0 0,[]⟩
      [.connected 7,.input lateFrames fun _ => true] := by
  constructor
  · intro h
    have hsound := firstRead_sound _ _ h
    rw [NEIngest.callTurns_turn _ _ _ (by decide)] at hsound
    have hturn := hsound _ (List.mem_cons_self ..) 8 (by decide)
    exact absurd hturn.1 (by decide)
  · intro h
    have hsound := firstRead_sound _ _ h
    rw [NEIngest.callTurns_turn _ _ _ (by decide)] at hsound
    have hrest := (List.forall_mem_cons.mp hsound).2
    change ∀ t ∈ NEIngest.callTurns .keeping (fun _ => true)
      ⟨⟨lateFrames,14⟩,true,⟨true,1,2000⟩,1,some 7,[lateFrames.take 14]⟩, _ at hrest
    rw [NEIngest.callTurns_turn _ _ _ (by decide)] at hrest
    have hturn := hrest _ (List.mem_cons_self ..) 22 (by decide)
    exact absurd (hturn.2 rfl (by decide)) (by decide)

end Probed
end Cosmid.Nephex
