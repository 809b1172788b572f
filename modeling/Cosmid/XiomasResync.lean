import Cosmid.XiomasRecovery

/-! How a receiver finds the first packet of its connection behind bytes that belong
to none, and when it stops finding it: `xtr_idle` waits for a packet's first chunk
without dropping what is in front of the packet. -/
namespace Cosmid.Xiomas

open RcvrEvent XiomasTcpRcvr SysEvent XioSystem

variable {out : OutputSocket} {ι : Type}

namespace XiomasTcpRcvr

/-- Of a packet that is not complete, less than a chunk waits in the buffer. -/
theorem MidPacket.nc_lt {r : XiomasTcpRcvr out} {mode : LogMode} {size : ℕ} {body : List UInt8}
    (h : MidPacket r mode size body) (hlen : body.length < size) :
    r.ibuf.nc < maxSpktDataPerSerioPkt := by
  have hrest := Chunks.cut_rest maxSpktDataPerSerioPkt size body
  have htaken := Chunks.taken_le maxSpktDataPerSerioPkt size body
  rw [h.ibuf_eq, InputBuffer.nc_mk]
  rcases Chunks.cut_cases maxSpktDataPerSerioPkt (size-Chunks.taken maxSpktDataPerSerioPkt size body)
    (body.drop (Chunks.taken maxSpktDataPerSerioPkt size body)) with hstop | ⟨h0, hfit⟩
  · unfold maxSpktDataPerSerioPkt at *
    omega
  · rw [Chunks.cut_step _ _ _ h0 hfit] at hrest
    cases hrest

/-- Behind a complete packet, everything waits in the buffer. -/
theorem MidPacket.nc_eq {r : XiomasTcpRcvr out} {mode : LogMode} {size : ℕ} {body : List UInt8}
    (h : MidPacket r mode size body) (hlen : size ≤ body.length) :
    r.ibuf.nc = body.length-size := by
  rw [h.ibuf_eq, InputBuffer.nc_mk, List.length_drop,
    Chunks.taken_of_le_length maxSpktDataPerSerioPkt size body (by decide) hlen]

/-- A read in mid-packet: only behind a complete packet does the buffer grow by
all that has been read. -/
theorem MidPacket.nc_read {r s : XiomasTcpRcvr out} {mode : LogMode} {size : ℕ}
    {body bytes : List UInt8} (h : MidPacket r mode size body)
    (h' : MidPacket s mode size (body ++ bytes)) :
    (body.length < size → s.ibuf.nc < max maxSpktDataPerSerioPkt (r.ibuf.nc+bytes.length)) ∧
      (size ≤ body.length → s.ibuf.nc = r.ibuf.nc+bytes.length) := by
  have hlen : (body ++ bytes).length = body.length+bytes.length := List.length_append
  have htaken := Chunks.taken_le maxSpktDataPerSerioPkt size body
  have hnc : r.ibuf.nc = body.length-Chunks.taken maxSpktDataPerSerioPkt size body := by
    rw [h.ibuf_eq, InputBuffer.nc_mk, List.length_drop]
  constructor
  · intro hshort
    rcases Nat.lt_or_ge (body ++ bytes).length size with hlt | hge
    · have := h'.nc_lt hlt
      omega
    · have := h'.nc_eq hge
      omega
  · intro hge
    have h1 := h.nc_eq hge
    have h2 := h'.nc_eq (by omega)
    omega

end XiomasTcpRcvr

/-- Reads of connection `me` put no more than fits into the input buffer. -/
def ReadsFit (me : ι) (s : XioSystem out ι) (e : SysEvent out ι) : Prop :=
  ∀ bytes, e = .read me bytes → (s.rcvr me).ibuf.nc+bytes.length ≤ rcvrBufsize-1

/-- What resynchronisation is for: as soon as the first chunk of the first packet
has been read, this chunk is the first thing logged, and the buffer is never full. -/
def Resynced [DecidableEq ι] (me : ι) (stream : List UInt8) (i size : ℕ)
    (es : List (SysEvent out ι)) (s : XioSystem out ι) : Prop :=
  (i+min maxSpktDataPerSerioPkt size ≤ (inputOf me es).length →
    (s.rcvr me).state = .xtrMidPkt ∧ ∃ mode evs, mode ≠ .logCurfile ∧ (s.rcvr me).packetTrace =
      logPacket ((stream.drop i).take (min maxSpktDataPerSerioPkt size)) mode :: evs) ∧
  (s.rcvr me).ibuf.nc < rcvrBufsize-1

/-- No read fills the buffer while the input then ends behind the first packet's
header but inside its first chunk, or once this packet is complete. Of a packet of
less than 16 bytes, whose sum wrapped, no read ends inside the header's last bytes. -/
def KeepsRoom [DecidableEq ι] (me : ι) (i size : ℕ) (es : List (SysEvent out ι))
    (s : XioSystem out ι) (e : SysEvent out ι) : Prop :=
  ∀ bytes, e = .read me bytes →
    ((s.rcvr me).ibuf.nc+bytes.length = rcvrBufsize-1 →
      ¬(i+xioHarvardHeaderSize ≤ (inputOf me es).length+bytes.length ∧
        (inputOf me es).length+bytes.length < i+min maxSpktDataPerSerioPkt size) ∧
      (inputOf me es).length < i+size) ∧
    ¬(i+min maxSpktDataPerSerioPkt size ≤ (inputOf me es).length+bytes.length ∧
      (inputOf me es).length+bytes.length < i+xioHarvardHeaderSize)

theorem Kept.seeking {r s : XiomasTcpRcvr out} {i : ℕ} {input : List UInt8} (h : Kept r s)
    (hr : Seeking i r input) : Seeking i s input := by
  refine ⟨?_, ?_, ?_, ?_⟩
  · rw [h.state_eq]
    exact hr.state_ne
  · rw [h.packetTrace_eq, hr.packetTrace_eq]
  · rw [h.ibuf_eq]
    exact hr.cp_le
  · rw [h.ibuf_eq]
    exact hr.dropped

/-- The invariant: with room in the buffer, the receiver is on its way to the
first packet or has begun it. -/
structure Resyncing [DecidableEq ι] (me : ι) (stream : List UInt8) (i size : ℕ)
    (es : List (SysEvent out ι)) (s : XioSystem out ι) : Prop where
  inv : SysInv es s
  input_front : inputOf me es <+: stream
  room : (s.rcvr me).ibuf.nc < rcvrBufsize-1
  progress : (Seeking i (s.rcvr me) (inputOf me es) ∧
      (inputOf me es).length < i+min maxSpktDataPerSerioPkt size) ∨
    (i+acceptBytes size ≤ (inputOf me es).length ∧
      ∃ mode, MidPacket (s.rcvr me) mode size ((inputOf me es).drop i))

/-- One read of the connection, with the buffer after it. -/
theorem sysStep_read_resyncing (io : DasIO) (serio : SerioLib) [DecidableEq ι] (me : ι)
    {stream : List UInt8} {i size : ℕ} (hfirst : FirstHeader stream i size)
    (es : List (SysEvent out ι)) (s s' : XioSystem out ι) (bytes : List UInt8)
    (h : Resyncing me stream i size es s) (hin : inputOf me es ++ bytes <+: stream)
    (hfit : (s.rcvr me).ibuf.nc+bytes.length ≤ rcvrBufsize-1)
    (hs : sysStep io serio s (.read me bytes) = some s') :
    ((inputOf me es ++ bytes).length < i+acceptBytes size ∧
      Seeking i (s'.rcvr me) (inputOf me es ++ bytes) ∧
      ((inputOf me es ++ bytes).length < i+xioHarvardHeaderSize →
        (s'.rcvr me).ibuf.nc < xioHarvardHeaderSize) ∧
      (i+xioHarvardHeaderSize ≤ (inputOf me es ++ bytes).length →
        (s'.rcvr me).ibuf.nc = (s.rcvr me).ibuf.nc+bytes.length)) ∨
    (i+acceptBytes size ≤ (inputOf me es ++ bytes).length ∧
      (∃ mode, MidPacket (s'.rcvr me) mode size ((inputOf me es ++ bytes).drop i)) ∧
      ((inputOf me es).length < i+size → (s'.rcvr me).ibuf.nc < rcvrBufsize-1) ∧
      (i+size ≤ (inputOf me es).length →
        (s'.rcvr me).ibuf.nc = (s.rcvr me).ibuf.nc+bytes.length)) := by
  rcases h.progress with ⟨hseek, hshort⟩ | ⟨hlong, mode, hmid⟩
  · -- The search goes on, or this read completes the first chunk.
    obtain ⟨r, evs, heq, hcases⟩ :=
      protocolInput_seeking io serio me (s.rcvr me) s.exp hfirst hin hseek
    rw [sysStep_read_rcvr io serio heq hs]
    rcases hcases with hwait | ⟨hlong, hmid, hnc⟩
    · exact Or.inl hwait
    · exact Or.inr ⟨hlong, hmid, fun _ => by omega, fun hi => by omega⟩
  · obtain ⟨r, hmid', -, -, heq⟩ :=
      protocolInput_midPacket io serio me (s.rcvr me) s.exp mode size _ bytes hmid
    rw [sysStep_read_rcvr io serio heq hs]
    obtain ⟨hlt, hge⟩ := hmid.nc_read hmid'
    have hroom : maxSpktDataPerSerioPkt < rcvrBufsize-1 := by decide
    have hhdr : xioHarvardHeaderSize ≤ acceptBytes size := Nat.le_max_left _ _
    rw [List.length_drop] at hlt hge
    right
    rw [List.length_append, List.drop_append_of_le_length (by omega)]
    refine ⟨by omega, ⟨mode, hmid'⟩, ?_, ?_⟩
    · intro hi
      have := hlt (by omega)
      omega
    · intro hi
      exact hge (by omega)

/-- The invariant says that resynchronisation works so far. -/
theorem Resyncing.resynced [DecidableEq ι] {me : ι} {stream : List UInt8} {i size : ℕ}
    {es : List (SysEvent out ι)} {s : XioSystem out ι}
    (h : Resyncing me stream i size es s) : Resynced me stream i size es s := by
  refine ⟨fun hlen => ?_, h.room⟩
  rcases h.progress with ⟨-, hshort⟩ | ⟨-, mode, hmid⟩
  · omega
  · have hfits := hmid.first_le
    have htake : ((inputOf me es).drop i).take (min maxSpktDataPerSerioPkt size) =
        (stream.drop i).take (min maxSpktDataPerSerioPkt size) := by
      obtain ⟨rest, hrest⟩ := h.input_front.drop i
      rw [← hrest, List.take_append_of_le_length hfits]
    refine ⟨hmid.state_eq, mode, ?_⟩
    rw [hmid.packetTrace_eq, Chunks.cut_step _ _ _ hmid.first_pos hfits, packetEvents, htake]
    exact ⟨_, hmid.mode_ne, rfl⟩

/-- An event that is no read of the connection. -/
theorem sysStep_other_resyncing (io : DasIO) (serio : SerioLib) [DecidableEq ι] (me : ι)
    {stream : List UInt8} {i size : ℕ} (es : List (SysEvent out ι)) (s : XioSystem out ι)
    (e : SysEvent out ι) (h : Resyncing me stream i size es s)
    (hnot : ∀ bytes, e ≠ .read me bytes) :
    ∃ s', sysStep io serio s e = some s' ∧ Resyncing me stream i size (es ++ [e]) s' := by
  obtain ⟨s', ops, hs, -, hcall, hinv, -⟩ := sysStep_sysInv io serio es s h.inv e
  have hkept := hcall.kept me hnot
  have hin : inputOf me (es ++ [e]) = inputOf me es := by
    rw [inputOf_append, bytesOf_eq_nil me e hnot, List.append_nil]
  refine ⟨s', hs, hinv, ?_, ?_, ?_⟩
  · rw [hin]
    exact h.input_front
  · rw [hkept.ibuf_eq]
    exact h.room
  · rw [hin]
    rcases h.progress with ⟨hseek, hshort⟩ | ⟨hlong, mode, hmid⟩
    · exact Or.inl ⟨hkept.seeking hseek, hshort⟩
    · exact Or.inr ⟨hlong, mode, hkept.midPacket hmid⟩

theorem sysStep_resyncing (io : DasIO) (serio : SerioLib) [DecidableEq ι] (me : ι)
    {stream : List UInt8} {i size : ℕ} (hfirst : FirstHeader stream i size)
    (es : List (SysEvent out ι)) (s : XioSystem out ι) (e : SysEvent out ι)
    (h : Resyncing me stream i size es s) (hin : inputOf me (es ++ [e]) <+: stream)
    (hfit : ReadsFit me s e) (hgood : KeepsRoom me i size es s e) :
    ∃ s', sysStep io serio s e = some s' ∧ Resyncing me stream i size (es ++ [e]) s' := by
  by_cases hread : ∃ bytes, e = .read me bytes
  · obtain ⟨bytes, rfl⟩ := hread
    have hfits := hfit bytes rfl
    obtain ⟨hroom, hlast⟩ := hgood bytes rfl
    have hinput := inputOf_read me es bytes
    have hlen : (inputOf me es ++ bytes).length = (inputOf me es).length+bytes.length :=
      List.length_append
    rw [hinput] at hin
    obtain ⟨s', ops, hs, -, -, hinv, -⟩ := sysStep_sysInv io serio es s h.inv (.read me bytes)
    have hhdr : xioHarvardHeaderSize < rcvrBufsize-1 := by decide
    have haccept : acceptBytes size =
        max xioHarvardHeaderSize (min maxSpktDataPerSerioPkt size) := rfl
    refine ⟨s', hs, ?_⟩
    rcases sysStep_read_resyncing io serio me hfirst es s s' bytes h hin hfits hs with
      ⟨hshort, hseek, hsmall, hgrown⟩ | ⟨hlong, hmid, hleft, hgrown⟩
    · refine ⟨hinv, by rwa [hinput], ?_, Or.inl ?_⟩
      · rcases Nat.lt_or_ge (inputOf me es ++ bytes).length (i+xioHarvardHeaderSize) with
          hpart | hfull
        · exact (hsmall hpart).trans hhdr
        · -- From the header on nothing is dropped until the first chunk is there.
          have hnc := hgrown hfull
          have hne : (s.rcvr me).ibuf.nc+bytes.length ≠ rcvrBufsize-1 := by
            intro heq
            exact (hroom heq).1 ⟨by omega, by omega⟩
          omega
      · rw [hinput]
        exact ⟨hseek, by omega⟩
    · refine ⟨hinv, by rwa [hinput], ?_, Or.inr ?_⟩
      · rcases Nat.lt_or_ge (inputOf me es).length (i+size) with hpart | hfull
        · exact hleft hpart
        · -- Behind the packet nothing is dropped any more.
          have hnc := hgrown hfull
          have hne : (s.rcvr me).ibuf.nc+bytes.length ≠ rcvrBufsize-1 := by
            intro heq
            have := (hroom heq).2
            omega
          omega
      · rw [hinput]
        exact ⟨hlong, hmid⟩
  · exact sysStep_other_resyncing io serio me es s e h fun bytes he => hread ⟨bytes, he⟩

/-- A read after which everything is as it should be has kept the condition: outside
of it, a read fills the buffer or ends inside the header of a shorter packet. -/
theorem keepsRoom_of_resynced (io : DasIO) (serio : SerioLib) [DecidableEq ι] (me : ι)
    {stream : List UInt8} {i size : ℕ} (hfirst : FirstHeader stream i size)
    (es : List (SysEvent out ι)) (s s' : XioSystem out ι) (e : SysEvent out ι)
    (h : Resyncing me stream i size es s) (hin : inputOf me (es ++ [e]) <+: stream)
    (hfit : ReadsFit me s e) (hs : sysStep io serio s e = some s')
    (hq : Resynced me stream i size (es ++ [e]) s') : KeepsRoom me i size es s e := by
  rintro bytes rfl
  have hinput := inputOf_read me es bytes
  have hlen : (inputOf me es ++ bytes).length = (inputOf me es).length+bytes.length :=
    List.length_append
  have haccept : acceptBytes size =
      max xioHarvardHeaderSize (min maxSpktDataPerSerioPkt size) := rfl
  obtain ⟨hlogged, hroom⟩ := hq
  rw [hinput] at hin hlogged
  have hcall := sysStep_read_resyncing io serio me hfirst es s s' bytes h hin (hfit bytes rfl) hs
  refine ⟨fun hfull => ⟨?_, ?_⟩, ?_⟩
  · rintro ⟨hhdr, hchunk⟩
    rcases hcall with ⟨-, -, -, hgrown⟩ | ⟨hlong, -⟩
    · have := hgrown (by omega)
      omega
    · omega
  · by_contra hcomplete
    have hold : i+acceptBytes size ≤ (inputOf me es).length := by
      rcases h.progress with ⟨-, hshort⟩ | ⟨hlong, -⟩
      · omega
      · exact hlong
    rcases hcall with ⟨hshort, -⟩ | ⟨-, -, -, hgrown⟩
    · omega
    · have := hgrown (by omega)
      omega
  · rintro ⟨hlong, hhdr⟩
    obtain ⟨-, mode, evs, -, hevs⟩ := hlogged (by omega)
    rcases hcall with ⟨-, hseek, -⟩ | ⟨haccepted, -⟩
    · rw [hseek.packetTrace_eq] at hevs
      cases hevs
    · omega

theorem resyncing_started [DecidableEq ι] (me : ι) {stream : List UInt8} {i size : ℕ}
    (hfirst : FirstHeader stream i size) (s : XioSystem out ι) (hs : s.Started) :
    Resyncing me stream i size [] s := by
  have hpos := hfirst.first_pos
  obtain ⟨transmitting, sock, hi⟩ := hs.fresh me
  refine ⟨sysInv_started s hs, List.nil_prefix, ?_, Or.inl ⟨?_, ?_⟩⟩
  · have hroom : 0 < rcvrBufsize-1 := by decide
    rw [hi]
    exact hroom
  · rw [hi]
    exact seeking_new i transmitting sock
  · simp only [inputOf, List.flatMap_nil, List.length_nil]
    omega

/-- On a stream with a first header, the receiver accepts its packet as soon as
the first chunk is there and always has room to read, exactly in the runs in which
no read fills the buffer at the wrong moment. -/
theorem resynced_iff (io : DasIO) (serio : SerioLib) [DecidableEq ι] (me : ι)
    (stream : List UInt8) (i size : ℕ) (hfirst : FirstHeader stream i size)
    (s : XioSystem out ι) (hs : s.Started) (es : List (SysEvent out ι))
    (hin : inputOf me es <+: stream) (hfit : Run.Along (sysStep io serio) (ReadsFit me) s es) :
    Run.Throughout (sysStep io serio) (Resynced me stream i size) s es ↔
      Run.AlongHistory (sysStep io serio) (KeepsRoom me i size) s es := by
  have hfit' := (Run.along_iff_alongHistory _ _ s es).mp hfit
  refine Run.throughout_iff_alongHistory (sysStep io serio)
    (fun h t e => inputOf me (h ++ [e]) <+: stream ∧ ReadsFit me t e) (KeepsRoom me i size)
    (Resyncing me stream i size) (Resynced me stream i size) (fun h t ht => ht.resynced)
    ?_ ?_ s es (resyncing_started me hfirst s hs) ?_
  · rintro h t e ht ⟨hpre, hfits⟩ hgood
    exact sysStep_resyncing io serio me hfirst h t e ht hpre hfits hgood
  · rintro h t e t' ht ⟨hpre, hfits⟩ hbad hstep hq
    exact hbad (keepsRoom_of_resynced io serio me hfirst h t t' e ht hpre hfits hstep hq)
  · intro h e t hpre hr
    refine ⟨?_, hfit' h e t hpre hr⟩
    obtain ⟨rest, rfl⟩ := hpre
    rw [inputOf, List.flatMap_append] at hin
    exact (List.prefix_append _ _).trans hin

theorem firstHeader_barePacket : FirstHeader barePacket 0 16 :=
  ⟨by decide, by decide, by decide, by decide, fun _ hj => absurd hj (Nat.not_lt_zero _)⟩

theorem resynced_bare :
    Run.Throughout (sysStep DasIO.keeping SerioLib.packed) (Resynced () barePacket 0 16)
      (.new (fun _ => false) (fun _ => ()) (fun _ => 0) () : XioSystem .direct Unit)
      [.read () barePacket] := by
  set s0 : XioSystem .direct Unit := .new (fun _ => false) (fun _ => ()) (fun _ => 0) ()
  have hlen : barePacket.length = 16 := by decide
  have hsingle (P : List (SysEvent .direct Unit) → XioSystem .direct Unit →
      SysEvent .direct Unit → Prop) (h : P [] s0 (.read () barePacket)) :
      Run.AlongHistory (sysStep DasIO.keeping SerioLib.packed) P s0 [.read () barePacket] := by
    intro fs e t hpre hr
    cases fs with
    | nil =>
      obtain rfl := Option.some.inj hr
      rw [(List.cons_prefix_cons.mp hpre).1]
      exact h
    | cons f fs =>
      have := (List.cons_prefix_cons.mp hpre).2
      simp at this
  have hfit : Run.Along (sysStep DasIO.keeping SerioLib.packed) (ReadsFit ()) s0
      [.read () barePacket] := by
    refine (Run.along_iff_alongHistory _ _ _ _).mpr (hsingle _ ?_)
    rintro bytes hb
    obtain rfl := (SysEvent.read.inj hb).2
    decide
  refine (resynced_iff DasIO.keeping SerioLib.packed () barePacket 0 16 firstHeader_barePacket s0
    (started_new _ _ _ _) _ ?_ hfit).mpr (hsingle _ ?_)
  · simp [inputOf, bytesOf]
  · rintro bytes hb
    obtain rfl := (SysEvent.read.inj hb).2
    rw [hlen]
    decide

/-- Garbage without `$` in front of a packet. -/
theorem firstHeader_behind {garbage packet : List UInt8} {size : ℕ}
    (hnot : 0x24 ∉ garbage) (h : FirstHeader packet 0 size) :
    FirstHeader (garbage ++ packet) garbage.length size := by
  have hdrop : (garbage ++ packet).drop garbage.length = packet := List.drop_left
  have hle := h.header_le
  have hL := h.length_eq
  have hpass := h.passes
  rw [List.drop_zero] at hL hpass
  refine ⟨by rw [List.length_append]; omega, by rwa [hdrop], by rwa [hdrop], h.size_ge, ?_⟩
  intro j hj hp
  exact hnot (start_mem_of_validateHeader hj hp.1)

/-- A packet of 1000 bytes. -/
def kilobytePacket : List UInt8 :=
  xhgFillHeader Xhpid.fireLayer Xhsrc.opu 0 984 1 ++ List.replicate 984 0

/-- Garbage that leaves just the room for a header. -/
def longGarbage : List UInt8 := List.replicate 49983 0

theorem firstHeader_kilobytePacket : FirstHeader kilobytePacket 0 1000 := by
  have hlen : (xhgFillHeader Xhpid.fireLayer Xhsrc.opu 0 984 1).length = xioHarvardHeaderSize := by
    decide
  have htake : (kilobytePacket.drop 0).take xioHarvardHeaderSize =
      xhgFillHeader Xhpid.fireLayer Xhsrc.opu 0 984 1 := by
    rw [List.drop_zero, kilobytePacket, ← hlen, List.take_left]
  refine ⟨?_, ?_, ?_, by decide, fun _ hj => absurd hj (Nat.not_lt_zero _)⟩
  · rw [kilobytePacket, List.length_append, hlen]
    omega
  · rw [htake]
    decide
  · rw [htake]
    decide

/-- Behind garbage that fills the buffer up to the end of the header, the call
waits for the rest of the first chunk and has no room left to read it. -/
theorem stalled_behind_garbage :
    FirstHeader (longGarbage ++ kilobytePacket) 49983 1000 ∧
    ReadsFit () (.new (fun _ => false) (fun _ => ()) (fun _ => 0) () : XioSystem .direct Unit)
      (.read () (longGarbage ++ kilobytePacket.take xioHarvardHeaderSize)) ∧
    ∃ s' : XioSystem .direct Unit, Run.run (sysStep DasIO.keeping SerioLib.packed)
      (.new (fun _ => false) (fun _ => ()) (fun _ => 0) ())
      [.read () (longGarbage ++ kilobytePacket.take xioHarvardHeaderSize)] = some s' ∧
      (s'.rcvr ()).state ≠ .xtrMidPkt ∧ (s'.rcvr ()).packetTrace = [] ∧
      (s'.rcvr ()).ibuf.nc = rcvrBufsize-1 := by
  set s0 : XioSystem .direct Unit := .new (fun _ => false) (fun _ => ()) (fun _ => 0) ()
  have hgarbage : longGarbage.length = 49983 := List.length_replicate
  have hnot : 0x24 ∉ longGarbage := by
    intro hmem
    exact absurd (List.eq_of_mem_replicate hmem) (by decide)
  have hfirst : FirstHeader (longGarbage ++ kilobytePacket) 49983 1000 := by
    rw [← hgarbage]
    exact firstHeader_behind hnot firstHeader_kilobytePacket
  have hlen : (longGarbage ++ kilobytePacket.take xioHarvardHeaderSize).length = 49999 := by
    have hle := firstHeader_kilobytePacket.header_le
    rw [List.length_append, hgarbage, List.length_take_of_le (by omega)]
    rfl
  have hsize : rcvrBufsize-1 = 49999 := rfl
  have hempty : (s0.rcvr ()).ibuf.nc = 0 := rfl
  have hfit : (s0.rcvr ()).ibuf.nc+(longGarbage ++ kilobytePacket.take
      xioHarvardHeaderSize).length ≤ rcvrBufsize-1 := by
    rw [hlen, hempty, hsize]
  have hstart := resyncing_started () hfirst s0 (started_new _ _ _ _)
  obtain ⟨s', ops, hs, -⟩ := sysStep_sysInv DasIO.keeping SerioLib.packed [] s0 hstart.inv
    (.read () (longGarbage ++ kilobytePacket.take xioHarvardHeaderSize))
  have hin : inputOf () ([] : List (SysEvent .direct Unit)) ++
      (longGarbage ++ kilobytePacket.take xioHarvardHeaderSize) <+:
        longGarbage ++ kilobytePacket := by
    rw [inputOf, List.flatMap_nil, List.nil_append]
    exact (List.prefix_append_right_inj longGarbage).mpr (List.take_prefix _ _)
  have hchunk : acceptBytes 1000 = 956 := by decide
  have hhdr : xioHarvardHeaderSize = 16 := rfl
  refine ⟨hfirst, ?_, s', ?_, ?_⟩
  · rintro bytes hb
    obtain rfl := (SysEvent.read.inj hb).2
    exact hfit
  · simp only [Run.run, hs, Option.bind_some]
  · rcases sysStep_read_resyncing DasIO.keeping SerioLib.packed () hfirst [] s0 s' _ hstart hin
      hfit hs with ⟨-, hseek, -, hgrown⟩ | ⟨hlong, -⟩
    · refine ⟨hseek.state_ne, hseek.packetTrace_eq, ?_⟩
      rw [hgrown ?_, hlen, hempty, hsize]
      rw [inputOf, List.flatMap_nil, List.nil_append, hlen, hhdr]
    · rw [inputOf, List.flatMap_nil, List.nil_append, hlen, hchunk] at hlong
      omega

end Cosmid.Xiomas
