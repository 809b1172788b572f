import Cosmid.XiomasRcvrRun

/-! What a receiver has of its packet between two calls of `protocol_input`, and
what one call adds to that. -/
namespace Cosmid.Xiomas

namespace RcvrEvent

theorem aboutPacket_of_mem_tailEvents (transmitting : Bool) (remaining : ℕ) (c : List UInt8)
    (e : RcvrEvent) (h : e ∈ tailEvents transmitting remaining c) : e.aboutPacket = true := by
  unfold tailEvents at h
  rcases List.mem_append.mp h with h | h
  · split_ifs at h
    · obtain rfl := List.mem_singleton.mp h
      rfl
    · cases h
  · split_ifs at h
    · obtain rfl := List.mem_singleton.mp h
      rfl
    · cases h

theorem filter_packetEvents (transmitting : Bool) (mode : LogMode) (remaining : ℕ)
    (cs : List (List UInt8)) : (packetEvents transmitting mode remaining cs).filter aboutPacket =
      packetEvents transmitting mode remaining cs := by
  apply List.filter_eq_self.mpr
  induction cs generalizing mode remaining with
  | nil =>
    intro e he
    cases he
  | cons c cs ih =>
    intro e he
    rw [packetEvents] at he
    rcases List.mem_cons.mp he with rfl | he
    · rfl
    rcases List.mem_append.mp he with he | he
    · exact aboutPacket_of_mem_tailEvents _ _ _ e he
    · exact ih _ _ e he

/-- The events of a packet can be collected in several parts; only its very
first chunk is logged in another mode. -/
theorem packetEvents_append (transmitting : Bool) (mode : LogMode) (remaining : ℕ)
    (cs ds : List (List UInt8)) (h : cs ≠ []) :
    packetEvents transmitting mode remaining (cs ++ ds) =
      packetEvents transmitting mode remaining cs ++
        packetEvents transmitting .logCurfile (remaining-cs.flatten.length) ds := by
  induction cs generalizing mode remaining with
  | nil => exact absurd rfl h
  | cons c cs ih =>
    cases cs with
    | nil => simp [packetEvents]
    | cons c' cs =>
      have hc := ih .logCurfile (remaining-c.length) (by simp)
      rw [Nat.sub_sub, ← List.length_append, ← List.flatten_cons] at hc
      rw [List.cons_append, packetEvents, packetEvents, hc, List.cons_append, List.append_assoc]

end RcvrEvent

open RcvrEvent

namespace XiomasTcpRcvr

variable {out : OutputSocket} {ι : Type}

/-- The packet events of the trace. -/
def packetTrace (r : XiomasTcpRcvr out) : List RcvrEvent := r.trace.filter aboutPacket

theorem Quiet.packetTrace_eq {r s : XiomasTcpRcvr out} (h : Quiet r s) :
    s.packetTrace = r.packetTrace := by
  obtain ⟨evs, h1, h2⟩ := h
  have hnil : evs.filter aboutPacket = [] := by
    apply List.filter_eq_nil_iff.mpr
    intro e he
    rw [h2 e he]
    exact Bool.false_ne_true
  rw [packetTrace, h1, List.filter_append, hnil, List.append_nil, packetTrace]

theorem packetTrace_afterChunks (r : XiomasTcpRcvr out) (mode : LogMode) :
    (r.afterChunks mode).packetTrace = r.packetTrace ++ r.chunkEvents mode := by
  rw [packetTrace, afterChunks, List.filter_append, chunkEvents, filter_packetEvents, packetTrace]

/-- No packet has begun on the connection; `input` is all that has been read. -/
structure Searching (r : XiomasTcpRcvr out) (input : List UInt8) : Prop where
  state_ne : r.state ≠ .xtrMidPkt
  packetTrace_eq : r.packetTrace = []
  buf_suffix : r.ibuf.buf <:+ input

/-- The receiver between two calls, with `body` received since the start of its
packet of `size` bytes: the complete chunks have been taken, and the rest of
`body` waits in the buffer. -/
structure MidPacket (r : XiomasTcpRcvr out) (mode : LogMode) (size : ℕ) (body : List UInt8) :
    Prop where
  state_eq : r.state = .xtrMidPkt
  mode_ne : mode ≠ .logCurfile
  header_le : xioHarvardHeaderSize ≤ body.length
  valid : xhgValidateHeader (body.take xioHarvardHeaderSize) size = true
  size_le : size ≤ maxSpktLength+1000
  first_pos : 0 < min maxSpktDataPerSerioPkt size
  first_le : min maxSpktDataPerSerioPkt size ≤ body.length
  packetTrace_eq : r.packetTrace = packetEvents r.transmittingCurrentPacket mode size
    (Chunks.cut maxSpktDataPerSerioPkt size body)
  remaining_eq : r.bytesRemainingInPacket = size-Chunks.taken maxSpktDataPerSerioPkt size body
  ibuf_eq : r.ibuf = ⟨body.drop (Chunks.taken maxSpktDataPerSerioPkt size body),0⟩

theorem searching_new (transmitting : Bool) (sock : out.State) :
    (new transmitting sock : XiomasTcpRcvr out).Searching [] :=
  ⟨by simp [new], rfl, List.suffix_rfl⟩

theorem MidPacket.chunks_ne_nil {r : XiomasTcpRcvr out} {mode : LogMode} {size : ℕ}
    {body : List UInt8} (h : MidPacket r mode size body) :
    Chunks.cut maxSpktDataPerSerioPkt size body ≠ [] := by
  rw [Chunks.cut_step _ _ _ h.first_pos h.first_le]
  exact List.cons_ne_nil _ _

/-- The events of the chunks that `bytes` completes in mid-packet. -/
def restEvents (r : XiomasTcpRcvr out) (bytes : List UInt8) : List RcvrEvent :=
  packetEvents r.transmittingCurrentPacket .logCurfile r.bytesRemainingInPacket
    (Chunks.cut maxSpktDataPerSerioPkt r.bytesRemainingInPacket (r.ibuf.unread ++ bytes))

/-- What one call of `protocol_input` can do to a receiver that has read `input`:
nothing about a packet, begin its packet, or go on with it. `evs` are the packet
events of the call. -/
inductive PacketCall (circSpace : ℕ) (input bytes : List UInt8) (r s : XiomasTcpRcvr out) :
    List RcvrEvent → Prop
  | searched : Searching r input → Searching s (input ++ bytes) →
      PacketCall circSpace input bytes r s []
  | began (mode : LogMode) (size : ℕ) (body : List UInt8) : Searching r input →
      MidPacket s mode size body → body <:+ input ++ bytes →
      s.transmittingCurrentPacket = decide (totalPktsSize size ≤ circSpace) →
      PacketCall circSpace input bytes r s s.packetTrace
  | continued (mode : LogMode) (size : ℕ) (body : List UInt8) : body <:+ input →
      MidPacket r mode size body → MidPacket s mode size (body ++ bytes) →
      s.transmittingCurrentPacket = r.transmittingCurrentPacket →
      s.packetTrace = r.packetTrace ++ restEvents r bytes →
      PacketCall circSpace input bytes r s (restEvents r bytes)

/-- Reading on in mid-packet. -/
theorem protocolInput_midPacket (io : DasIO) (serio : SerioLib) (me : ι) (r : XiomasTcpRcvr out)
    (x : XiomasTcpExport out ι) (mode : LogMode) (size : ℕ) (body bytes : List UInt8)
    (h : MidPacket r mode size body) :
    ∃ s, MidPacket s mode size (body ++ bytes) ∧
      s.transmittingCurrentPacket = r.transmittingCurrentPacket ∧
      s.packetTrace = r.packetTrace ++ restEvents r bytes ∧
      protocolInput io serio me r x bytes =
        (Run.run (exportStep serio) x (exportOps out me (restEvents r bytes))).map fun y => (s,y) := by
  set r1 : XiomasTcpRcvr out := {r with ibuf := io.read r.ibuf bytes} with hr1
  have hunread : r1.ibuf.unread =
      body.drop (Chunks.taken maxSpktDataPerSerioPkt size body) ++ bytes := by
    rw [hr1, h.ibuf_eq]
    simp only [InputBuffer.unread_mk_zero, DasIO.read_zero]
  have hrem : r1.bytesRemainingInPacket =
      size-Chunks.taken maxSpktDataPerSerioPkt size body := h.remaining_eq
  have hsize := h.size_le
  have hevs : r1.chunkEvents .logCurfile = restEvents r bytes := by
    rw [chunkEvents, chunks, hunread, restEvents, h.ibuf_eq]
    rfl
  have htrace : (r1.afterChunks .logCurfile).packetTrace =
      r.packetTrace ++ restEvents r bytes := by
    rw [← hevs]
    exact packetTrace_afterChunks r1 _
  refine ⟨r1.afterChunks .logCurfile, ?_, rfl, htrace, ?_⟩
  · have htake : (body ++ bytes).take xioHarvardHeaderSize = body.take xioHarvardHeaderSize :=
      List.take_append_of_le_length h.header_le
    have htaken : Chunks.taken maxSpktDataPerSerioPkt size (body ++ bytes) =
        Chunks.taken maxSpktDataPerSerioPkt size body+r1.chunkBytes := by
      rw [Chunks.taken_append, chunkBytes, hunread, hrem]
    -- Header and first chunk stand at the beginning of `body`, as before.
    refine ⟨h.state_eq, h.mode_ne, ?_, ?_, h.size_le, h.first_pos, ?_, ?_, ?_, ?_⟩
    · rw [List.length_append]
      exact Nat.le_add_right_of_le h.header_le
    · rw [htake]
      exact h.valid
    · rw [List.length_append]
      exact Nat.le_add_right_of_le h.first_le
    · have hcut := Chunks.cut_append maxSpktDataPerSerioPkt size body bytes
      rw [htrace, h.packetTrace_eq, restEvents, h.remaining_eq, h.ibuf_eq, hcut,
        packetEvents_append _ _ _ _ _ h.chunks_ne_nil]
      rfl
    · rw [htaken, ← Nat.sub_sub, ← hrem]
      rfl
    · rw [htaken, ← List.drop_drop, List.drop_append_of_le_length (Chunks.taken_le _ _ _).2,
        ← hunread]
      rfl
  · rw [← hevs]
    exact protocolInputLoop_mid io serio me r1 x h.state_eq
      (by rw [hrem]; unfold maxSpktLength at hsize; omega)

/-- Reading on in the search for a packet. -/
theorem protocolInput_searching (io : DasIO) (serio : SerioLib) (me : ι) (r : XiomasTcpRcvr out)
    (x : XiomasTcpExport out ι) (input bytes : List UInt8) (h : Searching r input) :
    ∃ s evs, PacketCall x.circSpace input bytes r s evs ∧
      protocolInput io serio me r x bytes =
        (Run.run (exportStep serio) x (exportOps out me evs)).map fun y => (s,y) := by
  set r1 : XiomasTcpRcvr out := {r with ibuf := io.read r.ibuf bytes} with hr1
  have hbuf : r1.ibuf.buf <:+ input ++ bytes := by
    obtain ⟨pre, hpre⟩ := h.buf_suffix
    refine ⟨pre, ?_⟩
    rw [← hpre, List.append_assoc]
    rfl
  have hquiet : Quiet r r1 := .of_trace_eq rfl
  rcases protocolInputLoop_search io serio me r1 x h.state_ne with
    ⟨s, hs, hsearch⟩ | ⟨r0, mode, ⟨hmode, hacc⟩, hs⟩
  · refine ⟨s, [], .searched h ⟨hsearch.state_ne, ?_, hsearch.buf_suffix.trans hbuf⟩, hs⟩
    rw [(hquiet.trans hsearch.quiet).packetTrace_eq]
    exact h.packetTrace_eq
  · have htrace : (r0.afterChunks mode).packetTrace = r0.chunkEvents mode := by
      rw [packetTrace_afterChunks, (hquiet.trans hacc.quiet).packetTrace_eq, h.packetTrace_eq,
        List.nil_append]
    refine ⟨r0.afterChunks mode, (r0.afterChunks mode).packetTrace,
      .began mode r0.bytesRemainingInPacket r0.ibuf.unread h ?_ ?_ ?_, ?_⟩
    · exact ⟨hacc.state_eq, hmode, hacc.header_le, hacc.valid, hacc.size_le, hacc.first_pos,
        hacc.first_le, htrace, rfl, rfl⟩
    · exact (hacc.suffix.trans (unread_suffix_buf _)).trans hbuf
    · exact hacc.transmitting_eq
    · rw [htrace]
      exact hs

/-- A receiver that has read `input` is in one of the two. -/
def Receiving (r : XiomasTcpRcvr out) (input : List UInt8) : Prop :=
  Searching r input ∨ ∃ mode size body, body <:+ input ∧ MidPacket r mode size body

theorem PacketCall.receiving {circSpace : ℕ} {input bytes : List UInt8} {r s : XiomasTcpRcvr out}
    {evs : List RcvrEvent} (h : PacketCall circSpace input bytes r s evs) :
    Receiving s (input ++ bytes) := by
  cases h with
  | searched _ hs => exact Or.inl hs
  | began mode size body _ hs hsuf _ => exact Or.inr ⟨mode, size, body, hsuf, hs⟩
  | continued mode size body hsuf _ hs _ _ =>
    obtain ⟨pre, hpre⟩ := hsuf
    exact Or.inr ⟨mode, size, body ++ bytes, ⟨pre, by rw [← hpre, List.append_assoc]⟩, hs⟩

/-- One call, as its packet events and their effect on the exporter. -/
theorem protocolInput_spec (io : DasIO) (serio : SerioLib) (me : ι) (r : XiomasTcpRcvr out)
    (x : XiomasTcpExport out ι) (input bytes : List UInt8) (h : Receiving r input) :
    ∃ s evs, PacketCall x.circSpace input bytes r s evs ∧
      protocolInput io serio me r x bytes =
        (Run.run (exportStep serio) x (exportOps out me evs)).map fun y => (s,y) := by
  rcases h with hsearch | ⟨mode, size, body, hsuf, hmid⟩
  · exact protocolInput_searching io serio me r x input bytes hsearch
  · obtain ⟨s, hs, htr, hpt, heq⟩ :=
      protocolInput_midPacket io serio me r x mode size body bytes hmid
    exact ⟨s, _, .continued mode size body hsuf hmid hs htr hpt, heq⟩

end XiomasTcpRcvr
end Cosmid.Xiomas
