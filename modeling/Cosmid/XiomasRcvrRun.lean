import Cosmid.Chunks
import Cosmid.XiomasQueue
import Cosmid.XiomasRcvr

/-! One call of `xiomas_tcp_rcvr::protocol_input` in closed form: while a packet
is on the way the call cuts its chunks off the input, and before that it either
stays silent or finds one header. What the exporter sees of the call is the list
of its `forward_packet` and `request_ack` calls. -/
namespace Cosmid.Xiomas

/-- What can happen to the exporter: two calls by its receivers, an ACK packet,
and anything that the output side of its socket does by itself. -/
inductive ExportOp (out : OutputSocket) (ι : Type)
  | forward (bfr : List UInt8)
  | requestAck (client : ι)
  | ack (length : ℕ)
  | socket (sock : out.State)

variable {out : OutputSocket} {ι : Type}

def exportStep (serio : SerioLib) (x : XiomasTcpExport out ι) :
    ExportOp out ι → Option (XiomasTcpExport out ι)
  | .forward bfr => x.forwardPacket serio bfr
  | .requestAck client => some (x.requestAck client)
  | .ack length => x.appInputAck length
  | .socket sock => some {x with sock := sock}

namespace RcvrEvent

/-- The events about packets, as opposed to messages and control headers. -/
def aboutPacket : RcvrEvent → Bool
  | logPacket _ _ => true
  | forwardPacket _ => true
  | requestAck => true
  | _ => false

/-- The call that the event is on the exporter, if any. -/
def exportOp (me : ι) : RcvrEvent → Option (ExportOp out ι)
  | forwardPacket span => some (.forward span)
  | requestAck => some (.requestAck me)
  | _ => none

/-- The calls on the exporter among the events of receiver `me`. -/
def exportOps (out : OutputSocket) (me : ι) (evs : List RcvrEvent) : List (ExportOp out ι) :=
  evs.filterMap (exportOp me)

theorem exportOps_append (me : ι) (es fs : List RcvrEvent) :
    exportOps out me (es ++ fs) = exportOps out me es ++ exportOps out me fs :=
  List.filterMap_append

/-- Behind the log entry of a chunk: it is forwarded, and with the packet's last
chunk the acknowledgement is requested. -/
def tailEvents (transmitting : Bool) (remaining : ℕ) (chunk : List UInt8) : List RcvrEvent :=
  (if transmitting then [forwardPacket chunk] else []) ++
    (if remaining-chunk.length = 0 then [requestAck] else [])

/-- The events of the chunks of a packet with `remaining` bytes to go; the first
entry is logged in `mode` and the others to the current file. -/
def packetEvents (transmitting : Bool) :
    LogMode → ℕ → List (List UInt8) → List RcvrEvent
  | _, _, [] => []
  | mode, remaining, c :: cs => logPacket c mode :: (tailEvents transmitting remaining c ++
      packetEvents transmitting .logCurfile (remaining-c.length) cs)

end RcvrEvent

/-- The two checks: the header is valid for the length it states itself, and this
length is not oversized. -/
def PassesChecks (hdr : List UInt8) : Prop :=
  xhgValidateHeader hdr (xhgGetPacketLength hdr) = true ∧
    xhgGetPacketLength hdr ≤ maxSpktLength+1000

instance (hdr : List UInt8) : Decidable (PassesChecks hdr) :=
  inferInstanceAs (Decidable (_ ∧ _))

open RcvrEvent

namespace XiomasTcpRcvr

theorem protocolInputLoop_eq (io : DasIO) (serio : SerioLib) (me : ι) (r : XiomasTcpRcvr out)
    (x : XiomasTcpExport out ι) : protocolInputLoop io serio me r x =
      if r.ibuf.cp < r.ibuf.nc then
        match r.switchCase io x.circSpace with
        | (r', .ret) => some (r', x)
        | (r', .again) => protocolInputLoop io serio me r' x
        | (r', .txmit txmitSize) =>
          if txmitSize = 0 then some (r'.finish io, x)
          else (txmitPart serio me r' x txmitSize).bind
            fun p => protocolInputLoop io serio me p.1 p.2
      else some (r.finish io, x) := by
  rw [protocolInputLoop]
  split
  · split
    · rename_i h; rw [h]
    · rename_i h; rw [h]
    · rename_i r' n h
      rw [h]
      dsimp only
      split
      · rfl
      · split
        · rename_i h'; rw [h']; rfl
        · rename_i h'; rw [h']; rfl
  · rfl

theorem getTxmitSize_eq (r : XiomasTcpRcvr out) : r.getTxmitSize =
    if min maxSpktDataPerSerioPkt r.bytesRemainingInPacket ≤ r.ibuf.unread.length then
      min maxSpktDataPerSerioPkt r.bytesRemainingInPacket else 0 := by
  rw [getTxmitSize, InputBuffer.length_unread]
  split_ifs <;> omega

theorem finish_eq (io : DasIO) (r : XiomasTcpRcvr out) :
    r.finish io = {r with ibuf := ⟨r.ibuf.unread,0⟩} := by
  rw [finish, io.reportOk_parsed]

/-- The code behind the switch, as its events and their effect on the exporter. -/
theorem txmitPart_eq (serio : SerioLib) (me : ι) (r : XiomasTcpRcvr out)
    (x : XiomasTcpExport out ι) (n : ℕ) (hn : n ≤ r.ibuf.unread.length)
    (hr : n ≤ r.bytesRemainingInPacket) (hlt : r.bytesRemainingInPacket < 4294967296) :
    txmitPart serio me r x n =
      (Run.run (exportStep serio) x (exportOps out me (tailEvents r.transmittingCurrentPacket
        r.bytesRemainingInPacket (r.ibuf.unread.take n)))).map fun y =>
          ({r with
            ibuf := ⟨r.ibuf.buf,r.ibuf.cp+n⟩
            bytesRemainingInPacket := r.bytesRemainingInPacket-n
            trace := r.trace ++ tailEvents r.transmittingCurrentPacket
              r.bytesRemainingInPacket (r.ibuf.unread.take n)}, y) := by
  have hsub : u32Sub r.bytesRemainingInPacket n = r.bytesRemainingInPacket-n := by
    unfold u32Sub u32
    omega
  rcases r with ⟨ibuf, state, remaining, discarding, blocks, transmitting, sock, trace⟩
  unfold txmitPart tailEvents
  rw [List.length_take_of_le hn]
  cases transmitting
  · simp only [Bool.false_eq_true, if_false, Option.map_some, hsub]
    split_ifs with h0
    · rw [h0]
      rfl
    · rw [List.append_nil, List.append_nil]
      rfl
  · simp only [if_true, emit, hsub]
    cases hf : x.forwardPacket serio (ibuf.unread.take n) with
    | none => simp [exportOps, exportOp, Run.run, exportStep, hf]
    | some y =>
      split_ifs with h0 <;> simp [exportOps, exportOp, Run.run, exportStep, hf, h0]

/-- The chunks of the current packet that are complete in the buffer. -/
def chunks (r : XiomasTcpRcvr out) : List (List UInt8) :=
  Chunks.cut maxSpktDataPerSerioPkt r.bytesRemainingInPacket r.ibuf.unread

/-- How many bytes these chunks hold. -/
def chunkBytes (r : XiomasTcpRcvr out) : ℕ :=
  Chunks.taken maxSpktDataPerSerioPkt r.bytesRemainingInPacket r.ibuf.unread

/-- The events of these chunks when the first one is logged in `mode`. -/
def chunkEvents (r : XiomasTcpRcvr out) (mode : LogMode) : List RcvrEvent :=
  packetEvents r.transmittingCurrentPacket mode r.bytesRemainingInPacket r.chunks

/-- The receiver once these chunks are consumed. -/
def afterChunks (r : XiomasTcpRcvr out) (mode : LogMode) : XiomasTcpRcvr out :=
  {r with
    ibuf := ⟨r.ibuf.unread.drop r.chunkBytes,0⟩
    bytesRemainingInPacket := r.bytesRemainingInPacket-r.chunkBytes
    trace := r.trace ++ r.chunkEvents mode}

/-- The receiver with its first chunk of `n` bytes consumed and logged in `mode`. -/
def afterChunk (r : XiomasTcpRcvr out) (mode : LogMode) (n : ℕ) : XiomasTcpRcvr out :=
  {r with
    ibuf := ⟨r.ibuf.buf,r.ibuf.cp+n⟩
    bytesRemainingInPacket := r.bytesRemainingInPacket-n
    trace := r.trace ++ (logPacket (r.ibuf.unread.take n) mode :: tailEvents
      r.transmittingCurrentPacket r.bytesRemainingInPacket (r.ibuf.unread.take n))}

theorem chunks_stop (r : XiomasTcpRcvr out)
    (h : min maxSpktDataPerSerioPkt r.bytesRemainingInPacket = 0 ∨
      r.ibuf.unread.length < min maxSpktDataPerSerioPkt r.bytesRemainingInPacket)
    (mode : LogMode) : r.chunkEvents mode = [] ∧
      r.afterChunks mode = {r with ibuf := ⟨r.ibuf.unread,0⟩} := by
  have hnone := Chunks.cut_stop maxSpktDataPerSerioPkt _ r.ibuf.unread h
  have hev : r.chunkEvents mode = [] := by rw [chunkEvents, chunks, hnone, packetEvents]
  have hzero : r.chunkBytes = 0 := by rw [chunkBytes, Chunks.taken, hnone]; rfl
  refine ⟨hev, ?_⟩
  rw [afterChunks, hev, hzero, List.append_nil, List.drop_zero, Nat.sub_zero]

/-- Taking the chunks one by one. -/
theorem chunks_step (r : XiomasTcpRcvr out) (mode : LogMode) (n : ℕ)
    (hn : n = min maxSpktDataPerSerioPkt r.bytesRemainingInPacket) (h0 : 0 < n)
    (hlen : n ≤ r.ibuf.unread.length) :
    r.chunkEvents mode = (logPacket (r.ibuf.unread.take n) mode :: tailEvents
        r.transmittingCurrentPacket r.bytesRemainingInPacket (r.ibuf.unread.take n)) ++
          (r.afterChunk mode n).chunkEvents .logCurfile ∧
      r.afterChunks mode = (r.afterChunk mode n).afterChunks .logCurfile := by
  have hcut := Chunks.cut_step maxSpktDataPerSerioPkt _ r.ibuf.unread (hn ▸ h0) (hn ▸ hlen)
  have htaken := Chunks.taken_step maxSpktDataPerSerioPkt _ r.ibuf.unread (hn ▸ h0) (hn ▸ hlen)
  rw [← hn] at hcut htaken
  have hadv := InputBuffer.unread_advance r.ibuf n
  have hev : r.chunkEvents mode = (logPacket (r.ibuf.unread.take n) mode :: tailEvents
      r.transmittingCurrentPacket r.bytesRemainingInPacket (r.ibuf.unread.take n)) ++
        (r.afterChunk mode n).chunkEvents .logCurfile := by
    simp only [chunkEvents, chunks, hcut, packetEvents, afterChunk, hadv,
      List.length_take_of_le hlen, List.cons_append]
  refine ⟨hev, ?_⟩
  rw [afterChunks, hev]
  simp only [chunkBytes, htaken, afterChunks, afterChunk, hadv, List.drop_drop, Nat.sub_sub,
    List.append_assoc]

theorem exportOps_chunks_step (me : ι) (r : XiomasTcpRcvr out) (mode : LogMode) (n : ℕ)
    (hn : n = min maxSpktDataPerSerioPkt r.bytesRemainingInPacket) (h0 : 0 < n)
    (hlen : n ≤ r.ibuf.unread.length) :
    exportOps out me (r.chunkEvents mode) =
      exportOps out me (tailEvents r.transmittingCurrentPacket r.bytesRemainingInPacket
        (r.ibuf.unread.take n)) ++
      exportOps out me ((r.afterChunk mode n).chunkEvents .logCurfile) := by
  rw [(chunks_step r mode n hn h0 hlen).1, exportOps_append]
  rfl

/-- Behind the log entry of a chunk the loop goes on as in mid-packet. -/
theorem txmitPart_bind (io : DasIO) (serio : SerioLib) (me : ι) (r : XiomasTcpRcvr out)
    (x : XiomasTcpExport out ι) (mode : LogMode) (n : ℕ) (hn : n ≤ r.ibuf.unread.length)
    (hr : n ≤ r.bytesRemainingInPacket) (hlt : r.bytesRemainingInPacket < 4294967296) :
    ((txmitPart serio me (r.emit (.logPacket (r.ibuf.unread.take n) mode)) x n).bind
        fun p => protocolInputLoop io serio me p.1 p.2) =
      (Run.run (exportStep serio) x (exportOps out me (tailEvents r.transmittingCurrentPacket
        r.bytesRemainingInPacket (r.ibuf.unread.take n)))).bind
          fun y => protocolInputLoop io serio me (r.afterChunk mode n) y := by
  rw [txmitPart_eq serio me (r.emit (.logPacket (r.ibuf.unread.take n) mode)) x n hn hr hlt]
  simp only [emit, afterChunk, Option.bind_map, List.append_assoc, List.singleton_append]
  rfl

/-- In mid-packet a call takes every complete chunk there is. -/
theorem protocolInputLoop_mid (io : DasIO) (serio : SerioLib) (me : ι) (r : XiomasTcpRcvr out)
    (x : XiomasTcpExport out ι) (hmid : r.state = .xtrMidPkt)
    (hlt : r.bytesRemainingInPacket < 4294967296) :
    protocolInputLoop io serio me r x =
      (Run.run (exportStep serio) x (exportOps out me (r.chunkEvents .logCurfile))).map
        fun y => (r.afterChunks .logCurfile, y) := by
  generalize hR : r.bytesRemainingInPacket = R
  induction R using Nat.strongRecOn generalizing r x with
  | _ R ih =>
    subst hR
    rw [protocolInputLoop_eq]
    have hsize := getTxmitSize_eq r
    rcases Chunks.cut_cases maxSpktDataPerSerioPkt r.bytesRemainingInPacket r.ibuf.unread with
      hstop | ⟨h0, hlen⟩
    · -- Nothing to cut: the loop is left at once, with the unread bytes kept.
      obtain ⟨hev, haf⟩ := chunks_stop r hstop .logCurfile
      have hzero : r.getTxmitSize = 0 := by
        rw [hsize]
        split_ifs <;> omega
      have hsw : r.switchCase io x.circSpace = (r, .txmit 0) := by
        rw [r.switchCase_mid io x.circSpace hmid, xtrMidPktCase, if_pos hzero]
      simp only [hsw, if_true, ite_self, hev, haf, finish_eq]
      rfl
    · -- One chunk, and `R` is smaller by its length.
      generalize hm : min maxSpktDataPerSerioPkt r.bytesRemainingInPacket = m at *
      have hcp : r.ibuf.cp < r.ibuf.nc := by
        have := r.ibuf.length_unread
        omega
      have hpos : r.getTxmitSize = m := by rw [hsize, if_pos hlen]
      have hsw : r.switchCase io x.circSpace =
          (r.emit (.logPacket (r.ibuf.unread.take m) .logCurfile), .txmit m) := by
        rw [r.switchCase_mid io x.circSpace hmid, xtrMidPktCase, hpos, if_neg (by omega)]
      rw [if_pos hcp, hsw]
      dsimp only
      rw [if_neg (by omega), txmitPart_bind io serio me r x .logCurfile m hlen (by omega) hlt,
        exportOps_chunks_step me r .logCurfile m hm.symm h0 hlen, Run.run_append,
        (chunks_step r .logCurfile m hm.symm h0 hlen).2, Option.map_bind]
      congr 1
      funext y
      exact ih (r.bytesRemainingInPacket-m) (by omega) (r.afterChunk .logCurfile m) y hmid
        (by dsimp only [afterChunk]; omega) rfl

/-- `r'` differs from `r` by messages and control headers only, as far as the
trace is concerned. -/
def Quiet (r r' : XiomasTcpRcvr out) : Prop :=
  ∃ evs, r'.trace = r.trace ++ evs ∧ ∀ e ∈ evs, e.aboutPacket = false

theorem Quiet.refl (r : XiomasTcpRcvr out) : Quiet r r := ⟨[], by simp, by simp⟩

theorem Quiet.of_trace_eq {r r' : XiomasTcpRcvr out} (h : r'.trace = r.trace) : Quiet r r' :=
  ⟨[], by simp [h], by simp⟩

theorem Quiet.of_event {r r' : XiomasTcpRcvr out} (e : RcvrEvent)
    (h : r'.trace = r.trace ++ [e]) (he : e.aboutPacket = false) : Quiet r r' :=
  ⟨[e], h, by simpa using he⟩

theorem Quiet.trans {r s t : XiomasTcpRcvr out} (h : Quiet r s) (h' : Quiet s t) : Quiet r t := by
  obtain ⟨es, h1, h2⟩ := h
  obtain ⟨fs, h3, h4⟩ := h'
  refine ⟨es ++ fs, by rw [h3, h1, List.append_assoc], ?_⟩
  intro e he
  rcases List.mem_append.mp he with he | he
  · exact h2 e he
  · exact h4 e he

theorem acceptHeader_spec (r : XiomasTcpRcvr out) (hdr : List UInt8) (circSpace : ℕ) :
    (r.acceptHeader hdr circSpace).bytesRemainingInPacket = r.bytesRemainingInPacket ∧
      (r.acceptHeader hdr circSpace).state = .xtrMidPkt ∧
      (r.acceptHeader hdr circSpace).transmittingCurrentPacket =
        decide (totalPktsSize r.bytesRemainingInPacket ≤ circSpace) ∧
      Quiet r (r.acceptHeader hdr circSpace) := by
  unfold acceptHeader
  -- The receiver behind each of the four messages in turn.
  set r1 := if r.bytesDiscarding = 0 then r
    else {r.emit (.discarded r.bytesDiscarding) with bytesDiscarding := 0} with h1
  set r2 := if mSource hdr = Xhsrc.opu then r1
    else r1.emit (.unexpectedSource (mSource hdr)) with h2
  set r3 := if mFlags hdr &&& Xhf.rts ≠ 0 ∧ r2.cts then r2.sendFlag Xhf.cts else r2 with h3
  set r4 := if mPacketID hdr = Xhpid.fireLayer ∨ mPacketID hdr = Xhpid.mwBand ∨
      mPacketID hdr = Xhpid.lwBand then r3
    else r3.emit (.unexpectedPacketID (mPacketID hdr)) with h4
  have hs1 : r1.bytesRemainingInPacket = r.bytesRemainingInPacket ∧ Quiet r r1 := by
    rw [h1]
    split_ifs
    · exact ⟨rfl, .refl r⟩
    · exact ⟨rfl, .of_event _ rfl rfl⟩
  have hs2 : r2.bytesRemainingInPacket = r1.bytesRemainingInPacket ∧ Quiet r1 r2 := by
    rw [h2]
    split_ifs
    · exact ⟨rfl, .refl r1⟩
    · exact ⟨rfl, .of_event _ rfl rfl⟩
  have hs3 : r3.bytesRemainingInPacket = r2.bytesRemainingInPacket ∧ Quiet r2 r3 := by
    rw [h3]
    split_ifs
    · exact ⟨rfl, .of_event _ rfl rfl⟩
    · exact ⟨rfl, .refl r2⟩
  have hs4 : r4.bytesRemainingInPacket = r3.bytesRemainingInPacket ∧ Quiet r3 r4 := by
    rw [h4]
    split_ifs
    · exact ⟨rfl, .refl r3⟩
    · exact ⟨rfl, .of_event _ rfl rfl⟩
  have hrem : r4.bytesRemainingInPacket = r.bytesRemainingInPacket := by
    rw [hs4.1, hs3.1, hs2.1, hs1.1]
  refine ⟨hrem, rfl, ?_, ?_⟩
  · dsimp only
    rw [hrem]
  · exact (((hs1.2.trans hs2.2).trans hs3.2).trans hs4.2).trans (.of_trace_eq rfl)

/-- `r0` is `r` with the search ended at an acceptable header whose first chunk
is in the buffer, and nothing logged yet. -/
structure Accepted (r : XiomasTcpRcvr out) (circSpace : ℕ) (r0 : XiomasTcpRcvr out) : Prop where
  state_eq : r0.state = .xtrMidPkt
  quiet : Quiet r r0
  suffix : r0.ibuf.unread <:+ r.ibuf.unread
  header_le : xioHarvardHeaderSize ≤ r0.ibuf.unread.length
  valid : xhgValidateHeader (r0.ibuf.unread.take xioHarvardHeaderSize)
    r0.bytesRemainingInPacket = true
  size_le : r0.bytesRemainingInPacket ≤ maxSpktLength+1000
  first_pos : 0 < min maxSpktDataPerSerioPkt r0.bytesRemainingInPacket
  first_le : min maxSpktDataPerSerioPkt r0.bytesRemainingInPacket ≤ r0.ibuf.unread.length
  transmitting_eq : r0.transmittingCurrentPacket =
    decide (totalPktsSize r0.bytesRemainingInPacket ≤ circSpace)

theorem Accepted.of_again {r s r0 : XiomasTcpRcvr out} {circSpace : ℕ} (hq : Quiet r s)
    (hs : s.ibuf.unread <:+ r.ibuf.unread) (h : Accepted s circSpace r0) :
    Accepted r circSpace r0 :=
  ⟨h.state_eq, hq.trans h.quiet, h.suffix.trans hs, h.header_le, h.valid, h.size_le, h.first_pos,
    h.first_le, h.transmitting_eq⟩

/-- `s` is `r` further on in its search. -/
structure Searched (r s : XiomasTcpRcvr out) : Prop where
  state_ne : s.state ≠ .xtrMidPkt
  quiet : Quiet r s
  buf_suffix : s.ibuf.buf <:+ r.ibuf.buf

theorem Searched.trans {r s t : XiomasTcpRcvr out} (h : Searched r s) (h' : Searched s t) :
    Searched r t :=
  ⟨h'.state_ne, h.quiet.trans h'.quiet, h'.buf_suffix.trans h.buf_suffix⟩

theorem unread_suffix_buf (b : InputBuffer) : b.unread <:+ b.buf := List.drop_suffix _ _

/-- Case `xtr_idle` at an acceptable header. -/
theorem xtrIdleCase_accept (io : DasIO) (r : XiomasTcpRcvr out) (circSpace size : ℕ)
    (hlen : xioHarvardHeaderSize ≤ r.ibuf.unread.length)
    (hvalid : xhgValidateHeader (r.ibuf.unread.take xioHarvardHeaderSize) size = true)
    (hsize : size ≤ maxSpktLength+1000) (hpos : 0 < min maxSpktDataPerSerioPkt size)
    (hle : min maxSpktDataPerSerioPkt size ≤ r.ibuf.unread.length) :
    ∃ r0 mode, mode ≠ .logCurfile ∧ Accepted r circSpace r0 ∧ r0.ibuf = r.ibuf ∧
      r0.bytesRemainingInPacket = size ∧ r.xtrIdleCase io circSpace =
        (r0.emit (.logPacket (r0.ibuf.unread.take (min maxSpktDataPerSerioPkt
          r0.bytesRemainingInPacket)) mode),
          .txmit (min maxSpktDataPerSerioPkt r0.bytesRemainingInPacket)) := by
  have hL := xhgValidateHeader_length _ _ hvalid
  set s : XiomasTcpRcvr out := {r with bytesRemainingInPacket := size}
  have htx : getTxmitSize {r with bytesRemainingInPacket := size} =
      min maxSpktDataPerSerioPkt size := by
    rw [getTxmitSize_eq]
    exact if_pos hle
  obtain ⟨hrem, hmid, htr, hq⟩ :=
    acceptHeader_spec s (r.ibuf.unread.take xioHarvardHeaderSize) circSpace
  have hib := acceptHeader_ibuf s (r.ibuf.unread.take xioHarvardHeaderSize) circSpace
  refine ⟨s.acceptHeader (r.ibuf.unread.take xioHarvardHeaderSize) circSpace,
    firstMode (r.ibuf.unread.take xioHarvardHeaderSize), ?_, ?_, hib, hrem, ?_⟩
  · unfold firstMode
    split_ifs <;> decide
  · refine ⟨hmid, (Quiet.of_trace_eq rfl).trans hq, ?_, ?_, ?_, ?_, ?_, ?_, ?_⟩
    · exact ⟨[], by rw [hib, List.nil_append]⟩
    · rw [hib]
      exact hlen
    · rw [hib, hrem]
      exact hvalid
    · rw [hrem]
      exact hsize
    · rw [hrem]
      exact hpos
    · rw [hrem, hib]
      exact hle
    · rw [htr, hrem]
  · rw [xtrIdleCase, ← InputBuffer.length_unread, if_neg (Nat.not_lt.mpr hlen)]
    dsimp only
    rw [hL, hvalid, htx, if_neg (by simp), if_neg (Nat.not_lt.mpr hsize), if_neg (by omega),
      hrem, hib]
    rfl

/-- What case `xtr_idle` does at a complete header: it goes on searching behind
its first byte, waits for the packet's first chunk, or accepts it. -/
theorem xtrIdleCase_spec (io : DasIO) (r : XiomasTcpRcvr out) (circSpace size : ℕ)
    (hdr : List UInt8) (hhdr : r.ibuf.unread.take xioHarvardHeaderSize = hdr)
    (hsize : xhgGetPacketLength hdr = size)
    (hlen : xioHarvardHeaderSize ≤ r.ibuf.unread.length) :
    (¬PassesChecks hdr ∧ ∃ s, r.xtrIdleCase io circSpace = (s.reject, .again) ∧
      s.ibuf = r.ibuf ∧ Quiet r s) ∨
    (PassesChecks hdr ∧ (min maxSpktDataPerSerioPkt size = 0 ∨
        r.ibuf.unread.length < min maxSpktDataPerSerioPkt size) ∧
      r.xtrIdleCase io circSpace = ({r with bytesRemainingInPacket := size}, .ret)) ∨
    (PassesChecks hdr ∧ 0 < min maxSpktDataPerSerioPkt size ∧
      min maxSpktDataPerSerioPkt size ≤ r.ibuf.unread.length ∧
      ∃ r0 mode, mode ≠ .logCurfile ∧ Accepted r circSpace r0 ∧ r0.ibuf = r.ibuf ∧
        r0.bytesRemainingInPacket = size ∧ r.xtrIdleCase io circSpace =
          (r0.emit (.logPacket (r0.ibuf.unread.take (min maxSpktDataPerSerioPkt
            r0.bytesRemainingInPacket)) mode),
            .txmit (min maxSpktDataPerSerioPkt r0.bytesRemainingInPacket))) := by
  subst hhdr
  by_cases hpass : PassesChecks (r.ibuf.unread.take xioHarvardHeaderSize)
  · obtain ⟨hvalid, hle⟩ := hpass
    rw [hsize] at hvalid hle
    rcases Chunks.cut_cases maxSpktDataPerSerioPkt size r.ibuf.unread with hstop | ⟨h0, hfit⟩
    · have hzero : getTxmitSize {r with bytesRemainingInPacket := size} = 0 := by
        rw [getTxmitSize_eq]
        dsimp only
        split_ifs <;> omega
      refine Or.inr (Or.inl ⟨⟨by rwa [hsize], by rwa [hsize]⟩, hstop, ?_⟩)
      rw [xtrIdleCase, ← InputBuffer.length_unread, if_neg (Nat.not_lt.mpr hlen)]
      dsimp only
      rw [hsize, hvalid, hzero, if_neg (by simp), if_neg (Nat.not_lt.mpr hle), if_pos rfl]
    · exact Or.inr (Or.inr ⟨⟨by rwa [hsize], by rwa [hsize]⟩, h0, hfit,
        xtrIdleCase_accept io r circSpace size hlen hvalid hle h0 hfit⟩)
  · -- The oversized packet alone is reported.
    left
    refine ⟨hpass, ?_⟩
    rw [PassesChecks, hsize] at hpass
    rw [xtrIdleCase, ← InputBuffer.length_unread, if_neg (Nat.not_lt.mpr hlen)]
    dsimp only
    rw [hsize]
    split_ifs with hbad hbig
    · exact ⟨_, rfl, rfl, .of_trace_eq rfl⟩
    · exact ⟨_, rfl, rfl, .of_event _ rfl rfl⟩
    · exact absurd ⟨by simpa using hbad, Nat.not_lt.mp hbig⟩ hpass
    · exact absurd ⟨by simpa using hbad, Nat.not_lt.mp hbig⟩ hpass

/-- Case `xtr_lost` either drops everything or stops at the next `$`. -/
theorem xtrLostCase_spec (io : DasIO) (r : XiomasTcpRcvr out) (hst : r.state = .xtrLost) :
    (0x24 ∉ r.ibuf.unread ∧ (r.xtrLostCase io).ibuf = ⟨[],0⟩ ∨
      ∃ pre post, r.ibuf.unread = pre ++ 0x24 :: post ∧ 0x24 ∉ pre ∧
        (r.xtrLostCase io).ibuf = ⟨r.ibuf.buf,r.ibuf.cp+pre.length⟩) ∧
      (r.xtrLostCase io).state ≠ .xtrMidPkt ∧ Quiet r (r.xtrLostCase io) := by
  rcases io.notFound_cases 0x24 r.ibuf with ⟨hnot, hm⟩ | ⟨pre, post, hsplit, hnot, hm⟩
  · simp only [xtrLostCase, hm]
    exact ⟨Or.inl ⟨hnot, rfl⟩, by simp [hst], .of_trace_eq rfl⟩
  · have hcp : r.ibuf.cp+(pre.length+1)-1 = r.ibuf.cp+pre.length := by omega
    simp only [xtrLostCase, hm, hcp]
    exact ⟨Or.inr ⟨pre, post, hsplit, hnot, rfl⟩, by simp, .of_trace_eq rfl⟩

/-- Outside of a packet every case is silent, and continues the search, ends the
call, or accepts a header. -/
theorem switchCase_search (io : DasIO) (r : XiomasTcpRcvr out) (circSpace : ℕ)
    (hstate : r.state ≠ .xtrMidPkt) :
    (∃ s, r.switchCase io circSpace = (s, .ret) ∧ Searched r s) ∨
    (∃ s, r.switchCase io circSpace = (s, .again) ∧ Searched r s ∧
      s.ibuf.unread <:+ r.ibuf.unread) ∨
    ∃ r0 mode, mode ≠ .logCurfile ∧ Accepted r circSpace r0 ∧ r.switchCase io circSpace =
      (r0.emit (.logPacket (r0.ibuf.unread.take (min maxSpktDataPerSerioPkt
        r0.bytesRemainingInPacket)) mode),
        .txmit (min maxSpktDataPerSerioPkt r0.bytesRemainingInPacket)) := by
  cases hst : r.state with
  | xtrMidPkt => exact absurd hst hstate
  | xtrLost =>
    have hsw := r.switchCase_lost io circSpace hst
    obtain ⟨hcases, hst', hq⟩ := r.xtrLostCase_spec io hst
    refine Or.inr (Or.inl ⟨_, hsw, ⟨hst', hq, ?_⟩, ?_⟩)
    · rcases hcases with ⟨-, hib⟩ | ⟨pre, post, -, -, hib⟩
      · rw [hib]
        exact List.nil_suffix
      · have hbuf := congrArg InputBuffer.buf hib
        exact ⟨[], hbuf⟩
    · rcases hcases with ⟨-, hib⟩ | ⟨pre, post, -, -, hib⟩
      · rw [hib]
        exact List.nil_suffix
      · rw [hib, InputBuffer.unread_advance]
        exact List.drop_suffix _ _
  | xtrIdle =>
    rw [r.switchCase_idle io circSpace hst]
    by_cases hshort : r.ibuf.unread.length < xioHarvardHeaderSize
    · left
      refine ⟨{r with ibuf := io.consume r.ibuf.cp r.ibuf}, ?_, hstate, .of_trace_eq rfl, ?_⟩
      · rw [xtrIdleCase, ← InputBuffer.length_unread, if_pos hshort]
      · rw [io.consume_parsed]
        exact unread_suffix_buf _
    · rcases xtrIdleCase_spec io r circSpace _ _ rfl rfl (Nat.not_lt.mp hshort) with
        ⟨-, s, hs, hib, hq⟩ | ⟨-, -, hs⟩ | ⟨-, -, -, r0, mode, hmode, hacc, -, -, hs⟩
      · refine Or.inr (Or.inl ⟨s.reject, hs, ⟨by simp [reject], hq.trans (.of_trace_eq rfl), ?_⟩, ?_⟩)
        · simp only [reject, hib]
          exact List.suffix_rfl
        · simp only [reject, hib, InputBuffer.unread_advance]
          exact List.drop_suffix _ _
      · exact Or.inl ⟨_, hs, hstate, .of_trace_eq rfl, List.suffix_rfl⟩
      · exact Or.inr (Or.inr ⟨r0, mode, hmode, hacc, hs⟩)

/-- Behind an accepted header the call takes every complete chunk there is. -/
theorem accepted_bind (io : DasIO) (serio : SerioLib) (me : ι) {r r0 : XiomasTcpRcvr out}
    {circSpace : ℕ} (hacc : Accepted r circSpace r0) (mode : LogMode)
    {x : XiomasTcpExport out ι} :
    (if min maxSpktDataPerSerioPkt r0.bytesRemainingInPacket = 0 then
        some ((r0.emit (.logPacket (r0.ibuf.unread.take (min maxSpktDataPerSerioPkt
          r0.bytesRemainingInPacket)) mode)).finish io, x)
      else (txmitPart serio me (r0.emit (.logPacket (r0.ibuf.unread.take
          (min maxSpktDataPerSerioPkt r0.bytesRemainingInPacket)) mode)) x
          (min maxSpktDataPerSerioPkt r0.bytesRemainingInPacket)).bind
            fun p => protocolInputLoop io serio me p.1 p.2) =
      (Run.run (exportStep serio) x (exportOps out me (r0.chunkEvents mode))).map
        fun y => (r0.afterChunks mode, y) := by
  have hpos := hacc.first_pos
  have hlen := hacc.first_le
  have hbound : r0.bytesRemainingInPacket < 4294967296 := by
    have := hacc.size_le
    unfold maxSpktLength at this
    omega
  generalize hn : min maxSpktDataPerSerioPkt r0.bytesRemainingInPacket = n at *
  rw [if_neg (by omega), txmitPart_bind io serio me r0 x mode n hlen (by omega) hbound,
    exportOps_chunks_step me r0 mode n hn.symm hpos hlen, Run.run_append,
    (chunks_step r0 mode n hn.symm hpos hlen).2, Option.map_bind]
  congr 1
  funext y
  exact protocolInputLoop_mid io serio me (r0.afterChunk mode n) y hacc.state_eq
    (by dsimp only [afterChunk]; omega)

/-- One turn of the search, for relations of a receiver to the end of its call: `P` when
the search goes on with the next call, `A` when a header is accepted. The index tells what
is ahead of the receiver. -/
inductive KeepsEnd {α : Type} (Inv : α → XiomasTcpRcvr out → Prop)
    (P : α → XiomasTcpRcvr out → XiomasTcpRcvr out → Prop)
    (A : α → XiomasTcpRcvr out → XiomasTcpRcvr out → LogMode → Prop) (a : α)
    (r : XiomasTcpRcvr out) (circSpace : ℕ) : XiomasTcpRcvr out × Outcome → Prop
  | ends (s : XiomasTcpRcvr out) : P a r s → KeepsEnd Inv P A a r circSpace (s, .ret)
  | goesOn (s : XiomasTcpRcvr out) (b : α) : Inv b s → (∀ t, P b s t → P a r t) →
      (∀ r0 mode, A b s r0 mode → A a r r0 mode) → KeepsEnd Inv P A a r circSpace (s, .again)
  | accepts (r0 : XiomasTcpRcvr out) (mode : LogMode) : Accepted r circSpace r0 →
      A a r r0 mode → KeepsEnd Inv P A a r circSpace
        (r0.emit (.logPacket (r0.ibuf.unread.take (min maxSpktDataPerSerioPkt
          r0.bytesRemainingInPacket)) mode),
          .txmit (min maxSpktDataPerSerioPkt r0.bytesRemainingInPacket))

/-- The rule for a call outside of a packet: what each turn keeps holds of the whole call. -/
theorem protocolInputLoop_rule (io : DasIO) (serio : SerioLib) (me : ι)
    (x : XiomasTcpExport out ι) {α : Type} (Inv : α → XiomasTcpRcvr out → Prop)
    (P : α → XiomasTcpRcvr out → XiomasTcpRcvr out → Prop)
    (A : α → XiomasTcpRcvr out → XiomasTcpRcvr out → LogMode → Prop)
    (hturn : ∀ a r, Inv a r →
      KeepsEnd Inv P A a r x.circSpace (r.switchCase io x.circSpace))
    (hdone : ∀ a r, Inv a r → r.ibuf.unread = [] → P a r (r.finish io))
    (a : α) (r : XiomasTcpRcvr out) (h : Inv a r) :
    (∃ s, protocolInputLoop io serio me r x = some (s, x) ∧ P a r s) ∨
    ∃ r0 mode, A a r r0 mode ∧ protocolInputLoop io serio me r x =
      (Run.run (exportStep serio) x (exportOps out me (r0.chunkEvents mode))).map
        fun y => (r0.afterChunks mode, y) := by
  generalize hm : r.unreadMeasure = m
  induction m using Nat.strongRecOn generalizing a r with
  | _ m ih =>
    rw [protocolInputLoop_eq]
    by_cases hlt : r.ibuf.cp < r.ibuf.nc
    · rw [if_pos hlt]
      have hkeeps := hturn a r h
      generalize hsw : r.switchCase io x.circSpace = c at hkeeps
      cases hkeeps with
      | ends s hs => exact Or.inl ⟨s, rfl, hs⟩
      | goesOn s b hinv hp ha =>
        have hdec := switchCase_again io r s x.circSpace hlt hsw
        rcases ih s.unreadMeasure (by omega) b s hinv rfl with ⟨t, ht, hst⟩ | ⟨r0, mode, h0, heq⟩
        · exact Or.inl ⟨t, ht, hp t hst⟩
        · exact Or.inr ⟨r0, mode, ha r0 mode h0, heq⟩
      | accepts r0 mode hacc ha =>
        exact Or.inr ⟨r0, mode, ha, accepted_bind io serio me hacc mode⟩
    · have hnil : r.ibuf.unread = [] := by
        apply List.eq_nil_of_length_eq_zero
        rw [InputBuffer.length_unread]
        omega
      rw [if_neg hlt]
      exact Or.inl ⟨r.finish io, rfl, hdone a r h hnil⟩

/-- A call outside of a packet either leaves the exporter alone or accepts one
header and goes on with its packet. -/
theorem protocolInputLoop_search (io : DasIO) (serio : SerioLib) (me : ι) (r : XiomasTcpRcvr out)
    (x : XiomasTcpExport out ι) (hstate : r.state ≠ .xtrMidPkt) :
    (∃ s, protocolInputLoop io serio me r x = some (s, x) ∧ Searched r s) ∨
    ∃ r0 mode, (mode ≠ .logCurfile ∧ Accepted r x.circSpace r0) ∧
      protocolInputLoop io serio me r x =
        (Run.run (exportStep serio) x (exportOps out me (r0.chunkEvents mode))).map
          fun y => (r0.afterChunks mode, y) := by
  refine protocolInputLoop_rule io serio me x (fun (_ : Unit) r => r.state ≠ .xtrMidPkt)
    (fun _ => Searched) (fun _ r r0 mode => mode ≠ .logCurfile ∧ Accepted r x.circSpace r0)
    ?_ ?_ () r hstate
  · intro _ r hst
    rcases switchCase_search io r x.circSpace hst with
      ⟨s, hsw, hs⟩ | ⟨s, hsw, hs, hsuf⟩ | ⟨r0, mode, hmode, hacc, hsw⟩
    · rw [hsw]
      exact .ends s hs
    · rw [hsw]
      refine .goesOn s () hs.state_ne (fun t ht => hs.trans ht) ?_
      exact fun r0 mode h0 => ⟨h0.1, h0.2.of_again hs.quiet hsuf⟩
    · rw [hsw]
      exact .accepts r0 mode hacc ⟨hmode, hacc⟩
  · intro _ r hst _
    rw [finish_eq]
    exact ⟨hst, .of_trace_eq rfl, unread_suffix_buf _⟩

end XiomasTcpRcvr
end Cosmid.Xiomas
