import Cosmid.XiomasExport
import Cosmid.XioHarvHeader

/-! `xiomas_tcp_rcvr` (Xiomas/xiomas_export.cc): the state machine that looks for a
packet in the byte stream of one connection, logs it and forwards it in chunks. -/
namespace Cosmid.Xiomas

inductive RcvrState
  | xtrIdle
  | xtrMidPkt
  | xtrLost
deriving DecidableEq

inductive LogMode
  | logNewfile
  | logDefault
  | logCurfile
deriving DecidableEq

/-- What a receiver does to the outside, in order. The first four are messages;
`sent` is a control header written to the instrument. -/
inductive RcvrEvent
  | discarded (n : ℕ)
  | oversized
  | unexpectedSource (source : UInt8)
  | unexpectedPacketID (packetID : UInt8)
  | sent (hdr : List UInt8)
  | logPacket (span : List UInt8) (mode : LogMode)
  | forwardPacket (span : List UInt8)
  | requestAck
deriving DecidableEq

structure XiomasTcpRcvr (out : OutputSocket) where
  ibuf : InputBuffer
  state : RcvrState
  bytesRemainingInPacket : ℕ
  bytesDiscarding : ℕ
  blockCount : ℕ
  transmittingCurrentPacket : Bool
  sock : out.State
  trace : List RcvrEvent

/-- How a case of the switch ends: the function returns, the loop continues, or
the code behind the switch handles `txmit_size` bytes. -/
inductive Outcome
  | ret
  | again
  | txmit (txmitSize : ℕ)

/-- `RCVR_BUFSIZE` of `xiomas_tcp_rcvr`. -/
def rcvrBufsize : ℕ := 50000

/-- Serio packets needed for `n` bytes. -/
def serioPkts (n : ℕ) : ℕ := (n+maxSpktDataPerSerioPkt-1)/maxSpktDataPerSerioPkt

/-- `total_pkts_size`: the bytes that `n` bytes become after packetization. -/
def totalPktsSize (n : ℕ) : ℕ := n+serioPkts n*SerioLib.pktHdrSize

namespace XiomasTcpRcvr

variable {out : OutputSocket} {ι : Type}

/-- The constructor. It leaves `transmitting_current_packet` unset. -/
def new (transmitting : Bool) (sock : out.State) : XiomasTcpRcvr out where
  ibuf := InputBuffer.empty
  state := .xtrLost
  bytesRemainingInPacket := 0
  bytesDiscarding := 0
  blockCount := 0
  transmittingCurrentPacket := transmitting
  sock := sock
  trace := []

/-- Add an event to the trace. -/
def emit (r : XiomasTcpRcvr out) (e : RcvrEvent) : XiomasTcpRcvr out :=
  {r with trace := r.trace ++ [e]}

def cts (r : XiomasTcpRcvr out) : Bool := out.obufEmpty r.sock

def sendFlag (r : XiomasTcpRcvr out) (flag : UInt8) : XiomasTcpRcvr out :=
  let blockCount := u32 (r.blockCount+1)
  let hdr := xhgFillHeader Xhpid.gwControl Xhsrc.gateway flag 0 (UInt32.ofNat blockCount)
  {r with blockCount := blockCount, sock := out.iwrite hdr r.sock}.emit (.sent hdr)

/-- `protocol_timeout`, which `ack` schedules, up to the library's `reset`. -/
def protocolTimeout (r : XiomasTcpRcvr out) : XiomasTcpRcvr out := r.sendFlag Xhf.cts

def getTxmitSize (r : XiomasTcpRcvr out) : ℕ :=
  let toSend := if r.bytesRemainingInPacket ≥ maxSpktDataPerSerioPkt then maxSpktDataPerSerioPkt
    else r.bytesRemainingInPacket
  if r.ibuf.nc-r.ibuf.cp ≥ toSend then toSend else 0

/-- Case `xtr_lost`: go to the next `$` or drop everything. -/
def xtrLostCase (io : DasIO) (r : XiomasTcpRcvr out) : XiomasTcpRcvr out :=
  let cp0 := r.ibuf.cp
  let nc0 := r.ibuf.nc
  match io.notFound 0x24 r.ibuf with
  | (true, ibuf) => {r with ibuf := ibuf, bytesDiscarding := u32 (r.bytesDiscarding+(nc0-cp0))}
  | (false, ibuf) =>
    -- `not_found` leaves `cp` behind the `$`, which belongs to the header.
    let cp := ibuf.cp-1
    {r with
      ibuf := ⟨ibuf.buf,cp⟩
      bytesDiscarding := u32 (r.bytesDiscarding+(cp-cp0))
      state := .xtrIdle}

/-- Skip the byte at `cp` and look for another start. -/
def reject (r : XiomasTcpRcvr out) : XiomasTcpRcvr out :=
  {r with ibuf := ⟨r.ibuf.buf,r.ibuf.cp+1⟩, state := .xtrLost}

/-- Case `xtr_idle` from the point where it is committed to the packet up to the
decision whether to transmit it. -/
def acceptHeader (r : XiomasTcpRcvr out) (hdr : List UInt8) (circSpace : ℕ) : XiomasTcpRcvr out :=
  let r := if r.bytesDiscarding = 0 then r
    else {r.emit (.discarded r.bytesDiscarding) with bytesDiscarding := 0}
  let r := if mSource hdr = Xhsrc.opu then r else r.emit (.unexpectedSource (mSource hdr))
  let r := if mFlags hdr &&& Xhf.rts ≠ 0 ∧ r.cts then r.sendFlag Xhf.cts else r
  let r := if mPacketID hdr = Xhpid.fireLayer ∨ mPacketID hdr = Xhpid.mwBand ∨
      mPacketID hdr = Xhpid.lwBand then r
    else r.emit (.unexpectedPacketID (mPacketID hdr))
  {r with
    state := .xtrMidPkt
    transmittingCurrentPacket := totalPktsSize r.bytesRemainingInPacket ≤ circSpace}

/-- The log mode of a packet's first span. -/
def firstMode (hdr : List UInt8) : LogMode :=
  if xhgGetPacketLength hdr > 2000 then .logNewfile else .logDefault

/-- The rest of case `xtr_idle` once the header is accepted and `txmit_size` of
its packet's bytes are there. -/
def beginPacket (r : XiomasTcpRcvr out) (hdr : List UInt8) (txmitSize circSpace : ℕ) :
    XiomasTcpRcvr out :=
  (r.acceptHeader hdr circSpace).emit (.logPacket (r.ibuf.unread.take txmitSize) (firstMode hdr))

/-- Case `xtr_idle`: `cp` is where a packet may start. -/
def xtrIdleCase (io : DasIO) (r : XiomasTcpRcvr out) (circSpace : ℕ) :
    XiomasTcpRcvr out × Outcome :=
  -- Both early returns skip `report_ok`; only this one drops the parsed bytes first.
  if r.ibuf.nc-r.ibuf.cp < xioHarvardHeaderSize then
    ({r with ibuf := io.consume r.ibuf.cp r.ibuf}, .ret)
  else
    let hdr := r.ibuf.unread.take xioHarvardHeaderSize
    let r := {r with bytesRemainingInPacket := xhgGetPacketLength hdr}
    if !xhgValidateHeader hdr r.bytesRemainingInPacket then (r.reject, .again)
    else if r.bytesRemainingInPacket > maxSpktLength+1000 then
      ((r.emit .oversized).reject, .again)
    else if r.getTxmitSize = 0 then (r, .ret)
    else (r.beginPacket hdr r.getTxmitSize circSpace, .txmit r.getTxmitSize)

/-- Case `xtr_mid_pkt`: log the next chunk if it is complete. -/
def xtrMidPktCase (r : XiomasTcpRcvr out) : XiomasTcpRcvr out × Outcome :=
  if r.getTxmitSize = 0 then (r, .txmit 0)
  else (r.emit (.logPacket (r.ibuf.unread.take r.getTxmitSize) .logCurfile), .txmit r.getTxmitSize)

def switchCase (io : DasIO) (r : XiomasTcpRcvr out) (circSpace : ℕ) : XiomasTcpRcvr out × Outcome :=
  match r.state with
  | .xtrLost => (r.xtrLostCase io, .again)
  | .xtrIdle => r.xtrIdleCase io circSpace
  | .xtrMidPkt => r.xtrMidPktCase

theorem switchCase_lost (io : DasIO) (r : XiomasTcpRcvr out) (circSpace : ℕ)
    (h : r.state = .xtrLost) : r.switchCase io circSpace = (r.xtrLostCase io, .again) := by
  simp only [switchCase, h]

theorem switchCase_idle (io : DasIO) (r : XiomasTcpRcvr out) (circSpace : ℕ)
    (h : r.state = .xtrIdle) : r.switchCase io circSpace = r.xtrIdleCase io circSpace := by
  simp only [switchCase, h]

theorem switchCase_mid (io : DasIO) (r : XiomasTcpRcvr out) (circSpace : ℕ)
    (h : r.state = .xtrMidPkt) : r.switchCase io circSpace = r.xtrMidPktCase := by
  simp only [switchCase, h]

/-- The code behind the switch, for `txmit_size > 0`. -/
def txmitPart (serio : SerioLib) (me : ι) (r : XiomasTcpRcvr out) (x : XiomasTcpExport out ι)
    (txmitSize : ℕ) : Option (XiomasTcpRcvr out × XiomasTcpExport out ι) :=
  let span := r.ibuf.unread.take txmitSize
  (if r.transmittingCurrentPacket then x.forwardPacket serio span else some x).map fun x =>
    let r := if r.transmittingCurrentPacket then r.emit (.forwardPacket span) else r
    let r := {r with
      ibuf := ⟨r.ibuf.buf,r.ibuf.cp+txmitSize⟩
      bytesRemainingInPacket := u32Sub r.bytesRemainingInPacket txmitSize}
    -- With the packet complete, `state` is still `xtr_mid_pkt`.
    if r.bytesRemainingInPacket = 0 then (r.emit .requestAck, x.requestAck me) else (r, x)

/-- `report_ok(cp)` behind the loop. -/
def finish (io : DasIO) (r : XiomasTcpRcvr out) : XiomasTcpRcvr out :=
  {r with ibuf := io.reportOk r.ibuf.cp r.ibuf}

/-- Unread bytes, counted twice so that leaving `xtr_lost` is progress as well. -/
def unreadMeasure (r : XiomasTcpRcvr out) : ℕ :=
  2*r.ibuf.unread.length+(if r.state = .xtrLost then 1 else 0)

theorem length_unread_of_lt (r : XiomasTcpRcvr out) (h : r.ibuf.cp < r.ibuf.nc) :
    0 < r.ibuf.unread.length := by
  rw [InputBuffer.length_unread]
  omega

theorem acceptHeader_ibuf (r : XiomasTcpRcvr out) (hdr : List UInt8) (circSpace : ℕ) :
    (r.acceptHeader hdr circSpace).ibuf = r.ibuf := by
  simp only [acceptHeader, emit, sendFlag]
  split_ifs <;> rfl

/-- A case that continues the loop makes progress. -/
theorem switchCase_again (io : DasIO) (r r' : XiomasTcpRcvr out) (circSpace : ℕ)
    (hlt : r.ibuf.cp < r.ibuf.nc) (h : r.switchCase io circSpace = (r', .again)) :
    r'.unreadMeasure < r.unreadMeasure := by
  have hpos := length_unread_of_lt r hlt
  unfold switchCase at h
  split at h
  · rename_i hlost
    obtain rfl := (Prod.mk.inj h).1.symm
    rcases io.notFound_cases 0x24 r.ibuf with ⟨-, hm⟩ | ⟨pre, post, hsplit, -, hm⟩
    · simp only [xtrLostCase, hm, unreadMeasure, hlost, if_true, InputBuffer.unread_empty,
        List.length_nil]
      omega
    · have hadv := InputBuffer.unread_advance r.ibuf pre.length
      have hcp : r.ibuf.cp+(pre.length+1)-1 = r.ibuf.cp+pre.length := by omega
      simp only [xtrLostCase, hm, unreadMeasure, hlost, if_true, hcp, hadv, List.length_drop,
        reduceCtorEq, if_false]
      omega
  · rename_i hidle
    have hrej (s : XiomasTcpRcvr out) (hs : s.ibuf = r.ibuf) :
        s.reject.unreadMeasure < r.unreadMeasure := by
      have hadv := InputBuffer.unread_advance r.ibuf 1
      simp only [reject, unreadMeasure, hs, hadv, List.length_drop, if_true, hidle,
        reduceCtorEq, if_false]
      omega
    unfold xtrIdleCase at h
    dsimp only at h
    split_ifs at h
    · cases h
    · obtain rfl := (Prod.mk.inj h).1.symm
      exact hrej _ rfl
    · obtain rfl := (Prod.mk.inj h).1.symm
      exact hrej _ rfl
    · cases h
    · cases h
  · unfold xtrMidPktCase at h
    split_ifs at h <;> cases h

/-- A case that hands bytes on leaves the buffer alone, has these bytes, and is
in mid-packet from then on. -/
theorem switchCase_txmit (io : DasIO) (r r' : XiomasTcpRcvr out) (circSpace txmitSize : ℕ)
    (h : r.switchCase io circSpace = (r', .txmit txmitSize)) :
    r'.ibuf = r.ibuf ∧ txmitSize ≤ r.ibuf.unread.length ∧ r'.state = .xtrMidPkt := by
  have hsize (s : XiomasTcpRcvr out) (hs : s.ibuf = r.ibuf) :
      s.getTxmitSize ≤ r.ibuf.unread.length := by
    rw [InputBuffer.length_unread, ← hs]
    unfold getTxmitSize
    dsimp only
    split_ifs <;> omega
  unfold switchCase at h
  split at h
  · cases h
  · unfold xtrIdleCase at h
    dsimp only at h
    split_ifs at h
    · cases h
    · cases h
    · cases h
    · cases h
    · obtain ⟨rfl, h2⟩ := Prod.mk.inj h
      obtain rfl := Outcome.txmit.inj h2
      exact ⟨acceptHeader_ibuf _ _ circSpace, hsize _ rfl, rfl⟩
  · rename_i hmid
    unfold xtrMidPktCase at h
    split_ifs at h
    · obtain ⟨rfl, h2⟩ := Prod.mk.inj h
      obtain rfl := Outcome.txmit.inj h2
      exact ⟨rfl, Nat.zero_le _, hmid⟩
    · obtain ⟨rfl, h2⟩ := Prod.mk.inj h
      obtain rfl := Outcome.txmit.inj h2
      exact ⟨rfl, hsize r rfl, hmid⟩

theorem txmitPart_ibuf (serio : SerioLib) (me : ι) (r s : XiomasTcpRcvr out)
    (x y : XiomasTcpExport out ι) (txmitSize : ℕ)
    (h : txmitPart serio me r x txmitSize = some (s, y)) :
    s.ibuf = ⟨r.ibuf.buf,r.ibuf.cp+txmitSize⟩ ∧ s.state = r.state := by
  simp only [txmitPart, Option.map_eq_some_iff] at h
  obtain ⟨x', -, hx⟩ := h
  split_ifs at hx <;> obtain ⟨rfl, -⟩ := Prod.mk.inj hx <;> exact ⟨rfl, rfl⟩

/-- The loop of `protocol_input`. -/
def protocolInputLoop (io : DasIO) (serio : SerioLib) (me : ι) (r : XiomasTcpRcvr out)
    (x : XiomasTcpExport out ι) : Option (XiomasTcpRcvr out × XiomasTcpExport out ι) :=
  if _hlt : r.ibuf.cp < r.ibuf.nc then
    match _hcase : r.switchCase io x.circSpace with
    | (r', .ret) => some (r', x)
    | (r', .again) => protocolInputLoop io serio me r' x
    | (r', .txmit txmitSize) =>
      if txmitSize = 0 then some (r'.finish io, x)
      else
        match _htxmit : txmitPart serio me r' x txmitSize with
        | none => none
        | some (s, y) => protocolInputLoop io serio me s y
  else some (r.finish io, x)
termination_by r.unreadMeasure
decreasing_by
  · exact switchCase_again io r r' x.circSpace _hlt _hcase
  · obtain ⟨hb, hle, hmid⟩ := switchCase_txmit io r r' x.circSpace txmitSize _hcase
    obtain ⟨hs, hst⟩ := txmitPart_ibuf serio me r' s x y txmitSize _htxmit
    have hadv := InputBuffer.unread_advance r.ibuf txmitSize
    simp only [unreadMeasure, hs, hb, hadv, List.length_drop, hst, hmid, reduceCtorEq, if_false]
    omega

/-- One read of `bytes` followed by `protocol_input`. -/
def protocolInput (io : DasIO) (serio : SerioLib) (me : ι) (r : XiomasTcpRcvr out)
    (x : XiomasTcpExport out ι) (bytes : List UInt8) :
    Option (XiomasTcpRcvr out × XiomasTcpExport out ι) :=
  protocolInputLoop io serio me {r with ibuf := io.read r.ibuf bytes} x

end XiomasTcpRcvr
end Cosmid.Xiomas
