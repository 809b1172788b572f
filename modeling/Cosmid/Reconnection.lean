import Cosmid.Credit
import Cosmid.NephexExport
import Cosmid.XiomasHandshake
import Cosmid.XiomasUdp

/-! The three exporters as clients that reconnect: none of them touches its
flow-control state when a connection is made. -/
namespace Cosmid

variable {out : OutputSocket} {ι : Type}

/-- A socket as it is after a connection has been made. -/
def EmptySocket (out : OutputSocket) : Type := {sock : out.State // out.obufEmpty sock = true}

namespace Xiomas

namespace XiomasTcpExport

/-- Bytes handed to the socket. -/
def bytesWritten (x : XiomasTcpExport out ι) : ℕ := x.iwrites.flatten.length

theorem Drained.bytesWritten_eq {x y : XiomasTcpExport out ι} {n : ℕ} (hd : Drained x n y) :
    y.bytesWritten = x.bytesWritten+n := by
  obtain ⟨spans, h1, h2, -⟩ := hd.spans
  have hlen : spans.flatten.length = n := by
    rw [h2, List.length_take, length_contents]
    exact Nat.min_eq_left hd.le
  rw [bytesWritten, bytesWritten, h1, List.flatten_append, List.length_append, hlen]

/-- The bytes that an event acknowledges. -/
def ackLength : ExportOp out ι → ℕ
  | .ack length => length
  | _ => 0

theorem exportStep_debt (serio : SerioLib) (x : XiomasTcpExport out ι) (op : ExportOp out ι)
    (hv : x.CircValid) (hack : ackLength op ≤ x.outstandingBytes) :
    ∃ y, exportStep serio x op = some y ∧ y.CircValid ∧
      y.outstandingBytes+ackLength op =
        x.outstandingBytes+(y.bytesWritten-x.bytesWritten) := by
  cases op with
  | forward bfr =>
    obtain ⟨z, n, y, hy, hz, -, hd⟩ := x.forwardPacket_spec serio hv bfr
    have hw := hd.bytesWritten_eq
    have ho := hd.outstanding_eq
    have hzw : z.bytesWritten = x.bytesWritten := by rw [bytesWritten, hz.frame]; rfl
    have hzo : z.outstandingBytes = x.outstandingBytes := by rw [hz.frame]
    refine ⟨y, hy, hd.valid, ?_⟩
    change y.outstandingBytes+0 = _
    omega
  | requestAck client =>
    refine ⟨_, rfl, ⟨hv.size_lt, hv.tail_lt, hv.head_cases, hv.outstanding_lt⟩, ?_⟩
    simp [ackLength, XiomasTcpExport.requestAck, bytesWritten]
  | ack length =>
    obtain ⟨n, y, hy, hd⟩ := x.appInputAck_spec hv length
    have hw : y.bytesWritten = x.bytesWritten+n := hd.bytesWritten_eq
    have ho : y.outstandingBytes = (if length > x.outstandingBytes then 0
      else x.outstandingBytes-length)+n := hd.outstanding_eq
    change length ≤ x.outstandingBytes at hack
    rw [if_neg (Nat.not_lt.mpr hack)] at ho
    refine ⟨y, hy, hd.valid, ?_⟩
    change y.outstandingBytes+length = _
    omega
  | socket sock =>
    refine ⟨_, rfl, ⟨hv.size_lt, hv.tail_lt, hv.head_cases, hv.outstanding_lt⟩, ?_⟩
    simp [ackLength, bytesWritten]

end XiomasTcpExport

namespace XiomasUdpExport

/-- Input answers the packet that is pending. -/
def answered (io : DasIO) (x : XiomasUdpExport out) : UdpOp out → ℕ
  | .input bytes => (x.ackPending && decide ((io.read x.ibuf bytes).unread ≠ [])).toNat
  | _ => 0

theorem udpStep_debt (io : DasIO) (serio : SerioLib) (ok : OkParser) (x : XiomasUdpExport out)
    (op : UdpOp out) :
    (x.udpStep io serio ok op).ackPending.toNat+x.answered io op =
      x.ackPending.toNat+((x.udpStep io serio ok op).iwrites.length-x.iwrites.length) := by
  cases op with
  | forward bfr =>
    simp only [udpStep, forwardPacket, answered]
    split_ifs with hwait
    · simp
    · obtain ⟨hpend, -⟩ := not_or.mp hwait
      simp [Bool.eq_false_iff.mpr hpend]
  | input bytes =>
    obtain ⟨hw, hp⟩ := appInputLoop_frame io ok {x with ibuf := io.read x.ibuf bytes}
    simp only [udpStep, appInput, answered, hw, hp]
    cases x.ackPending <;> by_cases h : (io.read x.ibuf bytes).unread = [] <;> simp [h]
  | socket sock => simp [udpStep, answered]

end XiomasUdpExport
end Xiomas

namespace Nephex

/-- What can happen to `nephex_tcp_export`. Its caller asks `CTS()` before it
forwards anything. -/
inductive NephexOp (out : OutputSocket)
  | forward (bfr : {bfr : List UInt8 // bfr.length < 65536})
  | ack (length : ℕ)
  | socket (sock : out.State)

namespace NephexTcpExport

def exportStep (serio : SerioLib) (x : NephexTcpExport out) :
    NephexOp out → Option (NephexTcpExport out)
  | .forward bfr => if x.cts then x.forwardPacket serio bfr.val else some x
  | .ack length => some (x.appInputAck length)
  | .socket sock => some {x with sock := sock}

def bytesWritten (x : NephexTcpExport out) : ℕ := x.iwrites.flatten.length

def ackLength : NephexOp out → ℕ
  | .ack length => length
  | _ => 0

/-- The assertion in `forward_packet` holds, and the count does not wrap. -/
theorem exportStep_debt (serio : SerioLib) (x : NephexTcpExport out) (op : NephexOp out)
    (hack : ackLength op ≤ x.outstandingBytes) :
    ∃ y, exportStep serio x op = some y ∧
      y.outstandingBytes+ackLength op =
        x.outstandingBytes+(y.bytesWritten-x.bytesWritten) := by
  cases op with
  | forward bfr =>
    by_cases hcts : x.cts = true
    · have hlt : x.outstandingBytes < 2000 := by
        simp only [cts, Bool.and_eq_true, decide_eq_true_eq] at hcts
        exact hcts.1
      have hlen := bfr.property
      have hhdr := serio.length_mkHdr serio.pktTypeNPH bfr.val
      refine ⟨_, by rw [exportStep, if_pos hcts, forwardPacket, if_pos hcts], ?_⟩
      simp only [ackLength, bytesWritten, List.flatten_append, List.length_append,
        List.flatten_singleton, hhdr, u32, SerioLib.pktHdrSize]
      omega
    · refine ⟨x, by rw [exportStep, if_neg hcts], ?_⟩
      simp [ackLength]
  | ack length =>
    change length ≤ x.outstandingBytes at hack
    refine ⟨_, rfl, ?_⟩
    simp only [ackLength, appInputAck, bytesWritten, if_neg (Nat.not_lt.mpr hack)]
    omega
  | socket sock =>
    refine ⟨_, rfl, ?_⟩
    simp [ackLength, bytesWritten]

end NephexTcpExport
end Nephex

namespace Reconnection

open CreditClient Xiomas Nephex

/-- `xiomas_tcp_export` counts bytes. -/
def xtx (out : OutputSocket) (ι : Type) (serio : SerioLib) :
    CreditClient (XiomasTcpExport out ι) (ExportOp out ι) (EmptySocket out) where
  step := exportStep serio
  connect sock x := {x with sock := sock.val}
  debt x := x.outstandingBytes
  written x y := y.bytesWritten-x.bytesWritten
  acked _ op := XiomasTcpExport.ackLength op
  Valid x := x.CircValid
  step_debt x op hv hack := XiomasTcpExport.exportStep_debt serio x op hv hack
  connect_debt _ _ hv := ⟨⟨hv.size_lt, hv.tail_lt, hv.head_cases, hv.outstanding_lt⟩, rfl⟩

/-- `xiomas_udp_export` counts packets, of which it lets one be pending. -/
def xux (out : OutputSocket) (io : DasIO) (serio : SerioLib) (ok : OkParser) :
    CreditClient (XiomasUdpExport out) (UdpOp out) (EmptySocket out) where
  step x op := some (x.udpStep io serio ok op)
  connect sock x := {x with sock := sock.val, ibuf := InputBuffer.empty}
  debt x := x.ackPending.toNat
  written x y := y.iwrites.length-x.iwrites.length
  acked x op := x.answered io op
  Valid _ := True
  step_debt x op _ _ := ⟨_, rfl, trivial, x.udpStep_debt io serio ok op⟩
  connect_debt _ _ _ := ⟨trivial, rfl⟩

/-- `nephex_tcp_export` counts bytes. -/
def ntexp (out : OutputSocket) (serio : SerioLib) :
    CreditClient (NephexTcpExport out) (NephexOp out) (EmptySocket out) where
  step := NephexTcpExport.exportStep serio
  connect sock x := {x with sock := sock.val}
  debt x := x.outstandingBytes
  written x y := y.bytesWritten-x.bytesWritten
  acked _ op := NephexTcpExport.ackLength op
  Valid _ := True
  step_debt x op _ hack := by
    obtain ⟨y, hy, hdebt⟩ := NephexTcpExport.exportStep_debt serio x op hack
    exact ⟨y, hy, trivial, hdebt⟩
  connect_debt _ _ _ := ⟨trivial, rfl⟩

/-- What is outstanding is a part of what was written on this connection and has not
been acknowledged there, so a window that is closed by it waits for an ACK that the
peer still owes. -/
def TcpCurrent {σ ε κ : Type} (c : CreditClient σ ε κ) (l : Link σ) : Prop :=
  c.Current l ∧ (l.connected = true → 2000 ≤ c.debt l.client → l.acked < l.sent)

/-- A packet that is pending was sent on this connection. -/
def UdpCurrent (l : Link (XiomasUdpExport out)) : Prop :=
  l.connected = true → l.client.ackPending = true → 0 < l.sent

theorem tcpCurrent_of_current {σ ε κ : Type} (c : CreditClient σ ε κ) (l : Link σ)
    (h : c.Current l) : TcpCurrent c l := by
  refine ⟨h, fun hconn hfull => ?_⟩
  have := h hconn
  omega

theorem not_tcpCurrent {σ ε κ : Type} (c : CreditClient σ ε κ) (l : Link σ)
    (hconn : l.connected = true) (hsent : l.sent = 0) (hpos : 0 < c.debt l.client) :
    ¬TcpCurrent c l := by
  intro h
  have := h.1 hconn
  omega

theorem not_udpCurrent (l : Link (XiomasUdpExport out)) (hconn : l.connected = true)
    (hsent : l.sent = 0) (hpos : 0 < l.client.ackPending.toNat) : ¬UdpCurrent l := by
  intro h
  have hpend : l.client.ackPending = true := by
    cases hp : l.client.ackPending
    · rw [hp] at hpos
      exact absurd hpos (Nat.lt_irrefl 0)
    · rfl
  have := h hconn hpend
  omega

/-- Each exporter's flow control is about the current connection, throughout a run,
if and only if no connection is made before everything written up to then has been
acknowledged. -/
theorem flow_control_survives_iff (io : DasIO) (serio : SerioLib) (ok : OkParser)
    (circ : ℕ → UInt8) (sock : out.State) :
    (∀ es, Run.Along (xtx out ι serio).linkStep (xtx out ι serio).Honest
        (offline (.new circ sock)) es →
      (Run.Throughout (xtx out ι serio).linkStep (fun _ l => TcpCurrent (xtx out ι serio) l)
          (offline (.new circ sock)) es ↔
        Run.Along (xtx out ι serio).linkStep Settled (offline (.new circ sock)) es)) ∧
    (∀ es, Run.Along (ntexp out serio).linkStep (ntexp out serio).Honest (offline (.new sock)) es →
      (Run.Throughout (ntexp out serio).linkStep (fun _ l => TcpCurrent (ntexp out serio) l)
          (offline (.new sock)) es ↔
        Run.Along (ntexp out serio).linkStep Settled (offline (.new sock)) es)) ∧
    ∀ es, Run.Along (xux out io serio ok).linkStep (xux out io serio ok).Honest
        (offline (.new sock)) es →
      (Run.Throughout (xux out io serio ok).linkStep (fun _ l => UdpCurrent l)
          (offline (.new sock)) es ↔
        Run.Along (xux out io serio ok).linkStep Settled (offline (.new sock)) es) := by
  refine ⟨fun es hh => ?_, fun es hh => ?_, fun es hh => ?_⟩
  · exact throughout_iff_settled _ _ (tcpCurrent_of_current _) (not_tcpCurrent _) _
      (XiomasTcpExport.circValid_new circ sock) rfl es hh
  · exact throughout_iff_settled _ _ (tcpCurrent_of_current _) (not_tcpCurrent _) _ trivial rfl
      es hh
  · refine throughout_iff_settled _ _ ?_ not_udpCurrent _ trivial rfl es hh
    intro l h hconn hpend
    have hdebt : l.client.ackPending.toNat ≤ l.sent-l.acked := h hconn
    rw [hpend] at hdebt
    exact Nat.lt_of_lt_of_le hdebt (Nat.sub_le _ _)

/-- A byte that is forwarded by a new `xiomas_tcp_export` goes out with its header at once,
and nothing is left for the ACK to start. -/
theorem xtx_answered (circ : ℕ → UInt8) :
    ∃ y z : XiomasTcpExport .direct Unit,
      (XiomasTcpExport.new circ ()).forwardPacket SerioLib.packed [1] = some y ∧
      y.bytesWritten = 7 ∧ y.appInputAck 7 = some z ∧ z.bytesWritten = 7 := by
  let x : XiomasTcpExport .direct Unit := .new circ ()
  have hv : x.CircValid := XiomasTcpExport.circValid_new _ _
  have hlen : x.circLength = 0 := by
    have hnil : x.contents = [] := XiomasTcpExport.contents_new _ _
    rw [← XiomasTcpExport.length_contents, hnil, List.length_nil]
  have hroom : 0+(SerioLib.pktHdrSize+[(1 : UInt8)].length) < circBufferSize := by decide
  obtain ⟨heven, hspace, -⟩ :=
    x.forwardPacket_straight SerioLib.packed hv 0 (Or.inl hlen) [1] hroom
  obtain ⟨y, hy, -, hstream, -⟩ := x.forwardPacket_even SerioLib.packed hv [1] hspace heven
  obtain ⟨w, n, y', hy', hw, -, hd⟩ := x.forwardPacket_spec SerioLib.packed hv [1]
  obtain rfl := Option.some.inj (hy.symm.trans hy')
  have hall : y.bytesWritten+y.circLength = 7 := by
    have hl := congrArg List.length hstream
    rw [XiomasTcpExport.stream, List.length_append, XiomasTcpExport.length_contents] at hl
    exact hl
  have hbytes : y.bytesWritten = n := by
    have hzero : w.bytesWritten = 0 := by
      rw [hw.frame]
      rfl
    rw [hd.bytesWritten_eq, hzero, Nat.zero_add]
  have hout : y.outstandingBytes = n := by
    have hzero : w.outstandingBytes = 0 := by
      rw [hw.frame]
      rfl
    rw [hd.outstanding_eq, hzero, Nat.zero_add]
  have hempty : y.circLength = 0 := by
    refine hd.stopped.resolve_right ?_
    rw [XiomasTcpExport.cts, Bool.and_eq_false_iff, not_or, decide_eq_false_iff_not]
    exact ⟨by omega, Bool.noConfusion⟩
  obtain ⟨m, z, hz, hdz⟩ := y.appInputAck_spec hd.valid 7
  have hm := hdz.le
  have hzb := hdz.bytesWritten_eq
  refine ⟨y, z, hy, by omega, hz, ?_⟩
  change m ≤ y.circLength at hm
  change z.bytesWritten = y.bytesWritten+m at hzb
  omega

/-- Each exporter forwards a packet that is acknowledged before the connection is lost. -/
theorem flow_control_survives_answered :
    Run.Throughout (xtx .direct Unit SerioLib.packed).linkStep
      (fun _ l => TcpCurrent (xtx .direct Unit SerioLib.packed) l) (offline (.new (fun _ => 0) ()))
      (answeredRun ⟨(),rfl⟩ (.forward [1]) (.ack 7)) ∧
    Run.Throughout (ntexp .direct SerioLib.packed).linkStep
      (fun _ l => TcpCurrent (ntexp .direct SerioLib.packed) l) (offline (.new ()))
      (answeredRun ⟨(),rfl⟩ (.forward ⟨[1,2],by decide⟩) (.ack 8)) ∧
    Run.Throughout (xux .direct DasIO.keeping SerioLib.packed OkParser.scanning).linkStep
      (fun _ l => UdpCurrent l) (offline (.new ()))
      (answeredRun ⟨(),rfl⟩ (.forward [1]) (.input [0x4f,0x4b,0x0a])) := by
  obtain ⟨h1, h2, h3⟩ := @flow_control_survives_iff .direct Unit DasIO.keeping SerioLib.packed
    OkParser.scanning (fun _ => 0) ()
  obtain ⟨y, z, hy, hyb, hz, hzb⟩ := xtx_answered fun _ => 0
  obtain ⟨honest1, settled1⟩ := (xtx .direct Unit SerioLib.packed).answered_settled
    (.new (fun _ => 0) ()) y z ⟨(),rfl⟩ (.forward [1]) (.ack 7) hy hz rfl
    (by change 7 = y.bytesWritten-0; rw [hyb])
    (by change z.bytesWritten-y.bytesWritten = 0; rw [hyb, hzb])
  obtain ⟨honest2, settled2⟩ := (ntexp .direct SerioLib.packed).answered_settled
    (.new ()) _ _ ⟨(),rfl⟩ (.forward ⟨[1,2],by decide⟩) (.ack 8) rfl rfl rfl rfl rfl
  obtain ⟨honest3, settled3⟩ :=
    (xux .direct DasIO.keeping SerioLib.packed OkParser.scanning).answered_settled
      (.new ()) _ _ ⟨(),rfl⟩ (.forward [1]) (.input [0x4f,0x4b,0x0a]) rfl rfl rfl rfl (by
        have hframe := XiomasUdpExport.appInputLoop_frame DasIO.keeping OkParser.scanning
          {(XiomasUdpExport.new () : XiomasUdpExport .direct).forwardPacket SerioLib.packed [1] with
            ibuf := ⟨[0x4f,0x4b,0x0a],0⟩}
        exact Nat.sub_eq_zero_of_le (Nat.le_of_eq (congrArg List.length hframe.1)))
  exact ⟨(h1 _ honest1).mpr settled1, (h2 _ honest2).mpr settled2, (h3 _ honest3).mpr settled3⟩

/-- What is written and not acknowledged before the connection is lost: one packet,
for `ntexp` one that fills its window. -/
theorem flow_control_lost :
    (∃ es, Run.Along (xtx .direct Unit SerioLib.packed).linkStep
        (xtx .direct Unit SerioLib.packed).Honest (offline (.new (fun _ => 0) ())) es ∧
      ¬Run.Throughout (xtx .direct Unit SerioLib.packed).linkStep
        (fun _ l => TcpCurrent (xtx .direct Unit SerioLib.packed) l)
        (offline (.new (fun _ => 0) ())) es) ∧
    (∃ es, Run.Along (ntexp .direct SerioLib.packed).linkStep
        (ntexp .direct SerioLib.packed).Honest (offline (.new ())) es ∧
      ¬Run.Throughout (ntexp .direct SerioLib.packed).linkStep
        (fun _ l => TcpCurrent (ntexp .direct SerioLib.packed) l) (offline (.new ())) es) ∧
    ∃ es, Run.Along (xux .direct DasIO.keeping SerioLib.packed OkParser.scanning).linkStep
        (xux .direct DasIO.keeping SerioLib.packed OkParser.scanning).Honest
        (offline (.new ())) es ∧
      ¬Run.Throughout (xux .direct DasIO.keeping SerioLib.packed OkParser.scanning).linkStep
        (fun _ l => UdpCurrent l) (offline (.new ())) es := by
  have k : EmptySocket .direct := ⟨(),rfl⟩
  refine ⟨?_, ?_, ?_⟩
  · -- The packet goes through the ring buffer before it is written.
    have hnew : ((xtx .direct Unit SerioLib.packed).connect k (.new (fun _ => 0) ())).Owed
        (fun _ => 0) 0 := ⟨XiomasTcpExport.circValid_new _ _, rfl, Nat.le_refl 0, Nat.succ_pos _⟩
    obtain ⟨y, hy, ho, -, hpos⟩ :=
      XiomasTcpExport.forwardPacket_owed PeerSystem.accounted_direct SerioLib.packed _ hnew [1]
    have hack : (xtx .direct Unit SerioLib.packed).acked
        ((xtx .direct Unit SerioLib.packed).connect k (.new (fun _ => 0) ()))
        (ExportOp.forward [1]) = 0 := by
      dsimp only [xtx, XiomasTcpExport.ackLength]
    have hstep : (xtx .direct Unit SerioLib.packed).step
        ((xtx .direct Unit SerioLib.packed).connect k (.new (fun _ => 0) ()))
        (ExportOp.forward [1]) = some y := by
      simpa only [xtx, exportStep] using hy
    exact ⟨_, lost_debt _ _ (not_tcpCurrent _) _ y k _ hstep ho.valid hack hpos⟩
  · have hlen : (List.replicate 1994 (0 : UInt8)).length < 65536 := by
      rw [List.length_replicate]
      decide
    refine ⟨_, lost_debt _ _ (not_tcpCurrent _) _ _ k (NephexOp.forward ⟨_,hlen⟩) rfl trivial rfl ?_⟩
    change 0 < Nephex.u32 (0+(6+(List.replicate 1994 (0 : UInt8)).length))
    rw [List.length_replicate]
    decide
  · exact ⟨_, lost_debt _ _ not_udpCurrent _ _ k (UdpOp.forward [1]) rfl trivial rfl
      Nat.one_pos⟩

end Reconnection
end Cosmid
