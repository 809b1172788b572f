import Cosmid.Run
import Cosmid.XiomasUdp

/-! `xiomas_udp_export` with its peer, which answers every packet with `OK\n`: when
the exporter waits for the answer to the last packet. -/
namespace Cosmid.Xiomas

variable {out : OutputSocket}

/-- `n` answers, one behind the other. -/
def ackStream : ℕ → List UInt8
  | 0 => []
  | n+1 => 0x4f :: 0x4b :: 0x0a :: ackStream n

/-- The answers at the front of the bytes that are there to their last byte. -/
def completeAcks : List UInt8 → ℕ
  | 0x4f :: 0x4b :: 0x0a :: rest => completeAcks rest+1
  | _ => 0

theorem length_ackStream (n : ℕ) : (ackStream n).length = 3*n := by
  induction n with
  | zero => rfl
  | succ n ih =>
    simp only [ackStream, List.length_cons, ih]
    omega

theorem completeAcks_of_isPrefix (n : ℕ) (acks : List UInt8) (h : acks <+: ackStream n) :
    completeAcks acks = acks.length/3 := by
  induction n generalizing acks with
  | zero =>
    rw [List.prefix_nil.mp h]
    rfl
  | succ n ih =>
    rcases acks with - | ⟨a, - | ⟨b, - | ⟨c, rest⟩⟩⟩
    · rfl
    · simp [completeAcks]
    · simp [completeAcks]
    · simp only [ackStream, List.cons_prefix_cons] at h
      obtain ⟨rfl, rfl, rfl, hrest⟩ := h
      simp only [completeAcks, ih rest hrest, List.length_cons]
      omega

theorem ackStream_add (m n : ℕ) : ackStream (m+n) = ackStream m ++ ackStream n := by
  induction m with
  | zero => rw [Nat.zero_add, ackStream, List.nil_append]
  | succ m ih =>
    rw [Nat.add_right_comm]
    simp only [ackStream, ih, List.cons_append]

/-- A part of the stream that ends with an answer. -/
theorem eq_ackStream_of_isPrefix {n : ℕ} {acks : List UInt8} (h : acks <+: ackStream n)
    (hwhole : acks.length%3 = 0) : acks = ackStream (acks.length/3) := by
  have hle : acks.length ≤ 3*n := by
    have hlen := h.length_le
    rwa [length_ackStream] at hlen
  have hpre : ackStream (acks.length/3) <+: ackStream n := by
    obtain ⟨k, hk⟩ := Nat.le.dest (by omega : acks.length/3 ≤ n)
    rw [← hk, ackStream_add]
    exact List.prefix_append _ _
  refine (List.prefix_of_prefix_length_le h hpre ?_).eq_of_length ?_
  · rw [length_ackStream]
    omega
  · rw [length_ackStream]
    omega

/-- The exporter and what its peer has sent to it so far. -/
structure StopWait (out : OutputSocket) where
  exp : XiomasUdpExport out
  acks : List UInt8

namespace StopWait

/-- Packets written. -/
def written (t : StopWait out) : ℕ := t.exp.iwrites.length

def step (io : DasIO) (serio : SerioLib) (ok : OkParser) (t : StopWait out) (op : UdpOp out) :
    Option (StopWait out) :=
  some ⟨t.exp.udpStep io serio ok op,match op with
    | .input bytes => t.acks ++ bytes
    | _ => t.acks⟩

/-- The peer sends one `OK\n` for each packet written, and nothing else. -/
def OneAckEach (t : StopWait out) : UdpOp out → Prop
  | .input bytes => t.acks ++ bytes <+: ackStream t.written
  | _ => True

/-- All packets written are answered, or all but one, and then `ack_pending` is set. -/
def AtMostOne (t : StopWait out) : Prop :=
  (t.written = completeAcks t.acks ∧ t.exp.ackPending = false) ∨
  (t.written = completeAcks t.acks+1 ∧ t.exp.ackPending = true)

/-- No read ends in the middle of an answer. -/
def WholeAcks (t : StopWait out) : UdpOp out → Prop
  | .input bytes => (t.acks ++ bytes).length%3 = 0
  | _ => True

theorem length_forwardPacket (serio : SerioLib) (x : XiomasUdpExport out) (bfr : List UInt8)
    (hclear : x.ackPending = false) (hempty : out.obufEmpty x.sock = true) :
    (x.forwardPacket serio bfr).iwrites.length = x.iwrites.length+1 := by
  simp [XiomasUdpExport.forwardPacket, hclear, hempty]

/-- The invariant of the runs in which answers arrive whole. -/
structure Whole (t : StopWait out) : Prop where
  sent : t.acks <+: ackStream t.written
  whole : t.acks.length%3 = 0
  window : t.AtMostOne
  ibuf_eq : t.exp.ibuf = InputBuffer.empty

/-- With nothing left over, the buffer is what is read. -/
theorem Whole.read_eq {t : StopWait out} (h : t.Whole) (io : DasIO) (bytes : List UInt8) :
    io.read t.exp.ibuf bytes = ⟨bytes,0⟩ := by
  rw [h.ibuf_eq]
  exact io.read_zero [] bytes

theorem whole_new (sock : out.State) : Whole (⟨.new sock,[]⟩ : StopWait out) :=
  ⟨List.nil_prefix, rfl, Or.inl ⟨rfl, rfl⟩, rfl⟩

/-- Whole answers are consumed to the last byte. -/
theorem appInputLoop_ibuf (io : DasIO) (ok : OkParser) (x : XiomasUdpExport out) (n : ℕ)
    (hx : x.ibuf.unread = ackStream n) (hcp : x.ibuf.cp ≤ x.ibuf.nc) :
    (x.appInputLoop io ok).ibuf = InputBuffer.empty := by
  induction n generalizing x with
  | zero =>
    have hlen := x.ibuf.length_unread
    rw [hx, length_ackStream] at hlen
    have heq : x.ibuf.nc = x.ibuf.cp := by omega
    rw [XiomasUdpExport.appInputLoop, if_neg (by omega)]
    dsimp only
    rw [heq, io.consume_parsed, hx]
    rfl
  | succ n ih =>
    have hlen := x.ibuf.length_unread
    rw [hx, length_ackStream] at hlen
    have hhit := ok.notOK_hit x.ibuf (ackStream n) hx
    rw [XiomasUdpExport.appInputLoop, if_pos (by omega)]
    split
    · rename_i b hb
      rw [hhit] at hb
      cases hb
    · rename_i b hb
      rw [hhit] at hb
      obtain rfl := (Prod.mk.inj hb).2
      apply ih
      · dsimp only
        rw [InputBuffer.unread_advance, hx]
        rfl
      · change x.ibuf.cp+3 ≤ x.ibuf.nc
        omega

theorem Whole.completeAcks_eq {t : StopWait out} (h : t.Whole) :
    completeAcks t.acks = t.acks.length/3 := completeAcks_of_isPrefix t.written t.acks h.sent

theorem step_whole (io : DasIO) (serio : SerioLib) (ok : OkParser) (t : StopWait out)
    (op : UdpOp out) (h : t.Whole) (hpeer : t.OneAckEach op) (hwhole : t.WholeAcks op) :
    ∃ t', t.step io serio ok op = some t' ∧ t'.Whole := by
  refine ⟨_, rfl, ?_⟩
  have hack := h.completeAcks_eq
  cases op with
  | forward bfr =>
    simp only [XiomasUdpExport.udpStep, XiomasUdpExport.forwardPacket]
    split_ifs with hwait
    · exact ⟨h.sent, h.whole, h.window, h.ibuf_eq⟩
    · obtain ⟨hpend, -⟩ := not_or.mp hwait
      have hwritten : t.written = completeAcks t.acks := by
        rcases h.window with ⟨heq, -⟩ | ⟨-, hset⟩
        · exact heq
        · exact absurd hset hpend
      refine ⟨?_, h.whole, Or.inr ⟨?_, rfl⟩, h.ibuf_eq⟩
      · simp only [written, List.length_append, List.length_singleton]
        rw [ackStream_add]
        exact h.sent.trans (List.prefix_append _ _)
      · simp only [written, List.length_append, List.length_singleton]
        rw [← hwritten]
        rfl
  | input bytes =>
    -- What is read is whole answers, since what came before it is.
    have hnew : (t.acks ++ bytes) = ackStream ((t.acks ++ bytes).length/3) :=
      eq_ackStream_of_isPrefix hpeer hwhole
    have hold := eq_ackStream_of_isPrefix h.sent h.whole
    have hlen : (t.acks ++ bytes).length = t.acks.length+bytes.length := List.length_append
    have hmod : (t.acks ++ bytes).length%3 = 0 := hwhole
    have hzero := h.whole
    have hbytes : bytes = ackStream (bytes.length/3) := by
      have hsum : (t.acks ++ bytes).length/3 = t.acks.length/3+bytes.length/3 := by omega
      rw [hsum, ackStream_add, ← hold] at hnew
      exact List.append_cancel_left hnew
    have hle : t.acks.length+bytes.length ≤ 3*t.written := by
      have hmax := hpeer.length_le
      rwa [length_ackStream, hlen] at hmax
    have hread := h.read_eq io bytes
    obtain ⟨hiw, hpend⟩ := XiomasUdpExport.appInputLoop_frame io ok
      {t.exp with ibuf := io.read t.exp.ibuf bytes}
    rw [hread] at hiw hpend
    have hexp : t.exp.udpStep io serio ok (.input bytes) =
        XiomasUdpExport.appInputLoop io ok {t.exp with ibuf := ⟨bytes,0⟩} := by
      rw [XiomasUdpExport.udpStep, XiomasUdpExport.appInput, hread]
    rw [hexp]
    have hwr : written ⟨XiomasUdpExport.appInputLoop io ok {t.exp with ibuf := ⟨bytes,0⟩},
        t.acks ++ bytes⟩ = t.written := congrArg List.length hiw
    refine ⟨?_, hwhole, ?_, ?_⟩
    · rw [hwr]
      exact hpeer
    · rw [AtMostOne, hwr, hpend, completeAcks_of_isPrefix t.written _ hpeer, hlen]
      dsimp only
      rw [InputBuffer.unread_mk_zero]
      -- With no packet outstanding the read is empty, otherwise at most one answer.
      rcases h.window with ⟨heq, hset⟩ | ⟨heq, hset⟩
      · left
        rw [hset]
        exact ⟨by omega, rfl⟩
      · rw [hset, Bool.true_and, decide_eq_true_eq, decide_eq_false_iff_not, ← ne_eq,
          ← List.length_pos_iff, ← List.length_eq_zero_iff]
        omega
    · exact appInputLoop_ibuf io ok _ (bytes.length/3) hbytes (Nat.zero_le _)
  | socket sock => exact ⟨h.sent, h.whole, h.window, h.ibuf_eq⟩

/-- The first part of an answer clears `ack_pending`, with the answer incomplete. -/
theorem step_split (io : DasIO) (serio : SerioLib) (ok : OkParser) (t t' : StopWait out)
    (op : UdpOp out) (h : t.Whole) (hpeer : t.OneAckEach op) (hsplit : ¬t.WholeAcks op)
    (ht : t.step io serio ok op = some t') : ¬t'.AtMostOne := by
  obtain rfl := Option.some.inj ht
  cases op with
  | input bytes =>
    have hlen : (t.acks ++ bytes).length = t.acks.length+bytes.length := List.length_append
    have hmod : ¬(t.acks ++ bytes).length%3 = 0 := hsplit
    have hzero := h.whole
    have hread := h.read_eq io bytes
    obtain ⟨hiw, hpend⟩ := XiomasUdpExport.appInputLoop_frame io ok
      {t.exp with ibuf := io.read t.exp.ibuf bytes}
    have hne : (io.read t.exp.ibuf bytes).unread ≠ [] := by
      rw [hread, InputBuffer.unread_mk_zero, ← List.length_pos_iff]
      omega
    have hclear : (t.exp.udpStep io serio ok (.input bytes)).ackPending = false := by
      rw [XiomasUdpExport.udpStep, XiomasUdpExport.appInput, hpend]
      dsimp only
      rw [decide_eq_false hne, Bool.and_false]
    have hmax := hpeer.length_le
    rw [length_ackStream, hlen] at hmax
    rintro (⟨heq, -⟩ | ⟨-, hset⟩)
    · have hwr : t.written = completeAcks (t.acks ++ bytes) :=
        (congrArg List.length hiw).symm.trans heq
      rw [completeAcks_of_isPrefix t.written _ hpeer] at hwr
      omega
    · rw [hclear] at hset
      cases hset
  | _ => exact absurd trivial hsplit

/-- The window of one packet is kept throughout a run if and only if no read ends
in the middle of an answer. -/
theorem stop_and_wait_iff (io : DasIO) (serio : SerioLib) (ok : OkParser) (sock : out.State)
    (ops : List (UdpOp out))
    (hpeer : Run.Along (step io serio ok) OneAckEach (⟨.new sock,[]⟩ : StopWait out) ops) :
    Run.Throughout (step io serio ok) (fun _ t => t.AtMostOne) ⟨.new sock,[]⟩ ops ↔
      Run.Along (step io serio ok) WholeAcks ⟨.new sock,[]⟩ ops :=
  Run.throughout_iff_along (step io serio ok) OneAckEach WholeAcks (fun _ t => t.Whole)
    (fun _ t => t.AtMostOne) (fun _ _ h => h.window)
    (fun _ t op h hp hw => step_whole io serio ok t op h hp hw)
    (fun _ t op t' h hp hw ht => step_split io serio ok t t' op h hp hw ht) _ ops (whole_new sock)
    hpeer

theorem stop_and_wait_whole : Run.Throughout (step DasIO.keeping SerioLib.packed OkParser.scanning)
    (fun _ t => t.AtMostOne) (⟨.new (),[]⟩ : StopWait .direct)
    [.forward [1], .input [0x4f,0x4b,0x0a], .forward [2]] := by
  refine (stop_and_wait_iff DasIO.keeping SerioLib.packed OkParser.scanning _ _ ?_).mpr ?_
  · refine ⟨trivial, fun t ht => ⟨?_, fun _ _ => ⟨trivial, fun _ _ => trivial⟩⟩⟩
    obtain rfl := Option.some.inj ht
    exact ⟨[], rfl⟩
  · refine ⟨trivial, fun t ht => ⟨?_, fun _ _ => ⟨trivial, fun _ _ => trivial⟩⟩⟩
    obtain rfl := Option.some.inj ht
    rfl

/-- The answer to the first packet is cut behind its first byte, and the second
packet goes out: two packets and no answer. -/
theorem two_packets_unanswered :
    Run.Along (step DasIO.keeping SerioLib.packed OkParser.scanning) OneAckEach
      (⟨.new (),[]⟩ : StopWait .direct) [.forward [1], .input [0x4f], .forward [2]] ∧
    ∃ t, Run.run (step DasIO.keeping SerioLib.packed OkParser.scanning)
        (⟨.new (),[]⟩ : StopWait .direct) [.forward [1], .input [0x4f], .forward [2]] = some t ∧
      t.written = 2 ∧ completeAcks t.acks = 0 := by
  refine ⟨⟨trivial, fun t ht => ⟨?_, fun _ _ => ⟨trivial, fun _ _ => trivial⟩⟩⟩, ?_⟩
  · obtain rfl := Option.some.inj ht
    exact ⟨[0x4b,0x0a], rfl⟩
  · let y : XiomasUdpExport .direct := (XiomasUdpExport.new ()).forwardPacket SerioLib.packed [1]
    obtain ⟨hiw, hpend⟩ := XiomasUdpExport.appInputLoop_frame DasIO.keeping OkParser.scanning
      {y with ibuf := ⟨[0x4f],0⟩}
    refine ⟨⟨(XiomasUdpExport.appInputLoop DasIO.keeping OkParser.scanning
      {y with ibuf := ⟨[0x4f],0⟩}).forwardPacket SerioLib.packed [2],[0x4f]⟩, rfl, ?_, rfl⟩
    refine (length_forwardPacket SerioLib.packed _ [2] hpend rfl).trans ?_
    rw [hiw]
    rfl

end StopWait
end Cosmid.Xiomas
