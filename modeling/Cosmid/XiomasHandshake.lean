import Cosmid.XiomasRoundTrip

/-! The hand-shake with tm_ip_export. `process_queue` is the only place that
acknowledges an instrument, and it runs only from `forward_packet` and from an
incoming ACK, so whoever waits depends on a further ACK being due. -/
namespace Cosmid.Xiomas

open RcvrEvent XiomasTcpRcvr SysEvent XioSystem

variable {out : OutputSocket} {ι : Type}

/-- `pending` counts the bytes that were given to `iwrite` and have not reached
the peer; they are what fills the output buffer. -/
structure Accounted (out : OutputSocket) (pending : out.State → ℕ) : Prop where
  obufEmpty_of_zero : ∀ s, pending s = 0 → out.obufEmpty s = true
  pending_iwrite_le : ∀ span s, pending (out.iwrite span s) ≤ pending s+span.length

theorem Accounted.pending_foldl_le {pending : out.State → ℕ} (hacc : Accounted out pending)
    (spans : List (List UInt8)) (s : out.State) :
    pending (spans.foldl (fun s span => out.iwrite span s) s) ≤ pending s+spans.flatten.length := by
  induction spans generalizing s with
  | nil => exact Nat.le_refl _
  | cons span spans ih =>
    have h1 := ih (out.iwrite span s)
    have h2 := hacc.pending_iwrite_le span s
    rw [List.foldl_cons, List.flatten_cons, List.length_append]
    omega

namespace XiomasTcpExport

/-- What is outstanding is what was written and has not been acknowledged, and
what is still on its way out is a part of it. A batch is sent with less than
2000 bytes outstanding. -/
structure Owed (pending : out.State → ℕ) (acked : ℕ) (x : XiomasTcpExport out ι) : Prop where
  valid : x.CircValid
  ledger : x.outstandingBytes+acked = x.iwrites.flatten.length
  pending_le : pending x.sock ≤ x.outstandingBytes
  window : x.outstandingBytes < 2962

/-- A queue or a receiver that waits can count on a further ACK. -/
def Awake (x : XiomasTcpExport out ι) : Prop :=
  (0 < x.circLength ∨ x.client ≠ none) → 0 < x.outstandingBytes

theorem Drained.owed {pending : out.State → ℕ} (hacc : Accounted out pending) {acked n : ℕ}
    {x y : XiomasTcpExport out ι} (hd : Drained x n y) (h : Owed pending acked x) :
    Owed pending acked y := by
  obtain ⟨spans, h1, h2, h3⟩ := hd.spans
  have hlen : spans.flatten.length = n := by
    rw [h2, List.length_take, length_contents]
    exact Nat.min_eq_left hd.le
  have hsock := hacc.pending_foldl_le spans x.sock
  have hledger := h.ledger
  have hpend := h.pending_le
  have hout := hd.outstanding_eq
  have hwin := h.window
  have hwin' := hd.window
  refine ⟨hd.valid, ?_, ?_, by omega⟩
  · rw [h1, List.flatten_append, List.length_append]
    omega
  · rw [h3]
    omega

/-- `process_queue` stops with something left only when an ACK is due. -/
theorem Drained.outstanding_pos {pending : out.State → ℕ} (hacc : Accounted out pending)
    {acked n : ℕ} {x y : XiomasTcpExport out ι} (hd : Drained x n y) (h : Owed pending acked x)
    (hleft : 0 < y.circLength) : 0 < y.outstandingBytes := by
  have hy := hd.owed hacc h
  rcases hd.stopped with hempty | hcts
  · omega
  · by_contra hzero
    have hpend := hy.pending_le
    have hobuf := hacc.obufEmpty_of_zero y.sock (by omega)
    rw [cts, hobuf, Bool.and_true, decide_eq_false_iff_not] at hcts
    omega

theorem Drained.awake {pending : out.State → ℕ} (hacc : Accounted out pending) {acked n : ℕ}
    {x y : XiomasTcpExport out ι} (hd : Drained x n y) (h : Owed pending acked x) : y.Awake := by
  rintro (hlen | hclient)
  · exact hd.outstanding_pos hacc h hlen
  · have hc := hd.client_eq
    split_ifs at hc with hempty
    · exact absurd hc hclient
    · exact hd.outstanding_pos hacc h (by omega)

/-- A forwarded chunk always leaves something outstanding. -/
theorem forwardPacket_owed {pending : out.State → ℕ} (hacc : Accounted out pending) {acked : ℕ}
    (serio : SerioLib) (x : XiomasTcpExport out ι) (h : Owed pending acked x) (bfr : List UInt8) :
    ∃ y, x.forwardPacket serio bfr = some y ∧ Owed pending acked y ∧ y.Awake ∧
      0 < y.outstandingBytes := by
  obtain ⟨z, n, y, hy, hz, hpos, hd⟩ := x.forwardPacket_spec serio h.valid bfr
  have hzo : Owed pending acked z := by
    refine ⟨hz.valid, ?_, ?_, ?_⟩ <;> rw [hz.frame]
    · exact h.ledger
    · exact h.pending_le
    · exact h.window
  refine ⟨y, hy, hd.owed hacc hzo, hd.awake hacc hzo, ?_⟩
  have hlen := hd.length_eq
  have hout := hd.outstanding_eq
  by_cases hleft : 0 < y.circLength
  · exact hd.outstanding_pos hacc hzo hleft
  · omega

/-- An honest ACK. -/
theorem appInputAck_owed {pending : out.State → ℕ} (hacc : Accounted out pending)
    {acked : ℕ} (x : XiomasTcpExport out ι) (h : Owed pending acked x) (length : ℕ)
    (hhonest : acked+length+pending x.sock ≤ x.iwrites.flatten.length) :
    ∃ y, x.appInputAck length = some y ∧ Owed pending (acked+length) y ∧ y.Awake := by
  obtain ⟨n, y, hy, hd⟩ := x.appInputAck_spec h.valid length
  have hledger := h.ledger
  have hv := h.valid
  have hz : Owed pending (acked+length) {x with outstandingBytes :=
      if length > x.outstandingBytes then 0 else x.outstandingBytes-length} := by
    rw [if_neg (by omega)]
    have hwin := h.window
    refine ⟨⟨hv.size_lt, hv.tail_lt, hv.head_cases, ?_⟩, ?_, ?_, ?_⟩ <;> dsimp only <;> omega
  exact ⟨y, hy, hd.owed hacc hz, hd.awake hacc hz⟩

theorem requestAck_owed {pending : out.State → ℕ} {acked : ℕ} (x : XiomasTcpExport out ι)
    (h : Owed pending acked x) (client : ι) : Owed pending acked (x.requestAck client) :=
  ⟨⟨h.valid.size_lt, h.valid.tail_lt, h.valid.head_cases, h.valid.outstanding_lt⟩, h.ledger,
    h.pending_le, h.window⟩

end XiomasTcpExport

open XiomasTcpExport

/-- The chunks of a transmitted packet: every one is forwarded before the request
for acknowledgement that may follow it. -/
theorem exportRun_transmitted {pending : out.State → ℕ} (hacc : Accounted out pending)
    (serio : SerioLib) (me : ι) (mode : LogMode) (remaining : ℕ) (cs : List (List UInt8))
    {acked : ℕ} (x : XiomasTcpExport out ι) (h : Owed pending acked x) (ha : x.Awake) :
    ∃ y, Run.run (exportStep serio) x (exportOps out me (packetEvents true mode remaining cs)) =
        some y ∧
      Owed pending acked y ∧ y.Awake := by
  induction cs generalizing mode remaining x with
  | nil => exact ⟨x, rfl, h, ha⟩
  | cons c cs ih =>
    obtain ⟨y, hy, hyo, hya, hpos⟩ := forwardPacket_owed hacc serio x h c
    have hfirst : ∃ z, Run.run (exportStep serio) x (exportOps out me (tailEvents true remaining c)) =
        some z ∧ Owed pending acked z ∧ z.Awake := by
      unfold tailEvents
      by_cases hend : remaining-c.length = 0
      · refine ⟨y.requestAck me, ?_, requestAck_owed y hyo me, fun _ => hpos⟩
        simp [hend, exportOps, exportOp, Run.run, exportStep, hy]
      · refine ⟨y, ?_, hyo, hya⟩
        simp [hend, exportOps, exportOp, Run.run, exportStep, hy]
    obtain ⟨z, hz, hzo, hza⟩ := hfirst
    obtain ⟨w, hw, hwo, hwa⟩ := ih .logCurfile (remaining-c.length) z hzo hza
    refine ⟨w, ?_, hwo, hwa⟩
    have hlog : exportOps out me [logPacket c mode] = [] := rfl
    rw [packetEvents, ← List.singleton_append, exportOps_append, exportOps_append, hlog,
      List.nil_append, Run.run_append, hz]
    exact hw

/-- A dropped packet only asks for acknowledgement, once it is complete. -/
theorem exportOps_dropped (me : ι) (mode : LogMode) (remaining : ℕ) (u : List UInt8) :
    exportOps out me (packetEvents false mode remaining
      (Chunks.cut maxSpktDataPerSerioPkt remaining u)) =
        if 0 < remaining ∧ remaining ≤ u.length then [.requestAck me] else [] := by
  have hmax : maxSpktDataPerSerioPkt = 956 := rfl
  induction remaining using Nat.strongRecOn generalizing mode u with
  | _ remaining ih =>
    rcases Chunks.cut_cases maxSpktDataPerSerioPkt remaining u with hstop | ⟨h0, hlen⟩
    · rw [Chunks.cut_stop _ _ _ hstop, if_neg (by omega)]
      rfl
    · have hrest := ih (remaining-min maxSpktDataPerSerioPkt remaining) (by omega) .logCurfile
        (u.drop (min maxSpktDataPerSerioPkt remaining))
      rw [List.length_drop] at hrest
      rw [Chunks.cut_step _ _ _ h0 hlen, packetEvents, List.length_take_of_le hlen,
        ← List.singleton_append, exportOps_append, exportOps_append, hrest]
      have hlog (c : List UInt8) : exportOps out me [logPacket c mode] = [] := rfl
      rw [hlog, List.nil_append]
      unfold tailEvents
      rw [List.length_take_of_le hlen, if_neg Bool.false_ne_true, List.nil_append]
      by_cases hend : remaining-min maxSpktDataPerSerioPkt remaining = 0
      · rw [if_pos hend, if_neg (by omega), if_pos (by omega), List.append_nil]
        rfl
      · rw [if_neg hend]
        by_cases hall : remaining ≤ u.length
        · rw [if_pos (by omega), if_pos (by omega)]
          rfl
        · rw [if_neg (by omega), if_neg (by omega)]
          rfl

/-- The system together with its peer, who has acknowledged `acked` bytes. -/
structure PeerSystem (out : OutputSocket) (ι : Type) where
  sys : XioSystem out ι
  acked : ℕ

def SysEvent.ackLength : SysEvent out ι → ℕ
  | ack length => length
  | _ => 0

namespace PeerSystem

def peerStep (io : DasIO) (serio : SerioLib) [DecidableEq ι] (t : PeerSystem out ι)
    (e : SysEvent out ι) : Option (PeerSystem out ι) :=
  (t.sys.sysStep io serio e).map fun s => ⟨s,t.acked+e.ackLength⟩

/-- The peer acknowledges only bytes that have reached it and that it has not
acknowledged before, and by itself the exporter's output side only drains. -/
def Honest (pending : out.State → ℕ) (t : PeerSystem out ι) : SysEvent out ι → Prop
  | .ack length =>
      t.acked+length+pending t.sys.exp.sock ≤ t.sys.exp.iwrites.flatten.length
  | .exportSocket newSock => pending newSock ≤ pending t.sys.exp.sock
  | _ => True

/-- The event is a read that completes a packet which is being dropped. -/
def EndsDropped (t : PeerSystem out ι) : SysEvent out ι → Prop
  | .read i bytes =>
      (t.sys.rcvr i).state = .xtrMidPkt ∧ (t.sys.rcvr i).transmittingCurrentPacket = false ∧
      0 < (t.sys.rcvr i).bytesRemainingInPacket ∧ (t.sys.rcvr i).bytesRemainingInPacket ≤
        ((t.sys.rcvr i).ibuf.unread ++ bytes).length
  | _ => False

/-- A dropped packet is completed only while an ACK is due anyway. -/
def EndsOutstanding (t : PeerSystem out ι) (e : SysEvent out ι) : Prop :=
  t.EndsDropped e → 0 < t.sys.exp.outstandingBytes

/-- The invariant of the runs without a lost hand-shake. -/
structure HandshakeInv [DecidableEq ι] (pending : out.State → ℕ) (es : List (SysEvent out ι))
    (t : PeerSystem out ι) : Prop where
  inv : SysInv es t.sys
  size_eq : t.sys.exp.circSize = circBufferSize
  owed : Owed pending t.acked t.sys.exp
  awake : t.sys.exp.Awake

/-- A dropped packet leaves everything as it is, apart from its request. -/
theorem exportRun_dropped {pending : out.State → ℕ} (serio : SerioLib) (me : ι) {acked : ℕ}
    (x : XiomasTcpExport out ι) (h : Owed pending acked x) (ha : x.Awake) (c : Prop) [Decidable c]
    (hc : c → 0 < x.outstandingBytes) :
    ∃ y, Run.run (exportStep serio) x (if c then [.requestAck me] else []) = some y ∧
      Owed pending acked y ∧ y.Awake := by
  split_ifs with hend
  · exact ⟨_, rfl, requestAck_owed x h me, fun _ => hc hend⟩
  · exact ⟨x, rfl, h, ha⟩

/-- One read, by what it finds: a packet that is transmitted, or one that is not. -/
theorem read_handshake {pending : out.State → ℕ} (hacc : Accounted out pending) (serio : SerioLib)
    (me : ι) {acked : ℕ} (x : XiomasTcpExport out ι) (hsize : x.circSize = circBufferSize)
    (h : Owed pending acked x) (ha : x.Awake) {input bytes : List UInt8}
    {r s : XiomasTcpRcvr out} {evs : List RcvrEvent}
    (hcall : PacketCall x.circSpace input bytes r s evs)
    (hgood : r.state = .xtrMidPkt → r.transmittingCurrentPacket = false →
      0 < r.bytesRemainingInPacket → r.bytesRemainingInPacket ≤ (r.ibuf.unread ++ bytes).length →
      0 < x.outstandingBytes) :
    ∃ y, Run.run (exportStep serio) x (exportOps out me evs) = some y ∧
      Owed pending acked y ∧ y.Awake := by
  cases hcall with
  | searched _ _ => exact ⟨x, rfl, h, ha⟩
  | began mode size body _ hm _ htr =>
    rw [hm.packetTrace_eq]
    cases ht : s.transmittingCurrentPacket with
    | true => exact exportRun_transmitted hacc serio me mode size _ x h ha
    | false =>
      -- The packet alone would have fitted, so something else is in the queue.
      rw [ht] at htr
      have hlt := totalPktsSize_lt size hm.size_le
      have hspace := circSpace_eq x h.valid
      have hbusy : 0 < x.circLength := by
        have := of_decide_eq_false htr.symm
        omega
      rw [exportOps_dropped]
      exact exportRun_dropped serio me x h ha _ (fun _ => ha (Or.inl hbusy))
  | continued mode size body _ hr _ _ _ =>
    unfold restEvents
    cases ht : r.transmittingCurrentPacket with
    | true => exact exportRun_transmitted hacc serio me .logCurfile _ _ x h ha
    | false =>
      rw [exportOps_dropped]
      exact exportRun_dropped serio me x h ha _
        (fun hend => hgood hr.state_eq ht hend.1 hend.2)

theorem peerStep_good {pending : out.State → ℕ} (hacc : Accounted out pending) (io : DasIO)
    (serio : SerioLib) [DecidableEq ι] (es : List (SysEvent out ι)) (t : PeerSystem out ι)
    (e : SysEvent out ι) (h : HandshakeInv pending es t) (hh : t.Honest pending e)
    (hg : t.EndsOutstanding e) :
    ∃ t', peerStep io serio t e = some t' ∧ HandshakeInv pending (es ++ [e]) t' := by
  obtain ⟨s', ops, hs, hops, hcall, hinv, hsize⟩ := sysStep_sysInv io serio es t.sys h.inv e
  have hexp : ∃ y, Run.run (exportStep serio) t.sys.exp ops = some y ∧
      Owed pending (t.acked+e.ackLength) y ∧ y.Awake := by
    cases hcall with
    | read i bytes evs hread _ =>
      exact read_handshake hacc serio i t.sys.exp h.size_eq h.owed h.awake hread
        (fun h1 h2 h3 h4 => hg ⟨h1, h2, h3, h4⟩)
    | other _ hnone _ =>
      cases e with
      | read i bytes => exact absurd rfl (hnone i bytes)
      | ack length =>
        obtain ⟨y, hy, hyo, hya⟩ := appInputAck_owed hacc t.sys.exp h.owed length hh
        exact ⟨y, by simp [ownOps, Run.run, exportStep, hy], hyo, hya⟩
      | timeout i => exact ⟨_, rfl, h.owed, h.awake⟩
      | exportSocket sock =>
        have hv := h.owed.valid
        exact ⟨_, rfl, ⟨⟨hv.size_lt, hv.tail_lt, hv.head_cases, hv.outstanding_lt⟩, h.owed.ledger,
          Nat.le_trans hh h.owed.pending_le, h.owed.window⟩, h.awake⟩
      | rcvrSocket i sock => exact ⟨_, rfl, h.owed, h.awake⟩
  obtain ⟨y, hy, hyo, hya⟩ := hexp
  obtain rfl := Option.some.inj (hops.symm.trans hy)
  exact ⟨⟨s',t.acked+e.ackLength⟩, by simp only [peerStep, hs, Option.map_some], hinv,
    hsize.trans h.size_eq, hyo, hya⟩

/-- A dropped packet that ends with nothing outstanding is waited for in vain. -/
theorem peerStep_bad {pending : out.State → ℕ} (io : DasIO) (serio : SerioLib) [DecidableEq ι]
    (es : List (SysEvent out ι)) (t t' : PeerSystem out ι) (e : SysEvent out ι)
    (h : HandshakeInv pending es t) (hbad : ¬t.EndsOutstanding e)
    (ht : peerStep io serio t e = some t') : ¬t'.sys.exp.Awake := by
  obtain ⟨s', ops, hs, hops, hcall, -, -⟩ := sysStep_sysInv io serio es t.sys h.inv e
  simp only [peerStep, hs, Option.map_some, Option.some.injEq] at ht
  subst ht
  obtain ⟨hend, hzero⟩ := Classical.not_imp.mp hbad
  cases e with
  | read i bytes =>
    obtain ⟨hmid, hdrop, hpos, hle⟩ := hend
    cases hcall with
    | read _ _ evs hread _ =>
      cases hread with
      | searched hr _ => exact absurd hmid hr.state_ne
      | began _ _ _ hr _ _ _ => exact absurd hmid hr.state_ne
      | continued mode size body _ _ _ _ _ =>
        rw [restEvents, hdrop, exportOps_dropped, if_pos ⟨hpos, hle⟩] at hops
        have hexp := Option.some.inj hops
        intro hawake
        rw [← hexp] at hawake
        exact hzero (hawake (Or.inr (by simp [XiomasTcpExport.requestAck])))
    | other _ hnone _ =>
      exact absurd rfl (hnone i bytes)
  | _ => exact absurd hend id

theorem handshakeInv_new [DecidableEq ι] {pending : out.State → ℕ} (transmitting : ι → Bool)
    (rcvrSock : ι → out.State) (circ : ℕ → UInt8) (expSock : out.State)
    (hsock : pending expSock = 0) :
    HandshakeInv pending [] ⟨.new transmitting rcvrSock circ expSock,0⟩ := by
  refine ⟨sysInv_started _ (started_new _ _ _ _), rfl, ?_, ?_⟩
  · exact ⟨circValid_new _ _, rfl, Nat.le_of_eq hsock, Nat.succ_pos 2961⟩
  · rintro (hlen | hclient)
    · rw [circLength_of_empty _ rfl] at hlen
      omega
    · exact absurd rfl hclient

/-- No hand-shake is lost in a run if and only if every dropped packet ends while
an ACK is due anyway. -/
theorem no_lost_handshake_iff (io : DasIO) (serio : SerioLib) [DecidableEq ι]
    (pending : out.State → ℕ) (hacc : Accounted out pending) (transmitting : ι → Bool)
    (rcvrSock : ι → out.State) (circ : ℕ → UInt8) (expSock : out.State)
    (hsock : pending expSock = 0) (es : List (SysEvent out ι))
    (hhonest : Run.Along (peerStep io serio) (Honest pending)
      ⟨.new transmitting rcvrSock circ expSock,0⟩ es) :
    Run.Throughout (peerStep io serio) (fun _ t => t.sys.exp.Awake)
        ⟨.new transmitting rcvrSock circ expSock,0⟩ es ↔
      Run.Along (peerStep io serio) EndsOutstanding
        ⟨.new transmitting rcvrSock circ expSock,0⟩ es :=
  Run.throughout_iff_along (peerStep io serio) (Honest pending) EndsOutstanding
    (HandshakeInv pending) (fun _ t => t.sys.exp.Awake) (fun _ _ h => h.awake)
    (fun h t e hi hp hg => peerStep_good hacc io serio h t e hi hp hg)
    (fun h t e t' hi _ hb ht => peerStep_bad io serio h t t' e hi hb ht) _ es
    (handshakeInv_new transmitting rcvrSock circ expSock hsock) hhonest

theorem accounted_direct : Accounted .direct (fun _ => 0) :=
  ⟨fun _ _ => rfl, fun _ _ => Nat.zero_le _⟩

theorem no_lost_handshake_bare : Run.Throughout (peerStep DasIO.keeping SerioLib.packed)
    (fun _ t => t.sys.exp.Awake)
    (⟨.new (fun _ => false) (fun _ => ()) (fun _ => 0) (),0⟩ : PeerSystem .direct Unit)
    [.read () barePacket] := by
  refine (no_lost_handshake_iff DasIO.keeping SerioLib.packed (fun _ => 0) accounted_direct _ _ _ _
    rfl [.read () barePacket] ⟨trivial, fun _ _ => trivial⟩).mpr ⟨?_, fun _ _ => trivial⟩
  rintro ⟨hmid, -⟩
  cases hmid

/-- A run of the system with its peer is a run of the system. -/
theorem peerRun_sys (io : DasIO) (serio : SerioLib) [DecidableEq ι] (t t' : PeerSystem out ι)
    (es : List (SysEvent out ι)) (h : Run.run (peerStep io serio) t es = some t') :
    Run.run (sysStep io serio) t.sys es = some t'.sys := by
  induction es generalizing t with
  | nil =>
    obtain rfl := Option.some.inj h
    rfl
  | cons e es ih =>
    obtain ⟨u, hu, hr⟩ := (Run.run_cons_eq_some_iff _).mp h
    simp only [peerStep, Option.map_eq_some_iff] at hu
    obtain ⟨s, hs, rfl⟩ := hu
    rw [Run.run_cons_of_step _ hs]
    exact ih _ hr

/-- The only connection's first packet is never dropped, so nothing is lost on it. -/
theorem peerStep_roundTrip {pending : out.State → ℕ} (hacc : Accounted out pending) (io : DasIO)
    (serio : SerioLib) [DecidableEq ι] (me : ι) (base : List UInt8) (es : List (SysEvent out ι))
    (t : PeerSystem out ι) (e : SysEvent out ι) (h : HandshakeInv pending es t)
    (hrt : RoundTrip serio me base es t.sys) (hh : t.Honest pending e) (honly : e.OnlyReads me) :
    ∃ t', peerStep io serio t e = some t' ∧ HandshakeInv pending (es ++ [e]) t' ∧
      RoundTrip serio me base (es ++ [e]) t'.sys := by
  obtain ⟨t', ht, hinv⟩ := peerStep_good hacc io serio es t e h hh (by
    intro hend
    cases e with
    | read i bytes =>
      obtain rfl := honly i bytes rfl
      obtain ⟨hmid, hdrop, -⟩ := hend
      exact absurd (hrt.transmitting hmid) (by simp [hdrop])
    | _ => exact absurd hend id)
  obtain ⟨s', hs, hrt'⟩ := sysStep_roundTrip io serio me base es t.sys e hrt honly
  have hsys := ht
  simp only [peerStep, hs, Option.map_some, Option.some.injEq] at hsys
  subst hsys
  exact ⟨_, ht, hinv, hrt'⟩

/-- Single bytes can be acknowledged until everything ever queued is. -/
theorem run_acks {pending : out.State → ℕ} (hacc : Accounted out pending)
    (hnone : ∀ sock, pending sock = 0) (io : DasIO) (serio : SerioLib) [DecidableEq ι] (k : ℕ)
    (t : PeerSystem out ι) (h : Owed pending t.acked t.sys.exp) (ha : t.sys.exp.Awake)
    (hk : t.acked+k ≤ t.sys.exp.stream.length) :
    ∃ t', Run.run (peerStep io serio) t (List.replicate k (.ack 1)) = some t' ∧
      Run.Along (peerStep io serio) (Honest pending) t (List.replicate k (.ack 1)) ∧
      t'.sys.rcvr = t.sys.rcvr ∧ t'.acked = t.acked+k ∧ Owed pending t'.acked t'.sys.exp ∧
      t'.sys.exp.stream = t.sys.exp.stream := by
  induction k generalizing t with
  | zero => exact ⟨t, rfl, trivial, rfl, rfl, h, rfl⟩
  | succ k ih =>
    have hlen : t.sys.exp.stream.length =
        t.sys.exp.iwrites.flatten.length+t.sys.exp.circLength := by
      rw [stream, List.length_append, length_contents]
    have hhonest : t.acked+1+pending t.sys.exp.sock ≤ t.sys.exp.iwrites.flatten.length := by
      have hledger := h.ledger
      rw [hnone]
      by_cases hleft : 0 < t.sys.exp.circLength
      · have hpos := ha (Or.inl hleft)
        omega
      · omega
    obtain ⟨n, y, hy, hd⟩ := t.sys.exp.appInputAck_spec h.valid 1
    obtain ⟨y', hy', hyo, hya⟩ := appInputAck_owed hacc t.sys.exp h 1 hhonest
    obtain rfl := Option.some.inj (hy.symm.trans hy')
    have hstream : y.stream = t.sys.exp.stream := hd.stream_eq
    have hstep : peerStep io serio t (.ack 1) = some ⟨{t.sys with exp := y},t.acked+1⟩ := by
      simp only [peerStep, sysStep, hy, Option.map_some, ackLength]
    obtain ⟨t', hr, hal, hrc, hac, ho, hst⟩ := ih ⟨{t.sys with exp := y},t.acked+1⟩ hyo hya
      (by rw [hstream]; dsimp only; omega)
    rw [List.replicate_succ, Run.run_cons_of_step _ hstep]
    refine ⟨t', hr, ⟨hhonest, ?_⟩, hrc, ?_, ho, hst.trans hstream⟩
    · intro u hu
      obtain rfl := Option.some.inj (hstep.symm.trans hu)
      exact hal
    · rw [hac]
      dsimp only
      omega

/-- One more read of a packet that is being dropped: at its end there is a request
for acknowledgement, and before that nothing. -/
theorem peerStep_dropped (io : DasIO) (serio : SerioLib) [DecidableEq ι] (me : ι) (mode : LogMode)
    (size : ℕ) (body bytes : List UInt8) (t : PeerSystem out ι)
    (hm : MidPacket (t.sys.rcvr me) mode size body)
    (hdrop : (t.sys.rcvr me).transmittingCurrentPacket = false) (hopen : body.length < size) :
    ∃ t', peerStep io serio t (.read me bytes) = some t' ∧
      MidPacket (t'.sys.rcvr me) mode size (body ++ bytes) ∧
      (t'.sys.rcvr me).transmittingCurrentPacket = false ∧
      t'.sys.exp = if size ≤ (body ++ bytes).length then t.sys.exp.requestAck me
        else t.sys.exp := by
  obtain ⟨r, hr, htr, -, heq⟩ :=
    protocolInput_midPacket io serio me (t.sys.rcvr me) t.sys.exp mode size body bytes hm
  have htaken := Chunks.taken_le maxSpktDataPerSerioPkt size body
  have hleft : (0 < (t.sys.rcvr me).bytesRemainingInPacket ∧
      (t.sys.rcvr me).bytesRemainingInPacket ≤ ((t.sys.rcvr me).ibuf.unread ++ bytes).length) ↔
      size ≤ (body ++ bytes).length := by
    rw [hm.remaining_eq, hm.ibuf_eq, InputBuffer.unread_mk_zero, List.length_append,
      List.length_append, List.length_drop]
    omega
  have hops : exportOps out me (restEvents (t.sys.rcvr me) bytes) =
      if size ≤ (body ++ bytes).length then [.requestAck me] else [] := by
    rw [restEvents, hdrop, exportOps_dropped]
    simp only [hleft]
  rw [hops] at heq
  refine ⟨⟨⟨Function.update t.sys.rcvr me r, if size ≤ (body ++ bytes).length then
    t.sys.exp.requestAck me else t.sys.exp⟩,t.acked⟩, ?_, ?_, ?_, rfl⟩
  · simp only [peerStep, sysStep, heq, ackLength]
    split_ifs <;> rfl
  · simpa using hr
  · simpa using htr.trans hdrop

theorem run_dropped (io : DasIO) (serio : SerioLib) [DecidableEq ι] (me : ι) (mode : LogMode)
    (size : ℕ) (bs : List (List UInt8)) (body : List UInt8) (t : PeerSystem out ι)
    (hm : MidPacket (t.sys.rcvr me) mode size body)
    (hdrop : (t.sys.rcvr me).transmittingCurrentPacket = false)
    (hopen : (body ++ bs.flatten).length < size) :
    ∃ t', Run.run (peerStep io serio) t (bs.map (.read me)) = some t' ∧
      MidPacket (t'.sys.rcvr me) mode size (body ++ bs.flatten) ∧
      (t'.sys.rcvr me).transmittingCurrentPacket = false ∧ t'.sys.exp = t.sys.exp := by
  induction bs generalizing body t with
  | nil => exact ⟨t, rfl, by simpa using hm, hdrop, rfl⟩
  | cons b bs ih =>
    rw [List.flatten_cons, ← List.append_assoc] at hopen
    have hshort : (body ++ b).length < size := by
      rw [List.length_append] at hopen
      omega
    obtain ⟨u, hu, hum, hud, hue⟩ := peerStep_dropped io serio me mode size body b t hm hdrop
      (by rw [List.length_append] at hshort; omega)
    rw [if_neg (by omega)] at hue
    obtain ⟨t', hr, htm, htd, hte⟩ := ih (body ++ b) u hum hud hopen
    rw [List.map_cons, Run.run_cons_of_step _ hu, List.flatten_cons, ← List.append_assoc]
    exact ⟨t', hr, htm, htd, hte.trans hue⟩

theorem peerStep_acked (io : DasIO) (serio : SerioLib) [DecidableEq ι] (t t' : PeerSystem out ι)
    (e : SysEvent out ι) (h : peerStep io serio t e = some t') :
    t'.acked = t.acked+e.ackLength := by
  simp only [peerStep, Option.map_eq_some_iff] at h
  obtain ⟨s, -, rfl⟩ := h
  rfl

theorem inputOf_map_read [DecidableEq ι] (i : ι) (bs : List (List UInt8)) :
    inputOf i (bs.map (read i) : List (SysEvent out ι)) = bs.flatten := by
  induction bs with
  | nil => rfl
  | cons b bs ih =>
    rw [List.map_cons, inputOf, List.flatMap_cons, List.flatten_cons, ← ih]
    simp only [bytesOf, if_true]
    rfl

theorem inputOf_map_read_of_ne [DecidableEq ι] (i j : ι) (hij : i ≠ j) (bs : List (List UInt8)) :
    inputOf j (bs.map (read i) : List (SysEvent out ι)) = [] := by
  induction bs with
  | nil => rfl
  | cons b bs ih =>
    rw [List.map_cons, inputOf, List.flatMap_cons]
    simp only [bytesOf, if_neg hij, List.nil_append]
    exact ih

/-- The first packet, alone on its connection, ends up queued or written. -/
theorem run_first {pending : out.State → ℕ} (hacc : Accounted out pending) (io : DasIO)
    (serio : SerioLib) [DecidableEq ι] (a : ι) (p : List UInt8) (hp : XioPacket p)
    (bs : List (List UInt8)) (hbs : bs.flatten = p) (t0 : PeerSystem out ι)
    (h0 : HandshakeInv pending [] t0) (hrt0 : RoundTrip serio a [] [] t0.sys)
    (hacked : t0.acked = 0) :
    ∃ t, Run.run (peerStep io serio) t0 (bs.map (.read a)) = some t ∧
      HandshakeInv pending (bs.map (.read a)) t ∧ t.acked = 0 ∧
      t.sys.exp.stream.length = totalPktsSize p.length := by
  have hstep : ∀ (h : List (SysEvent out ι)) (t : PeerSystem out ι) (e : SysEvent out ι),
      (HandshakeInv pending h t ∧ RoundTrip serio a [] h t.sys ∧ t.acked = 0) →
      (∃ bytes, e = .read a bytes) → ∃ t', peerStep io serio t e = some t' ∧
        HandshakeInv pending (h ++ [e]) t' ∧ RoundTrip serio a [] (h ++ [e]) t'.sys ∧
        t'.acked = 0 := by
    rintro h t e ⟨hinv, hrt, hz⟩ ⟨bytes, rfl⟩
    obtain ⟨t', ht, hinv', hrt'⟩ := peerStep_roundTrip hacc io serio a [] h t (.read a bytes) hinv
      hrt trivial (fun j b he => (SysEvent.read.inj he).1.symm)
    exact ⟨t', ht, hinv', hrt', (peerStep_acked io serio t t' _ ht).trans hz⟩
  have hreads : Run.Along (peerStep io serio) (fun _ e => ∃ bytes, e = .read a bytes) t0
      (bs.map (.read a)) := by
    apply Run.along_of_mem
    intro e he _
    obtain ⟨b, -, rfl⟩ := List.mem_map.mp he
    exact ⟨b, rfl⟩
  obtain ⟨t, hr, hinv, hrt, hz⟩ := Run.run_history (peerStep io serio) _ _ hstep [] t0 _
    ⟨h0, hrt0, hacked⟩ hreads
  rw [List.nil_append] at hinv hrt
  have hin : inputOf a (bs.map (read a) : List (SysEvent out ι)) = p := by rw [inputOf_map_read, hbs]
  have hfol := hrt.follows p [] hp (by rw [hin]; exact List.prefix_append _ _)
  rw [hin] at hfol
  refine ⟨t, hr, hinv, hz, ?_⟩
  rcases hfol with ⟨-, hshort⟩ | ⟨mode, hm⟩
  · omega
  · rw [hrt.filling.stream_eq, hm.logged_eq, List.nil_append, length_frames,
      Chunks.length_cut _ _ _ (by decide) (Nat.le_refl _), Chunks.flatten_cut,
      Chunks.taken_of_le_length _ _ _ (by decide) (Nat.le_refl _), List.take_length]
    rfl

/-- What the trace and the count of a receiver say about the size of its packet. -/
theorem midPacket_size_unique {r : XiomasTcpRcvr out} {mode mode' : LogMode} {size size' : ℕ}
    {body body' : List UInt8} (h : MidPacket r mode size body)
    (h' : MidPacket r mode' size' body') : size = size' := by
  have hcut := h.logged_eq.symm.trans h'.logged_eq
  have htaken : Chunks.taken maxSpktDataPerSerioPkt size body =
      Chunks.taken maxSpktDataPerSerioPkt size' body' := by
    rw [Chunks.taken, hcut, Chunks.taken]
  have hrem := h.remaining_eq.symm.trans h'.remaining_eq
  have hle := (Chunks.taken_le maxSpktDataPerSerioPkt size body).1
  have hle' := (Chunks.taken_le maxSpktDataPerSerioPkt size' body').1
  omega

/-- The start of a packet, with at least its first chunk. -/
theorem step_begins (io : DasIO) (serio : SerioLib) [DecidableEq ι] (b : ι) (p b0 : List UInt8)
    (hp : XioPacket p) (es : List (SysEvent out ι)) (s : XioSystem out ι) (hinv : SysInv es s)
    (hfol : Follows p (s.rcvr b) []) (hin : inputOf b es = []) (hb0 : b0 <+: p)
    (hfirst : min maxSpktDataPerSerioPkt p.length ≤ b0.length) :
    ∃ s' mode, sysStep io serio s (.read b b0) = some s' ∧
      MidPacket (s'.rcvr b) mode p.length b0 ∧ (s.rcvr b).packetTrace = [] ∧
      (s'.rcvr b).transmittingCurrentPacket =
        decide (totalPktsSize p.length ≤ s.exp.circSpace) ∧
      (∀ j, j ≠ b → s'.rcvr j = s.rcvr j) ∧
      Run.run (exportStep serio) s.exp (exportOps out b (s'.rcvr b).packetTrace) = some s'.exp := by
  obtain ⟨s', ops, hs, hops, hcall, -, -⟩ := sysStep_sysInv io serio es s hinv (.read b b0)
  have hbytes : inputOf b (es ++ [.read b b0]) = b0 := by
    rw [inputOf_append, hin]
    simp only [bytesOf, if_true, List.nil_append]
  have hfol' := sysStep_follows io serio b p [] hp es s s' (.read b b0) ops hs hcall
    (by rw [hbytes, List.append_nil]; exact hb0) (fun _ => by rw [hin]; exact hfol)
  rw [hbytes] at hfol'
  have haw : Awaiting (s.rcvr b) [] := by
    rcases hfol with ⟨haw, -⟩ | ⟨mode, hm⟩
    · exact haw
    · exact absurd hm.header_le (by decide)
  obtain ⟨mode, hm⟩ : ∃ mode, MidPacket (s'.rcvr b) mode p.length b0 := by
    rcases hfol' with ⟨-, hshort⟩ | hm
    · omega
    · exact hm
  refine ⟨s', mode, hs, hm, haw.packetTrace_eq, ?_⟩
  cases hcall with
  | read _ _ evs hread hframe =>
    cases hread with
    | searched _ hs' => exact absurd hm.state_eq hs'.state_ne
    | continued _ _ _ _ hr _ _ _ => exact absurd hr.state_eq haw.state_ne
    | began mode' size' body' _ hm' _ htr =>
      obtain rfl := midPacket_size_unique hm hm'
      exact ⟨htr, hframe, hops⟩
  | other _ hnone _ => exact absurd rfl (hnone b b0)

/-- The start of a packet that does not fit behind what is queued. -/
theorem step_refused (io : DasIO) (serio : SerioLib) [DecidableEq ι] (b : ι) (p b0 : List UInt8)
    (hp : XioPacket p) (es : List (SysEvent out ι)) (s : XioSystem out ι) (hinv : SysInv es s)
    (hfol : Follows p (s.rcvr b) []) (hin : inputOf b es = []) (hb0 : b0 <+: p)
    (hfirst : maxSpktDataPerSerioPkt ≤ b0.length) (hopen : b0.length < p.length)
    (hbusy : s.exp.circSpace < totalPktsSize p.length) :
    ∃ s' mode, sysStep io serio s (.read b b0) = some s' ∧
      MidPacket (s'.rcvr b) mode p.length b0 ∧
      (s'.rcvr b).transmittingCurrentPacket = false ∧ s'.exp = s.exp := by
  obtain ⟨s', mode, hs, hm, -, htr, -, hops⟩ :=
    step_begins io serio b p b0 hp es s hinv hfol hin hb0 (by omega)
  have hdrop : (s'.rcvr b).transmittingCurrentPacket = false := by
    rw [htr, decide_eq_false_iff_not]
    omega
  rw [hm.packetTrace_eq, hdrop, exportOps_dropped, if_neg (by omega)] at hops
  exact ⟨s', mode, hs, hm, hdrop, (Option.some.inj hops).symm⟩

/-- Two connections: one packet is queued, the next one is refused, the queue is
drained and acknowledged to the last byte, and only then does the refused packet
end. From then on its receiver waits and nothing is due. -/
theorem handshake_lost_of {pending : out.State → ℕ} (hacc : Accounted out pending)
    (hnone : ∀ sock, pending sock = 0) (io : DasIO) (serio : SerioLib) [DecidableEq ι] (a b : ι)
    (hab : a ≠ b) (pa pb : List UInt8) (hpa : XioPacket pa) (hpb : XioPacket pb)
    (as bs : List (List UInt8)) (b0 last : List UInt8) (has : as.flatten = pa)
    (hbs : b0 ++ bs.flatten ++ last = pb) (hfirst : maxSpktDataPerSerioPkt ≤ b0.length)
    (hlast : last ≠ [])
    (hbig : circBufferSize+2961 < totalPktsSize pa.length+totalPktsSize pb.length)
    (transmitting : ι → Bool) (rcvrSock : ι → out.State) (circ : ℕ → UInt8)
    (expSock : out.State) :
    ∃ t, Run.run (peerStep io serio) ⟨.new transmitting rcvrSock circ expSock,0⟩
        (as.map (.read a) ++ (.read b b0 :: (List.replicate (totalPktsSize pa.length) (.ack 1) ++
          (bs.map (.read b) ++ [.read b last])))) = some t ∧
      Run.Along (peerStep io serio) (Honest pending)
        ⟨.new transmitting rcvrSock circ expSock,0⟩
        (as.map (.read a) ++ (.read b b0 :: (List.replicate (totalPktsSize pa.length) (.ack 1) ++
          (bs.map (.read b) ++ [.read b last])))) ∧
      ¬t.sys.exp.Awake := by
  have hpos : 0 < last.length := List.length_pos_of_ne_nil hlast
  have hlen := congrArg List.length hbs
  rw [List.length_append, List.length_append] at hlen
  -- The first packet.
  have hrt0 : RoundTrip serio a [] [] (.new transmitting rcvrSock circ expSock : XioSystem out ι) :=
    roundTrip_new serio a (.new transmitting rcvrSock circ expSock) ⟨_, _, rfl⟩
      (circValid_new _ _) rfl (circLength_of_empty _ rfl)
  obtain ⟨t1, hr1, hinv1, hz1, hstr1⟩ := run_first hacc io serio a pa hpa as has
    ⟨.new transmitting rcvrSock circ expSock,0⟩
    (handshakeInv_new transmitting rcvrSock circ expSock (hnone expSock)) hrt0 rfl
  -- The start of the second one.
  have hfol1 : Follows pb (t1.sys.rcvr b) [] := by
    obtain ⟨s, hs, htr⟩ := run_tracks io serio b pb [] hpb (.new transmitting rcvrSock circ expSock)
      (started_new _ _ _ _) (as.map (.read a))
    obtain rfl := Option.some.inj (hs.symm.trans (peerRun_sys io serio _ t1 _ hr1))
    have hf := htr.follows
    rw [inputOf_map_read_of_ne a b hab] at hf
    exact hf List.nil_prefix
  have hbusy : t1.sys.exp.circSpace < totalPktsSize pb.length := by
    have hspace := circSpace_eq t1.sys.exp hinv1.owed.valid
    have hle := circLength_le t1.sys.exp hinv1.owed.valid
    have hledger := hinv1.owed.ledger
    have hwindow := hinv1.owed.window
    have hsize := hinv1.size_eq
    rw [stream, List.length_append, length_contents] at hstr1
    omega
  obtain ⟨s2, mode, hs2, hm2, hd2, he2⟩ := step_refused io serio b pb b0 hpb _ t1.sys hinv1.inv hfol1
    (inputOf_map_read_of_ne a b hab as) ⟨bs.flatten ++ last, by rw [← List.append_assoc, hbs]⟩
    hfirst (by omega) hbusy
  have hr2 : peerStep io serio t1 (.read b b0) = some ⟨s2,t1.acked+0⟩ := by
    simp only [peerStep, hs2, Option.map_some, ackLength]
  -- The acknowledgements.
  obtain ⟨t3, hr3, hal3, hrc3, hz3, ho3, hstr3⟩ := run_acks hacc hnone io serio
    (totalPktsSize pa.length) ⟨s2,t1.acked+0⟩
    (by rw [he2]; exact hinv1.owed) (by rw [he2]; exact hinv1.awake)
    (by rw [he2, hstr1, hz1]; exact Nat.le_of_eq (Nat.zero_add _))
  have hdone : t3.sys.exp.outstandingBytes = 0 := by
    have hledger := ho3.ledger
    rw [he2] at hstr3
    rw [← hstr3, stream, List.length_append] at hstr1
    rw [hz3, hz1] at hledger
    omega
  -- The end of the second packet.
  obtain ⟨t4, hr4, hm4, hd4, he4⟩ := run_dropped io serio b mode pb.length bs b0 t3
    (by rw [hrc3]; exact hm2) (by rw [hrc3]; exact hd2) (by rw [List.length_append]; omega)
  obtain ⟨t5, hr5, -, -, he5⟩ := peerStep_dropped io serio b mode pb.length _ last t4 hm4 hd4
    (by rw [List.length_append]; omega)
  rw [hbs, if_pos (Nat.le_refl _), he4] at he5
  refine ⟨t5, ?_, ?_, ?_⟩
  · rw [Run.run_append, hr1, Option.bind_some, Run.run_cons_of_step _ hr2, Run.run_append, hr3,
      Option.bind_some, Run.run_append, hr4, Option.bind_some, Run.run_cons_of_step _ hr5]
    rfl
  · have hreads (i : ι) (cs : List (List UInt8)) (u : PeerSystem out ι) :
        Run.Along (peerStep io serio) (Honest pending) u (cs.map (.read i)) := by
      apply Run.along_of_mem
      intro e he _
      obtain ⟨c, -, rfl⟩ := List.mem_map.mp he
      trivial
    rw [Run.along_append _ hr1, Run.along_cons_of_step _ hr2, Run.along_append _ hr3,
      Run.along_append _ hr4, Run.along_cons_of_step _ hr5]
    exact ⟨hreads a as _, trivial, hal3, hreads b bs _, trivial, trivial⟩
  · intro hawake
    have hwait := hawake (Or.inr (by rw [he5]; simp [XiomasTcpExport.requestAck]))
    rw [he5] at hwait
    exact absurd hdone (by simpa [XiomasTcpExport.requestAck] using Nat.ne_of_gt hwait)

/-- An image of `n` zero bytes. -/
def zeroImage (n : UInt32) : List UInt8 :=
  xhgFillHeader Xhpid.fireLayer Xhsrc.opu 0 n 1 ++ List.replicate n.toNat 0

theorem length_zeroImage (n : UInt32) : (zeroImage n).length = xioHarvardHeaderSize+n.toNat := by
  rw [zeroImage, List.length_append, List.length_replicate]
  rfl

theorem xioPacket_zeroImage (n : UInt32)
    (hvalid : xhgValidateHeader (xhgFillHeader Xhpid.fireLayer Xhsrc.opu 0 n 1)
      (xioHarvardHeaderSize+n.toNat) = true)
    (hle : xioHarvardHeaderSize+n.toNat ≤ maxSpktLength+1000) : XioPacket (zeroImage n) := by
  have htake : (zeroImage n).take xioHarvardHeaderSize =
      xhgFillHeader Xhpid.fireLayer Xhsrc.opu 0 n 1 := List.take_left' rfl
  refine ⟨?_, ?_, ?_⟩
  · rw [length_zeroImage]
    exact Nat.le_add_right _ _
  · rw [htake, length_zeroImage]
    exact hvalid
  · rw [length_zeroImage]
    exact hle

/-- Reads of at most 49999 bytes. -/
def cutReads (p : List UInt8) : List (List UInt8) := Chunks.cut 49999 p.length p

theorem flatten_cutReads (p : List UInt8) : (cutReads p).flatten = p := by
  rw [cutReads, Chunks.flatten_cut, Chunks.taken_of_le_length _ _ _ (by decide) (Nat.le_refl _),
    List.take_length]

/-- The run that loses the hand-shake: the second image is cut into its first 956
bytes, the bytes up to the last one, and the last one. -/
def lostRun (pa pb : List UInt8) : List (SysEvent .direct Bool) :=
  (cutReads pa).map (.read false) ++ (.read true (pb.take 956) ::
    (List.replicate (totalPktsSize pa.length) (.ack 1) ++
      ((cutReads ((pb.drop 956).take (pb.length-957))).map (.read true) ++
        [.read true (pb.drop (956+(pb.length-957)))])))

/-- An image of 57360 bytes and one of 214183 bytes: the latter is refused and
completed when nothing is outstanding. -/
theorem handshake_lost : ∃ t,
    Run.run (peerStep DasIO.keeping SerioLib.packed)
      ⟨.new (fun _ => false) (fun _ => ()) (fun _ => 0) (),0⟩
      (lostRun (zeroImage 57344) (zeroImage 214167)) = some t ∧
    Run.Along (peerStep DasIO.keeping SerioLib.packed) (Honest (fun _ => 0))
      ⟨.new (fun _ => false) (fun _ => ()) (fun _ => 0) (),0⟩
      (lostRun (zeroImage 57344) (zeroImage 214167)) ∧
    ¬t.sys.exp.Awake := by
  have ha : XioPacket (zeroImage 57344) := xioPacket_zeroImage 57344 (by decide) (by decide)
  have hb : XioPacket (zeroImage 214167) := xioPacket_zeroImage 214167 (by decide) (by decide)
  have hla : (zeroImage 57344).length = 57360 := length_zeroImage 57344
  have hlb : (zeroImage 214167).length = 214183 := length_zeroImage 214167
  generalize zeroImage 57344 = pa at *
  generalize zeroImage 214167 = pb at *
  refine handshake_lost_of accounted_direct (fun _ => rfl) DasIO.keeping SerioLib.packed false true
    (by decide) pa pb ha hb (cutReads pa) (cutReads ((pb.drop 956).take (pb.length-957)))
    (pb.take 956) (pb.drop (956+(pb.length-957))) (flatten_cutReads pa) ?_ ?_ ?_ ?_ _ _ _ _
  · rw [flatten_cutReads, ← List.take_add, List.take_append_drop]
  · rw [List.length_take, hlb]
    decide
  · rw [ne_eq, List.drop_eq_nil_iff]
    omega
  · rw [hla, hlb]
    decide

end PeerSystem
end Cosmid.Xiomas
