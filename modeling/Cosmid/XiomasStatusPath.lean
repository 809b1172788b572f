import Cosmid.XiomasBackPressure

/-! The way of a status packet from the scanner to the ground: through `xiomas_udp_rcvr`,
which takes any datagram there is, and `xiomas_udp_export`. -/
namespace Cosmid.Xiomas

variable {out : OutputSocket}

/-- A datagram that the receiver logs and forwards. -/
def IsScannerStatus (d : List UInt8) : Prop :=
  xioHarvardHeaderSize ≤ d.length ∧
  xhgValidateHeader (d.take xioHarvardHeaderSize) d.length = true ∧
  mSource (d.take xioHarvardHeaderSize) = Xhsrc.scanner ∧
  mPacketID (d.take xioHarvardHeaderSize) = Xhpid.xioStatus

instance (d : List UInt8) : Decidable (IsScannerStatus d) := inferInstanceAs (Decidable (_ ∧ _))

/-- What a datagram leaves in the log, on its own. -/
def verdict (d : List UInt8) : List UdpRcvrEvent :=
  let hdr := d.take xioHarvardHeaderSize
  if d.length < xioHarvardHeaderSize then [.shortHeader]
  else if xhgValidateHeader hdr d.length = false then [.badPacket]
  else if mSource hdr ≠ Xhsrc.scanner then [.unexpectedSource (mSource hdr)]
  else if mPacketID hdr = Xhpid.gwControl then []
  else if mPacketID hdr = Xhpid.xioStatus then [.logPacket d]
  else [.unexpectedPacketID (mPacketID hdr)]

/-- The length a header stands for, if it is that of a packet with a limit. -/
theorem xhgGetPacketLength_limited (hdr : List UInt8)
    (h : (xhgGetPayloadLength hdr).toNat ≤ xioHarMaxPayloadLength) :
    xhgGetPacketLength hdr ≤ 511 := by
  have hmax : xioHarMaxPayloadLength = 495 := rfl
  have hsize : (UInt32.ofNat xioHarvardHeaderSize).toNat = 16 := rfl
  rw [xhgGetPacketLength, UInt32.toNat_add, hsize, Nat.mod_eq_of_lt (by omega)]
  omega

/-- Status packets are short: the 16 bits of a serio header hold their length. -/
theorem IsScannerStatus.length_le {d : List UInt8} (h : IsScannerStatus d) : d.length ≤ 511 := by
  obtain ⟨-, hvalid, -, hid⟩ := h
  have hlen := xhgValidateHeader_length _ _ hvalid
  rw [← hlen]
  refine xhgGetPacketLength_limited _ ?_
  simp only [xhgValidateHeader, Bool.and_eq_true, Bool.not_eq_true'] at hvalid
  have hlimit := hvalid.1.2
  rw [hid] at hlimit
  by_contra hlong
  rw [decide_eq_true (Nat.not_le.mp hlong)] at hlimit
  exact absurd hlimit (by decide)

/-- The serio packet with a datagram in it. -/
def serioPacket (serio : SerioLib) (d : List UInt8) : List UInt8 :=
  serio.mkHdr serio.pktTypeXIO d ++ d

/-- Of the packets the exporter was given, those in `sent` were written, whole and in
order, and the others were counted as dropped. -/
structure Carried (serio : SerioLib) (given sent : List (List UInt8)) (x : XiomasUdpExport out) :
    Prop where
  sublist : sent.Sublist given
  iwrites_eq : x.iwrites = sent.map (serioPacket serio)
  counted : sent.length+x.packetsDropped = given.length

theorem appInputLoop_dropped (io : DasIO) (ok : OkParser) (x : XiomasUdpExport out) :
    (x.appInputLoop io ok).packetsDropped = x.packetsDropped := by
  induction hn : x.ibuf.unread.length using Nat.strongRecOn generalizing x with
  | _ n ih =>
    rw [XiomasUdpExport.appInputLoop]
    split
    · split
      · rfl
      · rename_i b hb
        exact ih _ (by rw [← hn]; exact XiomasUdpExport.notOK_lt ok x.ibuf b hb)
          {x with ibuf := b, ackPending := false} rfl
    · rfl

namespace Carried

variable {serio : SerioLib} {given sent : List (List UInt8)} {x : XiomasUdpExport out}

/-- Another packet is written or counted. -/
theorem forward (h : Carried serio given sent x) (d : List UInt8) (hd : d.length < 65536) :
    ∃ sent', Carried serio (given ++ [d]) sent' (x.forwardPacket serio d) := by
  have hcount := h.counted
  unfold XiomasUdpExport.forwardPacket
  split
  · refine ⟨sent, h.sublist.trans (List.sublist_append_left given [d]), h.iwrites_eq, ?_⟩
    dsimp only
    rw [List.length_append, List.length_singleton]
    omega
  · refine ⟨sent ++ [d], h.sublist.append (List.Sublist.refl [d]), ?_, ?_⟩
    · -- The length is sent in 16 bits, which hold all of it.
      dsimp only
      rw [Nat.mod_eq_of_lt hd, List.take_length, h.iwrites_eq, List.map_append, List.map_singleton,
        serioPacket]
    · dsimp only
      rw [List.length_append, List.length_append, List.length_singleton]
      omega

/-- Nothing else that happens to the exporter is about packets. -/
theorem udpStep (h : Carried serio given sent x) (io : DasIO) (ok : OkParser) (op : UdpOp out)
    (hop : ∀ bfr, op ≠ .forward bfr) : Carried serio given sent (x.udpStep io serio ok op) := by
  cases op with
  | forward bfr => exact absurd rfl (hop bfr)
  | input bytes =>
    refine ⟨h.sublist, ?_, ?_⟩
    · exact (XiomasUdpExport.appInputLoop_frame io ok _).1.trans h.iwrites_eq
    · have hdrop := appInputLoop_dropped io ok {x with ibuf := io.read x.ibuf bytes}
      change sent.length+(x.appInput io ok bytes).packetsDropped = given.length
      rw [XiomasUdpExport.appInput, hdrop]
      exact h.counted
  | socket sock => exact ⟨h.sublist, h.iwrites_eq, h.counted⟩

end Carried

namespace UdpGateway

open UdpGatewayEvent

/-- `g'` differs from `g` in the counters of the receiver and in the transmitter, which is
there. -/
structure Replied (g g' : UdpGateway out) : Prop where
  ibuf_eq : g'.rcvr.ibuf = g.rcvr.ibuf
  trace_eq : g'.rcvr.trace = g.rcvr.trace
  exp_eq : g'.exp = g.exp
  forwarded_eq : g'.forwarded = g.forwarded
  isSome : g'.xutr.isSome

theorem Replied.trans {g g' g'' : UdpGateway out} (h : g.Replied g') (h' : g'.Replied g'') :
    g.Replied g'' :=
  ⟨h'.ibuf_eq.trans h.ibuf_eq,h'.trace_eq.trans h.trace_eq,h'.exp_eq.trans h.exp_eq,
    h'.forwarded_eq.trans h.forwarded_eq,h'.isSome⟩

theorem cts_replied (g : UdpGateway out) (h : g.xutr.isSome) : g.Replied g.cts.2 := by
  obtain ⟨u, hu⟩ := Option.isSome_iff_exists.mp h
  rw [cts, hu]
  exact ⟨rfl,rfl,rfl,rfl,rfl⟩

theorem requestConnect_replied (g : UdpGateway out) (h : g.xutr.isSome) :
    g.Replied g.requestConnect := by
  have hc := g.cts_replied h
  rw [requestConnect]
  split
  · exact ⟨rfl,rfl,rfl,rfl,h⟩
  · exact ⟨hc.ibuf_eq,hc.trace_eq,hc.exp_eq,hc.forwarded_eq,hc.isSome⟩

theorem sendFlag_replied (g : UdpGateway out) (flag : UInt8) (h : g.xutr.isSome) :
    ∃ g', g.sendFlag flag = some g' ∧ g.Replied g' := by
  obtain ⟨u, hu⟩ := Option.isSome_iff_exists.mp h
  rw [sendFlag, hu, Option.map_some]
  exact ⟨_,rfl,rfl,rfl,rfl,rfl,rfl⟩

theorem countRTS_replied (g : UdpGateway out) (hdr : List UInt8) (h : g.xutr.isSome) :
    ∃ g', g.countRTS hdr = some g' ∧ g.Replied g' := by
  have hc := g.cts_replied h
  unfold countRTS
  dsimp only
  split
  · split
    · split
      · exact ⟨_,rfl,hc.ibuf_eq,hc.trace_eq,hc.exp_eq,hc.forwarded_eq,hc.isSome⟩
      · obtain ⟨g', hg', hr⟩ := g.cts.2.sendFlag_replied Xhf.cts hc.isSome
        exact ⟨g', hg', hc.trans hr⟩
    · exact ⟨_, rfl, hc⟩
  · exact ⟨g,rfl,rfl,rfl,rfl,rfl,h⟩

/-- The packets of the exporter and the log, after the datagrams `ds`. -/
structure Passed (serio : SerioLib) (ds : List (List UInt8)) (g : UdpGateway out) : Prop where
  trace_eq : g.rcvr.trace = ds.flatMap verdict
  forwarded_eq : g.forwarded = ds.filter fun d => IsScannerStatus d
  carried : ∃ sent, Carried serio g.forwarded sent g.exp

/-- Between datagrams the buffer is empty, and the transmitter is always there. -/
structure Ready (serio : SerioLib) (ds : List (List UInt8)) (g : UdpGateway out) : Prop
    extends g.Passed serio ds where
  buf_eq : g.rcvr.ibuf.buf = []
  isSome : g.xutr.isSome

theorem Passed.of_replied {serio : SerioLib} {ds : List (List UInt8)} {g g' : UdpGateway out}
    (h : g.Passed serio ds) (hr : g.Replied g') : g'.Passed serio ds := by
  refine ⟨hr.trace_eq.trans h.trace_eq, hr.forwarded_eq.trans h.forwarded_eq, ?_⟩
  rw [hr.forwarded_eq, hr.exp_eq]
  exact h.carried

/-- A datagram that is not forwarded leaves its verdict in the log. -/
theorem Passed.emit {serio : SerioLib} {ds : List (List UInt8)} {g : UdpGateway out}
    (h : g.Passed serio ds) (d : List UInt8) (e : UdpRcvrEvent) (hd : ¬IsScannerStatus d)
    (he : verdict d = [e]) : (g.emit e).Passed serio (ds ++ [d]) where
  trace_eq := by
    rw [List.flatMap_append, List.flatMap_singleton, he, ← h.trace_eq]
    rfl
  forwarded_eq := by
    rw [List.filter_append, List.filter_singleton, decide_eq_false hd, cond_false, List.append_nil]
    exact h.forwarded_eq
  carried := h.carried

theorem Passed.setIbuf {serio : SerioLib} {ds : List (List UInt8)} {g : UdpGateway out}
    (h : g.Passed serio ds) (b : InputBuffer) : (g.setIbuf b).Passed serio ds :=
  ⟨h.trace_eq,h.forwarded_eq,h.carried⟩

/-- A status packet is logged and given to the exporter, whatever its flags lead to. -/
theorem takePacket_passed (serio : SerioLib) (ds : List (List UInt8)) (g : UdpGateway out)
    (d : List UInt8) (h : g.Passed serio ds) (hsome : g.xutr.isSome)
    (hlen : xioHarvardHeaderSize ≤ d.length)
    (hvalid : xhgValidateHeader (d.take xioHarvardHeaderSize) d.length = true)
    (hsrc : mSource (d.take xioHarvardHeaderSize) = Xhsrc.scanner) :
    ∃ g', g.takePacket serio (d.take xioHarvardHeaderSize) d = some g' ∧
      g'.Passed serio (ds ++ [d]) ∧ g'.xutr.isSome := by
  have hverdict : verdict d = if mPacketID (d.take xioHarvardHeaderSize) = Xhpid.gwControl then []
      else if mPacketID (d.take xioHarvardHeaderSize) = Xhpid.xioStatus then [.logPacket d]
      else [.unexpectedPacketID (mPacketID (d.take xioHarvardHeaderSize))] := by
    rw [verdict, if_neg (Nat.not_lt.mpr hlen), hvalid, if_neg (by decide),
      if_neg (not_not.mpr hsrc)]
  have hstatus : IsScannerStatus d ↔ mPacketID (d.take xioHarvardHeaderSize) = Xhpid.xioStatus :=
    ⟨fun hd => hd.2.2.2, fun hid => ⟨hlen, hvalid, hsrc, hid⟩⟩
  unfold takePacket
  by_cases hgw : mPacketID (d.take xioHarvardHeaderSize) = Xhpid.gwControl
  · have hd : ¬IsScannerStatus d := by
      rw [hstatus, hgw]
      decide
    rw [if_pos hgw] at hverdict
    rw [if_pos hgw]
    refine ⟨g, rfl, ⟨?_, ?_, h.carried⟩, hsome⟩
    · rw [List.flatMap_append, List.flatMap_singleton, hverdict, List.append_nil, h.trace_eq]
    · rw [List.filter_append, List.filter_singleton, decide_eq_false hd, cond_false,
        List.append_nil, h.forwarded_eq]
  · rw [if_neg hgw] at hverdict ⊢
    by_cases hid : mPacketID (d.take xioHarvardHeaderSize) = Xhpid.xioStatus
    · have hd : IsScannerStatus d := hstatus.mpr hid
      rw [if_pos hid] at hverdict ⊢
      dsimp only
      -- The scanner is told to hold off or not: the packet goes on.
      have hcounted : ∃ g', (if g.rcvr.pktsRecd+1 > 10 then
            {g with rcvr := {g.rcvr with pktsRecd := g.rcvr.pktsRecd+1}}.sendFlag Xhf.ncts
          else some {g with rcvr := {g.rcvr with pktsRecd := g.rcvr.pktsRecd+1}}) = some g' ∧
          g.Replied g' := by
        split
        · obtain ⟨g', hg', hr⟩ := sendFlag_replied
            {g with rcvr := {g.rcvr with pktsRecd := g.rcvr.pktsRecd+1}} Xhf.ncts hsome
          exact ⟨g',hg',hr.ibuf_eq,hr.trace_eq,hr.exp_eq,hr.forwarded_eq,hr.isSome⟩
        · exact ⟨_,rfl,rfl,rfl,rfl,rfl,hsome⟩
      obtain ⟨g', hg', hr⟩ := hcounted
      have hp := h.of_replied hr
      obtain ⟨sent, hsent⟩ := hp.carried
      rw [hg', Option.map_some]
      refine ⟨_, rfl, ⟨?_, ?_, ?_⟩, hr.isSome⟩
      · change g'.rcvr.trace ++ [UdpRcvrEvent.logPacket d] = _
        rw [List.flatMap_append, List.flatMap_singleton, hverdict, hp.trace_eq]
      · change g'.forwarded ++ [d] = _
        rw [List.filter_append, List.filter_singleton, decide_eq_true hd, cond_true,
          hp.forwarded_eq]
      · exact hsent.forward d (by have := hd.length_le; omega)
    · have hd : ¬IsScannerStatus d := fun hd => hid (hstatus.mp hd)
      rw [if_neg hid] at hverdict ⊢
      exact ⟨_, rfl, h.emit d _ hd hverdict, hsome⟩

/-- One datagram, whatever is in it. -/
theorem protocolInput_ready (io : DasIO) (serio : SerioLib) (ds : List (List UInt8))
    (g : UdpGateway out) (d : List UInt8) (h : g.Ready serio ds) :
    ∃ g', g.protocolInput io serio d = some g' ∧ g'.Ready serio (ds ++ [d]) := by
  have hr := requestConnect_replied (g.setIbuf (io.read g.rcvr.ibuf d)) h.isSome
  set g1 := (g.setIbuf (io.read g.rcvr.ibuf d)).requestConnect with hg1
  have hbuf : g1.rcvr.ibuf.buf = d := by
    rw [hr.ibuf_eq]
    change g.rcvr.ibuf.buf ++ d = d
    rw [h.buf_eq, List.nil_append]
  have hp : g1.Passed serio ds := (h.toPassed.setIbuf _).of_replied hr
  have hempty : (io.consume g1.rcvr.ibuf.nc g1.rcvr.ibuf).buf = [] := by
    rw [io.consume_buf]
    exact List.drop_length
  rw [protocolInput, ← hg1, checkPacket]
  simp only [hbuf]
  by_cases hlen : d.length < xioHarvardHeaderSize
  · have hd : ¬IsScannerStatus d := fun hd => absurd hd.1 (Nat.not_le.mpr hlen)
    rw [if_pos hlen]
    refine ⟨_, rfl, (hp.emit d .shortHeader hd ?_).setIbuf _, hempty, hr.isSome⟩
    rw [verdict, if_pos hlen]
  rw [if_neg hlen]
  cases hvalid : xhgValidateHeader (d.take xioHarvardHeaderSize) d.length with
  | false =>
    have hd : ¬IsScannerStatus d := by
      rintro ⟨-, hv, -⟩
      rw [hvalid] at hv
      cases hv
    refine ⟨_, rfl, (hp.emit d .badPacket hd ?_).setIbuf _, hempty, hr.isSome⟩
    rw [verdict, if_neg hlen, if_pos hvalid]
  | true =>
    rw [Bool.not_true, if_neg (by decide)]
    by_cases hsrc : mSource (d.take xioHarvardHeaderSize) = Xhsrc.scanner
    · obtain ⟨g2, hg2, hr2⟩ := g1.countRTS_replied (d.take xioHarvardHeaderSize) hr.isSome
      obtain ⟨g3, hg3, hp3, hsome3⟩ := takePacket_passed serio ds g2 d (hp.of_replied hr2)
        hr2.isSome (Nat.not_lt.mp hlen) hvalid hsrc
      rw [if_neg (not_not.mpr hsrc), hg2, Option.bind_some, hg3, Option.map_some]
      refine ⟨_, rfl, hp3.setIbuf _, ?_, hsome3⟩
      change (io.reportOk _ _).buf = []
      rw [io.reportOk_buf]
      exact List.drop_length
    · have hd : ¬IsScannerStatus d := fun hd => hsrc hd.2.2.1
      rw [if_pos hsrc]
      refine ⟨_, rfl, (hp.emit d (.unexpectedSource _) hd ?_).setIbuf _, hempty, hr.isSome⟩
      rw [verdict, if_neg hlen, hvalid, if_neg (by decide), if_pos hsrc]

/-- The exporter gets its packets from the receiver and from nowhere else. -/
def NotForwarding : UdpGatewayEvent out → Prop
  | .export (.forward _) => False
  | _ => True

theorem step_ready (io : DasIO) (serio : SerioLib) (ok : OkParser)
    (h : List (UdpGatewayEvent out)) (g : UdpGateway out) (e : UdpGatewayEvent out)
    (hg : g.Ready serio (packets h)) (he : NotForwarding e) :
    ∃ g', g.step io serio ok e = some g' ∧ g'.Ready serio (packets (h ++ [e])) := by
  rw [packets_concat]
  cases e with
  | packet d => exact g.protocolInput_ready io serio _ d hg
  | xutrSocket sock =>
    dsimp only
    rw [List.append_nil]
    refine ⟨_, rfl, ⟨hg.trace_eq, hg.forwarded_eq, hg.carried⟩, hg.buf_eq, ?_⟩
    rw [Option.isSome_map]
    exact hg.isSome
  | «export» op =>
    dsimp only
    rw [List.append_nil]
    obtain ⟨sent, hsent⟩ := hg.carried
    refine ⟨_, rfl, ⟨hg.trace_eq, hg.forwarded_eq, sent, ?_⟩, hg.buf_eq, hg.isSome⟩
    refine hsent.udpStep io ok op ?_
    rintro bfr rfl
    exact he

theorem ready_started (serio : SerioLib) (sock : out.State) (g : UdpGateway out)
    (u : XiomasUdpTxmtr out) (hstart : g.Started u) (hexp : g.exp = XiomasUdpExport.new sock) :
    g.Ready serio [] := by
  refine ⟨⟨?_, hstart.forwarded_eq, [], ?_⟩, ?_, ?_⟩
  · rw [hstart.rcvr_eq]
    rfl
  · rw [hstart.forwarded_eq, hexp]
    exact ⟨List.Sublist.slnil, rfl, rfl⟩
  · rw [hstart.rcvr_eq]
    rfl
  · rw [hstart.xutr_eq]
    rfl

/-- Whatever datagrams come in, and whatever happens on the two other connections between
them: a status packet of the scanner is logged, and written to the ground whole, in one well
formed serio packet, or counted as dropped; any other datagram has no effect on this. -/
theorem status_path (io : DasIO) (serio : SerioLib) (ok : OkParser) (sock : out.State)
    (g : UdpGateway out) (u : XiomasUdpTxmtr out) (hstart : g.Started u)
    (hexp : g.exp = XiomasUdpExport.new sock) (es : List (UdpGatewayEvent out))
    (hes : ∀ e ∈ es, NotForwarding e) :
    Run.Throughout (step io serio ok) (fun fs g' =>
      g'.rcvr.trace = (packets fs).flatMap verdict ∧
      ∃ sent : List (List UInt8), sent.Sublist ((packets fs).filter fun d => IsScannerStatus d) ∧
        g'.exp.iwrites = sent.map (serioPacket serio) ∧
        (∀ d ∈ sent, serio.WellFormed serio.pktTypeXIO (serio.mkHdr serio.pktTypeXIO d) d) ∧
        sent.length+g'.exp.packetsDropped = (packets fs).countP fun d => IsScannerStatus d)
      g es := by
  have hready := ready_started serio sock g u hstart hexp
  intro fs hfs
  obtain ⟨g', hg', hr⟩ := Run.run_history (step io serio ok) (fun _ e => NotForwarding e)
    (fun h g => g.Ready serio (packets h)) (fun h g e hg he => step_ready io serio ok h g e hg he)
    [] g fs hready (Run.along_of_mem _ g fs fun e he _ => hes e (hfs.subset he))
  rw [List.nil_append] at hr
  refine ⟨g', hg', hr.trace_eq, ?_⟩
  obtain ⟨sent, hsub, hwrites, hcount⟩ := hr.carried
  rw [hr.forwarded_eq] at hsub hcount
  refine ⟨sent, hsub, hwrites, ?_, hcount.trans List.countP_eq_length_filter.symm⟩
  intro d hd
  have hstatus : IsScannerStatus d := by simpa using (List.mem_filter.mp (hsub.subset hd)).2
  exact serio.wellFormed_mkHdr serio.pktTypeXIO d (by have := hstatus.length_le; omega)

/-- A short datagram between two status packets, with no answer from the ground. -/
theorem status_path_unanswered : ∃ g : UdpGateway .direct,
    Run.run (step DasIO.keeping SerioLib.packed OkParser.scanning) direct
      [.packet bareStatus,.packet [0x24],.packet bareStatus] = some g ∧
    g.rcvr.trace = [.logPacket bareStatus,.shortHeader,.logPacket bareStatus] := by
  obtain ⟨g, hg, htrace, -⟩ := status_path DasIO.keeping SerioLib.packed OkParser.scanning
    (() : OutputSocket.direct.State) direct _ direct_started rfl
    [.packet bareStatus,.packet [0x24],.packet bareStatus]
    (by
      intro e he
      simp only [List.mem_cons, List.not_mem_nil, or_false] at he
      rcases he with rfl | rfl | rfl <;> trivial) _ (List.prefix_refl _)
  exact ⟨g, hg, htrace.trans (by decide)⟩

end UdpGateway
end Cosmid.Xiomas
