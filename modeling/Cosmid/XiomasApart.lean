import Cosmid.XiomasHandshake

/-! Several connections over one exporter: when their packets stay whole and apart
in the stream toward tm_ip_export. -/
namespace Cosmid.Xiomas

open RcvrEvent XiomasTcpRcvr SysEvent XioSystem

variable {out : OutputSocket} {ι : Type}

namespace XiomasTcpExport

/-- All bytes that went through the buffer or are still in it. -/
def passed (x : XiomasTcpExport out ι) : ℕ := x.iwrites.flatten.length+x.circLength

theorem length_stream (x : XiomasTcpExport out ι) : x.stream.length = x.passed := by
  rw [stream, List.length_append, length_contents, passed]

theorem Drained.passed_eq {x y : XiomasTcpExport out ι} {n : ℕ} (hd : Drained x n y) :
    y.passed = x.passed := by
  rw [← length_stream, ← length_stream, hd.stream_eq]

/-- Bytes have been cut off, or the count of `total` bytes is wrong for good: with
the tail among the first `t` bytes of the array there is no second split ahead
that could make up for the first one. -/
structure Off (total t : ℕ) (x : XiomasTcpExport out ι) : Prop where
  valid : x.CircValid
  wrong : 0 < x.overflows ∨ (x.passed ≠ total ∧ (x.circLength = 0 ∨ x.circTail ≤ t))

theorem circCopy_overflows (x y : XiomasTcpExport out ι) (data : List UInt8)
    (hy : x.circCopy data = some y) : y.overflows = x.overflows := by
  have hr : x.rewind.overflows = x.overflows := by
    unfold rewind
    split <;> rfl
  simp only [circCopy] at hy
  rw [← hr]
  split_ifs at hy <;> rw [← Option.some.inj hy]

theorem circCommit_overflows (x y : XiomasTcpExport out ι) (data : List UInt8)
    (hy : x.circCommit data = some y) :
    y.overflows = if data.length > x.circSpace then x.overflows+1 else x.overflows := by
  simp only [circCommit] at hy
  split_ifs at hy ⊢ with hover hnil hnil
  · rw [← Option.some.inj hy]
  · exact circCopy_overflows _ y _ hy
  · rw [← Option.some.inj hy]
  · exact circCopy_overflows _ y _ hy

/-- The tail after a commit that fits, as far as it can be told from its length. -/
theorem circCommit_tail (x y : XiomasTcpExport out ι) (hv : x.CircValid) (data : List UInt8)
    (hd : data ≠ []) (hfit : data.length ≤ x.circSpace) (hy : x.circCommit data = some y) :
    y.circTail = (if x.rewind.tailSpace < data.length then x.rewind.tailSpace
      else (x.rewind.circTail+data.length)%x.circSize) := by
  have hsp := circSpace_eq x hv
  have hle := circLength_le x hv
  rw [circCommit_of_fits x data hd hfit] at hy
  rcases circCopy_eq x hv data hd (by omega) with ⟨h, hc⟩ | ⟨h, -, -, -, hc⟩ <;>
    rw [← Option.some.inj (hc.symm.trans hy)]
  · rw [if_neg (Nat.not_lt.mpr h)]
  · rw [if_pos h]

/-- The room that a commit can use, with the tail among the first `t` bytes. -/
theorem tailSpace_of_tail_le (x : XiomasTcpExport out ι) (hv : x.CircValid) (t n : ℕ)
    (h : x.circLength = 0 ∨ x.circTail ≤ t) (hn : n ≤ x.circSpace) (hfit : t+n < x.circSize) :
    n ≤ x.rewind.tailSpace ∧ x.rewind.circTail ≤ t := by
  have hsp := circSpace_eq x hv
  have htl := hv.tail_lt
  rcases rewind_cases x hv with ⟨hh, hl, hr⟩ | ⟨hh, hpos, hle, ht, hr⟩
  · rw [hr]
    simp only [tailSpace, ge_iff_le, Nat.le_refl, if_true]
    omega
  · rw [hr, tailSpace]
    rcases wrap_cases x.circSize x.circHead x.circLength hh hle with ⟨h1, h2⟩ | ⟨h1, h2⟩
    · rw [if_pos (by omega)]
      omega
    · by_cases hfull : x.circTail ≥ x.circHead
      · rw [if_pos hfull]
        omega
      · rw [if_neg hfull]
        omega

/-- After a wrong count every further commit keeps it wrong. -/
theorem Off.commit {total t : ℕ} {x y : XiomasTcpExport out ι} (h : Off total t x)
    (data : List UInt8) (hfit : t+data.length < x.circSize) (hy : x.circCommit data = some y) :
    Off (total+data.length) (t+data.length) y := by
  obtain ⟨y', hy', hf, -⟩ := circCommit_frame x h.valid data
  obtain rfl := Option.some.inj (hy.symm.trans hy')
  have hover := circCommit_overflows x y data hy
  refine ⟨hf.valid, ?_⟩
  by_cases hfits : data.length ≤ x.circSpace
  · rw [if_neg (Nat.not_lt.mpr hfits)] at hover
    rcases h.wrong with hov | ⟨hne, htail⟩
    · exact Or.inl (by omega)
    · right
      obtain ⟨hroom, hrt⟩ := tailSpace_of_tail_le x h.valid t data.length htail hfits hfit
      obtain ⟨z, hz, -, hzc, -⟩ := circCommit_even x h.valid data hfits (Or.inl hroom)
      obtain rfl := Option.some.inj (hy.symm.trans hz)
      have hlen : y.circLength = x.circLength+data.length := by
        rw [← length_contents, hzc, List.length_append, length_contents]
      have hiw : y.iwrites = x.iwrites := by rw [hf.frame]
      refine ⟨?_, ?_⟩
      · rw [passed, hiw, hlen]
        unfold passed at hne
        omega
      · by_cases hd : data = []
        · subst hd
          rw [circCommit_nil] at hy
          obtain rfl := Option.some.inj hy
          exact htail
        · right
          rw [circCommit_tail x y h.valid data hd hfits hy, if_neg (by omega),
            Nat.mod_eq_of_lt (by omega)]
          omega
  · rw [if_pos (by omega)] at hover
    exact Or.inl (by omega)

/-- An uneven commit, or one that is cut off, makes the count wrong. -/
theorem off_of_commit {total : ℕ} {x y : XiomasTcpExport out ι} (hv : x.CircValid)
    (htotal : x.passed = total) (data : List UInt8)
    (hbad : ¬(data.length ≤ x.circSpace ∧ x.CommitsEvenly data))
    (hy : x.circCommit data = some y) : Off (total+data.length) data.length y := by
  obtain ⟨y', hy', hf, -⟩ := circCommit_frame x hv data
  obtain rfl := Option.some.inj (hy.symm.trans hy')
  have hover := circCommit_overflows x y data hy
  refine ⟨hf.valid, ?_⟩
  by_cases hfits : data.length ≤ x.circSpace
  · right
    have he : ¬x.CommitsEvenly data := fun he => hbad ⟨hfits, he⟩
    have hne := circCommit_uneven x y hv data hfits he hy
    have hiw : y.iwrites = x.iwrites := by rw [hf.frame]
    refine ⟨?_, Or.inr ?_⟩
    · rw [passed, hiw]
      unfold passed at htotal
      omega
    · have hd : data ≠ [] := by
        rintro rfl
        exact he (Or.inl (Nat.zero_le _))
      have hsplit : x.rewind.tailSpace < data.length := by
        unfold CommitsEvenly at he
        omega
      rw [circCommit_tail x y hv data hd hfits hy, if_pos hsplit]
      omega
  · rw [if_pos (by omega)] at hover
    exact Or.inl (by omega)

theorem Off.drained {total t n : ℕ} {x y : XiomasTcpExport out ι} (h : Off total t x)
    (hd : Drained x n y) : Off total t y := by
  have hlen := hd.length_eq
  have hover : y.overflows = x.overflows := by rw [hd.frame]
  have htail : y.circTail = x.circTail := by rw [hd.frame]
  refine ⟨hd.valid, ?_⟩
  rw [hover, hd.passed_eq, htail]
  rcases h.wrong with hov | ⟨hne, ht⟩
  · exact Or.inl hov
  · exact Or.inr ⟨hne, by omega⟩

theorem Off.mono {total t u : ℕ} {x : XiomasTcpExport out ι} (h : Off total t x) (htu : t ≤ u) :
    Off total u x := by
  refine ⟨h.valid, ?_⟩
  rcases h.wrong with hov | ⟨hne, ht⟩
  · exact Or.inl hov
  · exact Or.inr ⟨hne, by omega⟩

theorem Off.forward (serio : SerioLib) {total t : ℕ} {x y : XiomasTcpExport out ι}
    (h : Off total t x) (bfr : List UInt8)
    (hfit : t+(SerioLib.pktHdrSize+bfr.length) < x.circSize)
    (hy : x.forwardPacket serio bfr = some y) :
    Off (total+(SerioLib.pktHdrSize+bfr.length)) (t+(SerioLib.pktHdrSize+bfr.length)) y := by
  have hhdr := SerioLib.length_mkHdr serio serio.pktTypeSID bfr
  obtain ⟨w, z, n, hw, hwf, hz, -, -, hd⟩ := forwardPacket_parts serio h.valid hy
  have hws : w.circSize = x.circSize := by rw [hwf.frame]
  have h1 := h.commit _ (by rw [hhdr]; omega) hw
  rw [hhdr] at h1
  have h2 := h1.commit bfr (by omega) hz
  rw [← Nat.add_assoc, ← Nat.add_assoc]
  exact h2.drained hd

theorem off_of_forward (serio : SerioLib) {total : ℕ} {x y : XiomasTcpExport out ι}
    (hv : x.CircValid) (htotal : x.passed = total) (bfr : List UInt8)
    (hfit : SerioLib.pktHdrSize+bfr.length < x.circSize)
    (hbad : ¬(SerioLib.pktHdrSize+bfr.length ≤ x.circSpace ∧ x.ForwardsEvenly serio bfr))
    (hy : x.forwardPacket serio bfr = some y) :
    Off (total+(SerioLib.pktHdrSize+bfr.length)) (SerioLib.pktHdrSize+bfr.length) y := by
  have hhdr := SerioLib.length_mkHdr serio serio.pktTypeSID bfr
  obtain ⟨w, z, n, hw, hwf, hz, -, -, hd⟩ := forwardPacket_parts serio hv hy
  have hws : w.circSize = x.circSize := by rw [hwf.frame]
  rw [← Nat.add_assoc]
  by_cases hgood : (serio.mkHdr serio.pktTypeSID bfr).length ≤ x.circSpace ∧
      x.CommitsEvenly (serio.mkHdr serio.pktTypeSID bfr)
  · -- The header went in, so it is the payload.
    obtain ⟨w', hw', -, hwc, -⟩ := circCommit_even x hv _ hgood.1 hgood.2
    obtain rfl := Option.some.inj (hw.symm.trans hw')
    have hwl : w.circLength = x.circLength+SerioLib.pktHdrSize := by
      rw [← length_contents, hwc, List.length_append, length_contents, hhdr]
    have hiw : w.iwrites = x.iwrites := by rw [hwf.frame]
    have hwp : w.passed = total+SerioLib.pktHdrSize := by
      rw [← htotal, passed, passed, hiw, hwl, Nat.add_assoc]
    have hspw := circSpace_eq w hwf.valid
    have hspx := circSpace_eq x hv
    have hlew := circLength_le w hwf.valid
    have h1 := off_of_commit hwf.valid hwp bfr (by
      rintro ⟨hroom, heven⟩
      refine hbad ⟨by omega, hgood.2, ?_⟩
      intro v hv'
      obtain rfl := Option.some.inj (hw.symm.trans hv')
      exact heven) hz
    exact (h1.mono (Nat.le_add_left _ _)).drained hd
  · have h1 := off_of_commit hv htotal _ hgood hw
    rw [hhdr] at h1
    exact (h1.commit bfr (by omega) hz).drained hd

end XiomasTcpExport

open XiomasTcpExport PeerSystem

/-- A call that receivers make. -/
def ExportOp.ByReceiver : ExportOp out ι → Prop
  | forward _ => True
  | requestAck _ => True
  | _ => False

theorem byReceiver_of_mem_exportOps (me : ι) (evs : List RcvrEvent) (op : ExportOp out ι)
    (h : op ∈ exportOps out me evs) : op.ByReceiver := by
  obtain ⟨e, -, he⟩ := List.mem_filterMap.mp h
  cases e <;> simp only [exportOp, Option.some.injEq, reduceCtorEq] at he <;> subst he <;> trivial

/-- A forwarded chunk goes into the buffer evenly. -/
def EvenOp (serio : SerioLib) (x : XiomasTcpExport out ι) : ExportOp out ι → Prop
  | .forward bfr => x.ForwardsEvenly serio bfr
  | _ => True

theorem frames_cons_length (serio : SerioLib) (c : List UInt8) (cs : List (List UInt8)) :
    (frames serio (c :: cs)).length =
      SerioLib.pktHdrSize+c.length+(frames serio cs).length := by
  rw [← List.singleton_append, frames_append, List.length_append, frames_singleton,
    List.length_append, SerioLib.length_mkHdr]

/-- The rule of induction for what the receiver does: along its calls. -/
@[elab_as_elim]
theorem byReceiver_induction
    {P : (ops : List (ExportOp out ι)) → (∀ op ∈ ops, op.ByReceiver) → Prop}
    (hnil : ∀ h, P [] h)
    (hforward : ∀ bfr ops h h', P ops h → P (.forward bfr :: ops) h')
    (hrequest : ∀ client ops h h', P ops h → P (.requestAck client :: ops) h')
    (ops : List (ExportOp out ι)) (hops : ∀ op ∈ ops, op.ByReceiver) : P ops hops := by
  induction ops with
  | nil => exact hnil hops
  | cons op ops ih =>
    have htail : ∀ op ∈ ops, op.ByReceiver := fun o ho => hops o (List.mem_cons_of_mem _ ho)
    cases op with
    | forward bfr => exact hforward bfr ops htail hops (ih htail)
    | requestAck client => exact hrequest client ops htail hops (ih htail)
    | ack length => exact absurd (hops _ List.mem_cons_self) id
    | socket sock => exact absurd (hops _ List.mem_cons_self) id

/-- Even calls with room for all of them extend the stream by their chunks. -/
theorem exportRun_even (serio : SerioLib) (ops : List (ExportOp out ι))
    (hops : ∀ op ∈ ops, op.ByReceiver) (x : XiomasTcpExport out ι) (hv : x.CircValid)
    (hroom : (frames serio (forwarded ops)).length ≤ x.circSpace)
    (heven : Run.Along (exportStep serio) (EvenOp serio) x ops) :
    ∃ y, Run.run (exportStep serio) x ops = some y ∧ y.CircValid ∧
      y.stream = x.stream ++ frames serio (forwarded ops) ∧ y.overflows = x.overflows ∧
      x.circSpace ≤ y.circSpace+(frames serio (forwarded ops)).length := by
  induction ops, hops using byReceiver_induction generalizing x with
  | hnil _ => exact ⟨x, rfl, hv, by simp [forwarded, frames], rfl, Nat.le_add_right _ _⟩
  | hforward bfr ops htail _ ih =>
    have hsplit : forwarded (.forward bfr :: ops) = bfr :: forwarded ops := rfl
    rw [hsplit, frames_cons_length] at hroom
    obtain ⟨y, hy, hyv, hys, hyo, hyz, hyl⟩ :=
      x.forwardPacket_even serio hv bfr (by omega) heven.1
    have hspx := circSpace_eq x hv
    have hspy := circSpace_eq y hyv
    have hlex := circLength_le x hv
    have hstep : exportStep serio x (.forward bfr) = some y := hy
    obtain ⟨z, hz, hzv, hzs, hzo, hzp⟩ := ih y hyv (by omega) (heven.2 y hstep)
    rw [hsplit, frames_cons_length]
    refine ⟨z, ?_, hzv, ?_, hzo.trans hyo, by omega⟩
    · rw [Run.run_cons_of_step _ hstep, hz]
    · rw [hzs, hys, ← List.singleton_append (l := forwarded ops), frames_append,
        frames_singleton, List.append_assoc]
  | hrequest client ops _ _ ih =>
    have hstep : exportStep serio x (.requestAck client) = some (x.requestAck client) := rfl
    rw [Run.run_cons_of_step _ hstep]
    exact ih (x.requestAck client)
      ⟨hv.size_lt, hv.tail_lt, hv.head_cases, hv.outstanding_lt⟩ hroom (heven.2 _ hstep)

theorem exportRun_off (serio : SerioLib) (ops : List (ExportOp out ι))
    (hops : ∀ op ∈ ops, op.ByReceiver) (total t : ℕ) (x y : XiomasTcpExport out ι)
    (h : Off total t x) (hfit : t+(frames serio (forwarded ops)).length < x.circSize)
    (hy : Run.run (exportStep serio) x ops = some y) :
    Off (total+(frames serio (forwarded ops)).length) (t+(frames serio (forwarded ops)).length) y := by
  induction ops, hops using byReceiver_induction generalizing x total t with
  | hnil _ =>
    obtain rfl := Option.some.inj hy
    exact h
  | hforward bfr ops htail _ ih =>
    have hsplit : forwarded (.forward bfr :: ops) = bfr :: forwarded ops := rfl
    rw [hsplit, frames_cons_length] at hfit ⊢
    obtain ⟨z, hz, hzv, hzs⟩ := exportStep_valid serio x h.valid (.forward bfr)
    rw [Run.run_cons_of_step _ hz] at hy
    have h1 := h.forward serio bfr (by omega) hz
    have h2 := ih _ _ z h1 (by omega) hy
    rw [← Nat.add_assoc total, ← Nat.add_assoc t]
    exact h2
  | hrequest client ops _ _ ih =>
    have hv := h.valid
    exact ih total t (x.requestAck client)
      ⟨⟨hv.size_lt, hv.tail_lt, hv.head_cases, hv.outstanding_lt⟩, h.wrong⟩ hfit hy

/-- Calls of which one is uneven, or lacks the room, leave a wrong count behind. -/
theorem exportRun_uneven (serio : SerioLib) (ops : List (ExportOp out ι))
    (hops : ∀ op ∈ ops, op.ByReceiver) (total : ℕ) (x y : XiomasTcpExport out ι)
    (hv : x.CircValid) (htotal : x.passed = total)
    (hfit : (frames serio (forwarded ops)).length < x.circSize)
    (hbad : ¬Run.Along (exportStep serio) (EvenOp serio) x ops)
    (hy : Run.run (exportStep serio) x ops = some y) :
    Off (total+(frames serio (forwarded ops)).length) (frames serio (forwarded ops)).length y := by
  induction ops, hops using byReceiver_induction generalizing x total with
  | hnil _ => exact absurd trivial hbad
  | hforward bfr ops htail _ ih =>
    have hsplit : forwarded (.forward bfr :: ops) = bfr :: forwarded ops := rfl
    rw [hsplit, frames_cons_length] at hfit ⊢
    obtain ⟨z, hz, hzv, hzs⟩ := exportStep_valid serio x hv (.forward bfr)
    rw [Run.run_cons_of_step _ hz] at hy
    by_cases hgood : SerioLib.pktHdrSize+bfr.length ≤ x.circSpace ∧ x.ForwardsEvenly serio bfr
    · obtain ⟨z', hz', -, hzst, -⟩ := x.forwardPacket_even serio hv bfr hgood.1 hgood.2
      obtain rfl := Option.some.inj (hz.symm.trans hz')
      have hzp : z.passed = total+(SerioLib.pktHdrSize+bfr.length) := by
        rw [← htotal, ← length_stream, ← length_stream, hzst, List.length_append,
          List.length_append, SerioLib.length_mkHdr]
      have h2 := ih _ z hzv hzp (by omega) (by
        intro hal
        exact hbad ((Run.along_cons_of_step _ hz _).mpr ⟨hgood.2, hal⟩)) hy
      rw [← Nat.add_assoc]
      exact h2.mono (by omega)
    · -- The count is wrong from here on, and no call makes up for it.
      have h1 := off_of_forward serio hv htotal bfr (by omega) hgood hz
      have h2 := exportRun_off serio ops htail _ _ z y h1 (by omega) hy
      rw [← Nat.add_assoc]
      exact h2
  | hrequest client ops _ _ ih =>
    have hstep : exportStep serio x (.requestAck client) = some (x.requestAck client) := rfl
    rw [Run.run_cons_of_step _ hstep] at hy
    exact ih total (x.requestAck client)
      ⟨hv.size_lt, hv.tail_lt, hv.head_cases, hv.outstanding_lt⟩ htotal hfit (by
        intro hal
        exact hbad ((Run.along_cons_of_step _ hstep _).mpr ⟨trivial, hal⟩)) hy

/-- The system with a record of the chunks forwarded so far, each with the
connection that it came from. -/
structure SharedExport (out : OutputSocket) (ι : Type) where
  sys : XioSystem out ι
  sent : List (ι × List UInt8)

namespace SharedExport

/-- The calls on the exporter that a step from `s` to `s'` made: a receiver's are
the events it has added to its trace. -/
def calls (s s' : XioSystem out ι) : SysEvent out ι → List (ExportOp out ι)
  | .read i _ =>
      exportOps out i ((s'.rcvr i).packetTrace.drop (s.rcvr i).packetTrace.length)
  | e => e.ownOps

/-- The chunks among the calls of an event. -/
def sentBy (ops : List (ExportOp out ι)) : SysEvent out ι → List (ι × List UInt8)
  | .read i _ => (forwarded ops).map fun c => (i, c)
  | _ => []

def sharedStep (io : DasIO) (serio : SerioLib) [DecidableEq ι] (t : SharedExport out ι)
    (e : SysEvent out ι) : Option (SharedExport out ι) :=
  (t.sys.sysStep io serio e).map fun s => ⟨s,t.sent ++ sentBy (calls t.sys s e) e⟩

/-- Between two chunks of one connection there is none of another. -/
def Contiguous (sent : List (ι × List UInt8)) : Prop :=
  ∀ pre i c mid d post, sent = pre ++ (i, c) :: (mid ++ (i, d) :: post) → ∀ p ∈ mid, p.1 = i

/-- Nothing was cut off, the stream consists of the packets for the forwarded
chunks, a packet that was admitted is forwarded as far as it is logged, and the
chunks of one connection are contiguous. -/
structure Intact [DecidableEq ι] (serio : SerioLib) (t : SharedExport out ι) : Prop where
  overflows_eq : t.sys.exp.overflows = 0
  stream_eq : t.sys.exp.stream = frames serio (t.sent.map Prod.snd)
  complete : ∀ i, (t.sys.rcvr i).state = .xtrMidPkt →
    (t.sys.rcvr i).transmittingCurrentPacket = true →
      (t.sent.filter (·.1 = i)).map Prod.snd = logged (t.sys.rcvr i).trace
  contiguous : Contiguous t.sent

/-- `i` may go on: it has sent nothing yet, or the last chunk sent is its own. -/
def MayAppend (sent : List (ι × List UInt8)) (i : ι) : Prop :=
  (∀ p ∈ sent, p.1 ≠ i) ∨ ∃ pre c, sent = pre ++ [(i, c)]

/-- A read that brings in a chunk for a packet that is being transmitted comes
before any other connection has forwarded one since the packet began. -/
def KeepsApart (t : SharedExport out ι) : SysEvent out ι → Prop
  | .read i bytes =>
      (t.sys.rcvr i).state = .xtrMidPkt → (t.sys.rcvr i).transmittingCurrentPacket = true →
      0 < (t.sys.rcvr i).bytesRemainingInPacket →
      min maxSpktDataPerSerioPkt (t.sys.rcvr i).bytesRemainingInPacket ≤
        ((t.sys.rcvr i).ibuf.unread ++ bytes).length →
      MayAppend t.sent i
  | _ => True

/-- Every chunk forwarded by the event goes into the buffer evenly. -/
def ForwardsEvenly (io : DasIO) (serio : SerioLib) [DecidableEq ι] (t : SharedExport out ι)
    (e : SysEvent out ι) : Prop :=
  ∀ s', t.sys.sysStep io serio e = some s' →
    Run.Along (exportStep serio) (EvenOp serio) t.sys.exp (calls t.sys s' e)

theorem contiguous_concat (sent : List (ι × List UInt8)) (i : ι) (c : List UInt8)
    (h : Contiguous sent) (hlast : MayAppend sent i) : Contiguous (sent ++ [(i, c)]) := by
  intro pre j a mid b post heq
  rcases List.eq_nil_or_concat' post with rfl | ⟨post', q, rfl⟩
  · -- The second chunk is the new one.
    have hsplit : sent ++ [(i, c)] = (pre ++ (j, a) :: mid) ++ [(j, b)] := by
      rw [heq, List.append_assoc, List.cons_append]
    have hold := List.append_inj_left' hsplit rfl
    have hnew := List.append_inj_right' hsplit rfl
    obtain rfl : i = j := (Prod.mk.inj (List.cons.inj hnew).1).1
    rcases hlast with hnone | ⟨pre', d, hend⟩
    · exact absurd rfl (hnone (i, a) (by rw [hold]; simp))
    · intro p hp
      rcases List.eq_nil_or_concat' mid with rfl | ⟨mid', q, rfl⟩
      · cases hp
      · have hsplit' : pre' ++ [(i, d)] = (pre ++ (i, a) :: mid') ++ [q] := by
          rw [← hend, hold, List.append_assoc, List.cons_append]
        obtain rfl := (List.cons.inj (List.append_inj_right' hsplit' rfl)).1
        rcases List.mem_append.mp hp with hp | hp
        · exact h pre i a mid' d [] hold p hp
        · rw [List.mem_singleton.mp hp]
  · have hsplit : sent ++ [(i, c)] = (pre ++ (j, a) :: (mid ++ (j, b) :: post')) ++ [q] := by
      rw [heq]
      simp only [List.append_assoc, List.cons_append]
    exact h pre j a mid b post' (List.append_inj_left' hsplit rfl)

theorem mayAppend_concat (sent : List (ι × List UInt8)) (i : ι) (c : List UInt8) :
    MayAppend (sent ++ [(i, c)]) i := Or.inr ⟨sent, c, rfl⟩

theorem contiguous_append (sent : List (ι × List UInt8)) (i : ι) (cs : List (List UInt8))
    (h : Contiguous sent) (hlast : MayAppend sent i) :
    Contiguous (sent ++ cs.map fun c => (i, c)) := by
  induction cs generalizing sent with
  | nil => simpa using h
  | cons c cs ih =>
    have hone := contiguous_concat sent i c h hlast
    simpa using ih (sent ++ [(i, c)]) hone (mayAppend_concat sent i c)

theorem not_contiguous_append (sent : List (ι × List UInt8)) (i : ι) (cs : List (List UInt8))
    (hne : cs ≠ []) (hlast : ¬MayAppend sent i) :
    ¬Contiguous (sent ++ cs.map fun c => (i, c)) := by
  intro h
  obtain ⟨hmem, hend⟩ := not_or.mp hlast
  obtain ⟨⟨j, c0⟩, hc0, hj⟩ : ∃ p ∈ sent, p.1 = i := by
    by_contra hno
    exact hmem fun p hp hpi => hno ⟨p, hp, hpi⟩
  subst hj
  obtain ⟨c, cs', rfl⟩ := List.exists_cons_of_ne_nil hne
  obtain ⟨pre, mid, rfl⟩ := List.append_of_mem hc0
  rcases List.eq_nil_or_concat' mid with rfl | ⟨mid', q, rfl⟩
  · exact hend ⟨pre, c0, rfl⟩
  · have hq := h pre j c0 (mid' ++ [q]) c (cs'.map fun c => (j, c)) (by simp) q (by simp)
    refine hend ⟨pre ++ (j, c0) :: mid', q.2, ?_⟩
    rw [← hq]
    simp

theorem filter_map_same [DecidableEq ι] (i : ι) (cs : List (List UInt8)) :
    (cs.map fun c => (i, c)).filter (·.1 = i) = cs.map fun c => (i, c) := by
  apply List.filter_eq_self.mpr
  intro p hp
  obtain ⟨c, -, rfl⟩ := List.mem_map.mp hp
  simp

theorem filter_map_other [DecidableEq ι] (i j : ι) (hij : i ≠ j) (cs : List (List UInt8)) :
    (cs.map fun c => (i, c)).filter (·.1 = j) = [] := by
  apply List.filter_eq_nil_iff.mpr
  intro p hp
  obtain ⟨c, -, rfl⟩ := List.mem_map.mp hp
  simpa using hij

theorem filter_never [DecidableEq ι] (i : ι) (sent : List (ι × List UInt8))
    (h : ∀ p ∈ sent, p.1 ≠ i) : sent.filter (·.1 = i) = [] := by
  apply List.filter_eq_nil_iff.mpr
  intro p hp
  simpa using h p hp

theorem map_snd_pairs (i : ι) (cs : List (List UInt8)) :
    (cs.map fun c => (i, c)).map Prod.snd = cs := by
  rw [List.map_map]
  exact List.map_id cs

/-- The invariant of the runs that keep the connections apart. There is always
room for the rest of the packet that has sent the last chunk. -/
structure ApartInv [DecidableEq ι] (serio : SerioLib) (es : List (SysEvent out ι))
    (t : SharedExport out ι) : Prop where
  inv : SysInv es t.sys
  size_eq : t.sys.exp.circSize = circBufferSize
  intact : Intact serio t
  senders : ∀ p ∈ t.sent, (t.sys.rcvr p.1).state = .xtrMidPkt ∧
    (t.sys.rcvr p.1).transmittingCurrentPacket = true
  room : ∀ pre p, t.sent = pre ++ [p] →
    totalPktsSize (t.sys.rcvr p.1).bytesRemainingInPacket ≤ t.sys.exp.circSpace

/-- What a read that gets on with a packet has done: the receiver has taken the
chunks of the `remaining` bytes that are complete in `u`. -/
structure Advanced (i : ι) (s s' : XioSystem out ι) (evs : List RcvrEvent) (mode : LogMode)
    (remaining : ℕ) (u : List UInt8) : Prop where
  frame : ∀ j, j ≠ i → s'.rcvr j = s.rcvr j
  state_eq : (s'.rcvr i).state = .xtrMidPkt
  remaining_eq : (s'.rcvr i).bytesRemainingInPacket =
    remaining-Chunks.taken maxSpktDataPerSerioPkt remaining u
  logged_eq : logged (s'.rcvr i).trace = logged (s.rcvr i).trace ++
    Chunks.cut maxSpktDataPerSerioPkt remaining u
  evs_eq : evs = packetEvents (s'.rcvr i).transmittingCurrentPacket mode remaining
    (Chunks.cut maxSpktDataPerSerioPkt remaining u)

/-- Nothing is forwarded for a packet that is not transmitted. -/
theorem apartInv_dropped [DecidableEq ι] (serio : SerioLib) {es : List (SysEvent out ι)}
    {t : SharedExport out ι} (h : ApartInv serio es t) (e : SysEvent out ι) (i : ι)
    (s' : XioSystem out ι) (evs : List RcvrEvent) (mode : LogMode) (remaining : ℕ) (u : List UInt8)
    (hadv : Advanced i t.sys s' evs mode remaining u)
    (hdrop : (s'.rcvr i).transmittingCurrentPacket = false)
    (hinv : SysInv (es ++ [e]) s') (hnone : ∀ p ∈ t.sent, p.1 ≠ i)
    (hrun : Run.run (exportStep serio) t.sys.exp (exportOps out i evs) = some s'.exp) :
    ApartInv serio (es ++ [e])
      ⟨s',t.sent ++ (forwarded (exportOps out i evs)).map fun c => (i, c)⟩ := by
  have hevs := hadv.evs_eq
  rw [hdrop] at hevs
  rw [hevs, exportOps_dropped] at hrun
  rw [hevs, forwarded_packetEvents, if_neg Bool.false_ne_true, List.map_nil, List.append_nil]
  have hexp : s'.exp.stream = t.sys.exp.stream ∧ s'.exp.overflows = t.sys.exp.overflows ∧
      s'.exp.circSpace = t.sys.exp.circSpace ∧ s'.exp.circSize = t.sys.exp.circSize := by
    split_ifs at hrun <;> rw [← Option.some.inj hrun] <;> exact ⟨rfl, rfl, rfl, rfl⟩
  obtain ⟨hs, ho, hc, hz⟩ := hexp
  have hi := h.intact
  refine ⟨hinv, hz.trans h.size_eq, ⟨ho.trans hi.overflows_eq, hs.trans hi.stream_eq, ?_,
    hi.contiguous⟩, ?_, ?_⟩
  · intro j hmid htr
    by_cases hij : j = i
    · subst hij
      exact absurd htr (by simp [hdrop])
    · dsimp only at hmid htr ⊢
      rw [hadv.frame j hij] at hmid htr ⊢
      exact hi.complete j hmid htr
  · intro p hp
    dsimp only
    rw [hadv.frame p.1 (hnone p hp)]
    exact h.senders p hp
  · intro pre p hp
    dsimp only
    rw [hadv.frame p.1 (hnone p (by rw [hp]; simp)), hc]
    exact h.room pre p hp

/-- With the chunks that a connection has got on by, every packet that was admitted is
forwarded as far as it is logged. -/
theorem complete_append [DecidableEq ι] (serio : SerioLib) {t : SharedExport out ι}
    (h : Intact serio t) {i : ι} {s' : XioSystem out ι} {evs : List RcvrEvent} {mode : LogMode}
    {remaining : ℕ} {u : List UInt8} (hadv : Advanced i t.sys s' evs mode remaining u)
    (hcomplete : (t.sent.filter (·.1 = i)).map Prod.snd = logged (t.sys.rcvr i).trace) (j : ι)
    (hmid : (s'.rcvr j).state = .xtrMidPkt)
    (htr : (s'.rcvr j).transmittingCurrentPacket = true) :
    ((t.sent ++ (Chunks.cut maxSpktDataPerSerioPkt remaining u).map fun c => (i, c)).filter
      (·.1 = j)).map Prod.snd = logged (s'.rcvr j).trace := by
  rw [List.filter_append, List.map_append]
  by_cases hij : j = i
  · subst hij
    rw [filter_map_same, map_snd_pairs, hcomplete, hadv.logged_eq]
  · rw [hadv.frame j hij] at hmid htr ⊢
    rw [filter_map_other i j (Ne.symm hij), List.map_nil, List.append_nil]
    exact h.complete j hmid htr

theorem senders_append [DecidableEq ι] (serio : SerioLib) {es : List (SysEvent out ι)}
    {t : SharedExport out ι} (h : ApartInv serio es t) {i : ι} {s' : XioSystem out ι}
    {evs : List RcvrEvent} {mode : LogMode} {remaining : ℕ} {u : List UInt8}
    (hadv : Advanced i t.sys s' evs mode remaining u)
    (htr : (s'.rcvr i).transmittingCurrentPacket = true) (cs : List (List UInt8))
    (p : ι × List UInt8) (hp : p ∈ t.sent ++ cs.map fun c => (i, c)) :
    (s'.rcvr p.1).state = .xtrMidPkt ∧ (s'.rcvr p.1).transmittingCurrentPacket = true := by
  by_cases hpi : p.1 = i
  · rw [hpi]
    exact ⟨hadv.state_eq, htr⟩
  · rw [hadv.frame p.1 hpi]
    rcases List.mem_append.mp hp with hp | hp
    · exact h.senders p hp
    · obtain ⟨c, -, rfl⟩ := List.mem_map.mp hp
      exact absurd rfl hpi

/-- The room for the rest of the last packet shrinks with it. -/
theorem room_append [DecidableEq ι] (serio : SerioLib) {es : List (SysEvent out ι)}
    {t : SharedExport out ι} (h : ApartInv serio es t) {i : ι} {s' : XioSystem out ι}
    {evs : List RcvrEvent} {mode : LogMode} {remaining : ℕ} {u : List UInt8}
    (hadv : Advanced i t.sys s' evs mode remaining u)
    (hfirst : Chunks.cut maxSpktDataPerSerioPkt remaining u = [] →
      remaining = (t.sys.rcvr i).bytesRemainingInPacket)
    (hmore : Chunks.cut maxSpktDataPerSerioPkt remaining u ≠ [] →
      totalPktsSize remaining ≤ t.sys.exp.circSpace)
    (hspace : t.sys.exp.circSpace ≤ s'.exp.circSpace+
      (frames serio (Chunks.cut maxSpktDataPerSerioPkt remaining u)).length)
    (pre : List (ι × List UInt8)) (p : ι × List UInt8)
    (hp : t.sent ++ (Chunks.cut maxSpktDataPerSerioPkt remaining u).map (fun c => (i, c)) =
      pre ++ [p]) :
    totalPktsSize (s'.rcvr p.1).bytesRemainingInPacket ≤ s'.exp.circSpace := by
  have hsplit := length_frames_cut serio remaining u
  have hrem := hadv.remaining_eq
  have htaken : Chunks.cut maxSpktDataPerSerioPkt remaining u = [] →
      Chunks.taken maxSpktDataPerSerioPkt remaining u = 0 := by
    intro hnil
    rw [Chunks.taken, hnil]
    rfl
  generalize Chunks.cut maxSpktDataPerSerioPkt remaining u = cs at *
  by_cases hnil : cs = []
  · subst hnil
    rw [List.map_nil, List.append_nil] at hp
    have hroom := h.room pre p hp
    have hzero : (frames serio []).length = 0 := rfl
    by_cases hpi : p.1 = i
    · rw [hpi] at hroom ⊢
      rw [hrem, htaken rfl, Nat.sub_zero, hfirst rfl]
      omega
    · rw [hadv.frame p.1 hpi]
      omega
  · -- The last chunk is one of the new ones.
    obtain ⟨cs', c, rfl⟩ := (List.eq_nil_or_concat' cs).resolve_left hnil
    rw [List.map_append, ← List.append_assoc] at hp
    obtain rfl := (List.cons.inj (List.append_inj_right' hp rfl)).1
    have hroom := hmore hnil
    dsimp only
    rw [hrem]
    omega

/-- The chunks of a packet that is transmitted go behind one another. -/
theorem apartInv_transmitted [DecidableEq ι] (serio : SerioLib) {es : List (SysEvent out ι)}
    {t : SharedExport out ι} (h : ApartInv serio es t) (e : SysEvent out ι) (i : ι)
    (s' : XioSystem out ι) (evs : List RcvrEvent) (mode : LogMode) (remaining : ℕ) (u : List UInt8)
    (hadv : Advanced i t.sys s' evs mode remaining u)
    (htr : (s'.rcvr i).transmittingCurrentPacket = true) (hinv : SysInv (es ++ [e]) s')
    (hcomplete : (t.sent.filter (·.1 = i)).map Prod.snd = logged (t.sys.rcvr i).trace)
    (hfirst : Chunks.cut maxSpktDataPerSerioPkt remaining u = [] →
      remaining = (t.sys.rcvr i).bytesRemainingInPacket)
    (hmore : Chunks.cut maxSpktDataPerSerioPkt remaining u ≠ [] → MayAppend t.sent i ∧
      totalPktsSize remaining ≤ t.sys.exp.circSpace)
    (heven : Run.Along (exportStep serio) (EvenOp serio) t.sys.exp (exportOps out i evs))
    (hrun : Run.run (exportStep serio) t.sys.exp (exportOps out i evs) = some s'.exp) :
    ApartInv serio (es ++ [e])
      ⟨s',t.sent ++ (forwarded (exportOps out i evs)).map fun c => (i, c)⟩ := by
  have hi := h.intact
  have hfwd : forwarded (exportOps out i evs) =
      Chunks.cut maxSpktDataPerSerioPkt remaining u := by
    rw [hadv.evs_eq, htr, forwarded_packetEvents, if_pos rfl]
  have hfits : (frames serio (Chunks.cut maxSpktDataPerSerioPkt remaining u)).length ≤
      t.sys.exp.circSpace := by
    have hsplit := length_frames_cut serio remaining u
    by_cases hnil : Chunks.cut maxSpktDataPerSerioPkt remaining u = []
    · rw [hnil]
      exact Nat.zero_le _
    · have := (hmore hnil).2
      omega
  -- The two descriptions of the exporter's run speak of the same exporter.
  obtain ⟨y, hy, -, hys, hyo, hyp⟩ := exportRun_even serio (exportOps out i evs)
    (byReceiver_of_mem_exportOps i evs) t.sys.exp h.inv.valid (by rw [hfwd]; exact hfits) heven
  obtain rfl := Option.some.inj (hrun.symm.trans hy)
  obtain ⟨z, hz, -, hzs⟩ := exportRun_valid serio t.sys.exp h.inv.valid (exportOps out i evs)
  obtain rfl := Option.some.inj (hrun.symm.trans hz)
  rw [hfwd] at hys hyp ⊢
  refine ⟨hinv, hzs.trans h.size_eq, ⟨hyo.trans hi.overflows_eq, ?_,
    complete_append serio hi hadv hcomplete, ?_⟩, senders_append serio h hadv htr _,
    room_append serio h hadv hfirst (fun hnil => (hmore hnil).2) hyp⟩
  · dsimp only
    rw [hys, hi.stream_eq, List.map_append, frames_append, map_snd_pairs]
  · by_cases hnil : Chunks.cut maxSpktDataPerSerioPkt remaining u = []
    · rw [hnil]
      simpa using hi.contiguous
    · exact contiguous_append t.sent i _ hi.contiguous (hmore hnil).1

/-- The three ways a read can go, for the connections. -/
theorem packetCall_cases {t : XioSystem out ι} {s' : XioSystem out ι} {i : ι}
    {input bytes : List UInt8} {evs : List RcvrEvent}
    (h : PacketCall t.exp.circSpace input bytes (t.rcvr i) (s'.rcvr i) evs)
    (hframe : ∀ j, j ≠ i → s'.rcvr j = t.rcvr j) :
    ((t.rcvr i).state ≠ .xtrMidPkt ∧ (s'.rcvr i).state ≠ .xtrMidPkt ∧ evs = []) ∨
    (∃ mode size body, (t.rcvr i).state ≠ .xtrMidPkt ∧ (t.rcvr i).packetTrace = [] ∧
      size ≤ maxSpktLength+1000 ∧ Chunks.cut maxSpktDataPerSerioPkt size body ≠ [] ∧
      (s'.rcvr i).transmittingCurrentPacket = decide (totalPktsSize size ≤ t.exp.circSpace) ∧
      Advanced i t s' evs mode size body) ∨
    ((t.rcvr i).state = .xtrMidPkt ∧
      (t.rcvr i).bytesRemainingInPacket ≤ maxSpktLength+1000 ∧ logged (t.rcvr i).trace ≠ [] ∧
      (s'.rcvr i).transmittingCurrentPacket = (t.rcvr i).transmittingCurrentPacket ∧
      Advanced i t s' evs .logCurfile (t.rcvr i).bytesRemainingInPacket
        ((t.rcvr i).ibuf.unread ++ bytes)) := by
  have hlogged := h.logged_eq
  cases h with
  | searched hr hs => exact Or.inl ⟨hr.state_ne, hs.state_ne, rfl⟩
  | began mode size body hr hm _ htr =>
    refine Or.inr (Or.inl ⟨mode, size, body, hr.state_ne, hr.packetTrace_eq, hm.size_le,
      hm.chunks_ne_nil, htr, hframe, hm.state_eq, hm.remaining_eq, ?_, hm.packetTrace_eq⟩)
    rw [hlogged, hm.packetTrace_eq, logged_packetEvents]
  | continued mode size body _ hr hm htr _ =>
    have hle := hr.size_le
    have hrem := hr.remaining_eq
    refine Or.inr (Or.inr ⟨hr.state_eq, by omega, ?_, htr, hframe, hm.state_eq, ?_, ?_, ?_⟩)
    · rw [hr.logged_eq]
      exact hr.chunks_ne_nil
    · rw [hm.remaining_eq, Chunks.taken_append, ← Nat.sub_sub, ← hrem, hr.ibuf_eq]
      rfl
    · rw [hlogged, restEvents, logged_packetEvents]
    · rw [restEvents, htr]

theorem calls_read [DecidableEq ι] {t s' : XioSystem out ι} {i : ι} {input bytes : List UInt8}
    {evs : List RcvrEvent}
    (h : PacketCall t.exp.circSpace input bytes (t.rcvr i) (s'.rcvr i) evs) :
    calls t s' (.read i bytes) = exportOps out i evs := by
  rw [calls, h.packetTrace_eq, List.drop_left]

/-- An event that forwards nothing and leaves every packet as it is. -/
theorem apartInv_unsent [DecidableEq ι] (serio : SerioLib) {es : List (SysEvent out ι)}
    {t : SharedExport out ι} (h : ApartInv serio es t) (e : SysEvent out ι) (s' : XioSystem out ι)
    (hinv : SysInv (es ++ [e]) s') (hsize : s'.exp.circSize = t.sys.exp.circSize)
    (hstream : s'.exp.stream = t.sys.exp.stream)
    (hover : s'.exp.overflows = t.sys.exp.overflows)
    (hspace : t.sys.exp.circSpace ≤ s'.exp.circSpace)
    (hrcvr : ∀ j, Kept (t.sys.rcvr j) (s'.rcvr j) ∨
      ((t.sys.rcvr j).state ≠ .xtrMidPkt ∧ (s'.rcvr j).state ≠ .xtrMidPkt)) :
    ApartInv serio (es ++ [e]) ⟨s',t.sent⟩ := by
  have hi := h.intact
  have hsender (p : ι × List UInt8) (hp : p ∈ t.sent) :
      Kept (t.sys.rcvr p.1) (s'.rcvr p.1) := by
    rcases hrcvr p.1 with hk | ⟨hidle, -⟩
    · exact hk
    · exact absurd (h.senders p hp).1 hidle
  refine ⟨hinv, hsize.trans h.size_eq, ⟨hover.trans hi.overflows_eq,
    hstream.trans hi.stream_eq, ?_, hi.contiguous⟩, ?_, ?_⟩
  · intro j hmid htr
    dsimp only at hmid htr ⊢
    rcases hrcvr j with hk | ⟨-, hidle⟩
    · rw [← logged_packetTrace, hk.packetTrace_eq, logged_packetTrace]
      rw [hk.state_eq] at hmid
      rw [hk.transmitting_eq] at htr
      exact hi.complete j hmid htr
    · exact absurd hmid hidle
  · intro p hp
    have hk := hsender p hp
    dsimp only
    rw [hk.state_eq, hk.transmitting_eq]
    exact h.senders p hp
  · intro pre p hp
    have hk := hsender p (by rw [show t.sent = _ from hp]; simp)
    have hroom := h.room pre p hp
    dsimp only
    rw [hk.remaining_eq]
    omega

/-- What an event without a read does to the buffer: at most it gains room. -/
theorem run_ownOps (serio : SerioLib) {x y : XiomasTcpExport out ι} (hv : x.CircValid)
    {e : SysEvent out ι} (hnone : ∀ i bytes, e ≠ .read i bytes)
    (hrun : Run.run (exportStep serio) x (ownOps e) = some y) :
    y.stream = x.stream ∧ y.overflows = x.overflows ∧ x.circSpace ≤ y.circSpace := by
  cases e with
  | read i bytes => exact absurd rfl (hnone i bytes)
  | ack length =>
    obtain ⟨n, z, hz, hd⟩ := x.appInputAck_spec hv length
    have hstep : Run.run (exportStep serio) x (ownOps (.ack length)) = some z := by
      simp [ownOps, Run.run, exportStep, hz]
    obtain rfl := Option.some.inj (hrun.symm.trans hstep)
    have hlen : y.circLength+n = x.circLength := hd.length_eq
    have hspace := circSpace_eq _ hd.valid
    have hspace' := circSpace_eq _ hv
    have hsize : y.circSize = x.circSize := by rw [hd.frame]
    refine ⟨hd.stream_eq, by rw [hd.frame], by omega⟩
  | timeout i => rw [← Option.some.inj hrun]; exact ⟨rfl, rfl, Nat.le_refl _⟩
  | exportSocket sock => rw [← Option.some.inj hrun]; exact ⟨rfl, rfl, Nat.le_refl _⟩
  | rcvrSocket i sock => rw [← Option.some.inj hrun]; exact ⟨rfl, rfl, Nat.le_refl _⟩

theorem sharedStep_good (io : DasIO) (serio : SerioLib) [DecidableEq ι]
    (es : List (SysEvent out ι)) (t : SharedExport out ι) (e : SysEvent out ι)
    (h : ApartInv serio es t) (hapart : t.KeepsApart e) (heven : t.ForwardsEvenly io serio e) :
    ∃ t', sharedStep io serio t e = some t' ∧ ApartInv serio (es ++ [e]) t' := by
  obtain ⟨s', ops, hs, hops, hcall, hinv, hsize⟩ := sysStep_sysInv io serio es t.sys h.inv e
  refine ⟨⟨s',t.sent ++ sentBy (calls t.sys s' e) e⟩, by simp only [sharedStep, hs, Option.map_some],
    ?_⟩
  have hal := heven s' hs
  have hi := h.intact
  cases hcall with
  | read i bytes evs hread hframe =>
    rw [calls_read hread] at hal ⊢
    rw [sentBy]
    have hnever : (t.sys.rcvr i).state ≠ .xtrMidPkt → ∀ p ∈ t.sent, p.1 ≠ i := by
      rintro hidle p hp rfl
      exact hidle (h.senders p hp).1
    rcases packetCall_cases hread hframe with ⟨hidle, hidle', rfl⟩ |
        ⟨mode, size, body, hidle, htrace, -, hne, htr, hadv⟩ | ⟨hmid, -, hlog, htr, hadv⟩
    · -- Nothing but messages and control headers.
      have hexp := Option.some.inj hops
      have hnil : forwarded (exportOps out i []) = [] := rfl
      rw [hnil, List.map_nil, List.append_nil]
      refine apartInv_unsent serio h _ s' hinv hsize (by rw [← hexp]) (by rw [← hexp])
        (Nat.le_of_eq (by rw [hexp])) ?_
      intro j
      by_cases hij : j = i
      · subst hij
        exact Or.inr ⟨hidle, hidle'⟩
      · rw [hframe j hij]
        exact Or.inl (.refl _)
    · -- A packet begins: nothing of this connection has been sent yet.
      have hlog : logged (t.sys.rcvr i).trace = [] := by
        rw [← logged_packetTrace, htrace]
        rfl
      have hnone := hnever hidle
      cases ht : (s'.rcvr i).transmittingCurrentPacket with
      | false => exact apartInv_dropped serio h _ i s' evs mode size body hadv ht hinv hnone hops
      | true =>
        refine apartInv_transmitted serio h _ i s' evs mode size body hadv ht hinv ?_
          (fun hnil => absurd hnil hne) (fun _ => ⟨Or.inl hnone, ?_⟩) hal hops
        · rw [filter_never i t.sent hnone, hlog]
          rfl
        · rw [ht] at htr
          exact of_decide_eq_true htr.symm
    · -- The packet goes on, as it was decided at its beginning.
      cases ht : (t.sys.rcvr i).transmittingCurrentPacket with
      | false =>
        refine apartInv_dropped serio h _ i s' evs _ _ _ hadv (htr.trans ht) hinv ?_ hops
        rintro p hp rfl
        exact absurd (h.senders p hp).2 (by simp [ht])
      | true =>
        have hcomplete := hi.complete i hmid ht
        refine apartInv_transmitted serio h _ i s' evs _ _ _ hadv (htr.trans ht) hinv hcomplete
          (fun _ => rfl) (fun hne => ?_) hal hops
        have hmay : MayAppend t.sent i := by
          rcases Chunks.cut_cases maxSpktDataPerSerioPkt (t.sys.rcvr i).bytesRemainingInPacket
            ((t.sys.rcvr i).ibuf.unread ++ bytes) with hstop | ⟨h0, hlen⟩
          · exact absurd (Chunks.cut_stop _ _ _ hstop) hne
          · exact hapart hmid ht (by omega) hlen
        refine ⟨hmay, ?_⟩
        rcases hmay with hnone | ⟨pre, c, hend⟩
        · rw [filter_never i t.sent hnone] at hcomplete
          exact absurd hcomplete.symm hlog
        · exact h.room pre (i, c) hend
  | other _ hnone hkept =>
    have hsent : sentBy (calls t.sys s' e) e = [] := by
      cases e with
      | read i bytes => exact absurd rfl (hnone i bytes)
      | _ => rfl
    rw [hsent, List.append_nil]
    have hexp := run_ownOps serio h.inv.valid hnone hops
    exact apartInv_unsent serio h e s' hinv hsize hexp.1 hexp.2.1 hexp.2.2
      (fun j => Or.inl (hkept j))

theorem length_frames_advanced_lt (serio : SerioLib) {i : ι} {s s' : XioSystem out ι}
    {evs : List RcvrEvent} {mode : LogMode} {remaining : ℕ} {u : List UInt8}
    (hadv : Advanced i s s' evs mode remaining u) (hle : remaining ≤ maxSpktLength+1000) :
    (frames serio (forwarded (exportOps out i evs))).length < circBufferSize := by
  have hlt := totalPktsSize_lt remaining hle
  have hsplit := length_frames_cut serio remaining u
  rw [hadv.evs_eq, forwarded_packetEvents]
  split
  · omega
  · exact Nat.lt_of_le_of_lt (Nat.zero_le _) hlt

/-- A chunk that does not go into the buffer evenly breaks the stream. -/
theorem not_intact_of_uneven [DecidableEq ι] (serio : SerioLib) {es : List (SysEvent out ι)}
    {t : SharedExport out ι} (h : ApartInv serio es t) (i : ι) (s' : XioSystem out ι)
    (evs : List RcvrEvent)
    (hfit : (frames serio (forwarded (exportOps out i evs))).length < circBufferSize)
    (hbad : ¬Run.Along (exportStep serio) (EvenOp serio) t.sys.exp (exportOps out i evs))
    (hrun : Run.run (exportStep serio) t.sys.exp (exportOps out i evs) = some s'.exp) :
    ¬Intact serio ⟨s',t.sent ++ (forwarded (exportOps out i evs)).map fun c => (i, c)⟩ := by
  intro hi
  have hoff := exportRun_uneven serio (exportOps out i evs) (byReceiver_of_mem_exportOps i evs)
    t.sys.exp.passed t.sys.exp s'.exp h.inv.valid rfl (by rw [h.size_eq]; exact hfit) hbad hrun
  have hover : s'.exp.overflows = 0 := hi.overflows_eq
  have hnew : s'.exp.stream = _ := hi.stream_eq
  have hstream := congrArg List.length hnew
  have hold := congrArg List.length h.intact.stream_eq
  rw [List.map_append, map_snd_pairs, frames_append, List.length_append, length_stream] at hstream
  rw [length_stream] at hold
  rcases hoff.wrong with hpos | ⟨hne, -⟩ <;> omega

/-- A step that is not good leaves the stream broken, or the chunks mixed. -/
theorem sharedStep_bad (io : DasIO) (serio : SerioLib) [DecidableEq ι]
    (es : List (SysEvent out ι)) (t t' : SharedExport out ι) (e : SysEvent out ι)
    (h : ApartInv serio es t) (hbad : ¬(t.KeepsApart e ∧ t.ForwardsEvenly io serio e))
    (ht : sharedStep io serio t e = some t') : ¬Intact serio t' := by
  obtain ⟨s', ops, hs, hops, hcall, -, -⟩ := sysStep_sysInv io serio es t.sys h.inv e
  simp only [sharedStep, hs, Option.map_some, Option.some.injEq] at ht
  subst ht
  have hforwards : t.ForwardsEvenly io serio e ↔
      Run.Along (exportStep serio) (EvenOp serio) t.sys.exp (calls t.sys s' e) := by
    refine ⟨fun hf => hf s' hs, ?_⟩
    intro hal s hs2
    obtain rfl := Option.some.inj (hs.symm.trans hs2)
    exact hal
  rw [hforwards] at hbad
  cases hcall with
  | read i bytes evs hread hframe =>
    rw [calls_read hread] at hbad ⊢
    rw [sentBy]
    have hcases := packetCall_cases hread hframe
    by_cases heven : Run.Along (exportStep serio) (EvenOp serio) t.sys.exp (exportOps out i evs)
    · -- The chunks go in, but behind those of another connection.
      have hkeeps : ¬t.KeepsApart (.read i bytes) := fun hk => hbad ⟨hk, heven⟩
      simp only [KeepsApart, Classical.not_imp] at hkeeps
      obtain ⟨hmid, htr, hpos, hlen, hmay⟩ := hkeeps
      rcases hcases with ⟨hidle, -⟩ | ⟨_, _, _, hidle, -⟩ | ⟨-, -, -, htr', hadv⟩
      · exact absurd hmid hidle
      · exact absurd hmid hidle
      · intro hi
        have hmax : maxSpktDataPerSerioPkt = 956 := rfl
        rw [hadv.evs_eq, htr', htr, forwarded_packetEvents, if_pos rfl] at hi
        refine not_contiguous_append t.sent i _ ?_ hmay hi.contiguous
        rw [Chunks.cut_step _ _ _ (by omega) hlen]
        exact List.cons_ne_nil _ _
    · -- Some chunk leaves the buffer's pointers apart from its contents.
      refine not_intact_of_uneven serio h i s' evs ?_ heven hops
      rcases hcases with ⟨-, -, rfl⟩ | ⟨_, size, _, -, -, hle, -, -, hadv⟩ | ⟨-, hle, -, -, hadv⟩
      · exact Nat.succ_pos _
      · exact length_frames_advanced_lt serio hadv hle
      · exact length_frames_advanced_lt serio hadv hle
  | other _ hnone _ =>
    have htrivial : t.KeepsApart e ∧
        Run.Along (exportStep serio) (EvenOp serio) t.sys.exp (calls t.sys s' e) := by
      cases e with
      | read i bytes => exact absurd rfl (hnone i bytes)
      | ack length => exact ⟨trivial, trivial, fun _ _ => trivial⟩
      | exportSocket sock => exact ⟨trivial, trivial, fun _ _ => trivial⟩
      | _ => exact ⟨trivial, trivial⟩
    exact absurd htrivial hbad

theorem apartInv_new [DecidableEq ι] (serio : SerioLib) (transmitting : ι → Bool)
    (rcvrSock : ι → out.State) (circ : ℕ → UInt8) (expSock : out.State) :
    ApartInv serio [] ⟨.new transmitting rcvrSock circ expSock,[]⟩ := by
  refine ⟨sysInv_started _ (started_new _ _ _ _), rfl, ⟨rfl, ?_, ?_, ?_⟩, ?_, ?_⟩
  · rfl
  · intro i hmid
    cases hmid
  · intro pre i c mid d post heq
    simp at heq
  · intro p hp
    cases hp
  · intro pre p hp
    simp at hp

/-- Over one exporter the packets of different connections stay whole and apart if
and only if every chunk comes before any other connection forwards one in between,
and goes into the buffer evenly. -/
theorem packets_apart_iff (io : DasIO) (serio : SerioLib) [DecidableEq ι] (transmitting : ι → Bool)
    (rcvrSock : ι → out.State) (circ : ℕ → UInt8) (expSock : out.State)
    (es : List (SysEvent out ι)) :
    Run.Throughout (sharedStep io serio) (fun _ t => Intact serio t)
        ⟨.new transmitting rcvrSock circ expSock,[]⟩ es ↔
      Run.Along (sharedStep io serio) (fun t e => t.KeepsApart e ∧ t.ForwardsEvenly io serio e)
        ⟨.new transmitting rcvrSock circ expSock,[]⟩ es :=
  Run.throughout_iff_along (sharedStep io serio) (fun _ _ => True)
    (fun t e => t.KeepsApart e ∧ t.ForwardsEvenly io serio e) (ApartInv serio)
    (fun _ t => Intact serio t) (fun _ _ h => h.intact)
    (fun es t e h _ hg => sharedStep_good io serio es t e h hg.1 hg.2)
    (fun es t e t' h _ hb ht => sharedStep_bad io serio es t t' e h hb ht) _ es
    (apartInv_new serio transmitting rcvrSock circ expSock) (Run.along_true _ _ es)

/-- What an event that keeps the stream intact tells about the state before. -/
theorem sharedStep_intact (io : DasIO) (serio : SerioLib) [DecidableEq ι]
    (es : List (SysEvent out ι)) (t t' : SharedExport out ι) (e : SysEvent out ι)
    (h : ApartInv serio es t) (ht : sharedStep io serio t e = some t') (hi : Intact serio t') :
    t.KeepsApart e ∧ ApartInv serio (es ++ [e]) t' := by
  have hgood : t.KeepsApart e ∧ t.ForwardsEvenly io serio e := by
    by_contra hbad
    exact sharedStep_bad io serio es t t' e h hbad ht hi
  obtain ⟨u, hu, hinv⟩ := sharedStep_good io serio es t e h hgood.1 hgood.2
  obtain rfl := Option.some.inj (ht.symm.trans hu)
  exact ⟨hgood.1, hinv⟩

/-- The start of a packet that is transmitted puts its first chunks into the stream. -/
theorem sharedStep_begins (io : DasIO) (serio : SerioLib) [DecidableEq ι] (b : ι)
    (p b0 : List UInt8) (hp : XioPacket p) (es : List (SysEvent out ι)) (t : SharedExport out ι)
    (hinv : SysInv es t.sys) (hfol : Follows p (t.sys.rcvr b) []) (hin : inputOf b es = [])
    (hb0 : b0 <+: p) (hfirst : min maxSpktDataPerSerioPkt p.length ≤ b0.length)
    (hroom : totalPktsSize p.length ≤ t.sys.exp.circSpace) :
    ∃ t' mode cs, sharedStep io serio t (.read b b0) = some t' ∧
      MidPacket (t'.sys.rcvr b) mode p.length b0 ∧
      (t'.sys.rcvr b).transmittingCurrentPacket = true ∧
      (∀ j, j ≠ b → t'.sys.rcvr j = t.sys.rcvr j) ∧ cs ≠ [] ∧
      t'.sent = t.sent ++ cs.map fun c => (b, c) := by
  obtain ⟨s', mode, hs, hm, hnone, htr, hframe, -⟩ :=
    step_begins io serio b p b0 hp es t.sys hinv hfol hin hb0 hfirst
  rw [decide_eq_true hroom] at htr
  refine ⟨⟨s',t.sent ++ sentBy (calls t.sys s' (.read b b0)) (.read b b0)⟩, mode,
    Chunks.cut maxSpktDataPerSerioPkt p.length b0, by simp only [sharedStep, hs, Option.map_some],
    hm, htr, hframe, hm.chunks_ne_nil, ?_⟩
  rw [calls, hnone, List.length_nil, List.drop_zero, hm.packetTrace_eq, htr, sentBy,
    forwarded_packetEvents, if_pos rfl]

/-- Two connections: the one packet is in its middle when the other one begins. -/
theorem packets_mixed_of (io : DasIO) (serio : SerioLib) [DecidableEq ι] (a b : ι) (hab : a ≠ b)
    (pa pb a0 a1 : List UInt8) (hpa : XioPacket pa) (hpb : XioPacket pb) (ha : a0 ++ a1 = pa)
    (hfirst : maxSpktDataPerSerioPkt ≤ a0.length) (hmore : a1 ≠ [])
    (hfit : pb.length ≤ a1.length) (transmitting : ι → Bool) (rcvrSock : ι → out.State)
    (circ : ℕ → UInt8) (expSock : out.State) :
    ¬Run.Throughout (sharedStep io serio) (fun _ t => Intact serio t)
      ⟨.new transmitting rcvrSock circ expSock,[]⟩
      [.read a a0, .read b pb, .read a a1] := by
  intro h
  have hpos : 0 < a1.length := List.length_pos_of_ne_nil hmore
  have hlen := congrArg List.length ha
  rw [List.length_append] at hlen
  have hinv0 := apartInv_new serio transmitting rcvrSock circ expSock
  have hfol (p : List UInt8) (hp : XioPacket p) (i : ι) :
      Follows p ((XioSystem.new transmitting rcvrSock circ expSock : XioSystem out ι).rcvr i) [] := by
    have hb := hp.first_bounds
    refine Or.inl ⟨awaiting_new _ _, ?_⟩
    unfold xioHarvardHeaderSize at hb
    exact Nat.lt_of_lt_of_le (Nat.succ_pos _) hb
  -- The first packet begins.
  obtain ⟨t1, mode, cs, hs1, hm1, htr1, hframe1, hcs, hsent1⟩ := sharedStep_begins io serio a pa a0
    hpa [] _ hinv0.inv (hfol pa hpa a) rfl ⟨a1, ha⟩ (by omega) (by
      have hlt := totalPktsSize_lt pa.length hpa.size_le
      have hspace := circSpace_eq _ hinv0.inv.valid
      have hsize := hinv0.size_eq
      rw [circLength_of_empty _ rfl] at hspace
      omega)
  obtain ⟨t1', hr1, hi1⟩ := h [.read a a0] ⟨_, rfl⟩
  rw [Run.run_cons_of_step _ hs1] at hr1
  obtain rfl := Option.some.inj hr1
  obtain ⟨-, hinv1⟩ := sharedStep_intact io serio [] _ t1 _ hinv0 hs1 hi1
  have hin1 : inputOf b [(.read a a0 : SysEvent out ι)] = [] := by
    simp only [inputOf, List.flatMap_cons, bytesOf, if_neg hab, List.nil_append, List.flatMap_nil]
  -- The second one is whole, and goes behind the first chunks.
  obtain ⟨cs', c, rfl⟩ := (List.eq_nil_or_concat' cs).resolve_left hcs
  have hremaining := hm1.remaining_eq
  have htaken := Chunks.taken_le maxSpktDataPerSerioPkt pa.length a0
  obtain ⟨t2, -, ds, hs2, -, -, hframe2, hds, hsent2⟩ := sharedStep_begins io serio b pb pb hpb
    [.read a a0] t1 hinv1.inv (by rw [hframe1 b (Ne.symm hab)]; exact hfol pb hpb b) hin1
    List.prefix_rfl (Nat.min_le_right _ _) (by
      have hroom := hinv1.room (cs'.map fun c => (a, c)) (a, c) (by rw [hsent1]; simp)
      dsimp only at hroom
      rw [hremaining] at hroom
      unfold totalPktsSize serioPkts maxSpktDataPerSerioPkt SerioLib.pktHdrSize at hroom ⊢
      unfold maxSpktDataPerSerioPkt at htaken
      omega)
  obtain ⟨t2', hr2, hi2⟩ := h [.read a a0, .read b pb] ⟨_, rfl⟩
  rw [Run.run_cons_of_step _ hs1, Run.run_cons_of_step _ hs2] at hr2
  obtain rfl := Option.some.inj hr2
  obtain ⟨-, hinv2⟩ := sharedStep_intact io serio _ t1 t2 _ hinv1 hs2 hi2
  -- The rest of the first one comes too late.
  obtain ⟨t3, hr3, hi3⟩ := h _ List.prefix_rfl
  rw [Run.run_cons_of_step _ hs1, Run.run_cons_of_step _ hs2] at hr3
  have hs3 : sharedStep io serio t2 (.read a a1) = some t3 := by
    simpa only [Run.run, Option.bind_fun_some] using hr3
  obtain ⟨hkeeps, -⟩ := sharedStep_intact io serio _ t2 t3 _ hinv2 hs3 hi3
  have hmay : MayAppend t2.sent a := by
    rw [KeepsApart, hframe2 a hab] at hkeeps
    refine hkeeps hm1.state_eq htr1 (by omega) ?_
    rw [List.length_append, hm1.ibuf_eq, InputBuffer.unread_mk_zero, List.length_drop, hremaining]
    omega
  rw [hsent2, hsent1] at hmay
  rcases hmay with hnone | ⟨pre, d, hend⟩
  · exact hnone (a, c) (by simp) rfl
  · obtain ⟨ds', d', rfl⟩ := (List.eq_nil_or_concat' ds).resolve_left hds
    have hlast : (b, d') = (a, d) := by
      have hmap : (ds' ++ [d']).map (fun c => (b, c)) = ds'.map (fun c => (b, c)) ++ [(b, d')] :=
        List.map_append
      rw [hmap, ← List.append_assoc] at hend
      exact (List.cons.inj (List.append_inj_right' hend rfl)).1
    exact hab (Prod.mk.inj hlast).1.symm

/-- An image of 1912 bytes, with one of 956 bytes in its middle. -/
theorem packets_mixed :
    ¬Run.Throughout (sharedStep DasIO.keeping SerioLib.packed)
      (fun _ t => Intact SerioLib.packed t)
      (⟨.new (fun _ => false) (fun _ => ()) (fun _ => 0) (),[]⟩ : SharedExport .direct Bool)
      [.read false ((PeerSystem.zeroImage 1896).take 956), .read true (PeerSystem.zeroImage 940),
        .read false ((PeerSystem.zeroImage 1896).drop 956)] := by
  have ha := PeerSystem.xioPacket_zeroImage 1896 (by decide) (by decide)
  have hb := PeerSystem.xioPacket_zeroImage 940 (by decide) (by decide)
  have hla : (PeerSystem.zeroImage 1896).length = 1912 := PeerSystem.length_zeroImage 1896
  have hlb : (PeerSystem.zeroImage 940).length = 956 := PeerSystem.length_zeroImage 940
  generalize PeerSystem.zeroImage 1896 = pa at *
  generalize PeerSystem.zeroImage 940 = pb at *
  refine packets_mixed_of DasIO.keeping SerioLib.packed false true (by decide) pa pb _ _ ha hb
    (List.take_append_drop 956 pa) ?_ ?_ ?_ _ _ _ _
  · rw [List.length_take, hla]
    decide
  · rw [ne_eq, List.drop_eq_nil_iff]
    omega
  · rw [List.length_drop]
    omega

end SharedExport
end Cosmid.Xiomas
