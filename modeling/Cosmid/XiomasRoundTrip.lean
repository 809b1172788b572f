import Cosmid.XiomasRecovery

/-! Packetization: the serio packets that carry a packet's chunks to tm_ip_export.
A buffer that starts empty takes the whole of one packet without going around the
end of the array, so that every commit on the way is even. -/
namespace Cosmid.Xiomas

open RcvrEvent XiomasTcpRcvr SysEvent XioSystem

variable {out : OutputSocket} {ι : Type}

namespace XiomasTcpExport

/-- Nothing stored lies beyond the first `t` bytes of the array. -/
def Straight (x : XiomasTcpExport out ι) (t : ℕ) : Prop :=
  x.circLength = 0 ∨ (x.circLength ≤ x.circTail ∧ x.circTail ≤ t)

theorem Straight.mono {x : XiomasTcpExport out ι} {t u : ℕ} (h : Straight x t) (htu : t ≤ u) :
    Straight x u := by
  unfold Straight at *
  omega

/-- The free room begins at the tail and goes to the end of the array. -/
theorem straight_rewind (x : XiomasTcpExport out ι) (hv : x.CircValid) (t : ℕ)
    (h : Straight x t) : x.rewind.circTail ≤ t ∧ x.circLength ≤ x.rewind.circTail ∧
      x.rewind.circTail+x.rewind.tailSpace = x.circSize := by
  have htl := hv.tail_lt
  rcases rewind_cases x hv with ⟨hh, hl, hr⟩ | ⟨hh, hpos, hle, ht, hr⟩
  · rw [hr]
    simp [tailSpace, hl]
  · have hstraight : x.circLength ≤ x.circTail ∧ x.circTail ≤ t := by
      rcases h with h | h
      · omega
      · exact h
    rw [hr, tailSpace]
    rcases wrap_cases x.circSize x.circHead x.circLength hh hle with ⟨h1, h2⟩ | ⟨h1, h2⟩
    · rw [if_pos (by omega)]
      omega
    · omega

/-- A commit that stays inside the array is even and keeps the buffer straight. -/
theorem circCommit_straight (x : XiomasTcpExport out ι) (hv : x.CircValid) (t : ℕ)
    (h : Straight x t) (data : List UInt8) (hfit : t+data.length < x.circSize) :
    x.CommitsEvenly data ∧ data.length ≤ x.circSpace ∧
      ∀ y, x.circCommit data = some y → Straight y (t+data.length) := by
  obtain ⟨htail, hlen, hend⟩ := straight_rewind x hv t h
  have hsp := circSpace_eq x hv
  have hspace : data.length ≤ x.circSpace := by omega
  have heven : x.CommitsEvenly data := Or.inl (by omega)
  refine ⟨heven, hspace, ?_⟩
  intro y hy
  by_cases hd : data = []
  · subst hd
    rw [circCommit_nil] at hy
    obtain rfl := Option.some.inj hy
    exact h
  · obtain ⟨z, hz, hzf, hzc, -⟩ := circCommit_even x hv data hspace heven
    obtain rfl := Option.some.inj (hy.symm.trans hz)
    have hyl : y.circLength = x.circLength+data.length := by
      rw [← length_contents, hzc, List.length_append, length_contents]
    rw [circCommit_of_fits x data hd hspace] at hy
    rcases circCopy_eq x hv data hd (by omega) with ⟨-, hc⟩ | ⟨hlt, -⟩
    · obtain rfl := Option.some.inj (hy.symm.trans hc)
      have hmod : (x.rewind.circTail+data.length)%x.circSize = x.rewind.circTail+data.length :=
        Nat.mod_eq_of_lt (by omega)
      right
      rw [hyl]
      dsimp only
      omega
    · omega

theorem Drained.straight {x y : XiomasTcpExport out ι} {n t : ℕ} (hd : Drained x n y)
    (h : Straight x t) : Straight y t := by
  have hl := hd.length_eq
  have htail : y.circTail = x.circTail := by rw [hd.frame]
  unfold Straight at *
  omega

/-- Header and payload go behind what is there. -/
theorem forwardPacket_straight (serio : SerioLib) (x : XiomasTcpExport out ι) (hv : x.CircValid)
    (t : ℕ) (h : Straight x t) (bfr : List UInt8)
    (hfit : t+(SerioLib.pktHdrSize+bfr.length) < x.circSize) :
    x.ForwardsEvenly serio bfr ∧ SerioLib.pktHdrSize+bfr.length ≤ x.circSpace ∧
      ∀ y, x.forwardPacket serio bfr = some y →
        Straight y (t+(SerioLib.pktHdrSize+bfr.length)) := by
  have hhdr := SerioLib.length_mkHdr serio serio.pktTypeSID bfr
  obtain ⟨htail, hlen, -⟩ := straight_rewind x hv t h
  have hsp := circSpace_eq x hv
  obtain ⟨he, -, hstr⟩ := circCommit_straight x hv t h (serio.mkHdr serio.pktTypeSID bfr)
    (by rw [hhdr]; omega)
  have hsecond (w : XiomasTcpExport out ι)
      (hw : x.circCommit (serio.mkHdr serio.pktTypeSID bfr) = some w) :
      w.CommitsEvenly bfr ∧
        ∀ z, w.circCommit bfr = some z → Straight z (t+(SerioLib.pktHdrSize+bfr.length)) := by
    obtain ⟨w', hw', hwf, -⟩ := circCommit_frame x hv (serio.mkHdr serio.pktTypeSID bfr)
    obtain rfl := Option.some.inj (hw.symm.trans hw')
    have hws : w.circSize = x.circSize := by rw [hwf.frame]
    have hwstr := hstr w hw
    rw [hhdr] at hwstr
    obtain ⟨h1, -, h2⟩ := circCommit_straight w hwf.valid _ hwstr bfr (by omega)
    refine ⟨h1, ?_⟩
    intro z hz
    rw [← Nat.add_assoc]
    exact h2 z hz
  refine ⟨⟨he, fun w hw => (hsecond w hw).1⟩, by omega, ?_⟩
  intro y hy
  obtain ⟨w, z, n, hw, -, hz, -, -, hd⟩ := forwardPacket_parts serio hv hy
  exact hd.straight ((hsecond w hw).2 z hz)

end XiomasTcpExport

/-- The serio packets that carry the chunks. -/
def frames (serio : SerioLib) (cs : List (List UInt8)) : List UInt8 :=
  cs.flatMap fun c => serio.mkHdr serio.pktTypeSID c ++ c

theorem frames_append (serio : SerioLib) (cs ds : List (List UInt8)) :
    frames serio (cs ++ ds) = frames serio cs ++ frames serio ds := List.flatMap_append

theorem frames_singleton (serio : SerioLib) (c : List UInt8) :
    frames serio [c] = serio.mkHdr serio.pktTypeSID c ++ c := by simp [frames]

theorem length_frames (serio : SerioLib) (cs : List (List UInt8)) :
    (frames serio cs).length = cs.flatten.length+cs.length*SerioLib.pktHdrSize := by
  induction cs with
  | nil => rfl
  | cons c cs ih =>
    rw [← List.singleton_append, frames_append, List.length_append, ih, frames_singleton,
      List.length_append, SerioLib.length_mkHdr, List.flatten_append, List.length_append,
      List.length_append, Nat.add_mul]
    simp only [List.flatten_cons, List.flatten_nil, List.append_nil, List.length_cons,
      List.length_nil]
    omega

/-- The chunks among the operations. -/
def ExportOp.chunk : ExportOp out ι → List (List UInt8)
  | forward bfr => [bfr]
  | _ => []

def forwarded (ops : List (ExportOp out ι)) : List (List UInt8) := ops.flatMap ExportOp.chunk

theorem forwarded_append (ops ops' : List (ExportOp out ι)) :
    forwarded (ops ++ ops') = forwarded ops ++ forwarded ops' := List.flatMap_append

/-- The stream has grown by the packets for `cs` since it was `base`, and there
is still no way around the end of the array. -/
structure Filling (serio : SerioLib) (base : List UInt8) (cs : List (List UInt8))
    (x : XiomasTcpExport out ι) : Prop where
  valid : x.CircValid
  size_eq : x.circSize = circBufferSize
  stream_eq : x.stream = base ++ frames serio cs
  straight : x.Straight (frames serio cs).length

theorem exportStep_filling (serio : SerioLib) (base : List UInt8) (cs : List (List UInt8))
    (x : XiomasTcpExport out ι) (op : ExportOp out ι) (h : Filling serio base cs x)
    (hfit : (frames serio (cs ++ op.chunk)).length < circBufferSize) :
    ∃ y, exportStep serio x op = some y ∧ Filling serio base (cs ++ op.chunk) y := by
  have hv := h.valid
  cases op with
  | forward bfr =>
    simp only [ExportOp.chunk] at hfit ⊢
    have hlen : (frames serio (cs ++ [bfr])).length =
        (frames serio cs).length+(SerioLib.pktHdrSize+bfr.length) := by
      rw [frames_append, List.length_append, frames_singleton, List.length_append,
        SerioLib.length_mkHdr]
    obtain ⟨he, hroom, hstr⟩ := x.forwardPacket_straight serio hv _ h.straight bfr
      (by rw [h.size_eq, ← hlen]; exact hfit)
    obtain ⟨y, hy, hyv, hys, -, hyz, -⟩ := x.forwardPacket_even serio hv bfr hroom he
    refine ⟨y, hy, hyv, hyz.trans h.size_eq, ?_, ?_⟩
    · rw [hys, h.stream_eq, frames_append, frames_singleton, List.append_assoc]
    · rw [hlen]
      exact hstr y hy
  | requestAck client =>
    simp only [ExportOp.chunk, List.append_nil]
    exact ⟨_, rfl, ⟨hv.size_lt, hv.tail_lt, hv.head_cases, hv.outstanding_lt⟩, h.size_eq,
      h.stream_eq, h.straight⟩
  | ack length =>
    simp only [ExportOp.chunk, List.append_nil]
    obtain ⟨n, y, hy, hd⟩ := x.appInputAck_spec hv length
    refine ⟨y, hy, hd.valid, ?_, hd.stream_eq.trans h.stream_eq, hd.straight h.straight⟩
    rw [hd.frame]
    exact h.size_eq
  | socket sock =>
    simp only [ExportOp.chunk, List.append_nil]
    exact ⟨_, rfl, ⟨hv.size_lt, hv.tail_lt, hv.head_cases, hv.outstanding_lt⟩, h.size_eq,
      h.stream_eq, h.straight⟩

theorem exportRun_filling (serio : SerioLib) (base : List UInt8) (cs : List (List UInt8))
    (x : XiomasTcpExport out ι) (ops : List (ExportOp out ι)) (h : Filling serio base cs x)
    (hfit : (frames serio (cs ++ forwarded ops)).length < circBufferSize) :
    ∃ y, Run.run (exportStep serio) x ops = some y ∧ Filling serio base (cs ++ forwarded ops) y := by
  induction ops generalizing x cs with
  | nil => exact ⟨x, rfl, by simpa [forwarded] using h⟩
  | cons op ops ih =>
    have hsplit : cs ++ forwarded (op :: ops) = cs ++ op.chunk ++ forwarded ops := by
      simp [forwarded]
    rw [hsplit] at hfit ⊢
    have hfirst : (frames serio (cs ++ op.chunk)).length < circBufferSize := by
      rw [frames_append serio (cs ++ op.chunk), List.length_append] at hfit
      omega
    obtain ⟨y, hy, hf⟩ := exportStep_filling serio base cs x op h hfirst
    rw [Run.run_cons_of_step _ hy]
    exact ih (cs ++ op.chunk) y hf hfit

namespace RcvrEvent

def loggedSpan : RcvrEvent → List (List UInt8)
  | logPacket span _ => [span]
  | _ => []

/-- The spans passed to `log_packet`. -/
def logged (evs : List RcvrEvent) : List (List UInt8) := evs.flatMap loggedSpan

theorem logged_append (es fs : List RcvrEvent) : logged (es ++ fs) = logged es ++ logged fs :=
  List.flatMap_append

theorem logged_filter_aboutPacket (evs : List RcvrEvent) :
    logged (evs.filter aboutPacket) = logged evs := by
  induction evs with
  | nil => rfl
  | cons e evs ih =>
    rw [← List.singleton_append, List.filter_append, logged_append, logged_append, ih]
    cases e <;> rfl

theorem logged_packetEvents (transmitting : Bool) (mode : LogMode) (remaining : ℕ)
    (cs : List (List UInt8)) : logged (packetEvents transmitting mode remaining cs) = cs := by
  induction cs generalizing mode remaining with
  | nil => rfl
  | cons c cs ih =>
    have htail : logged (tailEvents transmitting remaining c) = [] := by
      unfold tailEvents
      cases transmitting <;> split_ifs <;> rfl
    rw [packetEvents, ← List.singleton_append, logged_append, logged_append, htail, ih]
    rfl

/-- A packet that is transmitted is forwarded in the chunks in which it is logged. -/
theorem forwarded_packetEvents (me : ι) (transmitting : Bool) (mode : LogMode) (remaining : ℕ)
    (cs : List (List UInt8)) :
    forwarded (exportOps out me (packetEvents transmitting mode remaining cs)) =
      if transmitting then cs else [] := by
  induction cs generalizing mode remaining with
  | nil => simp [packetEvents, exportOps, forwarded]
  | cons c cs ih =>
    have htail : forwarded (exportOps out me (tailEvents transmitting remaining c)) =
        if transmitting then [c] else [] := by
      unfold tailEvents
      cases transmitting <;> split_ifs <;> rfl
    have hlog : exportOps out me [logPacket c mode] = [] := rfl
    rw [packetEvents, ← List.singleton_append, exportOps_append, exportOps_append, hlog,
      List.nil_append, forwarded_append, htail, ih]
    cases transmitting <;> rfl

end RcvrEvent

namespace XiomasTcpRcvr

theorem logged_packetTrace (r : XiomasTcpRcvr out) : logged r.packetTrace = logged r.trace :=
  logged_filter_aboutPacket r.trace

theorem MidPacket.logged_eq {r : XiomasTcpRcvr out} {mode : LogMode} {size : ℕ}
    {body : List UInt8} (h : MidPacket r mode size body) :
    logged r.trace = Chunks.cut maxSpktDataPerSerioPkt size body := by
  rw [← logged_packetTrace, h.packetTrace_eq, logged_packetEvents]

theorem MidPacket.forwarded_eq {r : XiomasTcpRcvr out} {mode : LogMode} {size : ℕ}
    {body : List UInt8} (h : MidPacket r mode size body) (me : ι) :
    forwarded (exportOps out me r.packetTrace) =
      if r.transmittingCurrentPacket then logged r.packetTrace else [] := by
  rw [h.packetTrace_eq, forwarded_packetEvents, logged_packetEvents]

namespace PacketCall

variable {circSpace : ℕ} {input bytes : List UInt8} {r s : XiomasTcpRcvr out}
  {evs : List RcvrEvent}

theorem packetTrace_eq (h : PacketCall circSpace input bytes r s evs) :
    s.packetTrace = r.packetTrace ++ evs := by
  cases h with
  | searched hr hs => rw [hr.packetTrace_eq, hs.packetTrace_eq, List.append_nil]
  | began mode size body hr _ _ _ => rw [hr.packetTrace_eq, List.nil_append]
  | continued mode size body _ _ _ _ h => exact h

theorem logged_eq (h : PacketCall circSpace input bytes r s evs) :
    logged s.trace = logged r.trace ++ logged evs := by
  rw [← logged_packetTrace, h.packetTrace_eq, logged_append, logged_packetTrace]

theorem forwarded_eq (h : PacketCall circSpace input bytes r s evs) (me : ι) :
    forwarded (exportOps out me evs) =
      if s.transmittingCurrentPacket then logged evs else [] := by
  have happ := h.packetTrace_eq
  cases h with
  | searched hr hs => simp [exportOps, forwarded, logged]
  | began mode size body hr hs _ _ => exact hs.forwarded_eq me
  | continued mode size body _ hr hs ht _ =>
    have h1 := hs.forwarded_eq me
    rw [happ, exportOps_append, forwarded_append, hr.forwarded_eq me, logged_append, ht] at h1
    rw [ht]
    split_ifs at h1 ⊢ with htr
    · exact List.append_cancel_left h1
    · exact h1

end PacketCall

end XiomasTcpRcvr

/-- Even with its headers a packet of any accepted size fits the buffer. -/
theorem totalPktsSize_lt (size : ℕ) (h : size ≤ maxSpktLength+1000) :
    totalPktsSize size < circBufferSize := by
  unfold totalPktsSize serioPkts maxSpktDataPerSerioPkt SerioLib.pktHdrSize circBufferSize
  unfold maxSpktLength at h
  omega

/-- The reckoned size splits into the packets for the complete chunks and the
reckoned size of the rest. -/
theorem length_frames_cut (serio : SerioLib) (size : ℕ) (body : List UInt8) :
    (frames serio (Chunks.cut maxSpktDataPerSerioPkt size body)).length+
      totalPktsSize (size-Chunks.taken maxSpktDataPerSerioPkt size body) = totalPktsSize size := by
  have hbytes := (Chunks.taken_le maxSpktDataPerSerioPkt size body).1
  have hcount := congrArg (· * SerioLib.pktHdrSize)
    (Chunks.length_cut_add maxSpktDataPerSerioPkt size body)
  simp only [Nat.add_mul] at hcount
  rw [length_frames]
  unfold totalPktsSize serioPkts
  have htaken : (Chunks.cut maxSpktDataPerSerioPkt size body).flatten.length =
      Chunks.taken maxSpktDataPerSerioPkt size body := rfl
  omega

/-- The invariant of the first packet's way through the exporter: whatever has
been logged has been forwarded, into a buffer that is filled straight. -/
structure RoundTrip [DecidableEq ι] (serio : SerioLib) (me : ι) (base : List UInt8)
    (es : List (SysEvent out ι)) (s : XioSystem out ι) : Prop where
  receiving : Receiving (s.rcvr me) (inputOf me es)
  transmitting : (s.rcvr me).state = .xtrMidPkt → (s.rcvr me).transmittingCurrentPacket = true
  filling : Filling serio base (logged (s.rcvr me).trace) s.exp
  follows : ∀ p rest, XioPacket p → inputOf me es <+: p ++ rest →
    Follows p (s.rcvr me) (inputOf me es)

/-- What a receiver has logged is always small enough for the buffer. -/
theorem length_frames_logged_lt (serio : SerioLib) (r : XiomasTcpRcvr out) (input : List UInt8)
    (h : Receiving r input) : (frames serio (logged r.trace)).length < circBufferSize := by
  rcases h with hs | ⟨mode, size, body, -, hm⟩
  · rw [← logged_packetTrace, hs.packetTrace_eq]
    exact Nat.succ_pos _
  · rw [hm.logged_eq]
    have hsplit := length_frames_cut serio size body
    have hlt := totalPktsSize_lt size hm.size_le
    omega

/-- The admission check passes for the first packet, and holds for the whole of it. -/
theorem transmitting_of_call {serio : SerioLib} {base : List UInt8} {x : XiomasTcpExport out ι}
    {input bytes : List UInt8} {r s : XiomasTcpRcvr out} {evs : List RcvrEvent}
    (h : PacketCall x.circSpace input bytes r s evs)
    (hfill : Filling serio base (logged r.trace) x)
    (ht : r.state = .xtrMidPkt → r.transmittingCurrentPacket = true) :
    s.state = .xtrMidPkt → s.transmittingCurrentPacket = true := by
  intro hmid
  cases h with
  | searched _ hs => exact absurd hmid hs.state_ne
  | began mode size body hr hs _ htr =>
    have hnil : logged r.trace = [] := by
      rw [← logged_packetTrace, hr.packetTrace_eq]
      rfl
    have hstr := hfill.straight
    rw [hnil] at hstr
    have hempty : x.circLength = 0 := by
      have hzero : (frames serio []).length = 0 := rfl
      unfold XiomasTcpExport.Straight at hstr
      omega
    have hlt := totalPktsSize_lt size hs.size_le
    rw [htr, decide_eq_true_eq, XiomasTcpExport.circSpace_eq x hfill.valid, hfill.size_eq, hempty]
    omega
  | continued mode size body _ hr hs htr _ =>
    rw [htr]
    exact ht hr.state_eq

theorem sysStep_roundTrip (io : DasIO) (serio : SerioLib) [DecidableEq ι] (me : ι)
    (base : List UInt8) (es : List (SysEvent out ι)) (s : XioSystem out ι) (e : SysEvent out ι)
    (h : RoundTrip serio me base es s) (honly : e.OnlyReads me) :
    ∃ s', sysStep io serio s e = some s' ∧ RoundTrip serio me base (es ++ [e]) s' := by
  obtain ⟨s', ops, hs, hops, hcall⟩ := sysStep_spec io serio es s h.filling.valid e (by
    intro i bytes he
    rw [honly i bytes he]
    exact h.receiving)
  have hrecv := hcall.receiving me h.receiving
  refine ⟨s', hs, hrecv, ?_, ?_, ?_⟩
  · cases hcall with
    | read i bytes evs hread _ =>
      obtain rfl := honly i bytes rfl
      exact transmitting_of_call hread h.filling h.transmitting
    | other _ _ hkept =>
      rw [(hkept me).state_eq, (hkept me).transmitting_eq]
      exact h.transmitting
  · -- The operations forward exactly what the event has added to the log.
    have hforward : logged (s'.rcvr me).trace = logged (s.rcvr me).trace ++ forwarded ops := by
      cases hcall with
      | read i bytes evs hread _ =>
        obtain rfl := honly i bytes rfl
        have htr := transmitting_of_call hread h.filling h.transmitting
        rw [hread.logged_eq, hread.forwarded_eq]
        cases hread with
        | searched _ _ => simp [logged]
        | began mode size body _ hm _ _ => rw [htr hm.state_eq, if_pos rfl]
        | continued mode size body _ _ hm _ _ => rw [htr hm.state_eq, if_pos rfl]
      | other _ hnone hkept =>
        have hown : forwarded e.ownOps = [] := by
          cases e <;> rfl
        rw [hown, List.append_nil, ← logged_packetTrace, (hkept me).packetTrace_eq,
          logged_packetTrace]
    obtain ⟨y, hy, hfill⟩ := exportRun_filling serio base _ s.exp ops h.filling (by
      rw [← hforward]
      exact length_frames_logged_lt serio _ _ hrecv)
    obtain rfl := Option.some.inj (hops.symm.trans hy)
    rw [hforward]
    exact hfill
  · intro p rest hp hpre
    exact sysStep_follows io serio me p rest hp es s s' e ops hs hcall hpre (h.follows p rest hp)

/-- A packet has been taken to its end. -/
def PacketDone (r : XiomasTcpRcvr out) : Prop :=
  r.state = .xtrMidPkt ∧ r.bytesRemainingInPacket = 0

/-- `bytes` is a sequence of well-formed serio packets whose payloads make up `p`. -/
def Encodes (serio : SerioLib) (bytes p : List UInt8) : Prop :=
  ∃ pkts : List (List UInt8 × List UInt8),
    bytes = pkts.flatMap (fun pkt => pkt.1 ++ pkt.2) ∧
    (∀ pkt ∈ pkts, serio.WellFormed serio.pktTypeSID pkt.1 pkt.2) ∧
    (pkts.map Prod.snd).flatten = p

/-- The packet `p` came in contiguously, was logged, and is now encoded behind
`base`, partly written to the socket and partly still in the circular buffer. -/
structure Delivered (serio : SerioLib) (base input : List UInt8) (r : XiomasTcpRcvr out)
    (x : XiomasTcpExport out ι) (p : List UInt8) : Prop where
  received : ∃ pre post, input = pre ++ (p ++ post) ∧
    xhgValidateHeader ((p ++ post).take xioHarvardHeaderSize) p.length = true
  size_le : p.length ≤ maxSpktLength+1000
  logged_eq : (logged r.trace).flatten = p
  encoded : ∃ bytes, x.iwrites.flatten ++ x.contents = base ++ bytes ∧ Encodes serio bytes p

theorem encodes_frames (serio : SerioLib) (cs : List (List UInt8))
    (h : ∀ c ∈ cs, c.length < 65536) : Encodes serio (frames serio cs) cs.flatten := by
  refine ⟨cs.map fun c => (serio.mkHdr serio.pktTypeSID c, c), ?_, ?_, ?_⟩
  · rw [frames, List.flatMap_map]
  · intro pkt hpkt
    obtain ⟨c, hc, rfl⟩ := List.mem_map.mp hpkt
    exact serio.wellFormed_mkHdr _ c (h c hc)
  · rw [List.map_map]
    congr 1
    exact List.map_id cs

theorem delivered_of_done {serio : SerioLib} {base input : List UInt8} {r : XiomasTcpRcvr out}
    {x : XiomasTcpExport out ι} {mode : LogMode} {size : ℕ} {body : List UInt8}
    (hm : MidPacket r mode size body) (hsuf : body <:+ input) (hdone : r.bytesRemainingInPacket = 0)
    (hfill : Filling serio base (logged r.trace) x) :
    Delivered serio base input r x (body.take size) := by
  have htaken : Chunks.taken maxSpktDataPerSerioPkt size body = size := by
    have hrem := hm.remaining_eq
    have hle := Chunks.taken_le maxSpktDataPerSerioPkt size body
    omega
  have hlen : (body.take size).length = size := by
    have hle := Chunks.taken_le maxSpktDataPerSerioPkt size body
    rw [List.length_take]
    omega
  have hlog : (logged r.trace).flatten = body.take size := by
    rw [hm.logged_eq, Chunks.flatten_cut, htaken]
  refine ⟨?_, ?_, hlog, frames serio (logged r.trace), hfill.stream_eq, ?_⟩
  · obtain ⟨pre, hpre⟩ := hsuf
    refine ⟨pre, body.drop size, ?_, ?_⟩
    · rw [List.take_append_drop, hpre]
    · rw [List.take_append_drop, hlen]
      exact hm.valid
  · rw [hlen]
    exact hm.size_le
  · rw [← hlog]
    apply encodes_frames
    intro c hc
    rw [hm.logged_eq] at hc
    have hmax := (Chunks.length_of_mem_cut _ _ _ _ hc).2
    unfold maxSpktDataPerSerioPkt at hmax
    omega

theorem roundTrip_new [DecidableEq ι] (serio : SerioLib) (me : ι) (s : XioSystem out ι)
    (hfresh : ∃ transmitting sock, s.rcvr me = .new transmitting sock) (hvalid : s.exp.CircValid)
    (hsize : s.exp.circSize = circBufferSize) (hempty : s.exp.circLength = 0) :
    RoundTrip serio me s.exp.iwrites.flatten [] s := by
  obtain ⟨transmitting, sock, hnew⟩ := hfresh
  have hnil : s.exp.contents = [] := by
    rw [← List.length_eq_zero_iff, XiomasTcpExport.length_contents, hempty]
  have htrace : logged (s.rcvr me).trace = [] := by
    rw [hnew]
    rfl
  refine ⟨?_, ?_, ⟨hvalid, hsize, ?_, Or.inl hempty⟩, ?_⟩
  · rw [hnew]
    exact Or.inl (searching_new transmitting sock)
  · rw [hnew]
    intro hmid
    cases hmid
  · rw [XiomasTcpExport.stream, hnil, htrace]
    rfl
  · intro p rest hp _
    rw [hnew]
    exact follows_new hp transmitting sock

/-- The first packet that a new connection's receiver accepts is passed on as a
well-formed sequence of serio packets, however it is divided into reads and
whatever ACKs come in between. -/
theorem packetization_roundtrip (io : DasIO) (serio : SerioLib) [DecidableEq ι] (me : ι)
    (s0 : XioSystem out ι) (hfresh : ∃ transmitting sock, s0.rcvr me = .new transmitting sock)
    (hvalid : s0.exp.CircValid) (hsize : s0.exp.circSize = circBufferSize)
    (hempty : s0.exp.circLength = 0) (es : List (SysEvent out ι))
    (honly : ∀ e ∈ es, e.OnlyReads me) :
    ∃ s, Run.run (sysStep io serio) s0 es = some s ∧
      (PacketDone (s.rcvr me) → ∃ p,
        Delivered serio s0.exp.iwrites.flatten (inputOf me es) (s.rcvr me) s.exp p) ∧
      (∀ p rest, XioPacket p → inputOf me es = p ++ rest → PacketDone (s.rcvr me) ∧
        Delivered serio s0.exp.iwrites.flatten (inputOf me es) (s.rcvr me) s.exp p) := by
  have hstart := roundTrip_new serio me s0 hfresh hvalid hsize hempty
  have hall : Run.Along (sysStep io serio) (fun _ e => e.OnlyReads me) s0 es :=
    Run.along_of_mem _ s0 es (fun e he _ => honly e he)
  obtain ⟨s, hr, hinv⟩ := Run.run_history (sysStep io serio) (fun _ e => e.OnlyReads me)
    (RoundTrip serio me s0.exp.iwrites.flatten)
    (fun h t e ht he => sysStep_roundTrip io serio me _ h t e ht he) [] s0 es hstart hall
  rw [List.nil_append] at hinv
  refine ⟨s, hr, ?_, ?_⟩
  · rintro ⟨hmid, hdone⟩
    rcases hinv.receiving with hs | ⟨mode, size, body, hsuf, hm⟩
    · exact absurd hmid hs.state_ne
    · exact ⟨_, delivered_of_done hm hsuf hdone hinv.filling⟩
  · intro p rest hp hin
    have hfol := hinv.follows p rest hp ⟨[], by rw [hin, List.append_nil]⟩
    rw [hin] at hfol ⊢
    rcases hfol with ⟨-, hshort⟩ | ⟨mode, hm⟩
    · rw [List.length_append] at hshort
      omega
    · have hdone : (s.rcvr me).bytesRemainingInPacket = 0 := by
        rw [hm.remaining_eq, Chunks.taken_of_le_length _ _ _ (by decide)
          (by rw [List.length_append]; omega), Nat.sub_self]
      have hdel := delivered_of_done hm List.suffix_rfl hdone hinv.filling
      rw [List.take_left] at hdel
      exact ⟨⟨hm.state_eq, hdone⟩, hdel⟩

theorem packetization_roundtrip_bare : ∃ s : XioSystem .direct Unit,
    Run.run (sysStep DasIO.keeping SerioLib.packed)
      (.new (fun _ => false) (fun _ => ()) (fun _ => 0) ())
      [.read () (barePacket.take 5), .ack 3, .read () (barePacket.drop 5)] = some s ∧
    Delivered SerioLib.packed [] barePacket (s.rcvr ()) s.exp barePacket := by
  obtain ⟨s, hr, -, hall⟩ := packetization_roundtrip DasIO.keeping SerioLib.packed ()
    (.new (fun _ => false) (fun _ => ()) (fun _ => 0) () : XioSystem .direct Unit) ⟨_, _, rfl⟩
    (XiomasTcpExport.circValid_new _ _) rfl rfl
    [.read () (barePacket.take 5), .ack 3, .read () (barePacket.drop 5)]
    (fun _ _ _ _ _ => rfl)
  exact ⟨s, hr, (hall barePacket [] xioPacket_barePacket (by decide)).2⟩

end Cosmid.Xiomas
