import Cosmid.XiomasRoundTrip
import Mathlib.Algebra.Ring.Nat

/-! The space that `xiomas_tcp_rcvr` asks for when a packet begins, against the chunks that are
cut off later, read by read. -/
namespace Cosmid.Xiomas

open RcvrEvent XiomasTcpRcvr SysEvent XioSystem

variable {out : OutputSocket} {ι : Type}

/-- What the serio packets for `cs` take in the circular buffer. -/
def spaceUsed (cs : List (List UInt8)) : ℕ := (cs.map fun c => SerioLib.pktHdrSize+c.length).sum

theorem spaceUsed_eq (serio : SerioLib) (cs : List (List UInt8)) :
    spaceUsed cs = (frames serio cs).length := by
  induction cs with
  | nil => rfl
  | cons c cs ih =>
    rw [← List.singleton_append, frames_append, List.length_append, ← ih, frames_singleton,
      List.length_append, SerioLib.length_mkHdr]
    rfl

theorem exportOps_filter_aboutPacket (me : ι) (evs : List RcvrEvent) :
    exportOps out me (evs.filter aboutPacket) = exportOps out me evs := by
  induction evs with
  | nil => rfl
  | cons e evs ih =>
    rw [← List.singleton_append, List.filter_append, exportOps_append, exportOps_append, ih]
    cases e <;> rfl

/-- The packet of `size` bytes that began on connection `me` with room for `space` bytes. -/
structure Admitted [DecidableEq ι] (me : ι) (space size : ℕ) (es : List (SysEvent out ι))
    (s : XioSystem out ι) : Prop where
  inv : SysInv es s
  packet : ∃ mode body, body <:+ inputOf me es ∧ MidPacket (s.rcvr me) mode size body
  transmitting_eq :
    (s.rcvr me).transmittingCurrentPacket = decide (totalPktsSize size ≤ space)

/-- A read in which a packet begins. -/
theorem admitted_of_began [DecidableEq ι] {me : ι} {es : List (SysEvent out ι)}
    {s s' : XioSystem out ι} {bytes : List UInt8} {ops : List (ExportOp out ι)}
    (hcall : SysCall es s s' (.read me bytes) ops) (hinv : SysInv (es ++ [.read me bytes]) s')
    (hbefore : (s.rcvr me).state ≠ .xtrMidPkt) (hbegan : (s'.rcvr me).state = .xtrMidPkt) :
    ∃ size, Admitted me s.exp.circSpace size (es ++ [.read me bytes]) s' := by
  cases hcall with
  | read _ _ evs hread _ =>
    cases hread with
    | searched _ h => exact absurd hbegan h.state_ne
    | began mode size body _ hm hsuf htr =>
      exact ⟨size, hinv, ⟨mode, body, by rwa [inputOf_read], hm⟩, htr⟩
    | continued mode size body _ hm _ _ _ => exact absurd hm.state_eq hbefore
  | other _ hnone _ => exact absurd rfl (hnone me bytes)

/-- In mid-packet an event adds what it reads on the connection to the packet. -/
theorem midPacket_sysCall (io : DasIO) (serio : SerioLib) [DecidableEq ι] {me : ι}
    {es : List (SysEvent out ι)} {s s' : XioSystem out ι} {e : SysEvent out ι}
    {ops : List (ExportOp out ι)} {mode : LogMode} {size : ℕ} {body : List UInt8}
    (hm : MidPacket (s.rcvr me) mode size body) (hs : s.sysStep io serio e = some s')
    (hcall : SysCall es s s' e ops) : MidPacket (s'.rcvr me) mode size (body ++ bytesOf me e) ∧
      (s'.rcvr me).transmittingCurrentPacket = (s.rcvr me).transmittingCurrentPacket := by
  cases hcall with
  | read j bytes evs _ hframe =>
    by_cases hj : j = me
    · subst hj
      obtain ⟨r, hr, htr, -, heq⟩ :=
        protocolInput_midPacket io serio j (s.rcvr j) s.exp mode size body bytes hm
      rw [sysStep_read_rcvr io serio heq hs, bytesOf, if_pos rfl]
      exact ⟨hr, htr⟩
    · rw [hframe me (Ne.symm hj), bytesOf, if_neg hj, List.append_nil]
      exact ⟨hm, rfl⟩
  | other _ hnone hkept =>
    rw [bytesOf_eq_nil me e (hnone me), List.append_nil]
    exact ⟨(hkept me).midPacket hm, (hkept me).transmitting_eq⟩

theorem sysStep_admitted (io : DasIO) (serio : SerioLib) [DecidableEq ι] (me : ι)
    (space size : ℕ) (es : List (SysEvent out ι)) (s : XioSystem out ι) (e : SysEvent out ι)
    (h : Admitted me space size es s) :
    ∃ s', s.sysStep io serio e = some s' ∧ Admitted me space size (es ++ [e]) s' := by
  obtain ⟨s', ops, hs, -, hcall, hinv, -⟩ := sysStep_sysInv io serio es s h.inv e
  obtain ⟨mode, body, ⟨pre, hpre⟩, hm⟩ := h.packet
  obtain ⟨hm', htr⟩ := midPacket_sysCall io serio hm hs hcall
  refine ⟨s', hs, hinv, ⟨mode, body ++ bytesOf me e, ⟨pre, ?_⟩, hm'⟩, htr.trans h.transmitting_eq⟩
  rw [inputOf_append, ← hpre, List.append_assoc]

/-- With no other connection reading, the exporter is called for this one's packet only: the
operations since `x` have forwarded its chunks. -/
def OnlyForwards (serio : SerioLib) (x : XiomasTcpExport out ι) (me : ι) (s : XioSystem out ι) :
    Prop :=
  ∃ ops, Run.run (exportStep serio) x ops = some s.exp ∧
    forwarded ops = forwarded (exportOps out me (s.rcvr me).packetTrace)

theorem forwarded_sysCall [DecidableEq ι] {me : ι} {es : List (SysEvent out ι)}
    {s s' : XioSystem out ι} {e : SysEvent out ι} {ops : List (ExportOp out ι)}
    (hcall : SysCall es s s' e ops) (honly : e.OnlyReads me) :
    forwarded (exportOps out me (s'.rcvr me).packetTrace) =
      forwarded (exportOps out me (s.rcvr me).packetTrace) ++ forwarded ops := by
  cases hcall with
  | read j bytes evs hread _ =>
    obtain rfl := honly j bytes rfl
    rw [hread.packetTrace_eq, exportOps_append, forwarded_append]
  | other _ _ hkept =>
    have hown : forwarded e.ownOps = [] := by
      cases e <;> rfl
    rw [hown, List.append_nil, (hkept me).packetTrace_eq]

theorem sysStep_onlyForwards (io : DasIO) (serio : SerioLib) [DecidableEq ι] (me : ι)
    (x : XiomasTcpExport out ι) (es : List (SysEvent out ι)) (s : XioSystem out ι)
    (e : SysEvent out ι) (hinv : SysInv es s) (h : OnlyForwards serio x me s)
    (honly : e.OnlyReads me) :
    ∃ s', s.sysStep io serio e = some s' ∧ SysInv (es ++ [e]) s' ∧ OnlyForwards serio x me s' := by
  obtain ⟨s', ops, hs, hops, hcall, hinv', -⟩ := sysStep_sysInv io serio es s hinv e
  obtain ⟨before, hbefore, hforward⟩ := h
  refine ⟨s', hs, hinv', before ++ ops, ?_, ?_⟩
  · rw [Run.run_append, hbefore, Option.bind_some, hops]
  · rw [forwarded_append, hforward, forwarded_sysCall hcall honly]

/-- The chunks logged and forwarded of a packet of `size` bytes that began with room for
`space` bytes, `body` being what there is of it. -/
structure Reserved (space size : ℕ) (body : List UInt8) (logged forwarded : List (List UInt8)) :
    Prop where
  size_pos : 1 ≤ size
  size_le : size ≤ maxSpktLength+1000
  header_valid : xhgValidateHeader (body.take xioHarvardHeaderSize) size = true
  sizes_prefix : logged.map List.length <+: Chunks.sizes maxSpktDataPerSerioPkt size
  complete : size ≤ body.length →
    logged.map List.length = Chunks.sizes maxSpktDataPerSerioPkt size ∧
    logged.length = (size+maxSpktDataPerSerioPkt-1)/maxSpktDataPerSerioPkt ∧
    logged.flatten = body.take size ∧ spaceUsed logged = totalPktsSize size
  forwarded_eq : forwarded = if totalPktsSize size ≤ space then logged else []
  used_le : spaceUsed forwarded ≤ space

theorem Admitted.reserved [DecidableEq ι] {me : ι} {space size : ℕ} {es : List (SysEvent out ι)}
    {s : XioSystem out ι} (serio : SerioLib) (h : Admitted me space size es s) :
    ∃ body, body <:+ inputOf me es ∧ Reserved space size body (logged (s.rcvr me).trace)
      (forwarded (exportOps out me (s.rcvr me).packetTrace)) := by
  obtain ⟨mode, body, hsuf, hm⟩ := h.packet
  have hsplit := length_frames_cut serio size body
  rw [← spaceUsed_eq] at hsplit
  have hforward : forwarded (exportOps out me (s.rcvr me).packetTrace) =
      if totalPktsSize size ≤ space then logged (s.rcvr me).trace else [] := by
    rw [hm.forwarded_eq, h.transmitting_eq, logged_packetTrace]
    simp only [decide_eq_true_eq]
  refine ⟨body, hsuf, ?_, hm.size_le, hm.valid, ?_, ?_, hforward, ?_⟩
  · have := hm.first_pos
    omega
  · rw [hm.logged_eq]
    exact Chunks.length_cut_initial _ _ _
  · intro hlen
    have htaken := Chunks.taken_of_le_length maxSpktDataPerSerioPkt size body (by decide) hlen
    rw [hm.logged_eq]
    refine ⟨Chunks.map_length_cut _ _ _ (by decide) hlen,
      Chunks.length_cut _ _ _ (by decide) hlen, ?_, ?_⟩
    · rw [Chunks.flatten_cut, htaken]
    · rw [htaken, Nat.sub_self] at hsplit
      exact hsplit
  · rw [hforward]
    split
    · rw [hm.logged_eq]
      omega
    · exact Nat.zero_le _

/-- The reservation is exact. A packet that begins in a read has, whatever comes in later and
in whatever division, its chunks cut at sizes that depend on its length only, and with their
headers they use what was compared with `circ_space()`. Without another connection they are
all that the exporter is handed. -/
theorem reservation_exact (io : DasIO) (serio : SerioLib) [DecidableEq ι] (me : ι)
    (s0 s s1 s2 : XioSystem out ι) (h0 : s0.Started) (es more : List (SysEvent out ι))
    (bytes : List UInt8) (hs : Run.run (sysStep io serio) s0 es = some s)
    (hs1 : s.sysStep io serio (.read me bytes) = some s1)
    (hbefore : (s.rcvr me).state ≠ .xtrMidPkt) (hbegan : (s1.rcvr me).state = .xtrMidPkt)
    (hs2 : Run.run (sysStep io serio) s1 more = some s2) :
    ∃ size body, body <:+ inputOf me (es ++ .read me bytes :: more) ∧
      Reserved s.exp.circSpace size body (logged (s2.rcvr me).trace)
        (forwarded (exportOps out me (s2.rcvr me).trace)) ∧
      ((∀ e ∈ more, e.OnlyReads me) → ∃ ops, Run.run (exportStep serio) s.exp ops = some s2.exp ∧
        forwarded ops = forwarded (exportOps out me (s2.rcvr me).trace)) := by
  obtain ⟨s', hr, hinv⟩ := Run.run_history (sysStep io serio) (fun _ _ => True) SysInv
    (fun h t e ht _ => by
      obtain ⟨t', -, ht', -, -, hi, -⟩ := sysStep_sysInv io serio h t ht e
      exact ⟨t', ht', hi⟩) [] s0 es (sysInv_started s0 h0) (Run.along_true _ _ _)
  obtain rfl := Option.some.inj (hs.symm.trans hr)
  rw [List.nil_append] at hinv
  obtain ⟨s1', ops, hs1', hops, hcall, hinv1, -⟩ :=
    sysStep_sysInv io serio es s hinv (.read me bytes)
  obtain rfl := Option.some.inj (hs1.symm.trans hs1')
  obtain ⟨size, hadm⟩ := admitted_of_began hcall hinv1 hbefore hbegan
  obtain ⟨s2', hr2, hadm2⟩ := Run.run_history (sysStep io serio) (fun _ _ => True)
    (Admitted me s.exp.circSpace size) (fun h t e ht _ => sysStep_admitted io serio me _ _ h t e ht)
    _ s1 more hadm (Run.along_true _ _ _)
  obtain rfl := Option.some.inj (hs2.symm.trans hr2)
  rw [List.append_assoc, List.singleton_append] at hadm2
  obtain ⟨body, hsuf, hres⟩ := hadm2.reserved serio
  have htrace : exportOps out me (s2.rcvr me).trace =
      exportOps out me (s2.rcvr me).packetTrace := (exportOps_filter_aboutPacket me _).symm
  rw [htrace]
  refine ⟨size, body, hsuf, hres, ?_⟩
  intro honly
  -- Before the read nothing of the packet has been forwarded.
  have hnone : forwarded (exportOps out me (s.rcvr me).packetTrace) = [] := by
    rcases hinv.receiving me with hr | ⟨mode, size, body, -, hm⟩
    · rw [hr.packetTrace_eq]
      rfl
    · exact absurd hm.state_eq hbefore
  have hfirst : OnlyForwards serio s.exp me s1 := by
    refine ⟨ops, hops, ?_⟩
    rw [forwarded_sysCall hcall (fun j _ he => by cases he; rfl), hnone, List.nil_append]
  obtain ⟨s2', hr2', -, hlast⟩ := Run.run_history (sysStep io serio) (fun _ e => e.OnlyReads me)
    (fun h t => SysInv h t ∧ OnlyForwards serio s.exp me t)
    (fun h t e ht he => sysStep_onlyForwards io serio me s.exp h t e ht.1 ht.2 he)
    _ s1 more ⟨hinv1, hfirst⟩ (Run.along_of_mem _ _ _ fun e he _ => honly e he)
  obtain rfl := Option.some.inj (hs2.symm.trans hr2')
  exact hlast

/-- A packet of one chunk, read in two parts. -/
theorem reservation_exact_bare : ∃ s s1 s2 : XioSystem .direct Unit,
    Run.run (sysStep DasIO.keeping SerioLib.packed)
      (.new (fun _ => false) (fun _ => ()) (fun _ => 0) ()) [.read () (barePacket.take 5)] = some s ∧
    s.sysStep DasIO.keeping SerioLib.packed (.read () (barePacket.drop 5)) = some s1 ∧
    Run.run (sysStep DasIO.keeping SerioLib.packed) s1 [.ack 3] = some s2 ∧
    ∃ size body, body <:+ barePacket ∧ Reserved s.exp.circSpace size body
      (logged (s2.rcvr ()).trace) (forwarded (exportOps .direct () (s2.rcvr ()).trace)) := by
  set s0 : XioSystem .direct Unit := .new (fun _ => false) (fun _ => ()) (fun _ => 0) ()
  have h0 : s0.Started := started_new _ _ _ _
  obtain ⟨s, hs, ht⟩ := run_tracks DasIO.keeping SerioLib.packed () barePacket []
    xioPacket_barePacket s0 h0 [.read () (barePacket.take 5)]
  obtain ⟨t, ht1, htt⟩ := run_tracks DasIO.keeping SerioLib.packed () barePacket []
    xioPacket_barePacket s0 h0 ([.read () (barePacket.take 5)] ++ [.read () (barePacket.drop 5)])
  have hs1 : s.sysStep DasIO.keeping SerioLib.packed (.read () (barePacket.drop 5)) = some t :=
    (Run.run_concat _ hs _).symm.trans ht1
  have hbefore : (s.rcvr ()).state ≠ .xtrMidPkt := by
    rcases ht.follows (by decide) with ⟨haw, -⟩ | ⟨mode, hm⟩
    · exact haw.state_ne
    · exact absurd hm.header_le (by decide)
  have hbegan : (t.rcvr ()).state = .xtrMidPkt := by
    rcases htt.follows (by decide) with ⟨-, hshort⟩ | ⟨mode, hm⟩
    · exact absurd hshort (by decide)
    · exact hm.state_eq
  obtain ⟨s2, -, hs2, -⟩ :=
    sysStep_sysInv DasIO.keeping SerioLib.packed _ t htt.inv (.ack 3)
  have hrun : Run.run (sysStep DasIO.keeping SerioLib.packed) t [.ack 3] = some s2 :=
    (Run.run_cons_of_step _ hs2 []).trans rfl
  obtain ⟨size, body, hsuf, hres, -⟩ := reservation_exact DasIO.keeping SerioLib.packed () s0 s t s2
    h0 _ [.ack 3] _ hs hs1 hbefore hbegan hrun
  exact ⟨s, t, s2, hs, hs1, hrun, size, body, hsuf, hres⟩

end Cosmid.Xiomas
