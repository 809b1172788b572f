import Cosmid.NephexDecimation
import Cosmid.NephexFraming

/-! The size of what the nephelometer's receiver forwards, against the output buffer and the
credit window of `nephex_tcp_export`. The length field of a frame is compared with the table
only to report it. -/
namespace Cosmid.Nephex

namespace APid

/-- The table behind the size check of a packet. -/
def checked (t : APid) (APID len : ℕ) : APid :=
  let (apidLen, t) := t.getSize APID
  if apidLen+6 ≠ len then (t.notReported APID).2 else t

theorem okToTransmit_fst (t : APid) (a : ℕ) : (t.okToTransmit a).1 = decide (a ≤ maxApid ∧
    (t.defs a).size ≠ 0 ∧ (t.defs a).decimationRate ≠ 0 ∧
    u16 ((t.defs a).nToSkip+65535) = 0) := by
  unfold okToTransmit
  by_cases ha : a > maxApid
  · rw [if_pos ha]
    exact (decide_eq_false fun h => Nat.not_le.mpr ha h.1).symm
  · rw [if_neg ha]
    dsimp only
    by_cases hnone : (t.defs a).size = 0 ∨ (t.defs a).decimationRate = 0
    · rw [if_pos hnone]
      exact (decide_eq_false fun h => hnone.elim h.2.1 h.2.2.1).symm
    · obtain ⟨h1, h2⟩ := not_or.mp hnone
      rw [if_neg hnone]
      by_cases hzero : u16 ((t.defs a).nToSkip+65535) = 0
      · rw [if_pos hzero]
        exact (decide_eq_true ⟨Nat.not_lt.mp ha, h1, h2, hzero⟩).symm
      · rw [if_neg hzero]
        exact (decide_eq_false fun h => hzero h.2.2.2).symm

theorem getSize_defs (t : APid) (a : ℕ) : (t.getSize a).2.defs = t.defs := by
  unfold getSize
  split <;> rfl

/-- Reporting a wrong length has no influence on the decimation. -/
theorem okToTransmit_checked (t : APid) (a len : ℕ) :
    ((t.checked a len).okToTransmit a).1 = (t.okToTransmit a).1 := by
  have hdefs := t.getSize_defs a
  have hsame : ((t.checked a len).defs a).size = (t.defs a).size ∧
      ((t.checked a len).defs a).decimationRate = (t.defs a).decimationRate ∧
      ((t.checked a len).defs a).nToSkip = (t.defs a).nToSkip := by
    unfold checked notReported
    dsimp only
    split_ifs
    · simp [use, hdefs]
    · simp [use, hdefs]
    · simp [hdefs]
  rw [okToTransmit_fst, okToTransmit_fst, hsame.1, hsame.2.1, hsame.2.2]

end APid

/-- The argument of `set_obufsize` in the constructor of `nephex_tcp_export`. -/
def obufSize : ℕ := 5*1024

def NephexEvent.forwardedLen? : NephexEvent → Option ℕ
  | forwardPacket span => some span.len
  | _ => none

namespace NephexSystem

variable {out : OutputSocket}

/-- The lengths that `forward_packet` has been called with. -/
def forwardedLens (s : NephexSystem out) : List ℕ :=
  s.rcvr.trace.filterMap NephexEvent.forwardedLen?

theorem forwardedLens_emit (s : NephexSystem out) (e : NephexEvent) :
    (s.emit e).forwardedLens = s.forwardedLens ++ e.forwardedLen?.toList := by
  cases h : e.forwardedLen? <;> simp [forwardedLens, emit, h]

/-- The receiver with the frame `f` alone in its buffer. -/
def frameStep (serio : SerioLib) (s : NephexSystem out) (f : List UInt8) :
    Option (NephexSystem out) :=
  takeFrame serio (s.setIbuf ⟨f,8⟩) (word f 2%1024) (word f 6)

/-- The two states agree on the table, the exporter, and what has been offered and
forwarded. -/
structure Alike (s t : NephexSystem out) : Prop where
  apids_eq : t.apids = s.apids
  exp_eq : t.exp = s.exp
  lens_eq : t.forwardedLens = s.forwardedLens
  offered_eq : t.offered = s.offered

/-- The frame is due: the exporter is clear to send, and the packet is not decimated. -/
def Due (s : NephexSystem out) (f : List UInt8) : Prop :=
  s.exp.cts = true ∧ (s.apids.okToTransmit (word f 2%1024)).1 = true

instance (s : NephexSystem out) (f : List UInt8) : Decidable (s.Due f) :=
  inferInstanceAs (Decidable (_ ∧ _))

theorem checkSize_apids (s : NephexSystem out) (APID len : ℕ) :
    (s.checkSize APID len).apids = s.apids.checked APID len := by
  unfold checkSize APid.checked
  dsimp only
  split_ifs <;> rfl

theorem checkSize_lens (s : NephexSystem out) (APID len : ℕ) :
    (s.checkSize APID len).forwardedLens = s.forwardedLens ∧
      (s.checkSize APID len).offered = s.offered := by
  unfold checkSize
  dsimp only
  split_ifs
  · rw [forwardedLens_emit, offered_emit]
    exact ⟨List.append_nil _, List.append_nil _⟩
  · exact ⟨rfl, rfl⟩
  · exact ⟨rfl, rfl⟩

/-- The exporter behind `forward_packet`. -/
def expAfter (serio : SerioLib) (s : NephexSystem out) (f : List UInt8) : NephexTcpExport out :=
  if s.Due f then {s.exp with
    sock := out.iwrite (serio.mkHdr serio.pktTypeNPH f ++ f) s.exp.sock
    iwrites := s.exp.iwrites ++ [serio.mkHdr serio.pktTypeNPH f ++ f]
    outstandingBytes := u32 (s.exp.outstandingBytes+(SerioLib.pktHdrSize+f.length))}
  else s.exp

/-- The table behind the size check and the question whether to transmit. -/
def tableAfter (s : NephexSystem out) (f : List UInt8) : APid :=
  let apids := s.apids.checked (word f 2%1024) (word f 6)
  if s.exp.cts then (apids.okToTransmit (word f 2%1024)).2 else apids

/-- What a frame does: it is offered if the exporter is clear to send, and forwarded if it
is due. -/
structure FrameTaken (serio : SerioLib) (f : List UInt8) (s s' : NephexSystem out) : Prop where
  apids_eq : s'.apids = s.tableAfter f
  exp_eq : s'.exp = s.expAfter serio f
  lens_eq : s'.forwardedLens = s.forwardedLens ++ if s.Due f then [f.length] else []
  offered_eq : s'.offered = s.offered ++ if s.exp.cts then [f] else []

/-- The question by itself, without an answer. -/
theorem asked_lens (s : NephexSystem out) (APID : ℕ) (span : Span) :
    (s.asked APID span).forwardedLens = s.forwardedLens ∧
      (s.asked APID span).offered = s.offered ++ [span.bytes] :=
  ⟨(forwardedLens_emit _ _).trans (List.append_nil _),offered_emit _ _⟩

theorem takeFrame_due (serio : SerioLib) (s : NephexSystem out) (f : List UInt8) (hf : IsFrame f)
    (hbytes : (Span.ofBuffer s.rcvr.ibuf (s.rcvr.ibuf.cp-8) (word f 6+9)).bytes = f) :
    ∃ s', s.takeFrame serio (word f 2%1024) (word f 6) = some s' ∧ FrameTaken serio f s s' := by
  obtain ⟨-, -, hexp, -⟩ := s.checkSize_spec (word f 2%1024) (word f 6)
  have hapids := s.checkSize_apids (word f 2%1024) (word f 6)
  obtain ⟨hlens, hoff⟩ := s.checkSize_lens (word f 2%1024) (word f 6)
  have hok := s.apids.okToTransmit_checked (word f 2%1024) (word f 6)
  have hlen : (Span.ofBuffer s.rcvr.ibuf (s.rcvr.ibuf.cp-8) (word f 6+9)).len = f.length :=
    hf.length_eq.symm
  unfold takeFrame
  dsimp only
  generalize Span.ofBuffer s.rcvr.ibuf (s.rcvr.ibuf.cp-8) (word f 6+9) = span at *
  generalize s.checkSize (word f 2%1024) (word f 6) = c at *
  -- The receiver after the size check and the log, with the frame in the trace.
  have hcexp : (c.emit (.logPacket span)).exp = s.exp := hexp
  have hcapids : (c.emit (.logPacket span)).apids = s.apids.checked (word f 2%1024) (word f 6) :=
    hapids
  have hclens : (c.emit (.logPacket span)).forwardedLens = s.forwardedLens := by
    rw [forwardedLens_emit, hlens]
    exact List.append_nil _
  have hcoff : (c.emit (.logPacket span)).offered = s.offered := by
    rw [offered_emit, hoff]
    exact List.append_nil _
  rw [← hcapids] at hok
  generalize c.emit (.logPacket span) = d at *
  obtain ⟨halens, haoff⟩ := d.asked_lens (word f 2%1024) span
  rw [hclens] at halens
  rw [hcoff, hbytes] at haoff
  by_cases hcts : s.exp.cts = true
  · have hdcts : d.exp.cts = true := by rw [hcexp, hcts]
    have htable : (d.asked (word f 2%1024) span).apids = s.tableAfter f := by
      rw [tableAfter, if_pos hcts, ← hcapids]
      rfl
    by_cases hdue : (s.apids.okToTransmit (word f 2%1024)).1 = true
    · have hD : s.Due f := ⟨hcts, hdue⟩
      obtain ⟨exp, hexp', ht⟩ := d.forward_sent serio (word f 2%1024) span hdcts (hok.trans hdue)
      rw [hcexp, hbytes, NephexTcpExport.forwardPacket, if_pos hcts] at hexp'
      obtain rfl := Option.some.inj hexp'
      rw [ht]
      refine ⟨_, rfl, htable, ?_, ?_, ?_⟩
      · rw [expAfter, if_pos hD]
        rfl
      · rw [if_pos hD, ← hlen, ← halens]
        exact forwardedLens_emit _ _
      · rw [if_pos hcts, ← haoff]
        exact (offered_emit _ _).trans (List.append_nil _)
    · have hD : ¬s.Due f := fun h => hdue h.2
      rw [d.forward_skipped serio (word f 2%1024) span hdcts fun h => hdue (hok.symm.trans h)]
      refine ⟨_, rfl, htable, ?_, ?_, ?_⟩
      · rw [expAfter, if_neg hD]
        exact hcexp
      · rw [if_neg hD, List.append_nil]
        exact halens
      · rw [if_pos hcts]
        exact haoff
  · have hD : ¬s.Due f := fun h => hcts h.1
    rw [d.forward_held serio (word f 2%1024) span (by rw [hcexp]; exact hcts)]
    refine ⟨_, rfl, ?_, ?_, ?_, ?_⟩
    · rw [tableAfter, if_neg hcts]
      exact hcapids
    · rw [expAfter, if_neg hD]
      exact hcexp
    · rw [if_neg hD, List.append_nil]
      exact hclens
    · rw [if_neg hcts, List.append_nil]
      exact hcoff

theorem due_congr {s t : NephexSystem out} (h : Alike s t) (f : List UInt8) :
    t.Due f ↔ s.Due f := by
  rw [Due, Due, h.apids_eq, h.exp_eq]

/-- A complete frame that fits the buffer. -/
structure Buffered (f : List UInt8) : Prop where
  isFrame : IsFrame f
  length_lt : f.length < rcvrBufsize

theorem frameStep_due (serio : SerioLib) (s : NephexSystem out) (f : List UInt8)
    (hf : Buffered f) : ∃ s', s.frameStep serio f = some s' ∧ FrameTaken serio f s s' := by
  obtain ⟨-, hbytes⟩ := ofBuffer_frame ⟨f,8⟩ 0 f [] hf.isFrame (by simp) rfl hf.length_lt
  obtain ⟨s', hs', h⟩ := takeFrame_due serio (s.setIbuf ⟨f,8⟩) f hf.isFrame hbytes
  exact ⟨s', hs', h.apids_eq, h.exp_eq, h.lens_eq, h.offered_eq⟩

/-- Where the frame stands does not matter. -/
theorem takeFrame_alike (serio : SerioLib) (s : NephexSystem out) (q : ℕ) (f rest : List UInt8)
    (hf : IsFrame f) (hdrop : s.rcvr.ibuf.buf.drop q = f ++ rest) (hcp : s.rcvr.ibuf.cp = q+8)
    (hfit : s.rcvr.ibuf.nc < rcvrBufsize) :
    ∃ s' t, s.takeFrame serio (word f 2%1024) (word f 6) = some s' ∧
      s.frameStep serio f = some t ∧ Alike t s' ∧ Buffered f := by
  obtain ⟨hend, hbytes⟩ := ofBuffer_frame s.rcvr.ibuf q f rest hf hdrop hcp hfit
  have hlen := hf.length_eq
  have hbuf : Buffered f := ⟨hf, by omega⟩
  obtain ⟨s', hs', h⟩ := takeFrame_due serio s f hf hbytes
  obtain ⟨t, ht, g⟩ := frameStep_due serio s f hbuf
  exact ⟨s', t, hs', ht, ⟨h.apids_eq.trans g.apids_eq.symm, h.exp_eq.trans g.exp_eq.symm,
    h.lens_eq.trans g.lens_eq.symm, h.offered_eq.trans g.offered_eq.symm⟩, hbuf⟩

theorem frameStep_congr (serio : SerioLib) {s t s' : NephexSystem out} (h : Alike s t)
    {f : List UInt8} (hf : Buffered f) (hs : s.frameStep serio f = some s') :
    ∃ t', t.frameStep serio f = some t' ∧ Alike s' t' := by
  obtain ⟨u, hu, hs1⟩ := frameStep_due serio s f hf
  obtain rfl := Option.some.inj (hs.symm.trans hu)
  obtain ⟨t', ht', ht1⟩ := frameStep_due serio t f hf
  refine ⟨t', ht', ?_, ?_, ?_, ?_⟩
  · rw [ht1.apids_eq, hs1.apids_eq, tableAfter, tableAfter, h.apids_eq, h.exp_eq]
  · rw [ht1.exp_eq, hs1.exp_eq, expAfter, expAfter, h.exp_eq]
    simp only [due_congr h]
  · rw [ht1.lens_eq, hs1.lens_eq, h.lens_eq]
    simp only [due_congr h]
  · rw [ht1.offered_eq, hs1.offered_eq, h.offered_eq, h.exp_eq]

theorem run_congr (serio : SerioLib) {s t s' : NephexSystem out} (h : Alike s t)
    (fs : List (List UInt8)) (hfs : ∀ f ∈ fs, Buffered f)
    (hs : Run.run (frameStep serio) s fs = some s') :
    ∃ t', Run.run (frameStep serio) t fs = some t' ∧ Alike s' t' := by
  induction fs generalizing s t with
  | nil =>
    obtain rfl := Option.some.inj hs
    exact ⟨t, rfl, h⟩
  | cons f fs ih =>
    rw [List.forall_mem_cons] at hfs
    obtain ⟨s1, hs1, hs⟩ := (Run.run_cons_eq_some_iff _).mp hs
    obtain ⟨t1, ht1, h1⟩ := frameStep_congr serio h hfs.1 hs1
    rw [Run.run_cons_of_step _ ht1]
    exact ih h1 hfs.2 hs

/-- The call has passed the frames `fs` on to the table and the exporter. -/
def Passed (serio : SerioLib) (fs : List (List UInt8)) (s s' : NephexSystem out) : Prop :=
  (∀ f ∈ fs, Buffered f) ∧ ∃ t, Run.run (frameStep serio) s fs = some t ∧ Alike t s'

theorem Passed.trans {serio : SerioLib} (fs gs : List (List UInt8)) (s t u : NephexSystem out)
    (h : Passed serio fs s t) (g : Passed serio gs t u) : Passed serio (fs ++ gs) s u := by
  obtain ⟨hfs, s1, hs1, h1⟩ := h
  obtain ⟨hgs, t1, ht1, h2⟩ := g
  have hback : Alike t s1 :=
    ⟨h1.apids_eq.symm, h1.exp_eq.symm, h1.lens_eq.symm, h1.offered_eq.symm⟩
  obtain ⟨u1, hu1, h3⟩ := run_congr serio hback gs hgs ht1
  refine ⟨List.forall_mem_append.mpr ⟨hfs, hgs⟩, u1, ?_, ?_⟩
  · rw [Run.run_append, hs1, Option.bind_some, hu1]
  · exact ⟨h2.apids_eq.trans h3.apids_eq.symm, h2.exp_eq.trans h3.exp_eq.symm,
      h2.lens_eq.trans h3.lens_eq.symm, h2.offered_eq.trans h3.offered_eq.symm⟩

/-- One call of `protocol_input`, as far as the table and the exporter go. -/
theorem protocolInputLoop_passed (io : DasIO) (serio : SerioLib) (s : NephexSystem out)
    (hfit : s.rcvr.ibuf.nc < rcvrBufsize) :
    ∃ s', s.protocolInputLoop io serio = some s' ∧
      s'.rcvr.ibuf = ⟨leftover s.rcvr.ibuf.unread,0⟩ ∧
      Passed serio (frames s.rcvr.ibuf.unread) s s' := by
  refine protocolInputLoop_rule io serio ?_ Passed.trans ?_ s hfit
  · intro s b
    exact ⟨by simp, s, rfl, rfl, rfl, rfl, rfl⟩
  · intro s q f rest hf hdrop hcp hfit
    obtain ⟨s', t, hs', ht, halike, hbuf⟩ := takeFrame_alike serio s q f rest hf hdrop hcp hfit
    exact ⟨s', hs', by simpa using hbuf, t, by rw [Run.run_cons_of_step _ ht]; rfl, halike⟩

/-- A frame that is due fits the output buffer with its header. -/
def FitsWhenDue (s : NephexSystem out) (f : List UInt8) : Prop :=
  s.Due f → SerioLib.pktHdrSize+f.length ≤ obufSize

/-- What has been forwarded so far has fitted. -/
def LensFit (s : NephexSystem out) : Prop :=
  ∀ n ∈ s.forwardedLens, SerioLib.pktHdrSize+n ≤ obufSize

theorem LensFit.congr {s t : NephexSystem out} (h : Alike s t) : t.LensFit ↔ s.LensFit := by
  rw [LensFit, LensFit, h.lens_eq]

/-- The frame after which something too long has been forwarded is one that does not fit. -/
theorem lensFit_frameStep (serio : SerioLib) {s s' : NephexSystem out} {f : List UInt8}
    (hf : Buffered f) (hs : s.frameStep serio f = some s') :
    s'.LensFit ↔ s.LensFit ∧ s.FitsWhenDue f := by
  obtain ⟨u, hu, htaken⟩ := frameStep_due serio s f hf
  obtain rfl := Option.some.inj (hs.symm.trans hu)
  rw [LensFit, htaken.lens_eq, List.forall_mem_append, LensFit, FitsWhenDue]
  refine and_congr_right fun _ => ?_
  by_cases hdue : s.Due f
  · rw [if_pos hdue, List.forall_mem_singleton]
    exact ⟨fun h _ => h, fun h => h hdue⟩
  · rw [if_neg hdue]
    exact iff_of_true (by simp) fun h => absurd h hdue

theorem lensFit_run (serio : SerioLib) (fs : List (List UInt8)) (hfs : ∀ f ∈ fs, Buffered f)
    {s s' : NephexSystem out} (hs : Run.run (frameStep serio) s fs = some s') :
    s'.LensFit ↔ s.LensFit ∧ Run.Along (frameStep serio) FitsWhenDue s fs := by
  induction fs generalizing s with
  | nil =>
    obtain rfl := Option.some.inj hs
    exact (and_iff_left trivial).symm
  | cons f fs ih =>
    rw [List.forall_mem_cons] at hfs
    obtain ⟨s1, hs1, hs⟩ := (Run.run_cons_eq_some_iff _).mp hs
    rw [ih hfs.2 hs, lensFit_frameStep serio hfs.1 hs1, Run.along_cons_of_step _ hs1, and_assoc]

/-- The exporter's count is in its window and has been kept: `acked` bytes of what has been
written are credited, the rest is outstanding. -/
structure Windowed (x : NephexTcpExport out) (acked : ℕ) : Prop where
  outstanding_le : x.outstandingBytes ≤ 1999+obufSize
  accounted : x.outstandingBytes+acked = x.iwrites.flatten.length

/-- A packet is only forwarded with less than 2000 bytes outstanding. -/
theorem windowed_frameStep (serio : SerioLib) {s : NephexSystem out} {f : List UInt8} {acked : ℕ}
    (hf : Buffered f) (h : Windowed s.exp acked) (hfit : s.FitsWhenDue f) :
    ∃ s', s.frameStep serio f = some s' ∧ Windowed s'.exp acked := by
  obtain ⟨s', hs', htaken⟩ := frameStep_due serio s f hf
  refine ⟨s', hs', ?_⟩
  rw [htaken.exp_eq, expAfter]
  by_cases hdue : s.Due f
  · have hroom := hfit hdue
    have hacc := h.accounted
    have hcredit : s.exp.outstandingBytes < 2000 := by
      have hcts := hdue.1
      simp only [NephexTcpExport.cts, Bool.and_eq_true, decide_eq_true_eq] at hcts
      exact hcts.1
    have hobuf : obufSize = 5120 := rfl
    have hkeep : u32 (s.exp.outstandingBytes+(SerioLib.pktHdrSize+f.length)) =
        s.exp.outstandingBytes+(SerioLib.pktHdrSize+f.length) := by
      rw [u32]
      omega
    rw [if_pos hdue]
    refine ⟨?_, ?_⟩
    · dsimp only
      omega
    · simp only [hkeep, List.flatten_append, List.flatten_cons, List.flatten_nil, List.append_nil,
        List.length_append, SerioLib.length_mkHdr]
      omega
  · rw [if_neg hdue]
    exact h

theorem windowed_run (serio : SerioLib) (fs : List (List UInt8)) (hfs : ∀ f ∈ fs, Buffered f)
    {s s' : NephexSystem out} {acked : ℕ} (h : Windowed s.exp acked)
    (hfit : Run.Along (frameStep serio) FitsWhenDue s fs)
    (hs : Run.run (frameStep serio) s fs = some s') : Windowed s'.exp acked := by
  induction fs generalizing s with
  | nil =>
    obtain rfl := Option.some.inj hs
    exact h
  | cons f fs ih =>
    rw [List.forall_mem_cons] at hfs
    obtain ⟨s1, hs1, h1⟩ := windowed_frameStep serio hfs.1 h hfit.1
    rw [Run.run_cons_of_step _ hs1] at hs
    exact ih hfs.2 h1 (hfit.2 s1 hs1) hs

end NephexSystem

/-- The bytes that an ACK takes off the count. -/
def credited {out : OutputSocket} (x : NephexTcpExport out) : NephexInput out → ℕ
  | .ack length => min length x.outstandingBytes
  | _ => 0

/-- The system with the number of bytes that have been acknowledged. -/
structure Ledger (out : OutputSocket) where
  sys : NephexSystem out
  acked : ℕ

namespace Ledger

variable {out : OutputSocket}

open NephexSystem

def step (io : DasIO) (serio : SerioLib) (t : Ledger out) (e : NephexInput out) :
    Option (Ledger out) :=
  (t.sys.step io serio e).map fun s => ⟨s,t.acked+credited t.sys.exp e⟩

/-- Every frame that a read completes fits when it is due, one after the other. -/
def FramesFit (serio : SerioLib) (t : Ledger out) (e : NephexInput out) : Prop :=
  ∀ bytes, e = .read bytes → Run.Along (frameStep serio) FitsWhenDue t.sys
    (frames (t.sys.rcvr.ibuf.unread ++ bytes))

/-- Everything forwarded has fitted the output buffer, and the count is in its window. -/
def FitsExporter (t : Ledger out) : Prop := t.sys.LensFit ∧ Windowed t.sys.exp t.acked

/-- Between two calls nothing in the buffer is parsed. -/
def Unparsed (t : Ledger out) : Prop := t.sys.rcvr.ibuf.cp = 0

theorem step_eq_some {io : DasIO} {serio : SerioLib} {t : Ledger out} {e : NephexInput out}
    {s : NephexSystem out} (h : t.sys.step io serio e = some s) :
    t.step io serio e = some ⟨s,t.acked+credited t.sys.exp e⟩ := by
  rw [step, h, Option.map_some]

/-- What the receiver's buffer holds makes no difference to the frames. -/
theorem along_setIbuf (serio : SerioLib) (s : NephexSystem out) (b : InputBuffer)
    (fs : List (List UInt8)) : Run.Along (frameStep serio) FitsWhenDue (s.setIbuf b) fs ↔
      Run.Along (frameStep serio) FitsWhenDue s fs := by
  cases fs <;> exact Iff.rfl

theorem step_read (io : DasIO) (serio : SerioLib) (t : Ledger out) (bytes : List UInt8)
    (h : t.Unparsed) (hfit : t.sys.Fits (.read bytes)) :
    ∃ t', t.step io serio (.read bytes) = some t' ∧ t'.Unparsed ∧
      (t.FitsExporter → t.FramesFit serio (.read bytes) → t'.FitsExporter) ∧
      (t'.FitsExporter → t.FramesFit serio (.read bytes)) := by
  have hib : io.read t.sys.rcvr.ibuf bytes = ⟨t.sys.rcvr.ibuf.buf ++ bytes,0⟩ := by
    rw [ DasIO.read, show t.sys.rcvr.ibuf.cp = 0 from h, io.resume_zero]
  have hunread : t.sys.rcvr.ibuf.unread = t.sys.rcvr.ibuf.buf := by
    rw [InputBuffer.unread, show t.sys.rcvr.ibuf.cp = 0 from h, List.drop_zero]
  have hnc : (t.sys.setIbuf ⟨t.sys.rcvr.ibuf.buf ++ bytes,0⟩).rcvr.ibuf.nc < rcvrBufsize := by
    rw [setIbuf, InputBuffer.nc_mk, List.length_append]
    exact hfit
  obtain ⟨s', hs', hib', hfs, s1, hs1, halike⟩ := protocolInputLoop_passed io serio _ hnc
  have hstep : t.sys.step io serio (.read bytes) = some s' := by
    rw [NephexSystem.step, protocolInput, hib, hs']
  have hframes : t.FramesFit serio (.read bytes) ↔ Run.Along (frameStep serio) FitsWhenDue
      (t.sys.setIbuf ⟨t.sys.rcvr.ibuf.buf ++ bytes,0⟩)
      (frames (t.sys.setIbuf ⟨t.sys.rcvr.ibuf.buf ++ bytes,0⟩).rcvr.ibuf.unread) := by
    rw [along_setIbuf, FramesFit, hunread, setIbuf, InputBuffer.unread_mk_zero]
    constructor
    · exact fun hg => hg bytes rfl
    · rintro hg _ ⟨⟩
      exact hg
  have hlens := lensFit_run serio _ hfs hs1
  refine ⟨_, step_eq_some hstep, by rw [Unparsed, hib'], ?_, ?_⟩
  · rintro ⟨hlen, hwin⟩ hgood
    rw [hframes] at hgood
    refine ⟨(LensFit.congr halike).mpr (hlens.mpr ⟨hlen, hgood⟩), ?_⟩
    have hbefore : Windowed (t.sys.setIbuf ⟨t.sys.rcvr.ibuf.buf ++ bytes,0⟩).exp t.acked := hwin
    have hw := windowed_run serio _ hfs hbefore hgood hs1
    rw [← halike.exp_eq] at hw
    exact hw
  · rintro ⟨hlen, -⟩
    exact hframes.mpr (hlens.mp ((LensFit.congr halike).mp hlen)).2

/-- An ACK takes off no more than is outstanding. -/
theorem step_ack (io : DasIO) (serio : SerioLib) (t : Ledger out) (length : ℕ)
    (h : t.FitsExporter) : ∃ t', t.step io serio (.ack length) = some t' ∧
      t'.sys.rcvr = t.sys.rcvr ∧ t'.FitsExporter := by
  obtain ⟨hlen, hle, hacc⟩ := h
  refine ⟨_, step_eq_some rfl, rfl, hlen, ?_, ?_⟩
  · dsimp only [NephexTcpExport.appInputAck]
    split <;> omega
  · dsimp only [NephexTcpExport.appInputAck, credited]
    split <;> omega

end Ledger

open Ledger NephexSystem

/-- What is forwarded fits the exporter, in every state of a run, if and only if every frame
that is complete while it is due has a length field of at most 5105. -/
theorem forwarded_fits_iff {out : OutputSocket} (io : DasIO) (serio : SerioLib) (apids : APid)
    (sock : out.State) (es : List (NephexInput out))
    (hfit : Run.Along (Ledger.step io serio) (fun t e => t.sys.Fits e)
      ⟨⟨.new,apids,.new sock⟩,0⟩ es) :
    Run.Throughout (Ledger.step io serio) (fun _ t => FitsExporter t)
        ⟨⟨.new,apids,.new sock⟩,0⟩ es ↔
      Run.Along (Ledger.step io serio) (FramesFit serio) ⟨⟨.new,apids,.new sock⟩,0⟩ es := by
  refine Run.throughout_iff_along (Ledger.step io serio) (fun t e => t.sys.Fits e) (FramesFit serio)
    (fun _ t => FitsExporter t ∧ t.Unparsed) (fun _ t => FitsExporter t) (fun _ _ h => h.1) ?_ ?_
    _ es ?_ hfit
  · intro _ t e ht hfits hgood
    cases e with
    | read bytes =>
      obtain ⟨t', ht', hcp, hkeep, -⟩ := t.step_read io serio bytes ht.2 hfits
      exact ⟨t', ht', hkeep ht.1 hgood, hcp⟩
    | ack length =>
      obtain ⟨t', ht', hr, hwin⟩ := t.step_ack io serio length ht.1
      exact ⟨t', ht', hwin, by rw [Unparsed, hr]; exact ht.2⟩
    | exportSocket sock =>
      exact ⟨_, step_eq_some rfl, ⟨ht.1.1, ht.1.2.outstanding_le, ht.1.2.accounted⟩, ht.2⟩
  · intro _ t e t' ht hfits hbad hstep hgood
    apply hbad
    intro bytes he
    subst he
    obtain ⟨t'', ht'', -, -, hback⟩ := t.step_read io serio bytes ht.2 hfits
    obtain rfl := Option.some.inj (hstep.symm.trans ht'')
    exact hback hgood bytes rfl
  · exact ⟨⟨by simp [LensFit, forwardedLens, NephexTcpRcvr.new], Nat.zero_le _, rfl⟩, rfl⟩

/-- One packet of APID 1 without data, and an ACK. -/
theorem forwarded_fits_short : ∃ apids, APid.new (fun _ => ⟨0,0,0,0⟩) = some apids ∧
    Run.Throughout (Ledger.step DasIO.keeping SerioLib.packed) (fun _ t => FitsExporter t)
      (⟨⟨.new,apids,.new ()⟩,0⟩ : Ledger .direct)
      [.ack 3, .read [0xaa, 0xaa, 1, 0, 0, 0, 0, 0, 0x55]] := by
  obtain ⟨apids, hnew, -⟩ := APid.new_isSome fun _ => ⟨0,0,0,0⟩
  refine ⟨apids, hnew, (@forwarded_fits_iff .direct DasIO.keeping SerioLib.packed apids () _ ?_).mpr ?_⟩
  · refine ⟨trivial, fun t ht => ⟨?_, fun _ _ => trivial⟩⟩
    obtain rfl := Option.some.inj ht
    exact (by decide : 0+9 < rcvrBufsize)
  · refine ⟨fun _ he => (by cases he), fun t ht => ⟨?_, fun _ _ => trivial⟩⟩
    obtain rfl := Option.some.inj ht
    rintro _ ⟨⟩
    have hframes : frames [0xaa, 0xaa, 1, 0, 0, 0, 0, 0, 0x55] =
        [[0xaa, 0xaa, 1, 0, 0, 0, 0, 0, 0x55]] := frames_single _ ⟨rfl, rfl, rfl⟩
    change Run.Along _ _ _ (frames [0xaa, 0xaa, 1, 0, 0, 0, 0, 0, 0x55])
    rw [hframes]
    exact ⟨fun _ => by decide, fun _ _ => trivial⟩

/-- A packet of APID 143 with 5107 bytes of data: together with the header it takes one byte
more than the output buffer has. -/
def longPacket : List UInt8 := [0xaa, 0xaa, 0x8f, 0, 0, 0, 0xf2, 0x13] ++ List.replicate 5107 0

theorem length_longPacket : longPacket.length = 5115 := by
  rw [longPacket, List.length_append, List.length_replicate]
  rfl

theorem isFrame_longPacket : IsFrame longPacket := ⟨rfl, rfl, length_longPacket.trans rfl⟩

theorem long_packet_forwarded : ∃ apids, APid.new (fun _ => ⟨0,0,0,0⟩) = some apids ∧
    Run.Along (Ledger.step DasIO.keeping SerioLib.packed) (fun t e => t.sys.Fits e)
      (⟨⟨.new,apids,.new ()⟩,0⟩ : Ledger .direct) [.read longPacket] ∧
    ¬Run.Throughout (Ledger.step DasIO.keeping SerioLib.packed) (fun _ t => FitsExporter t)
      (⟨⟨.new,apids,.new ()⟩,0⟩ : Ledger .direct) [.read longPacket] := by
  obtain ⟨apids, hnew, -⟩ := APid.new_isSome fun _ => ⟨0,0,0,0⟩
  set t : Ledger .direct := ⟨⟨.new,apids,.new ()⟩,0⟩ with ht
  have hfit : t.sys.Fits (.read longPacket) := by
    rw [Fits, length_longPacket]
    exact (by decide : 0+5115 < rcvrBufsize)
  refine ⟨apids, hnew, ⟨hfit, fun _ _ => trivial⟩, fun hall => ?_⟩
  obtain ⟨t', hr, hgood⟩ := hall [.read longPacket] List.prefix_rfl
  obtain ⟨t'', ht'', -, -, hback⟩ := t.step_read DasIO.keeping SerioLib.packed longPacket rfl hfit
  rw [Run.run_cons_of_step _ ht''] at hr
  obtain rfl := Option.some.inj hr
  -- The packet is due: nothing is outstanding, and its first call for transmission succeeds.
  have hdue : t.sys.Due longPacket := by
    have hdefs := APid.new_defs_of_mem hnew (by decide : (143, 4, 1) ∈ APid.entries)
    have hok := (APid.okToTransmit_decimating apids 143 4 1 0 (by decide) (by decide) (by decide)
      (by decide) (by rw [hdefs]; exact ⟨rfl, rfl, rfl⟩)).1
    exact ⟨rfl, hok.mpr (Nat.one_dvd 0)⟩
  have halong := hback hgood longPacket rfl
  have hframes : frames (t.sys.rcvr.ibuf.unread ++ longPacket) = [longPacket] :=
    frames_single _ isFrame_longPacket
  rw [hframes] at halong
  have hle := halong.1 hdue
  rw [length_longPacket] at hle
  exact absurd hle (by decide)

end Cosmid.Nephex
