import Cosmid.XiomasFifo

/-! `process_queue`, `forward_packet` and the ACK case of `app_input`: what each
of them does to the stream toward tm_ip_export and to the credit window. -/
namespace Cosmid.Xiomas.XiomasTcpExport

variable {out : OutputSocket} {ι : Type}

/-- What has been handed to the socket followed by what waits behind it. -/
def stream (x : XiomasTcpExport out ι) : List UInt8 := x.iwrites.flatten ++ x.contents

/-- What `process_queue` did: `n` bytes went out, and it stopped with the queue
empty or without credit. -/
structure Drained (x : XiomasTcpExport out ι) (n : ℕ) (y : XiomasTcpExport out ι) : Prop where
  valid : y.CircValid
  le : n ≤ x.circLength
  contents_eq : y.contents = x.contents.drop n
  outstanding_eq : y.outstandingBytes = x.outstandingBytes+n
  spans : ∃ spans, y.iwrites = x.iwrites ++ spans ∧ spans.flatten = x.contents.take n ∧
    y.sock = spans.foldl (fun s span => out.iwrite span s) x.sock
  stopped : y.circLength = 0 ∨ y.cts = false
  window : n = 0 ∨ y.outstandingBytes < 2962
  client_eq : y.client = if y.circLength = 0 then none else x.client
  frame : y = {x with
    circHead := y.circHead, outstandingBytes := y.outstandingBytes, iwrites := y.iwrites
    sock := y.sock, client := y.client, acks := y.acks}

theorem Drained.stream_eq {x y : XiomasTcpExport out ι} {n : ℕ} (h : Drained x n y) :
    y.stream = x.stream := by
  obtain ⟨spans, h1, h2, -⟩ := h.spans
  rw [stream, stream, h1, List.flatten_append, h2, h.contents_eq, List.append_assoc,
    List.take_append_drop]

theorem Drained.length_eq {x y : XiomasTcpExport out ι} {n : ℕ} (h : Drained x n y) :
    y.circLength+n = x.circLength := by
  have hl := congrArg List.length h.contents_eq
  have hle := h.le
  simp only [length_contents, List.length_drop] at hl
  omega

/-- One turn of the loop. A batch is sent with less than 2000 bytes outstanding, so the
count does not wrap. -/
theorem processQueue_batch (x : XiomasTcpExport out ι) (hv : x.CircValid) (hcts : x.cts = true)
    (hpos : 0 < x.circLength) :
    ∃ y, x.circTransmit (batchBytes x.circLength) = some y ∧
      Transmitted x (batchBytes x.circLength) y ∧
      y.outstandingBytes = x.outstandingBytes+batchBytes x.circLength ∧
      x.processQueue = y.processQueue := by
  obtain ⟨hble, hb962⟩ := batchBytes_le x.circLength
  have hcredit := outstandingBytes_of_cts x hcts
  obtain ⟨y, hy, ht⟩ := circTransmit_spec x hv (batchBytes x.circLength) hble
  refine ⟨y, hy, ht, ?_, ?_⟩
  · rw [ht.outstanding_eq, u32]
    omega
  · rw [processQueue, dif_pos ⟨hcts, hpos⟩]
    split
    · rename_i h; rw [hy] at h; cases h
    · rename_i y' h
      obtain rfl := Option.some.inj (hy.symm.trans h)
      rfl

theorem ackClient_eq (x : XiomasTcpExport out ι) :
    x.ackClient = {x with client := none, acks := x.ackClient.acks} := by
  unfold ackClient
  split
  · rfl
  · rename_i hnone
    rw [← hnone]

/-- Where the loop stops, only the waiting receiver changes. -/
theorem processQueue_stop (x y : XiomasTcpExport out ι) (hsend : ¬(x.cts ∧ x.circLength > 0))
    (hy : x.processQueue = some y) : y = {x with client := y.client, acks := y.acks} := by
  rw [processQueue, dif_neg hsend] at hy
  obtain rfl := Option.some.inj hy
  split
  · rw [ackClient_eq]
  · rfl

/-- The rule of induction for the loop: along its batches. -/
@[elab_as_elim]
theorem processQueue_induction {P : XiomasTcpExport out ι → Prop}
    (hstop : ∀ x, x.CircValid → ¬(x.cts ∧ x.circLength > 0) → P x)
    (hbatch : ∀ x y, x.CircValid → x.cts = true → 0 < x.circLength →
      x.circTransmit (batchBytes x.circLength) = some y →
      Transmitted x (batchBytes x.circLength) y →
      y.outstandingBytes = x.outstandingBytes+batchBytes x.circLength →
      x.processQueue = y.processQueue → P y → P x)
    (x : XiomasTcpExport out ι) (hv : x.CircValid) : P x := by
  induction hm : 2000-x.outstandingBytes using Nat.strongRecOn generalizing x with
  | _ m ih =>
    by_cases hsend : x.cts ∧ x.circLength > 0
    · obtain ⟨y, hy, ht, hout, hq⟩ := processQueue_batch x hv hsend.1 hsend.2
      have hcredit := outstandingBytes_of_cts x hsend.1
      have hbpos := batchBytes_pos x.circLength hsend.2
      exact hbatch x y hv hsend.1 hsend.2 hy ht hout hq
        (ih (2000-y.outstandingBytes) (by omega) y ht.valid rfl)
    · exact hstop x hv hsend

/-- The loop ends without a failed assertion. -/
theorem processQueue_spec (x : XiomasTcpExport out ι) (hv : x.CircValid) :
    ∃ n y, x.processQueue = some y ∧ Drained x n y := by
  refine processQueue_induction ?_ ?_ x hv
  · intro x hv hsend
    -- A client is acknowledged only if the queue is empty.
    have hstop : x.circLength = 0 ∨ x.cts = false := by
      by_cases hl : x.circLength = 0
      · exact Or.inl hl
      · right
        by_contra hc
        exact hsend ⟨by simpa using hc, by omega⟩
    rw [processQueue, dif_neg hsend]
    by_cases hl : x.circLength = 0
    · rw [if_pos hl]
      refine ⟨0, x.ackClient, rfl, ?_⟩
      rw [ackClient_eq]
      exact ⟨⟨hv.size_lt, hv.tail_lt, hv.head_cases, hv.outstanding_lt⟩, Nat.zero_le _, rfl, rfl,
        ⟨[], by simp⟩, Or.inl hl, Or.inl rfl, (if_pos hl).symm, rfl⟩
    · rw [if_neg hl]
      exact ⟨0, x, rfl, hv, Nat.zero_le _, rfl, rfl, ⟨[], by simp⟩, hstop, Or.inl rfl,
        (if_neg hl).symm, rfl⟩
  · intro x y hv hcts hpos _ ht hout hq ih
    obtain ⟨n, z, hz, hd⟩ := ih
    obtain ⟨hble, hb962⟩ := batchBytes_le x.circLength
    have hcredit := outstandingBytes_of_cts x hcts
    have hyl := ht.length_eq
    refine ⟨batchBytes x.circLength+n, z, hq.trans hz, hd.valid, ?_, ?_, ?_, ?_, hd.stopped, ?_,
      ?_, ?_⟩
    · have := hd.le
      omega
    · rw [hd.contents_eq, ht.contents_eq, List.drop_drop]
    · rw [hd.outstanding_eq, hout, Nat.add_assoc]
    · obtain ⟨s1, h1, h2, h3⟩ := ht.spans
      obtain ⟨s2, h4, h5, h6⟩ := hd.spans
      refine ⟨s1 ++ s2, ?_, ?_, ?_⟩
      · rw [h4, h1, List.append_assoc]
      · rw [List.flatten_append, h2, h5, ht.contents_eq, ← List.take_add]
      · rw [h6, h3, List.foldl_append]
    · have hw := hd.window
      have ho := hd.outstanding_eq
      omega
    · rw [hd.client_eq]
      have hyc : y.client = x.client := by rw [ht.frame]
      rw [hyc]
    · have hf := hd.frame
      rw [ht.frame] at hf
      exact hf

/-- `forward_packet` is two commits and a drain, and never fails an assertion. -/
theorem forwardPacket_spec (serio : SerioLib) (x : XiomasTcpExport out ι) (hv : x.CircValid)
    (bfr : List UInt8) : ∃ z n y, x.forwardPacket serio bfr = some y ∧ CommitFrame x z ∧
      0 < z.circLength ∧ Drained z n y := by
  have hne : serio.mkHdr serio.pktTypeSID bfr ≠ [] := by simp [SerioLib.mkHdr]
  obtain ⟨w, hw, hwf, hwpos⟩ := circCommit_frame x hv (serio.mkHdr serio.pktTypeSID bfr)
  obtain ⟨z, hz, hzf, hzpos⟩ := circCommit_frame w hwf.valid bfr
  obtain ⟨n, y, hy, hd⟩ := processQueue_spec z hzf.valid
  refine ⟨z, n, y, ?_, ⟨hzf.valid, ?_⟩, ?_, hd⟩
  · simp only [forwardPacket, hw, Option.bind_some, hz, hy]
  · have hf := hzf.frame
    rw [hwf.frame] at hf
    exact hf
  · by_cases hb : bfr = []
    · subst hb
      rw [circCommit_nil] at hz
      obtain rfl := Option.some.inj hz
      exact hwpos hne
    · exact hzpos hb

/-- The parts of a `forward_packet` that returned. -/
theorem forwardPacket_parts (serio : SerioLib) {x y : XiomasTcpExport out ι} (hv : x.CircValid)
    {bfr : List UInt8} (hy : x.forwardPacket serio bfr = some y) :
    ∃ w z n, x.circCommit (serio.mkHdr serio.pktTypeSID bfr) = some w ∧ CommitFrame x w ∧
      w.circCommit bfr = some z ∧ CommitFrame w z ∧ z.processQueue = some y ∧ Drained z n y := by
  simp only [forwardPacket, Option.bind_eq_some_iff] at hy
  obtain ⟨w, hw, z, hz, hq⟩ := hy
  obtain ⟨w', hw', hwf, -⟩ := circCommit_frame x hv (serio.mkHdr serio.pktTypeSID bfr)
  obtain rfl := Option.some.inj (hw.symm.trans hw')
  obtain ⟨z', hz', hzf, -⟩ := circCommit_frame w hwf.valid bfr
  obtain rfl := Option.some.inj (hz.symm.trans hz')
  obtain ⟨n, y', hy', hd⟩ := processQueue_spec z hzf.valid
  obtain rfl := Option.some.inj (hq.symm.trans hy')
  exact ⟨w, z, n, hw, hwf, hz, hzf, hq, hd⟩

/-- Both commits of a `forward_packet` are even. -/
def ForwardsEvenly (serio : SerioLib) (x : XiomasTcpExport out ι) (bfr : List UInt8) : Prop :=
  x.CommitsEvenly (serio.mkHdr serio.pktTypeSID bfr) ∧
    ∀ y, x.circCommit (serio.mkHdr serio.pktTypeSID bfr) = some y → y.CommitsEvenly bfr

/-- With room for the header and the payload, and both committed evenly, the
stream grows by exactly one serio packet. -/
theorem forwardPacket_even (serio : SerioLib) (x : XiomasTcpExport out ι) (hv : x.CircValid)
    (bfr : List UInt8) (hfit : SerioLib.pktHdrSize+bfr.length ≤ x.circSpace)
    (he : x.ForwardsEvenly serio bfr) :
    ∃ y, x.forwardPacket serio bfr = some y ∧ y.CircValid ∧
      y.stream = x.stream ++ (serio.mkHdr serio.pktTypeSID bfr ++ bfr) ∧
      y.overflows = x.overflows ∧ y.circSize = x.circSize ∧
      y.circLength ≤ x.circLength+(SerioLib.pktHdrSize+bfr.length) := by
  have hxs := circSpace_eq x hv
  have hxl := circLength_le x hv
  obtain ⟨w, hw, hwf, hwc, hwo⟩ := circCommit_even x hv (serio.mkHdr serio.pktTypeSID bfr)
    (by rw [SerioLib.length_mkHdr]; omega) he.1
  have hwl : w.circLength = x.circLength+SerioLib.pktHdrSize := by
    rw [← length_contents, hwc, List.length_append, length_contents, SerioLib.length_mkHdr]
  have hws : w.circSize = x.circSize := by rw [hwf.frame]
  obtain ⟨z, hz, hzf, hzc, hzo⟩ := circCommit_even w hwf.valid bfr
    (by rw [circSpace_eq w hwf.valid]; omega) (he.2 w hw)
  have hzl : z.circLength = w.circLength+bfr.length := by
    rw [← length_contents, hzc, List.length_append, length_contents]
  have hzs : z.circSize = w.circSize := by rw [hzf.frame]
  have hwi : w.iwrites = x.iwrites := by rw [hwf.frame]
  have hzi : z.iwrites = w.iwrites := by rw [hzf.frame]
  obtain ⟨n, y, hy, hd⟩ := processQueue_spec z hzf.valid
  have hyl := hd.length_eq
  refine ⟨y, ?_, hd.valid, ?_, ?_, ?_, by omega⟩
  · simp only [forwardPacket, hw, Option.bind_some, hz, hy]
  · rw [hd.stream_eq, stream, stream, hzi, hwi, hzc, hwc]
    simp only [List.append_assoc]
  · rw [hd.frame]
    exact hzo.trans hwo
  · rw [hd.frame]
    exact hzs.trans hws

/-- Credit for more than is outstanding counts as credit for all of it. -/
theorem CircValid.credit {x : XiomasTcpExport out ι} (hv : x.CircValid) (length : ℕ) :
    CircValid {x with outstandingBytes :=
      if length > x.outstandingBytes then 0 else x.outstandingBytes-length} := by
  refine ⟨hv.size_lt, hv.tail_lt, hv.head_cases, ?_⟩
  have := hv.outstanding_lt
  dsimp only
  split <;> omega

theorem appInputAck_spec (x : XiomasTcpExport out ι) (hv : x.CircValid) (length : ℕ) :
    ∃ n y, x.appInputAck length = some y ∧
      Drained {x with outstandingBytes :=
        if length > x.outstandingBytes then 0 else x.outstandingBytes-length} n y :=
  processQueue_spec _ (hv.credit length)

end Cosmid.Xiomas.XiomasTcpExport
