import Cosmid.XiomasCalls

/-! What the credit window of `xiomas_tcp_export` bounds: the bytes that tm_ip_export has not
acknowledged, and the bytes that are handed to the socket while `obuf` is in use. -/
namespace Cosmid.Xiomas

/-- The argument of `set_obufsize` in the constructor. -/
def obufSize : ℕ := 2000

/-- The last batch can start with 1999 bytes outstanding. -/
def maxOutstanding : ℕ := 1999+maxSpktDataPerSerioPkt+SerioLib.pktHdrSize

namespace CallAt

variable {out : OutputSocket} {ι : Type}

/-- The bytes written since the last batch was started, if `n` of them came before `cs`. -/
def burst (n : ℕ) (cs : List (CallAt out ι)) : ℕ :=
  cs.foldl (fun n c => if c.call.isBatch then 0 else n+c.call.written) n

theorem burst_append (n : ℕ) (cs ds : List (CallAt out ι)) :
    burst n (cs ++ ds) = burst (burst n cs) ds := List.foldl_append

theorem burst_cons (n : ℕ) (c : CallAt out ι) (cs : List (CallAt out ι)) :
    burst n (c :: cs) = burst (if c.call.isBatch then 0 else n+c.call.written) cs := rfl

/-- Without a new batch everything written counts. -/
theorem burst_eq (n : ℕ) (cs : List (CallAt out ι)) (h : ∀ c ∈ cs, c.call.isBatch = false) :
    burst n cs = n+written cs := by
  induction cs generalizing n with
  | nil => rfl
  | cons c cs ih =>
    rw [List.forall_mem_cons] at h
    rw [burst_cons, h.1, written_cons, ih _ h.2, if_neg Bool.false_ne_true, Nat.add_assoc]

/-- No batch in `cs` writes more than `m` bytes, and what comes before the first one fits
into the batch in progress. -/
def Bursts (m : ℕ) (cs : List (CallAt out ι)) : Prop :=
  ∀ n ≤ m, ∀ ds es, cs = ds ++ es → burst n ds ≤ m

namespace Bursts

variable {m : ℕ} {cs ds : List (CallAt out ι)}

theorem append (h : Bursts m cs) (g : Bursts m ds) : Bursts m (cs ++ ds) := by
  intro n hn es fs hes
  rcases List.append_eq_append_iff.mp hes with ⟨as, rfl, hds⟩ | ⟨bs, hcs, -⟩
  · rw [burst_append]
    exact g _ (h n hn cs [] (by simp)) as fs hds
  · exact h n hn es bs hcs

/-- Calls that write nothing do not end a batch. -/
theorem of_quiet (h : ∀ c ∈ cs, c.call.isBatch = false ∧ c.call.written = 0) : Bursts m cs := by
  rintro n hn ds es rfl
  rw [List.forall_mem_append] at h
  have hzero := written_eq_zero ds fun c hc => (h.1 c hc).2
  rw [burst_eq n ds fun c hc => (h.1 c hc).1, hzero]
  exact hn

/-- A batch of at most `m` bytes. -/
theorem of_batch (k : ℕ) (x : XiomasTcpExport out ι)
    (hcs : ∀ c ∈ cs, c.call.isBatch = false) (hm : written cs ≤ m) :
    Bursts m (⟨.circTransmit k,x⟩ :: cs) := by
  intro n hn ds es hds
  cases ds with
  | nil => exact hn
  | cons d ds =>
    rw [List.cons_append, List.cons.injEq] at hds
    obtain ⟨rfl, rfl⟩ := hds
    rw [List.forall_mem_append] at hcs
    rw [written_append] at hm
    rw [burst_cons, burst_eq _ ds hcs.1]
    change 0+written ds ≤ m
    omega

/-- What is written from `c` on before another batch is started. -/
theorem segment_le {pre mid post : List (CallAt out ι)} {c : CallAt out ι}
    (h : Bursts m (pre ++ c :: (mid ++ post))) (hmid : ∀ d ∈ mid, d.call.isBatch = false) :
    written (c :: mid) ≤ m := by
  have hb := h 0 (Nat.zero_le m) (pre ++ c :: mid) post (by simp)
  rw [burst_append, burst_cons, burst_eq _ mid hmid] at hb
  rw [written_cons]
  split at hb
  · -- The call that starts a batch writes nothing itself.
    rename_i hc
    have hzero : c.call.written = 0 := by
      cases hcall : c.call with
      | circTransmit k => rfl
      | _ => rw [hcall] at hc; cases hc
    omega
  · omega

end Bursts

theorem length_spans (c : CallAt out ι) : c.spans.flatten.length = c.call.written := by
  rw [spans]
  cases c.call <;> simp [CircCall.written]

theorem length_flatMap_spans (cs : List (CallAt out ι)) :
    (cs.flatMap spans).flatten.length = written cs := by
  induction cs with
  | nil => rfl
  | cons c cs ih =>
    rw [List.flatMap_cons, List.flatten_append, List.length_append, length_spans, ih, written_cons]

end CallAt

open CallAt

/-- The calls `cs` lead from `x` to `y` and keep to the credit window. -/
structure Windowed {out : OutputSocket} {ι : Type} (x : XiomasTcpExport out ι)
    (cs : List (CallAt out ι)) (y : XiomasTcpExport out ι) : Prop where
  cts : ∀ c ∈ cs, c.call.isBatch = true → c.exp.cts = true
  bursts : Bursts (maxSpktDataPerSerioPkt+SerioLib.pktHdrSize) cs
  outstanding_eq : y.outstandingBytes = x.outstandingBytes+written cs
  calls_le : ∀ c ∈ cs, c.exp.outstandingBytes ≤ max x.outstandingBytes maxOutstanding
  outstanding_le : y.outstandingBytes ≤ max x.outstandingBytes maxOutstanding

namespace Windowed

variable {out : OutputSocket} {ι : Type}

theorem refl (x y : XiomasTcpExport out ι) (h : y.outstandingBytes = x.outstandingBytes) :
    Windowed x [] y :=
  ⟨by simp, .of_quiet (by simp), h, by simp, h ▸ Nat.le_max_left _ _⟩

theorem append {x y z : XiomasTcpExport out ι} {cs ds : List (CallAt out ι)}
    (h : Windowed x cs y) (g : Windowed y ds z) : Windowed x (cs ++ ds) z := by
  have hle := h.outstanding_le
  have hmax : max y.outstandingBytes maxOutstanding ≤ max x.outstandingBytes maxOutstanding :=
    Nat.max_le.mpr ⟨hle, Nat.le_max_right _ _⟩
  refine ⟨?_, h.bursts.append g.bursts, ?_, ?_, Nat.le_trans g.outstanding_le hmax⟩
  · rw [List.forall_mem_append]
    exact ⟨h.cts, g.cts⟩
  · rw [g.outstanding_eq, h.outstanding_eq, written_append, Nat.add_assoc]
  · rw [List.forall_mem_append]
    exact ⟨h.calls_le, fun c hc => Nat.le_trans (g.calls_le c hc) hmax⟩

end Windowed

namespace XiomasTcpExport

variable {out : OutputSocket} {ι : Type}

theorem circCommitCalls_windowed (x y : XiomasTcpExport out ι) (hv : x.CircValid)
    (data : List UInt8) (hy : x.circCommit data = some y) :
    Windowed x (x.circCommitCalls data) y := by
  obtain ⟨y', hy', hf, -⟩ := circCommit_frame x hv data
  obtain rfl := Option.some.inj (hy.symm.trans hy')
  have hcopies := circCommitCalls_safe x hv data
  have hquiet : ∀ c ∈ x.circCommitCalls data, c.call.isBatch = false ∧ c.call.written = 0 := by
    intro c hc
    obtain ⟨-, ⟨dst, n, hcall⟩, -⟩ := hcopies c hc
    rw [hcall]
    exact ⟨rfl, rfl⟩
  have hout : y.outstandingBytes = x.outstandingBytes := by rw [hf.frame]
  have hzero := written_eq_zero _ fun c hc => (hquiet c hc).2
  refine ⟨?_, .of_quiet hquiet, by omega, ?_, hout ▸ Nat.le_max_left _ _⟩
  · intro c hc hbatch
    rw [(hquiet c hc).1] at hbatch
    cases hbatch
  · intro c hc
    rw [(hcopies c hc).2.2]
    exact Nat.le_max_left _ _

/-- A batch starts with less than 2000 bytes outstanding, so it stays below the bound that
is left behind. -/
theorem processQueueCalls_windowed (x y : XiomasTcpExport out ι) (hv : x.CircValid)
    (hy : x.processQueue = some y) : Windowed x x.processQueueCalls y := by
  revert hy
  refine processQueue_induction ?_ ?_ x hv
  · intro x hv hsend hy
    rw [processQueueCalls_stop x hsend]
    exact .refl _ _ (by rw [processQueue_stop x y hsend hy])
  · intro x z hv hcts hpos hz ht hout hq ih hy
    obtain ⟨hle, h962⟩ := batchBytes_le x.circLength
    have hcredit := outstandingBytes_of_cts x hcts
    have hmax : maxOutstanding = 2961 := rfl
    obtain ⟨hsafe, hwritten, -⟩ := circTransmitCalls_spec x z hv _ hle (by omega) hz
    rw [processQueueCalls_batch x z hcts hpos hz, ← List.cons_append]
    refine Windowed.append ?_ (ih (hq ▸ hy))
    refine ⟨?_, ?_, ?_, ?_, by omega⟩
    · rw [List.forall_mem_cons]
      refine ⟨fun _ => hcts, ?_⟩
      intro c hc hbatch
      rw [(hsafe c hc).2.1] at hbatch
      cases hbatch
    · exact .of_batch _ _ (fun c hc => (hsafe c hc).2.1) (Nat.le_trans (Nat.le_of_eq hwritten) h962)
    · rw [written_cons, hwritten, hout]
      exact congrArg _ (Nat.zero_add _).symm
    · rw [List.forall_mem_cons]
      refine ⟨Nat.le_max_left _ _, ?_⟩
      intro c hc
      have := (hsafe c hc).2.2
      omega

end XiomasTcpExport

open XiomasTcpExport

/-- One operation: an ACK gives credit back, and what is sent after that keeps to the window. -/
theorem exportCalls_windowed {out : OutputSocket} {ι : Type} (serio : SerioLib)
    (x y : XiomasTcpExport out ι) (hv : x.CircValid) (op : ExportOp out ι)
    (hy : exportStep serio x op = some y) :
    Windowed {x with outstandingBytes := x.outstandingBytes-credited x op}
      (exportCalls serio x op) y := by
  cases op with
  | forward bfr =>
    obtain ⟨w, z, n, hw, hwf, hz, hzf, hq, -⟩ := forwardPacket_parts serio hv hy
    rw [exportCalls, forwardPacketCalls_eq serio hw hz]
    exact (circCommitCalls_windowed x w hv _ hw).append
      ((circCommitCalls_windowed w z hwf.valid bfr hz).append
        (processQueueCalls_windowed z y hzf.valid hq))
  | requestAck client =>
    obtain rfl := Option.some.inj hy
    exact .refl _ _ rfl
  | ack length =>
    have hcredit : x.outstandingBytes-credited x (.ack length : ExportOp out ι) =
        if length > x.outstandingBytes then 0 else x.outstandingBytes-length := by
      dsimp only [credited]
      split <;> omega
    rw [hcredit]
    exact processQueueCalls_windowed _ y (hv.credit length) hy
  | socket sock =>
    obtain rfl := Option.some.inj hy
    exact .refl _ _ rfl

theorem credited_le {out : OutputSocket} {ι : Type} (x : XiomasTcpExport out ι)
    (op : ExportOp out ι) : credited x op ≤ x.outstandingBytes := by
  cases op with
  | ack length => exact Nat.min_le_right _ _
  | _ => exact Nat.zero_le _

namespace TracedExport

variable {out : OutputSocket} {ι : Type}

/-- The invariant of a run from `x`. -/
structure InWindow (x : XiomasTcpExport out ι) (t : TracedExport out ι) : Prop where
  valid : t.exp.CircValid
  traces : Traces x t.calls t.exp
  cts : ∀ c ∈ t.calls, c.call.isBatch = true → c.exp.cts = true
  bursts : Bursts (maxSpktDataPerSerioPkt+SerioLib.pktHdrSize) t.calls
  calls_le : ∀ c ∈ t.calls, c.exp.outstandingBytes ≤ maxOutstanding
  outstanding_le : t.exp.outstandingBytes ≤ maxOutstanding
  accounted : t.exp.outstandingBytes+t.acked = written t.calls

theorem inWindow_new (circ : ℕ → UInt8) (sock : out.State) :
    InWindow (.new circ sock) (.new circ sock : TracedExport out ι) :=
  ⟨circValid_new circ sock, .of_eq rfl rfl rfl, by simp [new], .of_quiet (by simp [new]),
    by simp [new], Nat.zero_le _, rfl⟩

theorem step_inWindow (serio : SerioLib) (x : XiomasTcpExport out ι) (t : TracedExport out ι)
    (ht : InWindow x t) (op : ExportOp out ι) :
    ∃ t', t.step serio op = some t' ∧ InWindow x t' := by
  obtain ⟨y, hy, hyv, -⟩ := exportStep_valid serio t.exp ht.valid op
  obtain ⟨htr, -⟩ := exportCalls_traces serio t.exp y ht.valid op hy
  have hw := exportCalls_windowed serio t.exp y ht.valid op hy
  have hcr := credited_le t.exp op
  have hle := ht.outstanding_le
  have hmax : max (t.exp.outstandingBytes-credited t.exp op) maxOutstanding ≤ maxOutstanding :=
    Nat.max_le.mpr ⟨by omega, Nat.le_refl _⟩
  refine ⟨_, (step_eq_some serio).mpr ⟨y, hy, rfl⟩, hyv, ht.traces.append htr, ?_,
    ht.bursts.append hw.bursts, ?_, Nat.le_trans hw.outstanding_le hmax, ?_⟩
  · rw [List.forall_mem_append]
    exact ⟨ht.cts, hw.cts⟩
  · rw [List.forall_mem_append]
    exact ⟨ht.calls_le, fun c hc => Nat.le_trans (hw.calls_le c hc) hmax⟩
  · have hacc := ht.accounted
    have heq := hw.outstanding_eq
    dsimp only at heq ⊢
    rw [written_append]
    omega

/-- What the invariant says about the bytes handed to the socket. -/
theorem InWindow.length_iwrites {circ : ℕ → UInt8} {sock : out.State} {t : TracedExport out ι}
    (ht : InWindow (.new circ sock) t) : t.exp.iwrites.flatten.length = written t.calls := by
  rw [ht.traces.spans_eq, List.flatten_append, List.length_append, length_flatMap_spans]
  exact Nat.zero_add _

/-- While `obuf` is in use no batch is started, so what is written comes from one. -/
theorem InWindow.burst_le {x : XiomasTcpExport out ι} {t : TracedExport out ι}
    (ht : InWindow x t) {pre mid post : List (CallAt out ι)} {c : CallAt out ι}
    (heq : t.calls = pre ++ c :: (mid ++ post))
    (hmid : ∀ d ∈ mid, out.obufEmpty d.exp.sock = false) :
    ((c :: mid).flatMap spans).flatten.length ≤ obufSize := by
  have hquiet : ∀ d ∈ mid, d.call.isBatch = false := by
    intro d hd
    by_contra hbatch
    have hcts := ht.cts d (by rw [heq]; simp [hd]) (by simpa using hbatch)
    rw [XiomasTcpExport.cts, hmid d hd, Bool.and_false] at hcts
    cases hcts
  have hle := Bursts.segment_le (heq ▸ ht.bursts) hquiet
  rw [length_flatMap_spans]
  exact Nat.le_trans hle (by decide)

end TracedExport

/-- In every run, whatever is acknowledged: at most 1999 bytes and one batch are outstanding,
the count is what has been written less what has been credited, a batch is only started with
credit and an empty `obuf`, and `obuf` is never handed more than it holds before it is
empty again. -/
theorem outstanding_bytes_bounded {out : OutputSocket} {ι : Type} (serio : SerioLib)
    (circ : ℕ → UInt8) (sock : out.State) (ops : List (ExportOp out ι)) :
    Run.Throughout (TracedExport.step serio) (fun _ t =>
      t.exp.outstandingBytes ≤ 1999+maxSpktDataPerSerioPkt+SerioLib.pktHdrSize ∧
      (∀ c ∈ t.calls, c.exp.outstandingBytes ≤ 1999+maxSpktDataPerSerioPkt+SerioLib.pktHdrSize) ∧
      t.exp.outstandingBytes+t.acked = t.exp.iwrites.flatten.length ∧
      (∀ c ∈ t.calls, c.call.isBatch = true →
        c.exp.outstandingBytes < 2000 ∧ out.obufEmpty c.exp.sock = true) ∧
      ∀ pre c mid post, t.calls = pre ++ c :: (mid ++ post) →
        (∀ d ∈ mid, out.obufEmpty d.exp.sock = false) →
          ((c :: mid).flatMap spans).flatten.length ≤ obufSize) (.new circ sock) ops := by
  intro fs _
  obtain ⟨t, hr, ht⟩ := Run.run_invariant (TracedExport.step serio) (fun _ _ => True)
    (TracedExport.InWindow (.new circ sock)) (fun t op h _ => t.step_inWindow serio _ h op)
    (.new circ sock) fs (TracedExport.inWindow_new circ sock) (Run.along_true _ _ _)
  refine ⟨t, hr, ht.outstanding_le, ht.calls_le, ?_, ?_, ?_⟩
  · rw [ht.length_iwrites, ht.accounted]
  · intro c hc hbatch
    have hcts := ht.cts c hc hbatch
    simpa only [cts, Bool.and_eq_true, decide_eq_true_eq] using hcts
  · intro pre c mid post heq hmid
    exact ht.burst_le heq hmid

end Cosmid.Xiomas
