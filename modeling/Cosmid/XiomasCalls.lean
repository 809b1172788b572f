import Cosmid.XiomasSystem
import Mathlib.Algebra.Ring.Nat

/-! The memory that `xiomas_tcp_export` touches: its `memcpy`, `iwrite` and `circ_transmit`
calls in order, each with the state in which it is made. -/
namespace Cosmid.Xiomas

inductive CircCall
  | memcpy (dst n : ℕ)
  | circTransmit (n : ℕ)
  | iwrite (src n : ℕ)
deriving DecidableEq

structure CallAt (out : OutputSocket) (ι : Type) where
  call : CircCall
  exp : XiomasTcpExport out ι

namespace XiomasTcpExport

variable {out : OutputSocket} {ι : Type}

def circCopyCalls (x : XiomasTcpExport out ι) (data : List UInt8) : List (CallAt out ι) :=
  let x := x.rewind
  let tailSpace := if data.length < x.tailSpace then data.length else x.tailSpace
  let y := {x with
    circ := Ring.blit x.circ x.circTail (data.take tailSpace)
    circTail := x.circTail+tailSpace}
  ⟨.memcpy x.circTail tailSpace,x⟩ ::
    if y.circTail ≤ y.circSize then
      let y := if y.circTail = y.circSize then {y with circTail := 0} else y
      let data := data.drop tailSpace
      if data = [] then []
      else if y.circTail = 0 ∧ data.length ≤ y.circHead then
        [⟨.memcpy y.circTail data.length,y⟩]
      else []
    else []

def circCommitCalls (x : XiomasTcpExport out ι) (data : List UInt8) : List (CallAt out ι) :=
  let x' := if data.length > x.circSpace then {x with overflows := x.overflows+1} else x
  let data := if data.length > x.circSpace then data.take x.circSpace else data
  if data = [] then [] else x'.circCopyCalls data

def circTransmitCalls (x : XiomasTcpExport out ι) (nBytes : ℕ) : List (CallAt out ι) :=
  if nBytes = 0 then []
  else
    let txmitBytes := x.circHeadBytes
    if txmitBytes > 0 then
      let txmitBytes := if nBytes < txmitBytes then nBytes else txmitBytes
      let span := Ring.flat x.circ x.circHead txmitBytes
      ⟨.iwrite x.circHead txmitBytes,x⟩ ::
        match circConsume {x with
          iwrites := x.iwrites ++ [span], sock := out.iwrite span x.sock} txmitBytes with
        | none => []
        | some y => y.circTransmitCalls (nBytes-txmitBytes)
    else []
termination_by nBytes
decreasing_by split <;> omega

def processQueueCalls (x : XiomasTcpExport out ι) : List (CallAt out ι) :=
  if _hsend : x.cts ∧ x.circLength > 0 then
    ⟨.circTransmit (batchBytes x.circLength),x⟩ ::
      (x.circTransmitCalls (batchBytes x.circLength) ++
        match _htransmit : x.circTransmit (batchBytes x.circLength) with
        | none => []
        | some y => y.processQueueCalls)
  else []
termination_by 2000-x.outstandingBytes
decreasing_by
  have hlt := outstandingBytes_of_cts x _hsend.1
  have hle := batchBytes_le x.circLength
  have hpos := batchBytes_pos x.circLength _hsend.2
  have := circTransmit_outstandingBytes x y (batchBytes x.circLength) (by omega) _htransmit
  omega

def forwardPacketCalls (serio : SerioLib) (x : XiomasTcpExport out ι) (bfr : List UInt8) :
    List (CallAt out ι) :=
  x.circCommitCalls (serio.mkHdr serio.pktTypeSID bfr) ++
    match x.circCommit (serio.mkHdr serio.pktTypeSID bfr) with
    | none => []
    | some y => y.circCommitCalls bfr ++
      match y.circCommit bfr with
      | none => []
      | some z => z.processQueueCalls

end XiomasTcpExport

namespace CircCall

/-- The range lies in `circ[0..size)`. -/
def Within (size : ℕ) : CircCall → Prop
  | memcpy dst n => dst+n ≤ size
  | circTransmit _ => True
  | iwrite src n => src+n ≤ size

/-- The bytes that the call hands to the socket. -/
def written : CircCall → ℕ
  | iwrite _ n => n
  | _ => 0

def isBatch : CircCall → Bool
  | circTransmit _ => true
  | _ => false

/-- The call stores to `circ[i]`. -/
def Stores (i : ℕ) : CircCall → Prop
  | memcpy dst n => dst ≤ i ∧ i < dst+n
  | _ => False

end CircCall

namespace CallAt

variable {out : OutputSocket} {ι : Type}

def written (cs : List (CallAt out ι)) : ℕ := (cs.map fun c => c.call.written).sum

def batches (cs : List (CallAt out ι)) : ℕ := cs.countP fun c => c.call.isBatch

@[simp] theorem written_nil : written ([] : List (CallAt out ι)) = 0 := rfl

@[simp] theorem written_cons (c : CallAt out ι) (cs : List (CallAt out ι)) :
    written (c :: cs) = c.call.written+written cs := by simp [written]

@[simp] theorem written_append (cs ds : List (CallAt out ι)) :
    written (cs ++ ds) = written cs+written ds := by simp [written]

/-- What the call hands to the socket. -/
def spans (c : CallAt out ι) : List (List UInt8) :=
  match c.call with
  | .iwrite src n => [Ring.flat c.exp.circ src n]
  | _ => []

theorem written_eq_zero (cs : List (CallAt out ι)) (h : ∀ c ∈ cs, c.call.written = 0) :
    written cs = 0 := by
  induction cs with
  | nil => rfl
  | cons c cs ih =>
    rw [List.forall_mem_cons] at h
    rw [written_cons, h.1, ih h.2]

@[simp] theorem batches_nil : batches ([] : List (CallAt out ι)) = 0 := rfl

@[simp] theorem batches_append (cs ds : List (CallAt out ι)) :
    batches (cs ++ ds) = batches cs+batches ds := by simp [batches]

theorem batches_eq_zero (cs : List (CallAt out ι)) (h : ∀ c ∈ cs, c.call.isBatch = false) :
    batches cs = 0 := by
  rw [batches, List.countP_eq_zero]
  intro c hc
  rw [h c hc]
  exact Bool.false_ne_true

/-- The call finds the registers valid and keeps to the `size` bytes of the buffer. -/
structure Safe (size : ℕ) (c : CallAt out ι) : Prop where
  valid : c.exp.CircValid
  size_eq : c.exp.circSize = size
  within : c.call.Within size

end CallAt

/-- The calls `cs` lead from `x` to `y`: they keep to the buffer, `y` has their spans behind
those of `x`, and every cell they do not store to is as before. -/
structure Traces {out : OutputSocket} {ι : Type} (x : XiomasTcpExport out ι)
    (cs : List (CallAt out ι)) (y : XiomasTcpExport out ι) : Prop where
  size_eq : y.circSize = x.circSize
  safe : ∀ c ∈ cs, c.Safe x.circSize
  spans_eq : y.iwrites = x.iwrites ++ cs.flatMap CallAt.spans
  circ_eq : ∀ i, (∀ c ∈ cs, ¬c.call.Stores i) → y.circ i = x.circ i

namespace Traces

variable {out : OutputSocket} {ι : Type}

theorem of_eq {x y : XiomasTcpExport out ι} (hsize : y.circSize = x.circSize)
    (hspans : y.iwrites = x.iwrites) (hcirc : y.circ = x.circ) : Traces x [] y :=
  ⟨hsize, by simp, by simpa using hspans, fun _ _ => by rw [hcirc]⟩

theorem append {x y z : XiomasTcpExport out ι} {cs ds : List (CallAt out ι)}
    (h : Traces x cs y) (g : Traces y ds z) : Traces x (cs ++ ds) z := by
  refine ⟨g.size_eq.trans h.size_eq, ?_, ?_, ?_⟩
  · rw [List.forall_mem_append]
    exact ⟨h.safe, h.size_eq ▸ g.safe⟩
  · rw [g.spans_eq, h.spans_eq, List.flatMap_append, List.append_assoc]
  · intro i hi
    rw [List.forall_mem_append] at hi
    rw [g.circ_eq i hi.2, h.circ_eq i hi.1]

end Traces

/-- The calls of one operation. -/
def exportCalls {out : OutputSocket} {ι : Type} (serio : SerioLib) (x : XiomasTcpExport out ι) :
    ExportOp out ι → List (CallAt out ι)
  | .forward bfr => x.forwardPacketCalls serio bfr
  | .requestAck _ => []
  | .ack length => XiomasTcpExport.processQueueCalls {x with
      outstandingBytes := if length > x.outstandingBytes then 0 else x.outstandingBytes-length}
  | .socket _ => []

/-- The bytes that an ACK takes off the count. -/
def credited {out : OutputSocket} {ι : Type} (x : XiomasTcpExport out ι) : ExportOp out ι → ℕ
  | .ack length => min length x.outstandingBytes
  | _ => 0

/-- The exporter with the calls it has made and the bytes that have been acknowledged. -/
structure TracedExport (out : OutputSocket) (ι : Type) where
  exp : XiomasTcpExport out ι
  calls : List (CallAt out ι)
  acked : ℕ

namespace TracedExport

variable {out : OutputSocket} {ι : Type}

def new (circ : ℕ → UInt8) (sock : out.State) : TracedExport out ι := ⟨.new circ sock,[],0⟩

def step (serio : SerioLib) (t : TracedExport out ι) (op : ExportOp out ι) :
    Option (TracedExport out ι) :=
  (exportStep serio t.exp op).map fun x =>
    ⟨x,t.calls ++ exportCalls serio t.exp op,t.acked+credited t.exp op⟩

end TracedExport

namespace XiomasTcpExport

variable {out : OutputSocket} {ι : Type}

/-- The room behind the tail ends with the array or with the head. -/
theorem rewind_room (x : XiomasTcpExport out ι) (hv : x.CircValid) :
    x.rewind.circTail < x.circSize ∧ x.rewind.circTail+x.rewind.tailSpace ≤ x.circSize := by
  obtain ⟨hh, ht, -, hr⟩ := rewind_spec x hv
  have hsize : x.rewind.circSize = x.circSize := by rw [hr]
  have htl : x.rewind.circTail < x.circSize := by
    rw [ht]
    exact Nat.mod_lt _ (by omega)
  refine ⟨htl, ?_⟩
  unfold tailSpace
  rw [hsize]
  split <;> omega

theorem circCopyCalls_safe (x : XiomasTcpExport out ι) (hv : x.CircValid) (data : List UInt8)
    (hfit : data.length ≤ x.circSize) :
    ∀ c ∈ x.circCopyCalls data, c.Safe x.circSize ∧
      (∃ dst n, c.call = .memcpy dst n) ∧ c.exp.outstandingBytes = x.outstandingBytes := by
  obtain ⟨hh, -, -, hr⟩ := rewind_spec x hv
  obtain ⟨htl, hroom⟩ := rewind_room x hv
  have hsize : x.rewind.circSize = x.circSize := by rw [hr]
  have hout : x.rewind.outstandingBytes = x.outstandingBytes := by rw [hr]
  have hrv : x.rewind.CircValid := by
    refine ⟨hsize ▸ hv.size_lt, hsize ▸ htl, Or.inl (hsize ▸ hh), ?_⟩
    rw [hout]
    exact hv.outstanding_lt
  obtain ⟨n, hn⟩ : ∃ n, n = if data.length < x.rewind.tailSpace then data.length
    else x.rewind.tailSpace := ⟨_, rfl⟩
  have hnle : n ≤ x.rewind.tailSpace := by
    rw [hn]
    split <;> omega
  unfold circCopyCalls
  dsimp only
  rw [← hn, List.forall_mem_cons]
  refine ⟨⟨⟨hrv, hsize, ?_⟩, ⟨_, _, rfl⟩, hout⟩, ?_⟩
  · change x.rewind.circTail+n ≤ x.circSize
    omega
  · -- The second part starts at address 0 again.
    split_ifs with hle hend hdata hzero
    all_goals simp only [List.not_mem_nil, false_implies, implies_true, List.forall_mem_singleton]
    · refine ⟨⟨⟨hrv.size_lt, ?_, hrv.head_cases, hrv.outstanding_lt⟩, hsize, ?_⟩,
        ⟨_, _, rfl⟩, hout⟩
      · dsimp only
        omega
      · change 0+(data.drop n).length ≤ x.circSize
        rw [List.length_drop]
        omega
    · rename_i hzero
      dsimp only at hzero hend
      refine ⟨⟨⟨hrv.size_lt, ?_, hrv.head_cases, hrv.outstanding_lt⟩, hsize, ?_⟩,
        ⟨_, _, rfl⟩, hout⟩
      · dsimp only
        omega
      · change x.rewind.circTail+n+(data.drop n).length ≤ x.circSize
        rw [List.length_drop]
        omega

theorem circCommitCalls_safe (x : XiomasTcpExport out ι) (hv : x.CircValid) (data : List UInt8) :
    ∀ c ∈ x.circCommitCalls data, c.Safe x.circSize ∧
      (∃ dst n, c.call = .memcpy dst n) ∧ c.exp.outstandingBytes = x.outstandingBytes := by
  have hsp := circSpace_eq x hv
  unfold circCommitCalls
  dsimp only
  by_cases hover : data.length > x.circSpace
  · rw [if_pos hover, if_pos hover]
    split_ifs
    · simp
    · refine circCopyCalls_safe {x with overflows := x.overflows+1}
        ⟨hv.size_lt, hv.tail_lt, hv.head_cases, hv.outstanding_lt⟩ _ ?_
      have hle : (data.take x.circSpace).length ≤ x.circSpace := List.length_take_le _ _
      change (data.take x.circSpace).length ≤ x.circSize
      omega
  · rw [if_neg hover, if_neg hover]
    split_ifs
    · simp
    · exact circCopyCalls_safe x hv data (by omega)

/-- `circ_commit` stores where its `memcpy` calls do. -/
theorem circCopyCalls_stores (x y : XiomasTcpExport out ι) (hv : x.CircValid) (data : List UInt8)
    (hy : x.circCopy data = some y) (i : ℕ)
    (hi : ∀ c ∈ x.circCopyCalls data, ¬c.call.Stores i) : y.circ i = x.circ i := by
  obtain ⟨-, -, -, hr⟩ := rewind_spec x hv
  have hcirc : x.rewind.circ = x.circ := by rw [hr]
  obtain ⟨n, hn⟩ : ∃ n, n = if data.length < x.rewind.tailSpace then data.length
    else x.rewind.tailSpace := ⟨_, rfl⟩
  unfold circCopyCalls at hi
  unfold circCopy at hy
  dsimp only at hi hy
  rw [← hn] at hi hy
  rw [List.forall_mem_cons] at hi
  obtain ⟨hfirst, hsecond⟩ := hi
  have hkeep : Ring.blit x.rewind.circ x.rewind.circTail (data.take n) i = x.circ i := by
    rw [Ring.blit_of_outside, hcirc]
    intro h
    have hle : (data.take n).length ≤ n := List.length_take_le _ _
    exact hfirst ⟨h.1, by omega⟩
  -- Either nothing is left behind the first part, or the rest is stored as well.
  split_ifs at hy hsecond
  · obtain rfl := Option.some.inj hy
    exact hkeep
  · obtain rfl := Option.some.inj hy
    exact hkeep
  · obtain rfl := Option.some.inj hy
    rw [List.forall_mem_singleton] at hsecond
    exact (Ring.blit_of_outside _ _ _ _ hsecond).trans hkeep
  · obtain rfl := Option.some.inj hy
    rw [List.forall_mem_singleton] at hsecond
    exact (Ring.blit_of_outside _ _ _ _ hsecond).trans hkeep

theorem circCommitCalls_traces (x y : XiomasTcpExport out ι) (hv : x.CircValid)
    (data : List UInt8) (hy : x.circCommit data = some y) :
    Traces x (x.circCommitCalls data) y := by
  obtain ⟨y', hy', hf, -⟩ := circCommit_frame x hv data
  obtain rfl := Option.some.inj (hy.symm.trans hy')
  have hsafe := circCommitCalls_safe x hv data
  have hiw : y.iwrites = x.iwrites := by rw [hf.frame]
  refine ⟨by rw [hf.frame], fun c hc => (hsafe c hc).1, ?_, ?_⟩
  · -- No call of a commit hands anything to the socket.
    have hnone : (x.circCommitCalls data).flatMap CallAt.spans = [] := by
      rw [List.flatMap_eq_nil_iff]
      intro c hc
      obtain ⟨-, ⟨dst, n, hcall⟩, -⟩ := hsafe c hc
      rw [CallAt.spans, hcall]
    rw [hnone, List.append_nil, hiw]
  · intro i hi
    unfold circCommit at hy
    unfold circCommitCalls at hi
    dsimp only at hy hi
    by_cases hover : data.length > x.circSpace
    · rw [if_pos hover, if_pos hover] at hy hi
      split_ifs at hy hi
      · obtain rfl := Option.some.inj hy
        rfl
      · exact circCopyCalls_stores {x with overflows := x.overflows+1} y
          ⟨hv.size_lt, hv.tail_lt, hv.head_cases, hv.outstanding_lt⟩ _ hy i hi
    · rw [if_neg hover, if_neg hover] at hy hi
      split_ifs at hy hi
      · obtain rfl := Option.some.inj hy
        rfl
      · exact circCopyCalls_stores x y hv data hy i hi

theorem circTransmitCalls_span (x : XiomasTcpExport out ι) (hv : x.CircValid) (n : ℕ)
    (hn : 0 < n) (hle : n ≤ x.circLength) : ∃ (t : ℕ) (y : XiomasTcpExport out ι),
      0 < t ∧ t ≤ n ∧ x.circHead+t ≤ x.circSize ∧ y.CircValid ∧ y.circSize = x.circSize ∧ y.circLength = x.circLength-t ∧
      y.outstandingBytes = u32 (x.outstandingBytes+t) ∧
      y.iwrites = x.iwrites ++ [Ring.flat x.circ x.circHead t] ∧
      x.circTransmit n = y.circTransmit (n-t) ∧
      x.circTransmitCalls n = ⟨.iwrite x.circHead t,x⟩ :: y.circTransmitCalls (n-t) := by
  obtain ⟨t, y, ht, ht0, htn, hhb, hte, -, hy, hyv, hyc, hyx⟩ := circTransmit_span x hv n hn hle
  have hn0 : n ≠ 0 := by omega
  refine ⟨t, y, ht0, htn, hte, hyv, by rw [hyx], ?_, by rw [hyx], by rw [hyx], ?_, ?_⟩
  · rw [← length_contents, hyc, List.length_drop, length_contents]
  · rw [circTransmit]
    simp only [if_neg hn0, if_pos hhb, ← ht, hy]
  · rw [circTransmitCalls]
    simp only [if_neg hn0, if_pos hhb, ← ht, hy]

/-- A batch of `n` bytes is written in calls that keep to the buffer. -/
theorem circTransmitCalls_spec (x z : XiomasTcpExport out ι) (hv : x.CircValid) (n : ℕ)
    (hle : n ≤ x.circLength) (hout : x.outstandingBytes+n < 4294967296)
    (hz : x.circTransmit n = some z) :
    (∀ c ∈ x.circTransmitCalls n, c.Safe x.circSize ∧ c.call.isBatch = false ∧
      c.exp.outstandingBytes ≤ x.outstandingBytes+n) ∧
    CallAt.written (x.circTransmitCalls n) = n ∧
    z.iwrites = x.iwrites ++ (x.circTransmitCalls n).flatMap CallAt.spans := by
  induction n using Nat.strongRecOn generalizing x with
  | _ n ih =>
    by_cases h0 : n = 0
    · subst h0
      rw [circTransmit, if_pos rfl] at hz
      obtain rfl := Option.some.inj hz
      rw [circTransmitCalls, if_pos rfl]
      simp
    · obtain ⟨t, y, ht0, htn, hte, hyv, hys, hyl, hyo, hyi, heq, hcalls⟩ :=
        circTransmitCalls_span x hv n (by omega) hle
      rw [u32, Nat.mod_eq_of_lt (by omega)] at hyo
      obtain ⟨hsafe, hwritten, hspans⟩ :=
        ih (n-t) (by omega) y hyv (by omega) (by omega) (heq ▸ hz)
      rw [hcalls]
      refine ⟨?_, ?_, ?_⟩
      · rw [List.forall_mem_cons]
        refine ⟨⟨⟨hv, rfl, hte⟩, rfl, Nat.le_add_right _ _⟩, ?_⟩
        intro c hc
        obtain ⟨h1, h2, h3⟩ := hsafe c hc
        exact ⟨hys ▸ h1, h2, by omega⟩
      · rw [CallAt.written_cons, hwritten]
        exact Nat.add_sub_cancel' htn
      · rw [hspans, hyi, List.flatMap_cons, List.append_assoc]
        rfl

/-- The calls of one batch, and then those of the loop from behind it. -/
theorem processQueueCalls_batch (x y : XiomasTcpExport out ι) (hcts : x.cts = true)
    (hpos : 0 < x.circLength) (hy : x.circTransmit (batchBytes x.circLength) = some y) :
    x.processQueueCalls = ⟨.circTransmit (batchBytes x.circLength),x⟩ ::
      (x.circTransmitCalls (batchBytes x.circLength) ++ y.processQueueCalls) := by
  rw [processQueueCalls, dif_pos ⟨hcts, hpos⟩]
  congr 2
  split
  · rename_i h; rw [hy] at h; cases h
  · rename_i z h
    obtain rfl := Option.some.inj (hy.symm.trans h)
    rfl

theorem processQueueCalls_stop (x : XiomasTcpExport out ι) (h : ¬(x.cts ∧ x.circLength > 0)) :
    x.processQueueCalls = [] := by
  rw [processQueueCalls, dif_neg h]

/-- The loop keeps to the buffer, and ends after at most 2000 batches. -/
theorem processQueueCalls_spec (x z : XiomasTcpExport out ι) (hv : x.CircValid)
    (hz : x.processQueue = some z) :
    (∀ c ∈ x.processQueueCalls, c.Safe x.circSize) ∧
    CallAt.batches x.processQueueCalls ≤ 2000-x.outstandingBytes ∧
    z.iwrites = x.iwrites ++ x.processQueueCalls.flatMap CallAt.spans := by
  revert hz
  refine processQueue_induction ?_ ?_ x hv
  · intro x hv hsend hz
    rw [processQueueCalls_stop x hsend]
    refine ⟨by simp, Nat.zero_le _, ?_⟩
    rw [processQueue_stop x z hsend hz, List.flatMap_nil, List.append_nil]
  · intro x y hv hcts hpos hy ht hout hq ih hz
    obtain ⟨hle, h962⟩ := batchBytes_le x.circLength
    have hbpos := batchBytes_pos x.circLength hpos
    have hcredit := outstandingBytes_of_cts x hcts
    obtain ⟨hsafe, -, hspans⟩ := circTransmitCalls_spec x y hv _ hle (by omega) hy
    obtain ⟨hsafe', hbatches, hspans'⟩ := ih (hq ▸ hz)
    have hys : y.circSize = x.circSize := by rw [ht.frame]
    rw [processQueueCalls_batch x y hcts hpos hy]
    refine ⟨?_, ?_, ?_⟩
    · rw [List.forall_mem_cons, List.forall_mem_append]
      exact ⟨⟨hv, rfl, trivial⟩, fun c hc => (hsafe c hc).1, hys ▸ hsafe'⟩
    · rw [← List.singleton_append, CallAt.batches_append, CallAt.batches_append,
        CallAt.batches_eq_zero _ fun c hc => (hsafe c hc).2.1]
      change 1+(0+_) ≤ _
      omega
    · rw [hspans', hspans, List.flatMap_cons, List.flatMap_append, List.append_assoc]
      rfl

theorem processQueueCalls_traces (x y : XiomasTcpExport out ι) (hv : x.CircValid)
    (hy : x.processQueue = some y) : Traces x x.processQueueCalls y := by
  obtain ⟨hsafe, -, hspans⟩ := processQueueCalls_spec x y hv hy
  obtain ⟨n, y', hy', hd⟩ := processQueue_spec x hv
  obtain rfl := Option.some.inj (hy.symm.trans hy')
  refine ⟨by rw [hd.frame], hsafe, hspans, ?_⟩
  intro i _
  rw [hd.frame]

theorem batches_circCommitCalls (x : XiomasTcpExport out ι) (hv : x.CircValid)
    (data : List UInt8) : CallAt.batches (x.circCommitCalls data) = 0 := by
  apply CallAt.batches_eq_zero
  intro c hc
  obtain ⟨-, ⟨dst, n, hcall⟩, -⟩ := circCommitCalls_safe x hv data c hc
  rw [hcall]
  rfl

/-- The calls of a `forward_packet` that returned. -/
theorem forwardPacketCalls_eq (serio : SerioLib) {x w z : XiomasTcpExport out ι}
    {bfr : List UInt8} (hw : x.circCommit (serio.mkHdr serio.pktTypeSID bfr) = some w)
    (hz : w.circCommit bfr = some z) : x.forwardPacketCalls serio bfr =
      x.circCommitCalls (serio.mkHdr serio.pktTypeSID bfr) ++
        (w.circCommitCalls bfr ++ z.processQueueCalls) := by
  simp only [forwardPacketCalls, hw, hz]

end XiomasTcpExport

open XiomasTcpExport

/-- Every operation keeps to the buffer and starts at most 2000 batches. -/
theorem exportCalls_traces {out : OutputSocket} {ι : Type} (serio : SerioLib)
    (x y : XiomasTcpExport out ι) (hv : x.CircValid) (op : ExportOp out ι)
    (hy : exportStep serio x op = some y) :
    Traces x (exportCalls serio x op) y ∧ CallAt.batches (exportCalls serio x op) ≤ 2000 := by
  cases op with
  | forward bfr =>
    obtain ⟨w, z, n, hw, hwf, hz, hzf, hq, -⟩ := forwardPacket_parts serio hv hy
    obtain ⟨-, hbatches, -⟩ := processQueueCalls_spec z y hzf.valid hq
    rw [exportCalls, forwardPacketCalls_eq serio hw hz]
    refine ⟨?_, ?_⟩
    · exact (circCommitCalls_traces x w hv _ hw).append
        ((circCommitCalls_traces w z hwf.valid bfr hz).append
          (processQueueCalls_traces z y hzf.valid hq))
    · rw [CallAt.batches_append, CallAt.batches_append, batches_circCommitCalls x hv,
        batches_circCommitCalls w hwf.valid]
      omega
  | requestAck client =>
    obtain rfl := Option.some.inj hy
    exact ⟨.of_eq rfl rfl rfl, Nat.zero_le _⟩
  | ack length =>
    have hcredit := hv.credit length
    obtain ⟨-, hbatches, -⟩ := processQueueCalls_spec _ y hcredit hy
    obtain ⟨hsize, hsafe, hspans, hcirc⟩ := processQueueCalls_traces _ y hcredit hy
    exact ⟨⟨hsize, hsafe, hspans, hcirc⟩, Nat.le_trans hbatches (Nat.sub_le _ _)⟩
  | socket sock =>
    obtain rfl := Option.some.inj hy
    exact ⟨.of_eq rfl rfl rfl, Nat.zero_le _⟩

namespace TracedExport

variable {out : OutputSocket} {ι : Type}

/-- A step of the traced exporter is a step of the exporter. -/
theorem step_eq_some (serio : SerioLib) {t t' : TracedExport out ι} {op : ExportOp out ι} :
    t.step serio op = some t' ↔ ∃ y, exportStep serio t.exp op = some y ∧
      t' = ⟨y,t.calls ++ exportCalls serio t.exp op,t.acked+credited t.exp op⟩ := by
  rw [step, Option.map_eq_some_iff]
  constructor
  · rintro ⟨y, hy, rfl⟩
    exact ⟨y, hy, rfl⟩
  · rintro ⟨y, hy, rfl⟩
    exact ⟨y, hy, rfl⟩

theorem step_traces (serio : SerioLib) {x : XiomasTcpExport out ι} (t : TracedExport out ι)
    (hv : t.exp.CircValid) (ht : Traces x t.calls t.exp) (op : ExportOp out ι) :
    ∃ t', t.step serio op = some t' ∧ t'.exp.CircValid ∧ Traces x t'.calls t'.exp ∧
      CallAt.batches t'.calls ≤ CallAt.batches t.calls+2000 := by
  obtain ⟨y, hy, hyv, -⟩ := exportStep_valid serio t.exp hv op
  obtain ⟨htr, hb⟩ := exportCalls_traces serio t.exp y hv op hy
  refine ⟨_, (step_eq_some serio).mpr ⟨y, hy, rfl⟩, hyv, ht.append htr, ?_⟩
  rw [CallAt.batches_append]
  omega

end TracedExport

/-- In every run from construction no assertion fails, the head and the tail stay in
their ranges, `memcpy` and `iwrite` keep to the 270000 bytes of `circ`, no other cell is ever
stored to, and `process_queue` ends after at most 2000 batches in each operation. -/
theorem circ_memory_safe {out : OutputSocket} {ι : Type} (serio : SerioLib) (circ : ℕ → UInt8)
    (sock : out.State) (ops : List (ExportOp out ι)) :
    Run.Throughout (TracedExport.step serio) (fun fs t =>
      t.exp.circSize = circBufferSize ∧ t.exp.circTail < t.exp.circSize ∧
      (t.exp.circHead < t.exp.circSize ∨ t.exp.circHead = t.exp.circSize+1) ∧
      (∀ c ∈ t.calls, c.Safe circBufferSize) ∧
      t.exp.iwrites = t.calls.flatMap CallAt.spans ∧
      (∀ i, (∀ c ∈ t.calls, ¬c.call.Stores i) → t.exp.circ i = circ i) ∧
      CallAt.batches t.calls ≤ 2000*fs.length) (.new circ sock) ops := by
  intro fs _
  have hstep (h : List (ExportOp out ι)) (t : TracedExport out ι) (op : ExportOp out ι)
      (ht : t.exp.CircValid ∧ Traces (.new circ sock) t.calls t.exp ∧
        CallAt.batches t.calls ≤ 2000*h.length) (_ : True) :
      ∃ t', t.step serio op = some t' ∧ t'.exp.CircValid ∧
        Traces (.new circ sock) t'.calls t'.exp ∧
        CallAt.batches t'.calls ≤ 2000*(h ++ [op]).length := by
    obtain ⟨hv, htr, hb⟩ := ht
    obtain ⟨t', ht', hv', htr', hb'⟩ := t.step_traces serio hv htr op
    refine ⟨t', ht', hv', htr', ?_⟩
    rw [List.length_append, List.length_singleton]
    omega
  obtain ⟨t, ht, hv, htr, hb⟩ := Run.run_history (TracedExport.step serio) (fun _ _ => True) _
    hstep [] (.new circ sock) fs
    ⟨circValid_new circ sock, .of_eq rfl rfl rfl, Nat.zero_le _⟩ (Run.along_true _ _ _)
  exact ⟨t, ht, htr.size_eq, hv.tail_lt, hv.head_cases, htr.safe, htr.spans_eq, htr.circ_eq, hb⟩

end Cosmid.Xiomas
