import Cosmid.Fifo
import Cosmid.XiomasRing

/-! `circ_commit` and `circ_transmit` as the two operations of a queue: which
runs of them are runs of `Fifo`. -/
namespace Cosmid.Xiomas.XiomasTcpExport

variable {out : OutputSocket} {ι : Type}

theorem circCommit_nil (x : XiomasTcpExport out ι) : x.circCommit [] = some x := by
  simp [circCommit]

theorem circCommit_of_fits (x : XiomasTcpExport out ι) (data : List UInt8) (hd : data ≠ [])
    (hfit : data.length ≤ x.circSpace) : x.circCommit data = x.circCopy data := by
  simp only [circCommit, if_neg (Nat.not_lt.mpr hfit), hd, if_false]

/-- Whatever is committed, no assertion fails and the registers stay valid. -/
theorem circCommit_frame (x : XiomasTcpExport out ι) (hv : x.CircValid) (data : List UInt8) :
    ∃ y, x.circCommit data = some y ∧ CommitFrame x y ∧ (data ≠ [] → 0 < y.circLength) := by
  have hsp := circSpace_eq x hv
  have hle := circLength_le x hv
  have hsize := hv.tail_lt
  unfold circCommit
  set w : XiomasTcpExport out ι :=
    if data.length > x.circSpace then {x with overflows := x.overflows+1} else x with hw
  set kept := if data.length > x.circSpace then data.take x.circSpace else data with hkept
  have hwx : w = {x with overflows := w.overflows} := by
    rw [hw]
    split <;> rfl
  have hwv : w.CircValid := by
    rw [hwx]
    exact ⟨hv.size_lt, hv.tail_lt, hv.head_cases, hv.outstanding_lt⟩
  have hwl : w.circLength = x.circLength := by rw [hwx]; rfl
  have hws : w.circSize = x.circSize := by rw [hwx]
  have hkl : kept.length ≤ x.circSpace := by
    rw [hkept]
    split
    · exact List.length_take_le _ _
    · omega
  by_cases hnil : kept = []
  · -- Nothing fits, so the queue is full already.
    refine ⟨w, by dsimp only; rw [if_pos hnil], ⟨hwv, by rw [hwx]⟩, ?_⟩
    intro hd
    have : 0 < data.length := List.length_pos_of_ne_nil hd
    have hzero : x.circSpace = 0 := by
      by_contra hne
      rw [hkept] at hnil
      split at hnil
      · rw [List.take_eq_nil_iff] at hnil
        rcases hnil with h | h
        · exact hne h
        · exact hd h
      · exact hd hnil
    omega
  · obtain ⟨y, hy, hf, hh⟩ := circCopy_frame w hwv kept hnil (by omega)
    refine ⟨y, by dsimp only; rw [if_neg hnil, hy], ⟨hf.valid, ?_⟩, ?_⟩
    · have := hf.frame
      rw [hwx] at this
      exact this
    · intro _
      have hhw := (rewind_spec w hwv).1
      have hys : y.circSize = w.circSize := by rw [hf.frame]
      rcases circValid_cases y hf.valid with ⟨h1, -⟩ | ⟨-, h2, -⟩
      · omega
      · exact h2

/-- An even commit that fits appends to the queue. -/
theorem circCommit_even (x : XiomasTcpExport out ι) (hv : x.CircValid) (data : List UInt8)
    (hfit : data.length ≤ x.circSpace) (he : x.CommitsEvenly data) :
    ∃ y, x.circCommit data = some y ∧ CommitFrame x y ∧ y.contents = x.contents ++ data ∧
      y.overflows = x.overflows := by
  by_cases hd : data = []
  · subst hd
    exact ⟨x, circCommit_nil x, ⟨hv, rfl⟩, by simp, rfl⟩
  · have hsp := circSpace_eq x hv
    have hle := circLength_le x hv
    rw [circCommit_of_fits x data hd hfit]
    obtain ⟨y, hy, hf, -⟩ := circCopy_frame x hv data hd (by omega)
    obtain ⟨hc, ho⟩ := circCopy_even x hv data hd (by omega) he y hy
    exact ⟨y, hy, hf, hc, ho⟩

theorem circCommit_uneven (x y : XiomasTcpExport out ι) (hv : x.CircValid) (data : List UInt8)
    (hfit : data.length ≤ x.circSpace) (he : ¬x.CommitsEvenly data)
    (hy : x.circCommit data = some y) : y.circLength ≠ x.circLength+data.length := by
  have hd : data ≠ [] := by
    rintro rfl
    exact he (Or.inl (Nat.zero_le _))
  have hsp := circSpace_eq x hv
  have hle := circLength_le x hv
  rw [circCommit_of_fits x data hd hfit] at hy
  exact circCopy_uneven x hv data hd (by omega) he y hy

def circStep (x : XiomasTcpExport out ι) : FifoOp UInt8 → Option (XiomasTcpExport out ι)
  | .push data => x.circCommit data
  | .pop n => x.circTransmit n

/-- The callers' side of the contract: commit into free space, transmit stored bytes. -/
def CircAdmissible (x : XiomasTcpExport out ι) : FifoOp UInt8 → Prop
  | .push data => data.length ≤ x.circSpace
  | .pop n => n ≤ x.circLength

def CircEven (x : XiomasTcpExport out ι) : FifoOp UInt8 → Prop
  | .push data => x.CommitsEvenly data
  | .pop _ => True

/-- The counters agree with the traffic so far, and what went to the socket is
the front part of what was committed. -/
structure ExactFifo (ops : List (FifoOp UInt8)) (x : XiomasTcpExport out ι) : Prop where
  length_eq : x.circLength+Fifo.popped ops = (Fifo.pushed ops).length
  space_eq : x.circSpace+x.circLength = x.circSize
  iwrites_eq : x.iwrites.flatten = (Fifo.pushed ops).take (Fifo.popped ops)

/-- The buffer stands for the queue `f`. -/
structure CircRefines (x : XiomasTcpExport out ι) (f : Fifo UInt8) : Prop where
  valid : x.CircValid
  contents_eq : x.contents = f.contents
  iwrites_eq : x.iwrites.flatten = f.output

/-- Simulation: an admissible even operation is the queue's operation. -/
theorem circStep_refines (x : XiomasTcpExport out ι) (f : Fifo UInt8) (op : FifoOp UInt8)
    (hr : CircRefines x f) (ha : x.CircAdmissible op) (he : x.CircEven op) :
    ∃ y g, x.circStep op = some y ∧ f.step op = some g ∧ CircRefines y g := by
  cases op with
  | push data =>
    obtain ⟨y, hy, hf, hc, -⟩ := circCommit_even x hr.valid data ha he
    refine ⟨y, _, hy, rfl, hf.valid, ?_, ?_⟩
    · rw [hc, hr.contents_eq]
    · rw [hf.frame]
      exact hr.iwrites_eq
  | pop n =>
    obtain ⟨y, hy, ht⟩ := circTransmit_spec x hr.valid n ha
    have hn : n ≤ f.contents.length := by
      rw [← hr.contents_eq, length_contents]
      exact ha
    refine ⟨y, _, hy, if_pos hn, ht.valid, ?_, ?_⟩
    · rw [ht.contents_eq, hr.contents_eq]
    · obtain ⟨spans, h1, h2, -⟩ := ht.spans
      rw [h1, List.flatten_append, hr.iwrites_eq, h2, hr.contents_eq]

theorem exactFifo_of_refines (x : XiomasTcpExport out ι) (f : Fifo UInt8)
    (ops : List (FifoOp UInt8)) (hr : CircRefines x f)
    (hf : Run.run Fifo.step Fifo.empty ops = some f) : ExactFifo ops x := by
  obtain ⟨ho, hl⟩ := Fifo.run_empty f ops hf
  have hle := circLength_le x hr.valid
  constructor
  · rw [← length_contents, hr.contents_eq, hl]
  · rw [circSpace_eq x hr.valid]
    omega
  · rw [hr.iwrites_eq, ho]

/-- The buffer is an exact byte queue in exactly those runs in which no commit is
split unevenly at the end of the array. -/
theorem circ_buffer_exactFifo_iff (circ : ℕ → UInt8) (sock : out.State)
    (ops : List (FifoOp UInt8))
    (h : Run.Along circStep CircAdmissible (new circ sock : XiomasTcpExport out ι) ops) :
    Run.Throughout circStep ExactFifo (new circ sock : XiomasTcpExport out ι) ops ↔
      Run.Along circStep CircEven (new circ sock : XiomasTcpExport out ι) ops := by
  apply Run.throughout_iff_along circStep CircAdmissible CircEven
    (fun ops x => ∃ f, Run.run Fifo.step Fifo.empty ops = some f ∧ CircRefines x f) ExactFifo
  · rintro ops x ⟨f, hf, hr⟩
    exact exactFifo_of_refines x f ops hr hf
  · rintro ops x op ⟨f, hf, hr⟩ ha he
    obtain ⟨y, g, hy, hg, hr'⟩ := circStep_refines x f op hr ha he
    refine ⟨y, hy, g, ?_, hr'⟩
    rw [Run.run_append, hf, Option.bind_some, Run.run_cons_of_step _ hg]
    rfl
  · rintro ops x op y ⟨f, hf, hr⟩ ha he hy hq
    cases op with
    | push data =>
      have hl := exactFifo_of_refines x f ops hr hf
      apply circCommit_uneven x y hr.valid data ha he hy
      have h1 := hq.length_eq
      have h2 := hl.length_eq
      have hp : Fifo.pushed (ops ++ [.push data]) = Fifo.pushed ops ++ data := by
        simp [Fifo.pushed]
      have hn : Fifo.popped (ops ++ [FifoOp.push data]) = Fifo.popped ops := by
        simp [Fifo.popped]
      rw [hp, hn, List.length_append] at h1
      omega
    | pop n => exact absurd trivial he
  · exact ⟨Fifo.empty, rfl, circValid_new circ sock, contents_new circ sock, rfl⟩
  · exact h

/-- Two bytes in and one out: the hypothesis of the equivalence can be met. -/
theorem circ_buffer_exactFifo_two_bytes :
    Run.Throughout circStep ExactFifo
        (new (fun _ => 0) () : XiomasTcpExport OutputSocket.direct Unit) [.push [7,8], .pop 1] ↔
      Run.Along circStep CircEven
        (new (fun _ => 0) () : XiomasTcpExport OutputSocket.direct Unit) [.push [7,8], .pop 1] := by
  apply circ_buffer_exactFifo_iff
  refine ⟨(by decide : 2 ≤ 270000), fun y hy => ⟨?_, fun _ _ => trivial⟩⟩
  obtain ⟨z, hz, -, hpos⟩ := circCommit_frame
    (new (fun _ => 0) () : XiomasTcpExport OutputSocket.direct Unit) (circValid_new _ _) [7,8]
  obtain rfl := Option.some.inj (hz.symm.trans hy)
  exact hpos (by decide)

/-- Fill all but one byte of the array, transmit ten, commit ten: one byte of the
last commit goes to the end of the array and nine to its front, but the tail
comes to stand behind the first of the nine. -/
theorem exactFifo_fails_after_split (circ : ℕ → UInt8) (sock : out.State) (fill more : List UInt8)
    (hfill : fill.length = 269999) (hmore : more.length = 10) :
    Run.Along circStep CircAdmissible (new circ sock : XiomasTcpExport out ι)
        [.push fill, .pop 10, .push more] ∧
      ¬Run.Throughout circStep ExactFifo (new circ sock : XiomasTcpExport out ι)
        [.push fill, .pop 10, .push more] := by
  have hxv : (new circ sock : XiomasTcpExport out ι).CircValid := circValid_new circ sock
  have hxc : (new circ sock : XiomasTcpExport out ι).contents = [] := contents_new circ sock
  have hxl : circLength (new circ sock : XiomasTcpExport out ι) = 0 := by
    rw [← length_contents, hxc, List.length_nil]
  have hxr : tailSpace (rewind (new circ sock : XiomasTcpExport out ι)) = 270000 := by
    simp [rewind, tailSpace, new, circBufferSize]
  have hxh : circHead (rewind (new circ sock : XiomasTcpExport out ι)) = 0 := by
    simp [rewind, new]
  have hxs : circSize (new circ sock : XiomasTcpExport out ι) = 270000 := rfl
  have hd : fill ≠ [] := List.ne_nil_of_length_pos (by omega)
  generalize (new circ sock : XiomasTcpExport out ι) = x at *
  have hadm : fill.length ≤ x.circSpace := by
    rw [circSpace_eq x hxv]
    omega
  obtain ⟨y, hy, hyf, hyh⟩ := circCopy_frame x hxv fill hd (by omega)
  have hyc := (circCopy_even x hxv fill hd (by omega) (Or.inl (by omega)) y hy).1
  have hyl : y.circLength = 269999 := by
    rw [← length_contents, hyc, hxc, List.nil_append, hfill]
  have hys : y.circSize = 270000 := by rw [hyf.frame]; exact hxs
  obtain ⟨z, hz, hzt⟩ := circTransmit_spec y hyf.valid 10 (by omega)
  have hzl : z.circLength = 269989 := by rw [hzt.length_eq, hyl]
  have hzs : z.circSize = 270000 := by rw [hzt.frame]; exact hys
  have hzz : z.circTail = y.circTail := by rw [hzt.frame]
  have huneven : ¬z.CommitsEvenly more := by
    -- The tail stands before the last cell, so one byte fits behind it.
    have ht : y.circTail = 269999 := by
      rcases circValid_cases y hyf.valid with ⟨h, -⟩ | ⟨-, -, -, h⟩
      · omega
      · rw [h, hyh, hxh, hyl, hys]
    rcases circValid_cases z hzt.valid with ⟨-, h⟩ | ⟨h1, -, -, h2⟩
    · omega
    · rw [hzl, hzs] at h2
      have hspace : z.rewind.tailSpace = 1 := by
        rw [rewind, if_neg (by omega), tailSpace, if_pos (by omega)]
        omega
      rw [CommitsEvenly, hspace, hmore]
      decide
  have hfit : more.length ≤ z.circSpace := by
    rw [circSpace_eq z hzt.valid]
    omega
  have hcommit : x.circStep (.push fill) = some y :=
    (circCommit_of_fits x fill hd hadm).trans hy
  have htransmit : y.circStep (.pop 10) = some z := hz
  constructor
  · refine (Run.along_cons_of_step _ hcommit _).mpr ⟨hadm, ?_⟩
    refine (Run.along_cons_of_step _ htransmit _).mpr ⟨?_, hfit, fun _ _ => trivial⟩
    change 10 ≤ y.circLength
    omega
  · intro h
    obtain ⟨w, hw, hq⟩ := h _ List.prefix_rfl
    rw [Run.run_cons_of_step _ hcommit, Run.run_cons_of_step _ htransmit] at hw
    have hw' : z.circCommit more = some w := by simpa [Run.run, circStep] using hw
    apply circCommit_uneven z w hzt.valid more hfit huneven hw'
    have hl := hq.length_eq
    simp only [Fifo.popped, Fifo.pushed, List.foldr_cons, List.foldr_nil, List.flatMap_cons,
      List.flatMap_nil, List.length_append, List.length_nil] at hl
    omega

theorem circ_buffer_not_exactFifo :
    Run.Along circStep CircAdmissible
        (new (fun _ => 0) () : XiomasTcpExport OutputSocket.direct Unit)
        [.push (List.replicate 269999 1), .pop 10, .push (List.replicate 10 2)] ∧
      ¬Run.Throughout circStep ExactFifo
        (new (fun _ => 0) () : XiomasTcpExport OutputSocket.direct Unit)
        [.push (List.replicate 269999 1), .pop 10, .push (List.replicate 10 2)] :=
  exactFifo_fails_after_split _ _ _ _ List.length_replicate List.length_replicate

end Cosmid.Xiomas.XiomasTcpExport
