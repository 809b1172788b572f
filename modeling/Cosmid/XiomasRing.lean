import Cosmid.XiomasExport

/-! The circular buffer of `xiomas_tcp_export` as a queue of bytes. Empty is the
out-of-range head `circ_size+1`, and `circ_head == circ_tail` is full. -/
namespace Cosmid.Xiomas.XiomasTcpExport

variable {out : OutputSocket} {ι : Type}

/-- The registers describe a queue. -/
structure CircValid (x : XiomasTcpExport out ι) : Prop where
  size_lt : x.circSize < 2147483648
  tail_lt : x.circTail < x.circSize
  head_cases : x.circHead < x.circSize ∨ x.circHead = x.circSize+1
  outstanding_lt : x.outstandingBytes < 4294967296

/-- The bytes stored in the buffer, oldest first. -/
def contents (x : XiomasTcpExport out ι) : List UInt8 :=
  Ring.span x.circ x.circSize x.circHead x.circLength

@[simp] theorem length_contents (x : XiomasTcpExport out ι) : x.contents.length = x.circLength :=
  Ring.length_span _ _ _ _

theorem circValid_new (circ : ℕ → UInt8) (sock : out.State) :
    (new circ sock : XiomasTcpExport out ι).CircValid := by
  constructor <;> simp [new, circBufferSize]

theorem contents_new (circ : ℕ → UInt8) (sock : out.State) :
    (new circ sock : XiomasTcpExport out ι).contents = [] := by
  simp [contents, circLength, new]

/-- Going `k` bytes forward from a head inside the array passes its end at most once. -/
theorem wrap_cases (size head k : ℕ) (hh : head < size) (hk : k ≤ size) :
    (head+k < size ∧ (head+k)%size = head+k) ∨
      (size ≤ head+k ∧ (head+k)%size = head+k-size) := by
  by_cases h : head+k < size
  · exact Or.inl ⟨h, Nat.mod_eq_of_lt h⟩
  · refine Or.inr ⟨by omega, ?_⟩
    rw [Nat.mod_eq_sub_mod (by omega), Nat.mod_eq_of_lt (by omega)]

theorem circLength_of_empty (x : XiomasTcpExport out ι) (h : x.circHead = x.circSize+1) :
    x.circLength = 0 := by
  simp [circLength, h]

/-- The length is read off the tail, for any length from 1 up to a full buffer. -/
theorem circLength_of_tail (x : XiomasTcpExport out ι) (hs : x.circSize < 2147483648)
    (hh : x.circHead < x.circSize) (k : ℕ) (hk : 0 < k) (hks : k ≤ x.circSize)
    (ht : x.circTail = (x.circHead+k)%x.circSize) : x.circLength = k := by
  unfold circLength u32Sub u32
  rcases wrap_cases x.circSize x.circHead k hh hks with ⟨h1, h2⟩ | ⟨h1, h2⟩
  · rw [if_neg (by omega), if_pos (by omega)]
    omega
  · rw [if_neg (by omega), if_neg (by omega)]
    omega

/-- The two shapes of a valid buffer. -/
theorem circValid_cases (x : XiomasTcpExport out ι) (hv : x.CircValid) :
    (x.circHead = x.circSize+1 ∧ x.circLength = 0) ∨
    (x.circHead < x.circSize ∧ 0 < x.circLength ∧ x.circLength ≤ x.circSize ∧
      x.circTail = (x.circHead+x.circLength)%x.circSize) := by
  have hs := hv.size_lt
  have ht := hv.tail_lt
  rcases hv.head_cases with hh | hh
  · right
    have hlen : ∃ k, 0 < k ∧ k ≤ x.circSize ∧ x.circTail = (x.circHead+k)%x.circSize := by
      by_cases hc : x.circHead < x.circTail
      · refine ⟨x.circTail-x.circHead, by omega, by omega, ?_⟩
        rw [Nat.add_sub_cancel' (by omega), Nat.mod_eq_of_lt ht]
      · refine ⟨x.circSize-x.circHead+x.circTail, by omega, by omega, ?_⟩
        have : x.circHead+(x.circSize-x.circHead+x.circTail) = x.circTail+x.circSize := by omega
        rw [this, Nat.add_mod_right, Nat.mod_eq_of_lt ht]
    obtain ⟨k, hk, hks, hkt⟩ := hlen
    rw [circLength_of_tail x hs hh k hk hks hkt]
    exact ⟨hh, hk, hks, hkt⟩
  · exact Or.inl ⟨hh, circLength_of_empty x hh⟩

theorem circLength_le (x : XiomasTcpExport out ι) (hv : x.CircValid) :
    x.circLength ≤ x.circSize := by
  rcases circValid_cases x hv with ⟨-, h⟩ | ⟨-, -, h, -⟩ <;> omega

theorem circSpace_eq (x : XiomasTcpExport out ι) (hv : x.CircValid) :
    x.circSpace = x.circSize-x.circLength := by
  have hle := circLength_le x hv
  have hs := hv.size_lt
  unfold circSpace u32Sub u32
  omega

/-- At least the contiguous part of the contents can be consumed at once. With a
tail behind the head the source's value is a wrapped negative number, which is
larger than any length. -/
theorem circHeadBytes_spec (x : XiomasTcpExport out ι) (hv : x.CircValid)
    (hpos : 0 < x.circLength) :
    0 < x.circHeadBytes ∧ min x.circLength (x.circSize-x.circHead) ≤ x.circHeadBytes ∧
      (x.circHead+x.circHeadBytes ≤ x.circSize ∨ x.circHead+x.circLength ≤ x.circSize) := by
  rcases circValid_cases x hv with ⟨-, h⟩ | ⟨hh, -, hle, ht⟩
  · omega
  have hs := hv.size_lt
  have htl := hv.tail_lt
  unfold circHeadBytes u32Sub u32
  rcases wrap_cases x.circSize x.circHead x.circLength hh hle with ⟨h1, h2⟩ | ⟨h1, h2⟩
  · rw [if_neg (by omega), if_pos (by omega)]
    omega
  · rw [if_neg (by omega), if_neg (by omega)]
    omega

/-- What a successful `circ_transmit` of `n` bytes did. -/
structure Transmitted (x : XiomasTcpExport out ι) (n : ℕ) (y : XiomasTcpExport out ι) : Prop where
  valid : y.CircValid
  contents_eq : y.contents = x.contents.drop n
  outstanding_eq : y.outstandingBytes = u32 (x.outstandingBytes+n)
  spans : ∃ spans, y.iwrites = x.iwrites ++ spans ∧ spans.flatten = x.contents.take n ∧
    y.sock = spans.foldl (fun s span => out.iwrite span s) x.sock
  frame : y = {x with
    circHead := y.circHead, outstandingBytes := y.outstandingBytes
    iwrites := y.iwrites, sock := y.sock}

theorem Transmitted.length_eq {x y : XiomasTcpExport out ι} {n : ℕ} (h : Transmitted x n y) :
    y.circLength = x.circLength-n := by
  rw [← length_contents, ← length_contents, h.contents_eq, List.length_drop]

/-- Where the head is after `n` contiguous bytes are consumed. It can meet the
tail only when the last byte is gone. -/
theorem circConsume_eq (x : XiomasTcpExport out ι) (hv : x.CircValid) (n : ℕ) (hn : 0 < n)
    (hle : n ≤ x.circLength) (hhead : n ≤ x.circHeadBytes) (hpos : 0 < x.circLength)
    (hend : x.circHead+n ≤ x.circSize) :
    ∃ head, x.circConsume n =
        some {x with outstandingBytes := u32 (x.outstandingBytes+n), circHead := head} ∧
      ((head = x.circSize+1 ∧ n = x.circLength) ∨ (n < x.circLength ∧
        head = (x.circHead+n)%x.circSize ∧
        x.circTail = (head+(x.circLength-n))%x.circSize)) := by
  rcases circValid_cases x hv with ⟨-, h⟩ | ⟨hh, -, hlen, ht⟩
  · omega
  have hs := hv.size_lt
  have hhead' : u32 (x.circHead+n) = x.circHead+n := by unfold u32; omega
  have hnext : (if x.circHead+n = x.circSize then 0 else x.circHead+n) =
      (x.circHead+n)%x.circSize := by
    rcases wrap_cases x.circSize x.circHead n hh (by omega) with ⟨h1, h2⟩ | ⟨h1, h2⟩
    · rw [h2, if_neg (by omega)]
    · rw [h2, if_pos (by omega)]
      omega
  simp only [circConsume, if_pos hhead, hhead', hnext]
  refine ⟨_, rfl, ?_⟩
  by_cases hall : n = x.circLength
  · left
    exact ⟨by rw [hall, ← ht, if_pos rfl], hall⟩
  · right
    have hsplit : (x.circHead+x.circLength)%x.circSize =
        ((x.circHead+n)%x.circSize+(x.circLength-n))%x.circSize := by
      rw [Nat.mod_add_mod]
      congr 1
      omega
    have hmod : (x.circHead+n)%x.circSize < x.circSize := Nat.mod_lt _ (by omega)
    have hne : (x.circHead+n)%x.circSize ≠ x.circTail := by
      rw [ht, hsplit]
      rcases wrap_cases x.circSize ((x.circHead+n)%x.circSize) (x.circLength-n) hmod (by omega)
        with ⟨h1, h2⟩ | ⟨h1, h2⟩ <;> omega
    rw [if_neg hne]
    exact ⟨by omega, rfl, ht.trans hsplit⟩

/-- Consuming `n` contiguous bytes drops them from the queue. -/
theorem circConsume_spec (x : XiomasTcpExport out ι) (hv : x.CircValid) (n : ℕ) (hn : 0 < n)
    (hle : n ≤ x.circLength) (hhead : n ≤ x.circHeadBytes) (hpos : 0 < x.circLength)
    (hend : x.circHead+n ≤ x.circSize) :
    ∃ y, x.circConsume n = some y ∧ y.CircValid ∧ y.contents = x.contents.drop n ∧
      y = {x with outstandingBytes := u32 (x.outstandingBytes+n), circHead := y.circHead} := by
  obtain ⟨head, hc, hcases⟩ := circConsume_eq x hv n hn hle hhead hpos hend
  have hs := hv.size_lt
  have ht := hv.tail_lt
  have hlen := circLength_le x hv
  have hout : u32 (x.outstandingBytes+n) < 4294967296 := Nat.mod_lt _ (by decide)
  have hmod (hh : head = (x.circHead+n)%x.circSize) : head < x.circSize := by
    rw [hh]
    exact Nat.mod_lt _ (by omega)
  set y : XiomasTcpExport out ι :=
    {x with outstandingBytes := u32 (x.outstandingBytes+n), circHead := head} with hy
  refine ⟨y, hc, ?_, ?_, rfl⟩
  · refine ⟨hs, ht, ?_, hout⟩
    rcases hcases with ⟨hh, -⟩ | ⟨-, hh, -⟩
    · exact Or.inr hh
    · exact Or.inl (hmod hh)
  · unfold contents
    rw [Ring.span_drop _ _ _ _ _ hle]
    rcases hcases with ⟨hh, hn⟩ | ⟨hn, hh, hk⟩
    · rw [circLength_of_empty y hh, hn, Nat.sub_self]
      rfl
    · rw [circLength_of_tail y hs (hmod hh) (x.circLength-n) (by omega)
        (Nat.le_trans (Nat.sub_le _ _) hlen) hk, ← hh]

/-- The first span of a transmission, `t` bytes from `circ_head` on, with the registers
behind it. -/
theorem circTransmit_span (x : XiomasTcpExport out ι) (hv : x.CircValid) (n : ℕ) (hn : 0 < n)
    (hle : n ≤ x.circLength) : ∃ t y, t = (if n < x.circHeadBytes then n else x.circHeadBytes) ∧
      0 < t ∧ t ≤ n ∧ 0 < x.circHeadBytes ∧ x.circHead+t ≤ x.circSize ∧
      Ring.flat x.circ x.circHead t = x.contents.take t ∧
      circConsume {x with
        iwrites := x.iwrites ++ [Ring.flat x.circ x.circHead t]
        sock := out.iwrite (Ring.flat x.circ x.circHead t) x.sock} t = some y ∧
      y.CircValid ∧ y.contents = x.contents.drop t ∧ y = {x with
        iwrites := x.iwrites ++ [Ring.flat x.circ x.circHead t]
        sock := out.iwrite (Ring.flat x.circ x.circHead t) x.sock
        outstandingBytes := u32 (x.outstandingBytes+t)
        circHead := y.circHead} := by
  obtain ⟨hhb, hmin, hend⟩ := circHeadBytes_spec x hv (by omega)
  obtain ⟨t, ht⟩ : ∃ t, t = if n < x.circHeadBytes then n else x.circHeadBytes := ⟨_, rfl⟩
  have htn : 0 < t ∧ t ≤ n ∧ t ≤ x.circHeadBytes ∧ x.circHead+t ≤ x.circSize := by
    rw [ht]
    split <;> omega
  obtain ⟨ht0, htn, htb, hte⟩ := htn
  set w : XiomasTcpExport out ι := {x with
    iwrites := x.iwrites ++ [Ring.flat x.circ x.circHead t]
    sock := out.iwrite (Ring.flat x.circ x.circHead t) x.sock}
  have hwv : w.CircValid := ⟨hv.size_lt, hv.tail_lt, hv.head_cases, hv.outstanding_lt⟩
  have hwl : w.circLength = x.circLength := rfl
  have hfirst : Ring.flat x.circ x.circHead t = x.contents.take t := by
    rw [contents, Ring.span_take _ _ _ _ _ (by omega), Ring.span_eq_flat _ _ _ _ hte]
  obtain ⟨y, hy, hyv, hyc, hyx⟩ := circConsume_spec w hwv t ht0 (by omega) htb (by omega) hte
  exact ⟨t, y, ht, ht0, htn, hhb, hte, hfirst, hy, hyv, hyc, hyx⟩

/-- `circ_transmit` hands the first `n` bytes of the queue to the socket, in one
or two spans. -/
theorem circTransmit_spec (x : XiomasTcpExport out ι) (hv : x.CircValid) (n : ℕ)
    (hle : n ≤ x.circLength) : ∃ y, x.circTransmit n = some y ∧ Transmitted x n y := by
  induction n using Nat.strongRecOn generalizing x with
  | _ n ih =>
    rw [circTransmit]
    by_cases h0 : n = 0
    · subst h0
      refine ⟨x, if_pos rfl, hv, rfl, ?_, ⟨[], by simp⟩, rfl⟩
      exact (Nat.mod_eq_of_lt hv.outstanding_lt).symm
    · -- The first span; the rest is left to the recursive call.
      obtain ⟨t, y, ht, ht0, htn, hhb, -, hfirst, hy, hyv, hyc, hyx⟩ :=
        circTransmit_span x hv n (by omega) hle
      have hylen : y.circLength = x.circLength-t := by
        rw [← length_contents, hyc, List.length_drop, length_contents]
      obtain ⟨z, hz, hzt⟩ := ih (n-t) (by omega) y hyv (by omega)
      simp only [if_neg h0, if_pos hhb, ← ht, hy]
      refine ⟨z, hz, hzt.valid, ?_, ?_, ?_, ?_⟩
      · rw [hzt.contents_eq, hyc, List.drop_drop, Nat.add_sub_cancel' htn]
      · rw [hzt.outstanding_eq, hyx]
        simp only [u32]
        omega
      · obtain ⟨spans, h1, h2, h3⟩ := hzt.spans
        refine ⟨Ring.flat x.circ x.circHead t :: spans, ?_, ?_, ?_⟩
        · rw [h1, hyx]
          simp only [List.append_assoc, List.singleton_append]
        · rw [List.flatten_cons, h2, hyc, hfirst, ← List.take_add, Nat.add_sub_cancel' htn]
        · rw [h3, hyx]
          rfl
      · have hf := hzt.frame
        rw [hyx] at hf
        exact hf

/-- A commit that either stops before the end of the array or leaves as much for
the front as it put behind the tail. Only then does the tail end up behind the
last byte written. -/
def CommitsEvenly (x : XiomasTcpExport out ι) (data : List UInt8) : Prop :=
  data.length ≤ x.rewind.tailSpace ∨ data.length = 2*x.rewind.tailSpace

instance (x : XiomasTcpExport out ι) (data : List UInt8) : Decidable (x.CommitsEvenly data) :=
  inferInstanceAs (Decidable (_ ∨ _))

/-- Only the empty buffer is rewound. -/
theorem rewind_cases (x : XiomasTcpExport out ι) (hv : x.CircValid) :
    (x.circHead = x.circSize+1 ∧ x.circLength = 0 ∧
      x.rewind = {x with circHead := 0, circTail := 0}) ∨
    (x.circHead < x.circSize ∧ 0 < x.circLength ∧ x.circLength ≤ x.circSize ∧
      x.circTail = (x.circHead+x.circLength)%x.circSize ∧ x.rewind = x) := by
  rcases circValid_cases x hv with ⟨hh, hl⟩ | ⟨hh, hpos, hle, ht⟩
  · exact Or.inl ⟨hh, hl, by rw [rewind, if_pos (by omega)]⟩
  · exact Or.inr ⟨hh, hpos, hle, ht, by rw [rewind, if_neg (by omega)]⟩

/-- After `rewind` the tail is where the next byte goes and the head is inside
the array, also when nothing is stored. -/
theorem rewind_spec (x : XiomasTcpExport out ι) (hv : x.CircValid) :
    x.rewind.circHead < x.circSize ∧
      x.rewind.circTail = (x.rewind.circHead+x.circLength)%x.circSize ∧
      Ring.span x.circ x.circSize x.rewind.circHead x.circLength = x.contents ∧
      x.rewind = {x with circHead := x.rewind.circHead, circTail := x.rewind.circTail} := by
  rcases rewind_cases x hv with ⟨hh, hl, hr⟩ | ⟨hh, -, -, ht, hr⟩
  · have := hv.tail_lt
    simp only [hr, contents, hl]
    exact ⟨by omega, rfl, rfl, trivial⟩
  · simp only [hr]
    exact ⟨hh, ht, rfl, trivial⟩

/-- The registers and the memory that `circ_commit` leaves behind. -/
theorem circCopy_eq (x : XiomasTcpExport out ι) (hv : x.CircValid) (data : List UInt8)
    (hd : data ≠ []) (hfit : x.circLength+data.length ≤ x.circSize) :
    (data.length ≤ x.rewind.tailSpace ∧ x.circCopy data = some {x.rewind with
      circ := Ring.blit x.circ x.rewind.circTail data
      circTail := (x.rewind.circTail+data.length)%x.circSize}) ∨
    (x.rewind.tailSpace < data.length ∧ 0 < x.rewind.tailSpace ∧
      x.rewind.circTail+x.rewind.tailSpace = x.circSize ∧ x.rewind.tailSpace < x.circSize ∧
      x.circCopy data = some {x.rewind with
        circ := Ring.blit (Ring.blit x.circ x.rewind.circTail (data.take x.rewind.tailSpace)) 0
          (data.drop x.rewind.tailSpace)
        circTail := x.rewind.tailSpace}) := by
  obtain ⟨hh, ht, -, hr⟩ := rewind_spec x hv
  have hlen : 0 < data.length := List.length_pos_of_ne_nil hd
  have hsz : x.rewind.circSize = x.circSize := by rw [hr]
  have hci : x.rewind.circ = x.circ := by rw [hr]
  have hle := circLength_le x hv
  -- How the room behind the tail relates to the free room.
  have hroom : (x.rewind.circHead ≤ x.rewind.circTail ∧
        x.rewind.tailSpace = x.circSize-x.rewind.circTail ∧
        (x.rewind.circTail = x.rewind.circHead+x.circLength)) ∨
      (x.rewind.circTail+x.circSize = x.rewind.circHead+x.circLength ∧
        x.rewind.tailSpace = x.circSize-x.circLength) := by
    unfold tailSpace
    rcases wrap_cases x.circSize x.rewind.circHead x.circLength hh hle with ⟨h1, h2⟩ | ⟨h1, h2⟩
    · left
      rw [if_pos (by omega), hsz]
      omega
    · right
      rw [if_neg (by omega)]
      omega
  have htl : x.rewind.circTail < x.circSize := by
    rw [ht]
    exact Nat.mod_lt _ (by omega)
  unfold circCopy
  dsimp only
  by_cases hfits : data.length ≤ x.rewind.tailSpace
  · left
    refine ⟨hfits, ?_⟩
    have hmin : (if data.length < x.rewind.tailSpace then data.length else x.rewind.tailSpace) =
        data.length := by split <;> omega
    rw [hmin, List.take_length, List.drop_length, hsz, hci, if_pos (by omega), if_pos rfl]
    rcases wrap_cases x.circSize x.rewind.circTail data.length htl (by omega) with
      ⟨h1, h2⟩ | ⟨h1, h2⟩
    · rw [h2, if_neg (by omega)]
    · rw [h2, if_pos (by omega), show x.rewind.circTail+data.length-x.circSize = 0 by omega]
  · right
    have hmin : (if data.length < x.rewind.tailSpace then data.length else x.rewind.tailSpace) =
        x.rewind.tailSpace := by split <;> omega
    have hdrop : data.drop x.rewind.tailSpace ≠ [] := by
      rw [ne_eq, List.drop_eq_nil_iff]
      omega
    have hdl : (data.drop x.rewind.tailSpace).length = data.length-x.rewind.tailSpace :=
      List.length_drop
    have hend : x.rewind.circTail+x.rewind.tailSpace = x.circSize := by omega
    have hrest : (data.drop x.rewind.tailSpace).length ≤ x.rewind.circHead := by omega
    refine ⟨by omega, by omega, hend, by omega, ?_⟩
    simp only [hmin, hsz, hci, hend, Nat.le_refl, if_true, if_neg hdrop, hrest, and_self,
      Nat.zero_add]

/-- What every `circ_commit` leaves alone, with the registers still valid. -/
structure CommitFrame (x y : XiomasTcpExport out ι) : Prop where
  valid : y.CircValid
  frame : y = {x with
    circ := y.circ, circHead := y.circHead, circTail := y.circTail, overflows := y.overflows}

theorem circCopy_frame (x : XiomasTcpExport out ι) (hv : x.CircValid) (data : List UInt8)
    (hd : data ≠ []) (hfit : x.circLength+data.length ≤ x.circSize) :
    ∃ y, x.circCopy data = some y ∧ CommitFrame x y ∧ y.circHead = x.rewind.circHead := by
  obtain ⟨hh, -, -, hr⟩ := rewind_spec x hv
  have hs := hv.size_lt
  have hsize : x.rewind.circSize = x.circSize := by rw [hr]
  have hout : x.rewind.outstandingBytes < 4294967296 := by rw [hr]; exact hv.outstanding_lt
  have hcases : x.rewind.circHead < x.rewind.circSize ∨
      x.rewind.circHead = x.rewind.circSize+1 := Or.inl (by rw [hsize]; exact hh)
  rcases circCopy_eq x hv data hd hfit with ⟨-, hc⟩ | ⟨-, -, -, hts, hc⟩
  · refine ⟨_, hc, ⟨⟨hsize ▸ hs, ?_, hcases, hout⟩, ?_⟩, rfl⟩
    · exact hsize ▸ Nat.mod_lt _ (by omega)
    · dsimp only
      rw [hr]
  · refine ⟨_, hc, ⟨⟨hsize ▸ hs, hsize ▸ hts, hcases, hout⟩, ?_⟩, rfl⟩
    dsimp only
    rw [hr]

/-- An even commit appends its bytes to the queue. -/
theorem circCopy_even (x : XiomasTcpExport out ι) (hv : x.CircValid) (data : List UInt8)
    (hd : data ≠ []) (hfit : x.circLength+data.length ≤ x.circSize)
    (he : x.CommitsEvenly data) (y : XiomasTcpExport out ι) (hy : x.circCopy data = some y) :
    y.contents = x.contents ++ data ∧ y.overflows = x.overflows := by
  obtain ⟨hh, ht, hsp, hr⟩ := rewind_spec x hv
  have hs := hv.size_lt
  have hlen : 0 < data.length := List.length_pos_of_ne_nil hd
  have hsize : x.rewind.circSize = x.circSize := by rw [hr]
  have hover : x.rewind.overflows = x.overflows := by rw [hr]
  have htl : x.rewind.circTail < x.circSize := by
    rw [ht]
    exact Nat.mod_lt _ (by omega)
  -- The tail the registers need for a queue that is `data.length` longer.
  have hgoal : (x.rewind.circTail+data.length)%x.circSize =
      (x.rewind.circHead+(x.circLength+data.length))%x.circSize := by
    rw [ht, Nat.mod_add_mod, Nat.add_assoc]
  rcases circCopy_eq x hv data hd hfit with ⟨hle, hc⟩ | ⟨hgt, hts0, hend, hts, hc⟩
  · obtain rfl := Option.some.inj (hc.symm.trans hy)
    have hl := circLength_of_tail {x.rewind with
      circ := Ring.blit x.circ x.rewind.circTail data
      circTail := (x.rewind.circTail+data.length)%x.circSize}
      (by rw [hsize]; exact hs) (by rw [hsize]; exact hh) (x.circLength+data.length)
      (by omega) (by rw [hsize]; exact hfit) (by rw [hsize]; exact hgoal)
    refine ⟨?_, hover⟩
    have hroom : x.rewind.circTail+data.length ≤ x.circSize := by
      unfold tailSpace at hle
      rw [hsize] at hle
      split at hle <;> omega
    rw [contents, hl, ← hsp]
    simp only [hsize]
    rw [ht] at hroom ⊢
    exact Ring.span_append_blit x.circ x.circSize x.rewind.circHead x.circLength data
      (by omega) hfit hroom
  · obtain rfl := Option.some.inj (hc.symm.trans hy)
    have heven : data.length = 2*x.rewind.tailSpace := by
      rcases he with he | he
      · omega
      · exact he
    set fst := data.take x.rewind.tailSpace with hfst
    set snd := data.drop x.rewind.tailSpace with hsnd
    have hfl : fst.length = x.rewind.tailSpace := by rw [hfst, List.length_take]; omega
    have hsl : snd.length = x.rewind.tailSpace := by rw [hsnd, List.length_drop]; omega
    -- Behind the first part the tail is back at address 0.
    have hzero : (x.rewind.circHead+(x.circLength+fst.length))%x.circSize = 0 := by
      rw [← Nat.add_assoc, ← Nat.mod_add_mod, ← ht, hfl, hend, Nat.mod_self]
    have htail : x.rewind.tailSpace =
        (x.rewind.circHead+(x.circLength+data.length))%x.circSize := by
      have hsum : x.rewind.circHead+(x.circLength+data.length) =
          x.rewind.circHead+(x.circLength+fst.length)+x.rewind.tailSpace := by omega
      rw [hsum, ← Nat.mod_add_mod, hzero, Nat.zero_add, Nat.mod_eq_of_lt hts]
    have hl := circLength_of_tail {x.rewind with
      circ := Ring.blit (Ring.blit x.circ x.rewind.circTail fst) 0 snd
      circTail := x.rewind.tailSpace}
      (by rw [hsize]; exact hs) (by rw [hsize]; exact hh) (x.circLength+data.length)
      (by omega) (by rw [hsize]; exact hfit) (by rw [hsize]; exact htail)
    refine ⟨?_, hover⟩
    have hfirst := Ring.span_append_blit x.circ x.circSize x.rewind.circHead x.circLength fst
      (by omega) (by omega) (by rw [← ht]; omega)
    have hsecond := Ring.span_append_blit (Ring.blit x.circ x.rewind.circTail fst) x.circSize
      x.rewind.circHead (x.circLength+fst.length) snd (by omega) (by omega)
      (by rw [hzero]; omega)
    have hdata : fst ++ snd = data := List.take_append_drop _ _
    rw [contents, hl, ← hsp]
    simp only [hsize]
    rw [← ht] at hfirst
    rw [hzero, hfirst, List.append_assoc, hdata] at hsecond
    rw [← hsecond]
    congr 1
    omega

/-- An uneven commit leaves a queue of the wrong length. -/
theorem circCopy_uneven (x : XiomasTcpExport out ι) (hv : x.CircValid) (data : List UInt8)
    (hd : data ≠ []) (hfit : x.circLength+data.length ≤ x.circSize)
    (he : ¬x.CommitsEvenly data) (y : XiomasTcpExport out ι) (hy : x.circCopy data = some y) :
    y.circLength ≠ x.circLength+data.length := by
  obtain ⟨hh, ht, -, hr⟩ := rewind_spec x hv
  have hs := hv.size_lt
  have hsize : x.rewind.circSize = x.circSize := by rw [hr]
  obtain ⟨hne1, hne2⟩ := not_or.mp he
  rcases circCopy_eq x hv data hd hfit with ⟨hle, -⟩ | ⟨hgt, hts0, hend, hts, hc⟩
  · exact absurd hle hne1
  · obtain rfl := Option.some.inj (hc.symm.trans hy)
    generalize x.circLength = n at ht hfit
    intro hl
    unfold circLength u32Sub u32 at hl
    simp only [hsize] at hl
    rcases wrap_cases x.circSize x.rewind.circHead n hh (by omega) with
      ⟨h1, h2⟩ | ⟨h1, h2⟩
    · rw [if_neg (by omega)] at hl
      split at hl <;> omega
    · omega

end Cosmid.Xiomas.XiomasTcpExport
