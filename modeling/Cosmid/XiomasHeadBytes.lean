import Cosmid.XiomasRing

/-! `circ_head_bytes` against the bytes that lie contiguously at the head. It agrees
with them when the tail is not behind the head; otherwise the difference is taken the
wrong way around and the assertion of `circ_consume` lets everything through. -/
namespace Cosmid.Xiomas.XiomasTcpExport

variable {out : OutputSocket} {ι : Type}

/-- The stored bytes from the head up to the tail or the end of the array. -/
def contiguous (x : XiomasTcpExport out ι) : ℕ :=
  if x.circHead > x.circSize then 0 else min x.circLength (x.circSize-x.circHead)

/-- No request beyond the contiguous bytes passes the assertion. -/
def RejectsExcess (x : XiomasTcpExport out ι) : Prop :=
  ∀ n, x.contiguous < n → x.circConsume n = none

/-- A consume that passes the assertion takes stored bytes only, and the head ends up
as much closer to the tail as was taken. -/
def StopsAtTail (x : XiomasTcpExport out ι) : Prop :=
  ∀ n y, x.circConsume n = some y → n ≤ x.circLength ∧
    (0 < n → y.CircValid ∧ y.circLength = x.circLength-n)

theorem circConsume_isSome_iff (x : XiomasTcpExport out ι) (n : ℕ) :
    (x.circConsume n).isSome = true ↔ n ≤ x.circHeadBytes := by
  unfold circConsume
  split
  · rename_i h
    exact iff_of_true rfl h
  · rename_i h
    exact iff_of_false Bool.false_ne_true h

theorem le_circHeadBytes_of_consume (x y : XiomasTcpExport out ι) (n : ℕ)
    (h : x.circConsume n = some y) : n ≤ x.circHeadBytes := by
  apply (circConsume_isSome_iff x n).mp
  rw [h, Option.isSome_some]

/-- Wrapped around, full or empty: the source's value is the span. -/
theorem circHeadBytes_of_tail_le (x : XiomasTcpExport out ι) (hv : x.CircValid)
    (h : x.circTail ≤ x.circHead) : x.circHeadBytes = x.contiguous := by
  have hs := hv.size_lt
  unfold circHeadBytes contiguous
  rcases circValid_cases x hv with ⟨hh, -⟩ | ⟨hh, hpos, hle, ht⟩
  · rw [if_pos (by omega), if_pos (by omega)]
  · have hlen : x.circSize-x.circHead ≤ x.circLength := by
      rcases wrap_cases x.circSize x.circHead x.circLength hh hle with ⟨-, h2⟩ | ⟨h1, -⟩
      · omega
      · omega
    rw [if_neg (by omega), if_neg (by omega), if_neg (by omega), Nat.min_eq_right hlen]
    unfold u32Sub u32
    omega

/-- With the head before the tail the difference is negative and wraps around. -/
theorem circHeadBytes_unwrapped (x : XiomasTcpExport out ι) (hv : x.CircValid)
    (h : x.circHead < x.circTail) :
    x.circLength = x.circTail-x.circHead ∧ x.contiguous = x.circTail-x.circHead ∧
      x.circHeadBytes = 4294967296-(x.circTail-x.circHead) := by
  have hs := hv.size_lt
  have ht := hv.tail_lt
  have hlen : x.circLength = x.circTail-x.circHead := by
    unfold circLength u32Sub u32
    rw [if_neg (by omega), if_pos h]
    omega
  refine ⟨hlen, ?_, ?_⟩
  · rw [contiguous, if_neg (by omega), hlen]
    omega
  · unfold circHeadBytes u32Sub u32
    rw [if_neg (by omega), if_pos h]
    omega

theorem contiguous_le (x : XiomasTcpExport out ι) : x.contiguous ≤ x.circLength := by
  unfold contiguous
  split
  · exact Nat.zero_le _
  · exact Nat.min_le_left _ _

theorem rejectsExcess_of_exact (x : XiomasTcpExport out ι)
    (h : x.circHeadBytes = x.contiguous) : x.RejectsExcess := by
  intro n hn
  apply Option.not_isSome_iff_eq_none.mp
  rw [circConsume_isSome_iff]
  omega

theorem stopsAtTail_of_exact (x : XiomasTcpExport out ι) (hv : x.CircValid)
    (h : x.circHeadBytes = x.contiguous) : x.StopsAtTail := by
  intro n y hc
  have hn := le_circHeadBytes_of_consume x y n hc
  have hle := contiguous_le x
  refine ⟨by omega, ?_⟩
  intro hpos
  have hend : x.circHead+n ≤ x.circSize := by
    have hmin := h ▸ hn
    unfold contiguous at hmin
    split at hmin
    · omega
    · omega
  obtain ⟨z, hz, hzv, hzc, -⟩ := circConsume_spec x hv n hpos (by omega) hn (by omega) hend
  obtain rfl := Option.some.inj (hc.symm.trans hz)
  refine ⟨hzv, ?_⟩
  rw [← length_contents, hzc, List.length_drop, length_contents]

/-- Each of the three holds exactly when the tail is not behind the head, which the
empty, the full and the wrapped buffer have in common. -/
theorem circHeadBytes_contiguous_iff (x : XiomasTcpExport out ι) (hv : x.CircValid) :
    (x.circHeadBytes = x.contiguous ↔ x.circTail ≤ x.circHead) ∧
    (x.RejectsExcess ↔ x.circTail ≤ x.circHead) ∧
    (x.StopsAtTail ↔ x.circTail ≤ x.circHead) := by
  have hs := hv.size_lt
  have ht := hv.tail_lt
  rcases Nat.lt_or_ge x.circHead x.circTail with h | h
  · -- One byte more than is stored still passes the assertion.
    obtain ⟨hlen, hcont, hbytes⟩ := circHeadBytes_unwrapped x hv h
    have hsome := (circConsume_isSome_iff x (x.circLength+1)).mpr (by omega)
    have hnot : ¬x.circTail ≤ x.circHead := by omega
    refine ⟨iff_of_false (by omega) hnot, iff_of_false ?_ hnot, iff_of_false ?_ hnot⟩
    · intro hrej
      rw [hrej (x.circLength+1) (by omega)] at hsome
      cases hsome
    · intro hstop
      obtain ⟨y, hy⟩ := Option.isSome_iff_exists.mp hsome
      have := (hstop _ y hy).1
      omega
  · have hexact := circHeadBytes_of_tail_le x hv h
    exact ⟨iff_of_true hexact h, iff_of_true (rejectsExcess_of_exact x hexact) h,
      iff_of_true (stopsAtTail_of_exact x hv hexact) h⟩

/-- A wrapped buffer of 5 bytes: 3 are contiguous at its head. -/
def wrapped : XiomasTcpExport .direct Unit :=
  {new (fun _ => 0) () with circHead := 269997, circTail := 2}

theorem circHeadBytes_contiguous_wrapped :
    wrapped.circHeadBytes = 3 ∧ wrapped.RejectsExcess ∧ wrapped.StopsAtTail := by
  have hv : wrapped.CircValid := ⟨by decide, by decide, by decide, by decide⟩
  obtain ⟨h1, h2, h3⟩ := circHeadBytes_contiguous_iff wrapped hv
  exact ⟨(h1.mpr (by decide)).trans (by decide), h2.mpr (by decide), h3.mpr (by decide)⟩

/-- Ten bytes in a fresh buffer, of which `circ_consume` removes twenty. -/
theorem circHeadBytes_not_contiguous : ∃ x y : XiomasTcpExport .direct Unit,
    (new (fun _ => 0) ()).circCommit (List.replicate 10 7) = some x ∧ x.CircValid ∧
    x.circLength = 10 ∧ x.circHead = 0 ∧ x.circHeadBytes = 4294967286 ∧
    x.circConsume 20 = some y ∧ y.circHead = 20 ∧ y.circTail = 10 ∧ y.circLength = 269990 :=
  ⟨_, _, rfl, ⟨by decide, by decide, by decide, by decide⟩, rfl, rfl, rfl, rfl, rfl, rfl, rfl⟩

end Cosmid.Xiomas.XiomasTcpExport
