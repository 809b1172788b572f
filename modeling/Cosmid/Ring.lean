import Mathlib.Data.List.Basic
import Mathlib.Tactic.Common

/-! Cells at consecutive addresses, and the contents of a circular region of
them. Addresses are naturals and a memory is a total function on them. -/
namespace Cosmid.Ring

variable {α : Type*}

/-- Copy `xs` to the addresses `i, i+1, …`. -/
def blit (m : ℕ → α) (i : ℕ) (xs : List α) : ℕ → α :=
  fun k => if i ≤ k then xs[k-i]?.getD (m k) else m k

/-- The `n` cells from address `i` on. -/
def flat (m : ℕ → α) (i n : ℕ) : List α := (List.range n).map (fun j => m (i+j))

/-- The `n` cells from `head` on in a circular region of `size` cells. -/
def span (m : ℕ → α) (size head n : ℕ) : List α :=
  (List.range n).map (fun j => m ((head+j)%size))

@[simp] theorem length_flat (m : ℕ → α) (i n : ℕ) : (flat m i n).length = n := by
  simp [flat]

@[simp] theorem length_span (m : ℕ → α) (size head n : ℕ) : (span m size head n).length = n := by
  simp [span]

@[simp] theorem span_zero (m : ℕ → α) (size head : ℕ) : span m size head 0 = [] := rfl

theorem span_add (m : ℕ → α) (size head a b : ℕ) :
    span m size head (a+b) = span m size head a ++ span m size ((head+a)%size) b := by
  simp only [span, List.range_add, List.map_append, List.map_map]
  congr 1
  apply List.map_congr_left
  intro j _
  simp only [Function.comp_apply, Nat.mod_add_mod, Nat.add_assoc]

theorem span_take (m : ℕ → α) (size head n k : ℕ) (hk : k ≤ n) :
    (span m size head n).take k = span m size head k := by
  obtain ⟨b, rfl⟩ := Nat.exists_eq_add_of_le hk
  rw [span_add]
  exact List.take_left' (length_span m size head k)

theorem span_drop (m : ℕ → α) (size head n k : ℕ) (hk : k ≤ n) :
    (span m size head n).drop k = span m size ((head+k)%size) (n-k) := by
  obtain ⟨b, rfl⟩ := Nat.exists_eq_add_of_le hk
  rw [span_add, Nat.add_sub_cancel_left]
  exact List.drop_left' (length_span m size head k)

/-- A span that does not reach past the end of the region is contiguous. -/
theorem span_eq_flat (m : ℕ → α) (size head n : ℕ) (h : head+n ≤ size) :
    span m size head n = flat m head n := by
  apply List.map_congr_left
  intro j hj
  have hlt : head+j < size := by have := List.mem_range.mp hj; omega
  rw [Nat.mod_eq_of_lt hlt]

theorem blit_of_outside (m : ℕ → α) (i k : ℕ) (xs : List α) (h : ¬(i ≤ k ∧ k < i+xs.length)) :
    blit m i xs k = m k := by
  unfold blit
  split
  · rename_i hi
    rw [List.getElem?_eq_none (by omega), Option.getD_none]
  · rfl

theorem flat_blit (m : ℕ → α) (i : ℕ) (xs : List α) : flat (blit m i xs) i xs.length = xs := by
  apply List.ext_getElem
  · simp
  · intro j hj hx
    simp [flat, blit, hx]

theorem span_blit_of_disjoint (m : ℕ → α) (size head n i : ℕ) (xs : List α)
    (h : ∀ j < n, (head+j)%size < i ∨ i+xs.length ≤ (head+j)%size) :
    span (blit m i xs) size head n = span m size head n := by
  apply List.map_congr_left
  intro j hj
  rcases h j (List.mem_range.mp hj) with hlt | hge
  · have : ¬i ≤ (head+j)%size := by omega
    simp only [blit, this, if_false]
  · have hi : i ≤ (head+j)%size := by omega
    have hnone : xs[(head+j)%size-i]? = none := by
      rw [List.getElem?_eq_none_iff]
      omega
    simp only [blit, hi, if_true, hnone, Option.getD_none]

/-- Two cells at different distances below `size` from `head` are different. -/
theorem mod_ne_of_lt (size head j k : ℕ) (hj : j < k) (hk : k < size) :
    (head+j)%size ≠ (head+k)%size := by
  intro h
  have h0 : ((head+k)-(head+j))%size = 0 := Nat.sub_mod_eq_zero_of_mod_eq h.symm
  rw [Nat.add_sub_add_left, Nat.mod_eq_of_lt (by omega)] at h0
  omega

/-- Writing at the tail, without crossing the end of the region, appends. -/
theorem span_append_blit (m : ℕ → α) (size head n : ℕ) (xs : List α) (hs : 0 < size)
    (hn : n+xs.length ≤ size) (ht : (head+n)%size+xs.length ≤ size) :
    span (blit m ((head+n)%size) xs) size head (n+xs.length) =
      span m size head n ++ xs := by
  rw [span_add, span_eq_flat _ _ _ _ ht, flat_blit]
  congr 1
  apply span_blit_of_disjoint
  intro j hj
  by_contra hc
  push Not at hc
  have hlt : (head+j)%size < size := Nat.mod_lt _ hs
  let k := (head+j)%size-(head+n)%size
  have hk : k < xs.length := by omega
  have hmod : (head+(n+k))%size = (head+j)%size := by
    have hadd : (head+(n+k))%size = ((head+n)%size+k)%size := by
      rw [Nat.mod_add_mod, Nat.add_assoc]
    rw [hadd, Nat.mod_eq_of_lt (by omega)]
    omega
  exact mod_ne_of_lt size head j (n+k) (by omega) (by omega) hmod.symm

end Cosmid.Ring
