import Mathlib.Data.List.Count
import Mathlib.Data.List.Induction
import Mathlib.Tactic.Common

/-! Thinning out a sequence of items of several kinds: of every kind the first item is
kept and then every so many-th, no matter how the kinds are mixed. -/
namespace Cosmid

/-- Of the items of kind `k` every `rate k`-th is kept, and none if `rate k` is 0. -/
structure Thinner (α κ : Type) where
  kind : α → κ
  rate : κ → ℕ

namespace Thinner

variable {α κ : Type} [DecidableEq κ] (t : Thinner α κ)

/-- The items of kind `k` in `xs`. -/
def seen (xs : List α) (k : κ) : ℕ := xs.countP fun x => t.kind x = k

/-- Behind `xs`, `x` is kept. -/
def Due (xs : List α) (x : α) : Prop :=
  t.rate (t.kind x) ≠ 0 ∧ t.rate (t.kind x) ∣ t.seen xs (t.kind x)

instance (xs : List α) (x : α) : Decidable (t.Due xs x) := inferInstanceAs (Decidable (_ ∧ _))

/-- What is kept of the second list, behind the first one. -/
def keptAfter : List α → List α → List α
  | _, [] => []
  | xs, y :: ys => (if t.Due xs y then [y] else []) ++ keptAfter (xs ++ [y]) ys

def kept (xs : List α) : List α := t.keptAfter [] xs

theorem seen_append (xs ys : List α) (k : κ) : t.seen (xs ++ ys) k = t.seen xs k+t.seen ys k :=
  List.countP_append

theorem seen_singleton (x : α) (k : κ) : t.seen [x] k = if t.kind x = k then 1 else 0 := by
  simp [seen, List.countP_singleton]

theorem keptAfter_append (xs ys zs : List α) :
    t.keptAfter xs (ys ++ zs) = t.keptAfter xs ys ++ t.keptAfter (xs ++ ys) zs := by
  induction ys generalizing xs with
  | nil => rw [List.nil_append, List.append_nil, keptAfter, List.nil_append]
  | cons y ys ih =>
    rw [List.cons_append, keptAfter, keptAfter, ih, ← List.append_assoc, List.append_assoc xs]
    rfl

theorem kept_append (xs ys : List α) : t.kept (xs ++ ys) = t.kept xs ++ t.keptAfter xs ys := by
  rw [kept, keptAfter_append, List.nil_append]
  rfl

theorem kept_concat (xs : List α) (x : α) :
    t.kept (xs ++ [x]) = t.kept xs ++ if t.Due xs x then [x] else [] := by
  rw [kept_append, keptAfter, keptAfter, List.append_nil]

/-- Of a kind with rate 0 nothing is kept. -/
theorem seen_keptAfter_zero (xs ys : List α) (k : κ) (hk : t.rate k = 0) :
    t.seen (t.keptAfter xs ys) k = 0 := by
  induction ys generalizing xs with
  | nil => rfl
  | cons y ys ih =>
    rw [keptAfter, seen_append, ih, Nat.add_zero]
    by_cases hdue : t.Due xs y
    · have hne : t.kind y ≠ k := fun h => hdue.1 (h ▸ hk)
      rw [if_pos hdue, seen_singleton, if_neg hne]
    · rw [if_neg hdue]
      rfl

/-- The balance of the kind: what is kept counts `rate k` times, up to the items that the
last one kept still covers. -/
theorem seen_kept_balance (xs : List α) (k : κ) (hk : 0 < t.rate k) :
    t.seen xs k ≤ t.rate k*t.seen (t.kept xs) k ∧
      t.rate k*t.seen (t.kept xs) k < t.seen xs k+t.rate k := by
  induction xs using List.reverseRecOn with
  | nil =>
    simp only [kept, keptAfter, seen, List.countP_nil, Nat.mul_zero]
    omega
  | append_singleton xs x ih =>
    rw [kept_concat, seen_append, seen_append, seen_singleton]
    by_cases hkind : t.kind x = k
    · subst hkind
      rw [if_pos rfl]
      by_cases hdvd : t.rate (t.kind x) ∣ t.seen xs (t.kind x)
      · -- The balance is even, and another item is kept.
        rw [if_pos ⟨by omega, hdvd⟩, seen_singleton, if_pos rfl, Nat.mul_add, Nat.mul_one]
        obtain ⟨m, hm⟩ := hdvd
        rw [hm] at ih ⊢
        have hle := Nat.le_of_mul_le_mul_left ih.1 hk
        have hlt : t.seen (t.kept xs) (t.kind x) < m+1 := by
          refine Nat.lt_of_mul_lt_mul_left (a := t.rate (t.kind x)) ?_
          rw [Nat.mul_add, Nat.mul_one]
          exact ih.2
        obtain rfl : t.seen (t.kept xs) (t.kind x) = m := by omega
        omega
      · have hne : t.seen xs (t.kind x) ≠ t.rate (t.kind x)*t.seen (t.kept xs) (t.kind x) :=
          fun h => hdvd ⟨_, h⟩
        rw [if_neg fun h => hdvd h.2]
        simp only [seen, List.countP_nil, Nat.add_zero] at *
        omega
    · have hnone : t.seen (if t.Due xs x then [x] else []) k = 0 := by
        split
        · rw [seen_singleton, if_neg hkind]
        · rfl
      rw [if_neg hkind, hnone, Nat.add_zero, Nat.add_zero]
      exact ih

/-- In every stretch of the sequence, one item is kept for `rate k` of the kind, and at most
one more. -/
theorem seen_keptAfter_le (xs ys : List α) (k : κ) (hk : 0 < t.rate k) :
    t.rate k*t.seen (t.keptAfter xs ys) k < t.seen ys k+t.rate k := by
  have hfirst := t.seen_kept_balance xs k hk
  have hall := t.seen_kept_balance (xs ++ ys) k hk
  rw [kept_append, seen_append, seen_append, Nat.mul_add] at hall
  omega

end Thinner
end Cosmid
