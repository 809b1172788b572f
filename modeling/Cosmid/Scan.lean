import Mathlib.Data.List.Basic
import Mathlib.Tactic.Common

/-! Scanning a stream for items, one piece of its front at a time, and why it does
not matter in which portions the stream arrives. -/
namespace Cosmid

/-- `head u` is what the front of `u` amounts to: `none` when more input is
needed, and otherwise the length of a piece with the item it completes, if any.
What has been decided stays so when more input comes in. -/
structure Scanner (α β : Type) where
  head : List α → Option (Option β × ℕ)
  head_pos : ∀ u item n, head u = some (item, n) → 0 < n ∧ n ≤ u.length
  head_append : ∀ u v r, head u = some r → head (u ++ v) = some r

namespace Scanner

variable {α β : Type}

/-- The items of `u`, and what is left of it. -/
def scan (s : Scanner α β) (u : List α) : List β × List α :=
  match _h : s.head u with
  | none => ([], u)
  | some (item, n) => (item.toList ++ (s.scan (u.drop n)).1, (s.scan (u.drop n)).2)
termination_by u.length
decreasing_by all_goals
  have := s.head_pos u item n _h
  rw [List.length_drop]
  omega

theorem scan_none (s : Scanner α β) {u : List α} (h : s.head u = none) : s.scan u = ([], u) := by
  rw [scan]
  split
  · rfl
  · simp_all

theorem scan_some (s : Scanner α β) {u : List α} {item : Option β} {n : ℕ}
    (h : s.head u = some (item, n)) :
    s.scan u = (item.toList ++ (s.scan (u.drop n)).1, (s.scan (u.drop n)).2) := by
  rw [scan]
  split
  · simp_all
  · rename_i item' n' h'
    obtain ⟨rfl, rfl⟩ := Prod.mk.inj (Option.some.inj (h.symm.trans h'))
    rfl

/-- The rule of induction for scans: along the pieces of the stream. -/
theorem scan_induction (s : Scanner α β) {P : List α → Prop}
    (hwait : ∀ u, s.head u = none → P u)
    (hpiece : ∀ u item n, s.head u = some (item, n) → P (u.drop n) → P u) (u : List α) : P u := by
  induction hlen : u.length using Nat.strongRecOn generalizing u with
  | _ len ih =>
    cases h : s.head u with
    | none => exact hwait u h
    | some r =>
      obtain ⟨item, n⟩ := r
      have hn := s.head_pos u item n h
      exact hpiece u item n h (ih (u.drop n).length (by rw [List.length_drop]; omega) _ rfl)

/-- What comes in later is scanned together with what was left. -/
theorem scan_append (s : Scanner α β) (u v : List α) :
    s.scan (u ++ v) = ((s.scan u).1 ++ (s.scan ((s.scan u).2 ++ v)).1,
      (s.scan ((s.scan u).2 ++ v)).2) := by
  induction u using s.scan_induction with
  | hwait u h => rw [s.scan_none h, List.nil_append]
  | hpiece u item n h ih =>
    have hn := s.head_pos u item n h
    rw [s.scan_some h, s.scan_some (s.head_append u v _ h), List.drop_append_of_le_length hn.2, ih,
      List.append_assoc]

theorem length_rest_le (s : Scanner α β) (u : List α) : (s.scan u).2.length ≤ u.length := by
  induction u using s.scan_induction with
  | hwait u h =>
    have hrest := congrArg Prod.snd (s.scan_none h)
    exact Nat.le_of_eq (congrArg List.length hrest)
  | hpiece u item n h ih =>
    rw [List.length_drop] at ih
    rw [s.scan_some h]
    exact Nat.le_trans ih (Nat.sub_le _ _)

/-- The scan gets on exactly when there is something complete at the front. -/
theorem length_rest_lt_iff (s : Scanner α β) (u : List α) :
    (s.scan u).2.length < u.length ↔ s.head u ≠ none := by
  constructor
  · intro hlt hnone
    rw [s.scan_none hnone] at hlt
    exact Nat.lt_irrefl _ hlt
  · intro hsome
    obtain ⟨⟨item, n⟩, h⟩ := Option.ne_none_iff_exists'.mp hsome
    have hn := s.head_pos u item n h
    have hle := s.length_rest_le (u.drop n)
    rw [List.length_drop] at hle
    rw [s.scan_some h]
    dsimp only
    omega

/-- Pieces of whole items are these items. -/
theorem scan_flatten (s : Scanner α β) (enc : β → List α) (items : List β)
    (h : ∀ item ∈ items, ∀ v, s.head (enc item ++ v) = some (some item, (enc item).length))
    (hnil : s.head [] = none) : s.scan (items.map enc).flatten = (items, []) := by
  induction items with
  | nil => exact s.scan_none hnil
  | cons item items ih =>
    have hhead := h item (by simp) (items.map enc).flatten
    rw [List.map_cons, List.flatten_cons, s.scan_some hhead, List.drop_left,
      ih (fun i hi => h i (by simp [hi]))]
    rfl

end Scanner
end Cosmid
