import Mathlib.Data.List.Basic
import Mathlib.Tactic.Common

/-! Streams of two-byte lines, and where such a stream can be cut. -/
namespace Cosmid

/-- One line for each item: its byte and a newline. -/
def lines {α : Type} (byte : α → UInt8) (items : List α) : List UInt8 :=
  items.flatMap fun a => [byte a, 0x0a]

namespace Lines

variable {α : Type} (byte : α → UInt8)

@[simp] theorem lines_nil : lines byte [] = [] := rfl

@[simp] theorem lines_cons (a : α) (items : List α) :
    lines byte (a :: items) = byte a :: 0x0a :: lines byte items := rfl

@[simp] theorem lines_append (as bs : List α) :
    lines byte (as ++ bs) = lines byte as ++ lines byte bs := List.flatMap_append

theorem length_lines (items : List α) : (lines byte items).length = 2*items.length := by
  induction items with
  | nil => rfl
  | cons a items ih =>
    rw [lines_cons, List.length_cons, List.length_cons, ih, List.length_cons]
    omega

theorem lines_eq_nil {items : List α} (h : lines byte items = []) : items = [] := by
  cases items with
  | nil => rfl
  | cons a items => cases h

/-- A cut falls between two lines, or in front of a newline. -/
theorem lines_cut (u v : List UInt8) (items : List α) (h : u ++ v = lines byte items) :
    (∃ done rest, items = done ++ rest ∧ u = lines byte done ∧ v = lines byte rest) ∨
    ∃ done a rest, items = done ++ a :: rest ∧ u = lines byte done ++ [byte a] ∧
      v = 0x0a :: lines byte rest := by
  induction items generalizing u with
  | nil =>
    obtain ⟨rfl, rfl⟩ := List.append_eq_nil_iff.mp h
    exact Or.inl ⟨[], [], rfl, rfl, rfl⟩
  | cons a items ih =>
    rw [lines_cons] at h
    match u with
    | [] => exact Or.inl ⟨[], a :: items, rfl, rfl, h⟩
    | [b] =>
      obtain ⟨rfl, rfl⟩ := List.cons.inj h
      exact Or.inr ⟨[], a, items, rfl, rfl, rfl⟩
    | b :: c :: u =>
      obtain ⟨rfl, h'⟩ := List.cons.inj h
      obtain ⟨rfl, h''⟩ := List.cons.inj h'
      rcases ih u h'' with ⟨done, rest, rfl, rfl, hv⟩ | ⟨done, a', rest, rfl, rfl, hv⟩
      · exact Or.inl ⟨a :: done, rest, rfl, rfl, hv⟩
      · exact Or.inr ⟨a :: done, a', rest, rfl, rfl, hv⟩

end Lines
end Cosmid
