import Mathlib.Data.List.Basic
import Mathlib.Tactic.Common

/-! Words of a shell: what becomes of the value of an unquoted variable, which is split
at blanks and whose words are then expanded to the names they match. -/
namespace Cosmid.Shell

abbrev Word := List Char

/-- The default field separators. -/
def isBlank (c : Char) : Bool := c = ' ' || c = '\t' || c = '\n'

/-- One of these makes an unquoted word a pattern. -/
def isSpecial (c : Char) : Bool := c = '*' || c = '?' || c = '['

/-- Pathname expansion: which names a pattern matches, and their order in the locale. -/
structure Globbing where
  isMatch : Word → Word → Bool
  sort : List Word → List Word
  sort_perm : ∀ names, (sort names).Perm names
  isMatch_star : ∀ w name, w ≠ [] → (∀ c ∈ w, isSpecial c = false) →
    (isMatch (w ++ ['*']) name = true ↔ w <+: name)

def fieldSplit (value : Word) : List Word :=
  (value.splitOnP isBlank).filter fun w => !w.isEmpty

/-- A word that is no pattern, or a pattern without a match, stays as it is. -/
def Globbing.expand (g : Globbing) (names : List Word) (word : Word) : List Word :=
  if word.any isSpecial && names.any (g.isMatch word) then g.sort (names.filter (g.isMatch word))
  else [word]

/-- What a command that prints one line for each word leaves in a variable. -/
def substitution (output : List Word) : Word := List.intercalate ['\n'] output

/-- A word that splitting and expansion leave as it is. -/
structure Plain (w : Word) : Prop where
  ne_nil : w ≠ []
  blank : ∀ c ∈ w, isBlank c = false
  special : ∀ c ∈ w, isSpecial c = false

theorem expand_of_special (g : Globbing) (names : List Word) (word : Word)
    (h : ∀ c ∈ word, isSpecial c = false) : g.expand names word = [word] := by
  have hany : word.any isSpecial = false := by
    apply List.any_eq_false.mpr
    intro c hc
    rw [h c hc]
    exact Bool.false_ne_true
  rw [Globbing.expand, hany, Bool.false_and, if_neg Bool.false_ne_true]

theorem Plain.append_special {w v : Word} (hw : Plain w) (hv : ∀ c ∈ v, isSpecial c = false) :
    ∀ c ∈ w ++ v, isSpecial c = false := by
  intro c hc
  rcases List.mem_append.mp hc with h | h
  · exact hw.special c h
  · exact hv c h

/-- The words printed are the words that the variable is split into. -/
theorem fieldSplit_substitution (ws : List Word) (h : ∀ w ∈ ws, Plain w) :
    fieldSplit (substitution ws) = ws := by
  unfold substitution
  induction ws with
  | nil => rfl
  | cons w ws ih =>
    have hw := h w List.mem_cons_self
    have hws : ∀ v ∈ ws, Plain v := fun v hv => h v (List.mem_cons_of_mem _ hv)
    have hkeep (l : List Word) : (w :: l).filter (fun w => !w.isEmpty) =
        w :: l.filter fun w => !w.isEmpty := by
      apply List.filter_cons_of_pos
      rw [Bool.not_eq_true', List.isEmpty_eq_false_iff]
      exact hw.ne_nil
    cases ws with
    | nil =>
      rw [List.intercalate_singleton, fieldSplit, List.splitOnP_eq_singleton hw.blank,
        hkeep, List.filter_nil]
    | cons v vs =>
      have hrest := ih hws
      rw [fieldSplit] at hrest
      rw [List.intercalate_cons_cons, List.append_assoc, List.singleton_append, fieldSplit,
        List.splitOnP_append_cons_of_forall_mem hw.blank '\n' rfl,
        hkeep, hrest]

end Cosmid.Shell
