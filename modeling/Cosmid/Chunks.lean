import Mathlib.Data.List.Basic
import Mathlib.Tactic.Common

/-! Cutting a run of `remaining` items into chunks of `max`, as far as the items
have arrived. Only complete chunks are cut; the last one may be shorter. -/
namespace Cosmid.Chunks

variable {α : Type*}

/-- The complete chunks at the front of `u`, of which `remaining` items belong to
the run. -/
def cut (max remaining : ℕ) (u : List α) : List (List α) :=
  if min max remaining = 0 ∨ u.length < min max remaining then []
  else u.take (min max remaining) ::
    cut max (remaining-min max remaining) (u.drop (min max remaining))
termination_by remaining
decreasing_by omega

/-- How many items the complete chunks hold. -/
def taken (max remaining : ℕ) (u : List α) : ℕ := (cut max remaining u).flatten.length

theorem cut_stop (max remaining : ℕ) (u : List α)
    (h : min max remaining = 0 ∨ u.length < min max remaining) : cut max remaining u = [] := by
  rw [cut, if_pos h]

theorem cut_step (max remaining : ℕ) (u : List α) (h0 : 0 < min max remaining)
    (hlen : min max remaining ≤ u.length) :
    cut max remaining u = u.take (min max remaining) ::
      cut max (remaining-min max remaining) (u.drop (min max remaining)) := by
  rw [cut, if_neg (by omega)]

theorem taken_step (max remaining : ℕ) (u : List α) (h0 : 0 < min max remaining)
    (hlen : min max remaining ≤ u.length) :
    taken max remaining u =
      min max remaining+taken max (remaining-min max remaining) (u.drop (min max remaining)) := by
  rw [taken, cut_step max remaining u h0 hlen, List.flatten_cons, List.length_append,
    List.length_take_of_le hlen, taken]

theorem taken_stop (max remaining : ℕ) (u : List α)
    (h : min max remaining = 0 ∨ u.length < min max remaining) : taken max remaining u = 0 := by
  rw [taken, cut_stop max remaining u h]
  rfl

/-- The two ways a cut goes. -/
theorem cut_cases (max remaining : ℕ) (u : List α) :
    (min max remaining = 0 ∨ u.length < min max remaining) ∨
      (0 < min max remaining ∧ min max remaining ≤ u.length) := by omega

/-- The rule of induction for cuts: along the chunks. -/
@[elab_as_elim]
theorem cut_induction (max : ℕ) {P : ℕ → List α → Prop}
    (hstop : ∀ remaining u, min max remaining = 0 ∨ u.length < min max remaining → P remaining u)
    (hstep : ∀ remaining u, 0 < min max remaining → min max remaining ≤ u.length →
      P (remaining-min max remaining) (u.drop (min max remaining)) → P remaining u)
    (remaining : ℕ) (u : List α) : P remaining u := by
  induction remaining using Nat.strongRecOn generalizing u with
  | _ remaining ih =>
    rcases cut_cases max remaining u with h | ⟨h0, hlen⟩
    · exact hstop remaining u h
    · exact hstep remaining u h0 hlen (ih _ (by omega) _)

theorem taken_le (max remaining : ℕ) (u : List α) :
    taken max remaining u ≤ remaining ∧ taken max remaining u ≤ u.length := by
  induction remaining, u using cut_induction max with
  | hstop remaining u h =>
    rw [taken_stop max remaining u h]
    exact ⟨Nat.zero_le _, Nat.zero_le _⟩
  | hstep remaining u h0 hlen ih =>
    rw [List.length_drop] at ih
    rw [taken_step max remaining u h0 hlen]
    omega

theorem flatten_cut (max remaining : ℕ) (u : List α) :
    (cut max remaining u).flatten = u.take (taken max remaining u) := by
  induction remaining, u using cut_induction max with
  | hstop remaining u h =>
    rw [taken_stop max remaining u h, cut_stop max remaining u h, List.take_zero, List.flatten_nil]
  | hstep remaining u h0 hlen ih =>
    rw [taken_step max remaining u h0 hlen, cut_step max remaining u h0 hlen, List.flatten_cons,
      ih, ← List.take_add]

/-- Nothing more can be cut from what the cut leaves. -/
theorem cut_rest (max remaining : ℕ) (u : List α) :
    cut max (remaining-taken max remaining u) (u.drop (taken max remaining u)) = [] := by
  induction remaining, u using cut_induction max with
  | hstop remaining u h =>
    rw [taken_stop max remaining u h, Nat.sub_zero, List.drop_zero, cut_stop max remaining u h]
  | hstep remaining u h0 hlen ih =>
    rw [taken_step max remaining u h0 hlen, ← Nat.sub_sub, ← List.drop_drop]
    exact ih

/-- With the whole run there, the cut takes all of it. -/
theorem taken_of_le_length (max remaining : ℕ) (u : List α) (hmax : 0 < max)
    (hlen : remaining ≤ u.length) : taken max remaining u = remaining := by
  induction remaining using Nat.strongRecOn generalizing u with
  | _ remaining ih =>
    by_cases h0 : remaining = 0
    · subst h0
      simp [taken, cut_stop max 0 u (Or.inl (Nat.min_zero _))]
    · rw [taken_step max remaining u (by omega) (by omega),
        ih (remaining-min max remaining) (by omega) (u.drop (min max remaining))
          (by rw [List.length_drop]; omega)]
      omega

/-- Cutting can be interrupted: the chunks of a longer input are the chunks of
its front and then the chunks of what was left together with the rest. -/
theorem cut_append (max remaining : ℕ) (u v : List α) :
    cut max remaining (u ++ v) = cut max remaining u ++
      cut max (remaining-taken max remaining u) (u.drop (taken max remaining u) ++ v) := by
  induction remaining, u using cut_induction max with
  | hstop remaining u h =>
    rw [taken_stop max remaining u h, cut_stop max remaining u h, Nat.sub_zero, List.drop_zero,
      List.nil_append]
  | hstep remaining u h0 hlen ih =>
    rw [cut_step max remaining u h0 hlen, taken_step max remaining u h0 hlen,
      cut_step max remaining (u ++ v) h0 (by rw [List.length_append]; omega),
      List.take_append_of_le_length hlen, List.drop_append_of_le_length hlen, ih,
      List.cons_append, ← Nat.sub_sub, ← List.drop_drop]

theorem taken_append (max remaining : ℕ) (u v : List α) :
    taken max remaining (u ++ v) = taken max remaining u+
      taken max (remaining-taken max remaining u) (u.drop (taken max remaining u) ++ v) := by
  unfold taken
  rw [cut_append, List.flatten_append, List.length_append]
  rfl

/-- No chunk is empty or longer than `max`. -/
theorem length_of_mem_cut (max remaining : ℕ) (u c : List α) (h : c ∈ cut max remaining u) :
    0 < c.length ∧ c.length ≤ max := by
  induction remaining, u using cut_induction max with
  | hstop remaining u hs =>
    rw [cut_stop max remaining u hs] at h
    cases h
  | hstep remaining u h0 hlen ih =>
    rw [cut_step max remaining u h0 hlen] at h
    rcases List.mem_cons.mp h with rfl | h
    · rw [List.length_take_of_le hlen]
      omega
    · exact ih h

/-- Chunks are counted by division, rounded up. -/
theorem div_step (max remaining : ℕ) (h0 : 0 < min max remaining) :
    (remaining-min max remaining+max-1)/max+1 = (remaining+max-1)/max := by
  by_cases hle : max ≤ remaining
  · rw [Nat.min_eq_left hle, ← Nat.add_div_right _ (by omega)]
    congr 1
    omega
  · rw [Nat.min_eq_right (by omega), Nat.sub_self, Nat.div_eq_of_lt (by omega)]
    have hmod : remaining+max-1 = (remaining-1)+max := by omega
    rw [hmod, Nat.add_div_right _ (by omega), Nat.div_eq_of_lt (by omega)]

theorem length_cut_add (max remaining : ℕ) (u : List α) :
    (cut max remaining u).length+(remaining-taken max remaining u+max-1)/max =
      (remaining+max-1)/max := by
  induction remaining, u using cut_induction max with
  | hstop remaining u hs =>
    rw [taken_stop max remaining u hs, cut_stop max remaining u hs, Nat.sub_zero, List.length_nil,
      Nat.zero_add]
  | hstep remaining u h0 hlen ih =>
    rw [cut_step max remaining u h0 hlen, taken_step max remaining u h0 hlen, List.length_cons,
      ← div_step max remaining h0, ← ih, ← Nat.sub_sub]
    omega

/-- With the whole run there, all of them have been cut. -/
theorem length_cut (max remaining : ℕ) (u : List α) (hmax : 0 < max)
    (hlen : remaining ≤ u.length) : (cut max remaining u).length = (remaining+max-1)/max := by
  have h := length_cut_add max remaining u
  rw [taken_of_le_length max remaining u hmax hlen, Nat.sub_self,
    Nat.div_eq_of_lt (by omega : 0+max-1 < max)] at h
  exact h

/-- The lengths of the chunks of `n` items: all `max` except possibly the last. -/
def sizes (max n : ℕ) : List ℕ :=
  List.replicate (n/max) max ++ if n%max = 0 then [] else [n%max]

theorem sizes_step (max n : ℕ) (h0 : 0 < min max n) :
    sizes max n = min max n :: sizes max (n-min max n) := by
  by_cases hle : max ≤ n
  · have hdiv : n/max = (n-max)/max+1 := Nat.div_eq_sub_div (by omega) hle
    rw [Nat.min_eq_left hle, sizes, sizes, hdiv, List.replicate_succ, List.cons_append,
      ← Nat.mod_eq_sub_mod hle]
  · have hlt : n < max := by omega
    rw [Nat.min_eq_right (by omega), sizes, sizes, Nat.sub_self, Nat.div_eq_of_lt hlt,
      Nat.mod_eq_of_lt hlt, if_neg (by omega), Nat.zero_div, Nat.zero_mod]
    rfl

theorem length_sizes (max n : ℕ) (hmax : 0 < max) : (sizes max n).length = (n+max-1)/max := by
  induction n using Nat.strongRecOn with
  | _ n ih =>
    by_cases h0 : n = 0
    · subst h0
      rw [Nat.zero_add, Nat.div_eq_of_lt (by omega)]
      simp [sizes]
    · rw [sizes_step max n (by omega), List.length_cons, ih _ (by omega),
        div_step max n (by omega)]

/-- Cut as far as the items have arrived, the chunks have the first of these lengths. -/
theorem length_cut_initial (max remaining : ℕ) (u : List α) :
    (cut max remaining u).map List.length <+: sizes max remaining := by
  induction remaining, u using cut_induction max with
  | hstop remaining u hs =>
    rw [cut_stop max remaining u hs]
    exact List.nil_prefix
  | hstep remaining u h0 hlen ih =>
    rw [cut_step max remaining u h0 hlen, sizes_step max remaining h0, List.map_cons,
      List.length_take_of_le hlen, List.cons_prefix_cons]
    exact ⟨rfl, ih⟩

/-- With the whole run there, they have all of these lengths. -/
theorem map_length_cut (max remaining : ℕ) (u : List α) (hmax : 0 < max)
    (hlen : remaining ≤ u.length) :
    (cut max remaining u).map List.length = sizes max remaining := by
  apply (length_cut_initial max remaining u).eq_of_length
  rw [List.length_map, length_cut max remaining u hmax hlen, length_sizes max remaining hmax]

end Cosmid.Chunks
