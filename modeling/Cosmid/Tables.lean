import Mathlib.Data.List.Induction
import Mathlib.Data.List.Nodup
import Mathlib.Tactic.Common

/-! Tables as lists of keys with their values, and the distinct items of a list in the
order of their first appearance. -/
namespace Cosmid.Tables

section Lookup

variable {κ β : Type} [BEq κ] [LawfulBEq κ]

theorem lookup_isSome_iff (l : List (κ × β)) (k : κ) :
    (l.lookup k).isSome = true ↔ k ∈ l.map Prod.fst := by
  rw [List.lookup_isSome_iff, List.mem_map]
  constructor
  · rintro ⟨e, he, hk⟩
    exact ⟨e, he, (beq_iff_eq.mp hk).symm⟩
  · rintro ⟨e, he, hk⟩
    exact ⟨e, he, beq_iff_eq.mpr hk.symm⟩

theorem exists_lookup (l : List (κ × β)) (k : κ) (h : k ∈ l.map Prod.fst) :
    ∃ b, l.lookup k = some b ∧ (k,b) ∈ l := by
  obtain ⟨b, hb⟩ := Option.isSome_iff_exists.mp ((lookup_isSome_iff l k).mpr h)
  obtain ⟨l1, l2, hl, -⟩ := List.lookup_eq_some_iff.mp hb
  refine ⟨b, hb, ?_⟩
  rw [hl]
  exact List.mem_append_right _ List.mem_cons_self

/-- Items with keys of their own, taken out of a table by key and put behind the rest. -/
theorem filter_append_perm (l ms : List (κ × β)) (hl : (l.map Prod.fst).Nodup)
    (hms : (ms.map Prod.fst).Nodup) (hsub : ∀ m ∈ ms, m ∈ l) :
    ((l.filter fun e => e.1 ∉ ms.map Prod.fst) ++ ms).Perm l := by
  have htaken : (l.filter fun e => e.1 ∈ ms.map Prod.fst).Perm ms := by
    apply (List.perm_ext_iff_of_nodup (hl.of_map.filter _) hms.of_map).mpr
    intro e
    rw [List.mem_filter, decide_eq_true_eq]
    constructor
    · rintro ⟨he, hkey⟩
      obtain ⟨m, hm, hkm⟩ := List.mem_map.mp hkey
      rwa [← List.inj_on_of_nodup_map hl (hsub m hm) he hkm]
    · exact fun he => ⟨hsub e he, List.mem_map_of_mem he⟩
  have hsplit : ((l.filter fun e => e.1 ∈ ms.map Prod.fst) ++
      l.filter fun e => e.1 ∉ ms.map Prod.fst).Perm l := by
    simpa using List.filter_append_perm (fun e => e.1 ∈ ms.map Prod.fst) l
  exact ((htaken.symm.append_left _).trans List.perm_append_comm).trans hsplit

end Lookup

section Distinct

variable {α : Type} [BEq α] [LawfulBEq α]

theorem eraseDups_concat (l : List α) (a : α) :
    (l ++ [a]).eraseDups = if l.contains a then l.eraseDups else l.eraseDups ++ [a] := by
  rw [List.eraseDups_append]
  by_cases h : l.contains a = true
  · rw [if_pos h, List.removeAll, List.filter_cons_of_neg (by simpa using h), List.filter_nil,
      List.eraseDups_nil, List.append_nil]
  · rw [if_neg h, List.removeAll, List.filter_cons_of_pos (by simpa using h), List.filter_nil,
      List.eraseDups_cons, List.filter_nil, List.eraseDups_nil]

theorem nodup_eraseDups (l : List α) : l.eraseDups.Nodup := by
  induction l using List.reverseRecOn with
  | nil => exact List.nodup_nil
  | append_singleton l a ih =>
    rw [eraseDups_concat]
    split
    · exact ih
    · rename_i h
      rw [← List.concat_eq_append]
      apply List.Nodup.concat _ ih
      rw [List.mem_eraseDups, ← List.contains_iff_mem]
      exact h

theorem length_eraseDups_le (l : List α) : l.eraseDups.length ≤ l.length := by
  induction l using List.reverseRecOn with
  | nil => exact Nat.le_refl _
  | append_singleton l a ih =>
    rw [eraseDups_concat, List.length_append, List.length_singleton]
    split
    · omega
    · rw [List.length_append, List.length_singleton]
      omega

theorem filter_eraseDups (l : List α) (a : α) (h : a ∈ l) :
    (l.eraseDups.filter fun b => b == a) = [a] := by
  rw [List.filter_beq, List.count_eq_one_of_mem (nodup_eraseDups l) (List.mem_eraseDups.mpr h)]
  rfl

end Distinct

/-- A fold that can fail keeps an invariant about what it has gone through. -/
theorem foldlM_history {σ ε τ : Type} (step : σ → ε → Except τ σ) (Inv : List ε → σ → Prop)
    (hstep : ∀ h s e s', Inv h s → step s e = .ok s' → Inv (h ++ [e]) s')
    (h : List ε) (s s' : σ) (es : List ε) (hs : Inv h s) (hr : es.foldlM step s = .ok s') :
    Inv (h ++ es) s' := by
  induction es generalizing h s with
  | nil =>
    obtain rfl := Except.ok.inj hr
    rwa [List.append_nil]
  | cons e es ih =>
    rw [List.foldlM_cons] at hr
    cases he : step s e with
    | error m =>
      rw [he] at hr
      cases hr
    | ok t =>
      rw [he] at hr
      have := ih (h ++ [e]) t (hstep h s e t hs he) hr
      rwa [List.append_assoc] at this

end Cosmid.Tables
