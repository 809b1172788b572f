import Cosmid.NephexExport
import Mathlib.Data.List.Induction
import Mathlib.Data.List.Nodup

/-! The decimation of the nephelometer's packets: which of the calls of
`APid::OK_to_transmit` for an APID are answered with true. -/
namespace Cosmid.Nephex.APid

/-- The entry as the constructor leaves it. -/
def defined (size dec : ℕ) : ApidDef := ⟨size,dec,if dec ≠ 0 then 1 else 0,0⟩

theorem defineAll_append (es fs : List (ℕ × ℕ × ℕ)) (t : APid) :
    defineAll (es ++ fs) t = (defineAll es t).bind (defineAll fs) := by
  induction es generalizing t with
  | nil => rfl
  | cons e es ih =>
    obtain ⟨APID, size, dec⟩ := e
    simp only [List.cons_append, defineAll, Option.bind_assoc]
    exact congrArg _ (funext ih)

/-- The first `def`, and the table it leaves to the others. -/
theorem defineAll_cons {APID size dec : ℕ} {es : List (ℕ × ℕ × ℕ)} {t t' : APid}
    (h : defineAll ((APID, size, dec) :: es) t = some t') :
    APID ≤ maxApid ∧ defineAll es
      {t with defs := Function.update t.defs APID (defined size dec)} = some t' := by
  simp only [defineAll, Option.bind_eq_some_iff] at h
  obtain ⟨t1, h1, h2⟩ := h
  simp only [define, Option.ite_none_right_eq_some, Option.some.injEq] at h1
  obtain ⟨hle, rfl⟩ := h1
  exact ⟨hle, h2⟩

theorem defineAll_defs_of_notMem {es : List (ℕ × ℕ × ℕ)} {t t' : APid} {a : ℕ}
    (h : defineAll es t = some t') (ha : a ∉ es.map Prod.fst) : t'.defs a = t.defs a := by
  induction es generalizing t with
  | nil =>
    obtain rfl := Option.some.inj h
    rfl
  | cons e es ih =>
    obtain ⟨APID, size, dec⟩ := e
    rw [List.map_cons, List.mem_cons, not_or] at ha
    rw [ih (defineAll_cons h).2 ha.2]
    exact Function.update_of_ne ha.1 _ _

theorem defineAll_defs_of_mem {es : List (ℕ × ℕ × ℕ)} {t t' : APid} {a size dec : ℕ}
    (h : defineAll es t = some t') (hnodup : (es.map Prod.fst).Nodup)
    (hmem : (a, size, dec) ∈ es) : t'.defs a = defined size dec := by
  induction es generalizing t with
  | nil => cases hmem
  | cons e es ih =>
    rw [List.map_cons, List.nodup_cons] at hnodup
    rcases List.mem_cons.mp hmem with rfl | hrest
    · rw [defineAll_defs_of_notMem (defineAll_cons h).2 hnodup.1]
      exact Function.update_self a _ _
    · obtain ⟨APID, size', dec'⟩ := e
      exact ih (defineAll_cons h).2 hnodup.2 hrest

theorem new_defs_of_mem {memory : ℕ → ApidDef} {t : APid} (h : new memory = some t)
    {a size dec : ℕ} (hmem : (a, size, dec) ∈ entries) : t.defs a = defined size dec := by
  rw [new, defineAll_append, Option.bind_eq_some_iff] at h
  obtain ⟨t1, -, h2⟩ := h
  exact defineAll_defs_of_mem h2 (by decide) hmem

/-- What the constructor knows of an APID: its entry, or that it is undefined. -/
theorem new_defs {memory : ℕ → ApidDef} {t : APid} (h : new memory = some t) (a : ℕ)
    (ha : a ≤ maxApid) :
    (∃ size dec, (a, size, dec) ∈ entries ∧ t.defs a = defined size dec) ∨
      (a ∉ entries.map Prod.fst ∧ t.defs a = defined 0 0) := by
  by_cases hmem : a ∈ entries.map Prod.fst
  · obtain ⟨⟨b, size, dec⟩, he, rfl⟩ := List.mem_map.mp hmem
    exact Or.inl ⟨size, dec, he, new_defs_of_mem h he⟩
  · rw [new, defineAll_append, Option.bind_eq_some_iff] at h
    obtain ⟨t1, h1, h2⟩ := h
    refine Or.inr ⟨hmem, ?_⟩
    rw [defineAll_defs_of_notMem h2 hmem]
    refine defineAll_defs_of_mem h1 ?_ (List.mem_map.mpr ⟨a, ?_, rfl⟩)
    · rw [List.map_map]
      exact (List.map_id (List.range (maxApid+1))).symm ▸ List.nodup_range
    · exact List.mem_range.mpr (Nat.lt_succ_of_le ha)

/-- The table after calls of `OK_to_transmit` for these APIDs. -/
def afterCalls (t : APid) (ids : List ℕ) : APid := ids.foldl (fun t a => (t.okToTransmit a).2) t

theorem afterCalls_concat (t : APid) (ids : List ℕ) (a : ℕ) :
    t.afterCalls (ids ++ [a]) = ((t.afterCalls ids).okToTransmit a).2 := by
  rw [afterCalls, List.foldl_append]
  rfl

/-- A call for another APID does not touch the entry. -/
theorem okToTransmit_other (t : APid) (a b : ℕ) (hab : a ≠ b) :
    (t.okToTransmit b).2.defs a = t.defs a := by
  unfold okToTransmit
  dsimp only
  split_ifs
  · rfl
  · rfl
  · exact Function.update_of_ne hab _ _
  · exact Function.update_of_ne hab _ _

/-- What `n_to_skip` is after `k` calls: one more than the calls to skip before the next one
that is answered with true. -/
def skipAfter (dec k : ℕ) : ℕ := 1+(dec-k%dec)%dec

theorem skipAfter_zero (dec : ℕ) : skipAfter dec 0 = 1 := by
  simp [skipAfter]

/-- Counting down, and starting again at a multiple of the rate. -/
theorem skipAfter_succ (dec k : ℕ) (hdec : 0 < dec) : skipAfter dec (k+1) =
    if skipAfter dec k-1 = 0 then dec else skipAfter dec k-1 := by
  have hk := Nat.mod_lt k hdec
  have hnext : (k+1)%dec = (k%dec+1)%dec := (Nat.mod_add_mod k dec 1).symm
  unfold skipAfter
  rw [hnext]
  generalize k%dec = r at hk
  by_cases hlast : r+1 = dec
  · -- The next call is due.
    rw [hlast, Nat.mod_self, Nat.sub_zero, Nat.mod_self]
    by_cases hone : r = 0
    · rw [hone, Nat.sub_zero, Nat.mod_self]
      simp only [Nat.add_sub_cancel_left, if_true]
      omega
    · rw [Nat.mod_eq_of_lt (by omega : dec-r < dec), if_neg (by omega)]
      omega
  · rw [Nat.mod_eq_of_lt (by omega : r+1 < dec),
      Nat.mod_eq_of_lt (by omega : dec-(r+1) < dec)]
    by_cases hzero : r = 0
    · rw [hzero, Nat.sub_zero, Nat.mod_self]
      simp only [Nat.add_sub_cancel_left, if_true]
      omega
    · rw [Nat.mod_eq_of_lt (by omega : dec-r < dec), if_neg (by omega)]
      omega

theorem skipAfter_eq_one_iff (dec k : ℕ) (hdec : 0 < dec) : skipAfter dec k = 1 ↔ dec ∣ k := by
  have hk := Nat.mod_lt k hdec
  rw [Nat.dvd_iff_mod_eq_zero, skipAfter]
  constructor
  · intro h
    by_contra hne
    rw [Nat.mod_eq_of_lt (by omega : dec-k%dec < dec)] at h
    omega
  · intro h
    rw [h, Nat.sub_zero, Nat.mod_self]

theorem skipAfter_le (dec k : ℕ) (hdec : 0 < dec) : 0 < skipAfter dec k ∧ skipAfter dec k ≤ dec := by
  have hk := Nat.mod_lt (dec-k%dec) hdec
  unfold skipAfter
  omega

/-- The entry of an APID that is defined with a size and a rate, after `k` calls for it. -/
def Decimating (d : ApidDef) (size dec k : ℕ) : Prop :=
  d.size = size ∧ d.decimationRate = dec ∧ d.nToSkip = skipAfter dec k

/-- One call for the APID: it is answered with true at the multiples of its rate. -/
theorem okToTransmit_decimating (t : APid) (a size dec k : ℕ) (ha : a ≤ maxApid)
    (hsize : size ≠ 0) (hdec : 0 < dec) (hlt : dec < 65536)
    (h : Decimating (t.defs a) size dec k) : ((t.okToTransmit a).1 = true ↔ dec ∣ k) ∧
      Decimating ((t.okToTransmit a).2.defs a) size dec (k+1) := by
  obtain ⟨h1, h2, h3⟩ := h
  obtain ⟨hpos, hle⟩ := skipAfter_le dec k hdec
  have hsub : u16 ((t.defs a).nToSkip+65535) = skipAfter dec k-1 := by
    rw [u16, h3]
    omega
  have hguard : ¬((t.defs a).size = 0 ∨ (t.defs a).decimationRate = 0) := by omega
  have hsucc := skipAfter_succ dec k hdec
  unfold okToTransmit
  rw [if_neg (Nat.not_lt.mpr ha)]
  dsimp only
  rw [if_neg hguard, hsub]
  by_cases hzero : skipAfter dec k-1 = 0
  · rw [if_pos hzero] at hsucc ⊢
    refine ⟨iff_of_true rfl ((skipAfter_eq_one_iff dec k hdec).mp (by omega)), ?_⟩
    simp only [Function.update_self]
    exact ⟨h1, h2, h2.trans hsucc.symm⟩
  · rw [if_neg hzero] at hsucc ⊢
    refine ⟨iff_of_false Bool.false_ne_true fun hdvd => ?_, ?_⟩
    · have := (skipAfter_eq_one_iff dec k hdec).mpr hdvd
      omega
    · simp only [Function.update_self]
      exact ⟨h1, h2, hsucc.symm⟩

/-- Without a size or a rate, or behind the table, the answer is always false. -/
theorem okToTransmit_refused (t : APid) (a : ℕ)
    (h : a ≤ maxApid → (t.defs a).size = 0 ∨ (t.defs a).decimationRate = 0) :
    (t.okToTransmit a).1 = false ∧ ∀ b, (t.okToTransmit a).2.defs b = t.defs b := by
  unfold okToTransmit
  by_cases ha : a > maxApid
  · rw [if_pos ha]
    exact ⟨rfl, fun _ => rfl⟩
  · rw [if_neg ha]
    dsimp only
    rw [if_pos (h (Nat.not_lt.mp ha))]
    exact ⟨rfl, fun _ => rfl⟩

/-- The entry depends on the number of calls for its own APID alone. -/
theorem afterCalls_decimating (t : APid) (a size dec : ℕ) (ha : a ≤ maxApid) (hsize : size ≠ 0)
    (hdec : 0 < dec) (hlt : dec < 65536) (h : t.defs a = defined size dec) (ids : List ℕ) :
    Decimating ((t.afterCalls ids).defs a) size dec (ids.count a) := by
  induction ids using List.reverseRecOn with
  | nil =>
    rw [show t.afterCalls [] = t from rfl, h, List.count_nil]
    exact ⟨rfl, rfl, by rw [skipAfter_zero, defined, if_pos (by omega)]⟩
  | append_singleton ids b ih =>
    rw [afterCalls_concat, List.count_append]
    by_cases hab : a = b
    · subst hab
      rw [List.count_singleton_self]
      exact (okToTransmit_decimating _ a size dec _ ha hsize hdec hlt ih).2
    · rw [okToTransmit_other _ a b hab, List.count_singleton, if_neg (by simpa using Ne.symm hab)]
      exact ih

theorem afterCalls_refused (t : APid) (a size dec : ℕ) (h : t.defs a = defined size dec)
    (hzero : size = 0 ∨ dec = 0) (ids : List ℕ) :
    (t.afterCalls ids).defs a = defined size dec := by
  induction ids using List.reverseRecOn with
  | nil => exact h
  | append_singleton ids b ih =>
    rw [afterCalls_concat]
    by_cases hab : a = b
    · subst hab
      rw [(okToTransmit_refused _ a fun _ => by rw [ih]; exact hzero).2 a, ih]
    · rw [okToTransmit_other _ a b hab, ih]

/-- The APIDs of the constructor are in the table, and their rates fit the field. -/
theorem entries_lt : ∀ e ∈ entries, e.1 ≤ maxApid ∧ e.2.2 < 65536 := by decide

theorem entry_unique {a size dec size' dec' : ℕ} (h : (a, size, dec) ∈ entries)
    (h' : (a, size', dec') ∈ entries) : size = size' ∧ dec = dec' := by
  have heq := List.inj_on_of_nodup_map (by decide : (entries.map Prod.fst).Nodup) h h' rfl
  simpa using heq

/-- Decimation is exact and for each APID by itself: the call after `ids`, of which there are
`ids.count a` for the same APID, is answered with true if and only if the constructor defines the
APID with a size and a rate that divides this number. An `n_to_skip` that is
decremented is never 0. -/
theorem decimation_exact (memory : ℕ → ApidDef) : ∃ t, new memory = some t ∧
    ∀ (ids : List ℕ) (a : ℕ),
      (((t.afterCalls ids).okToTransmit a).1 = true ↔
        ∃ size dec, (a, size, dec) ∈ entries ∧ size ≠ 0 ∧ dec ≠ 0 ∧ dec ∣ ids.count a) ∧
      (a ≤ maxApid → ((t.afterCalls ids).defs a).size ≠ 0 →
        ((t.afterCalls ids).defs a).decimationRate ≠ 0 →
          0 < ((t.afterCalls ids).defs a).nToSkip) := by
  obtain ⟨t, ht, -⟩ := new_isSome memory
  refine ⟨t, ht, ?_⟩
  intro ids a
  -- An APID without an entry that lets it through is refused.
  have hrefused (hnone : ∀ size dec, (a, size, dec) ∈ entries → size = 0 ∨ dec = 0)
      (hdefs : a ≤ maxApid → ((t.afterCalls ids).defs a).size = 0 ∨
        ((t.afterCalls ids).defs a).decimationRate = 0) :
      ((t.afterCalls ids).okToTransmit a).1 = true ↔
        ∃ size dec, (a, size, dec) ∈ entries ∧ size ≠ 0 ∧ dec ≠ 0 ∧ dec ∣ ids.count a := by
    rw [(okToTransmit_refused _ a hdefs).1]
    refine iff_of_false Bool.false_ne_true ?_
    rintro ⟨size, dec, hmem, hsize, hdec, -⟩
    have := hnone size dec hmem
    omega
  by_cases ha : a ≤ maxApid
  · rcases new_defs ht a ha with ⟨size, dec, hmem, hdef⟩ | ⟨hmem, hdef⟩
    · by_cases hzero : size = 0 ∨ dec = 0
      · have hkeep := afterCalls_refused t a size dec hdef hzero ids
        refine ⟨hrefused ?_ ?_, ?_⟩
        · intro size' dec' hmem'
          obtain ⟨rfl, rfl⟩ := entry_unique hmem hmem'
          exact hzero
        · intro _
          rw [hkeep]
          exact hzero
        · intro _ h1 h2
          rw [hkeep] at h1 h2
          exact absurd hzero (not_or.mpr ⟨h1, h2⟩)
      · obtain ⟨hsize, hdec⟩ := not_or.mp hzero
        have hlt := (entries_lt _ hmem).2
        have hinv := afterCalls_decimating t a size dec ha hsize (by omega) hlt hdef ids
        have hcall := okToTransmit_decimating _ a size dec _ ha hsize (by omega) hlt hinv
        refine ⟨hcall.1.trans ⟨fun hdvd => ⟨size, dec, hmem, hsize, hdec, hdvd⟩, ?_⟩, ?_⟩
        · rintro ⟨size', dec', hmem', -, -, hdvd⟩
          obtain ⟨rfl, rfl⟩ := entry_unique hmem hmem'
          exact hdvd
        · intro _ _ _
          rw [hinv.2.2]
          exact (skipAfter_le dec _ (by omega)).1
    · have hkeep := afterCalls_refused t a 0 0 hdef (Or.inl rfl) ids
      refine ⟨hrefused ?_ ?_, ?_⟩
      · intro size dec hmem'
        exact absurd (List.mem_map.mpr ⟨_, hmem', rfl⟩) hmem
      · intro _
        rw [hkeep]
        exact Or.inl rfl
      · intro _ h1
        rw [hkeep] at h1
        exact absurd rfl h1
  · refine ⟨hrefused ?_ fun h => absurd h ha, fun h => absurd h ha⟩
    intro size dec hmem
    exact absurd (entries_lt _ hmem).1 ha

end Cosmid.Nephex.APid
