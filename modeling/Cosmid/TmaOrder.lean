import Cosmid.Tma
import Mathlib.Data.List.Flatten

/-! Partitions that only go forward. When every reaction and every script leads to a state later in
some order of the states, then whatever such a partition sees and whenever it is visited, it
sends the commands of its scripts at most once each, and in order. -/
namespace Cosmid.Tma

section Script

variable {ε σ κ : Type}

/-- The commands in a script. -/
def sends (script : List (Stmt ε σ κ)) : List κ :=
  script.filterMap fun stmt => match stmt with
    | .send cmd => some cmd
    | _ => none

theorem sends_cons (stmt : Stmt ε σ κ) (script : List (Stmt ε σ κ)) :
    sends (stmt :: script) = sends [stmt] ++ sends script := by
  rw [← List.singleton_append, sends, List.filterMap_append]
  rfl

/-- A script that stops has sent what is no longer in its rest; one that leaves the state has sent
a first part of its commands. -/
theorem runScript_sent (now : ℕ) (env : ε) (script : List (Stmt ε σ κ)) (since : ℕ) :
    match runScript now env script since with
    | (cmds, .inl (rest, _)) => sends script = cmds ++ sends rest
    | (cmds, .inr target) => cmds <+: sends script ∧ .validate target ∈ script := by
  induction script generalizing since with
  | nil => rfl
  | cons stmt script ih =>
    have hskip (t : ℕ) (hstmt : sends [stmt] = []) : match runScript now env script t with
        | (cmds, .inl (rest, _)) => sends (stmt :: script) = cmds ++ sends rest
        | (cmds, .inr target) =>
          cmds <+: sends (stmt :: script) ∧ .validate target ∈ stmt :: script := by
      have hrest := ih t
      rw [sends_cons, hstmt, List.nil_append]
      split at hrest
      · exact hrest
      · exact ⟨hrest.1, List.mem_cons_of_mem _ hrest.2⟩
    cases stmt with
    | send cmd =>
      have hrest := ih since
      rw [runScript, sends_cons]
      split at hrest
      · rename_i cmds rest t hrun
        rw [hrun]
        exact congrArg (cmd :: ·) hrest
      · rename_i cmds target hrun
        rw [hrun]
        exact ⟨List.cons_prefix_cons.mpr ⟨rfl, hrest.1⟩, List.mem_cons_of_mem _ hrest.2⟩
    | hold cond limit =>
      rw [runScript]
      split_ifs
      · exact hskip now rfl
      · rfl
    | wait secs =>
      rw [runScript]
      split_ifs
      · exact hskip _ rfl
      · rfl
    | validate target => exact ⟨List.nil_prefix, List.mem_cons_self ..⟩

end Script

namespace Partition

variable {ε σ κ : Type} (P : Partition ε σ κ) (order : List σ)

/-- From every state the partition goes to later ones only. -/
def Forward : Prop :=
  ∀ s t, ((∃ r ∈ P.reactions s, r.target = t) ∨ .validate t ∈ P.script s) →
    ∀ pre post, order = pre ++ s :: post → t ∈ post

/-- The commands of the scripts of some states. -/
def scripted (states : List σ) : List κ := states.flatMap fun s => sends (P.script s)

/-- `sent` and what the script of the state has still to send are, in order, commands of this
state's script and of those of the states before it. -/
def Spent (sent : List κ) (place : Place ε σ κ) : Prop :=
  ∃ pre post, order = pre ++ place.state :: post ∧
    (sent ++ sends place.rest).Sublist (P.scripted (pre ++ [place.state]))

variable {P order}

theorem spent_enter (now : ℕ) (s : σ) (post : List σ) (h : order = s :: post) :
    P.Spent order [] (P.enter now s) := by
  refine ⟨[], post, h, ?_⟩
  rw [scripted, List.nil_append, List.nil_append, List.flatMap_singleton]
  exact List.Sublist.refl _

/-- It is enough to look at what comes behind a state in `order`. -/
theorem forward_of_drop [DecidableEq σ] (hnodup : order.Nodup)
    (h : ∀ s t, ((∃ r ∈ P.reactions s, r.target = t) ∨ .validate t ∈ P.script s) →
      t ∈ order.drop (order.idxOf s+1)) : P.Forward order := by
  rintro s t hedge pre post rfl
  have hnot : s ∉ pre := fun hmem =>
    (List.nodup_append.mp hnodup).2.2 s hmem s (List.mem_cons_self ..) rfl
  have htarget := h s t hedge
  rw [List.idxOf_append_of_notMem hnot, List.idxOf_cons_self, Nat.add_zero,
    List.drop_length_add_append] at htarget
  exact htarget

/-- Another state starts with the whole of its script. -/
theorem Spent.enter {sent cmds : List κ} {place : Place ε σ κ} (h : P.Spent order sent place)
    (hforward : P.Forward order) (hcmds : cmds <+: sends place.rest) (now : ℕ) {t : σ}
    (ht : (∃ r ∈ P.reactions place.state, r.target = t) ∨ .validate t ∈ P.script place.state) :
    P.Spent order (sent ++ cmds) (P.enter now t) := by
  obtain ⟨pre, post, horder, hsub⟩ := h
  obtain ⟨mid, post', rfl⟩ := List.mem_iff_append.mp (hforward _ _ ht pre post horder)
  refine ⟨pre ++ place.state :: mid, post', by rw [horder, List.append_assoc]; rfl, ?_⟩
  have hfirst : (sent ++ cmds).Sublist (P.scripted (pre ++ [place.state])) :=
    ((List.Sublist.refl sent).append hcmds.sublist).trans hsub
  have hmid : P.scripted (pre ++ place.state :: mid ++ [t]) =
      P.scripted (pre ++ [place.state]) ++ (P.scripted mid ++ sends (P.script t)) := by
    simp only [scripted, List.flatMap_append, List.flatMap_cons, List.flatMap_nil, List.append_nil,
      List.append_assoc]
  change (sent ++ cmds ++ sends (P.script t)).Sublist
    (P.scripted (pre ++ place.state :: mid ++ [t]))
  rw [hmid]
  exact hfirst.append (List.sublist_append_right _ _)

/-- A visit adds what it sends. -/
theorem Spent.visit {sent : List κ} {place : Place ε σ κ} (h : P.Spent order sent place)
    (hforward : P.Forward order) (hscript : P.OnScript place) (now : ℕ) (env : ε) :
    P.Spent order (sent ++ (P.visit now env place).1) (P.visit now env place).2 := by
  unfold Partition.visit
  split
  · rename_i r hr
    exact h.enter hforward List.nil_prefix now (Or.inl ⟨r, List.mem_of_find?_eq_some hr, rfl⟩)
  · have hsent := runScript_sent now env place.rest place.since
    unfold stopped
    split at hsent
    · rename_i cmds rest since hrun
      rw [hrun]
      obtain ⟨pre, post, horder, hsub⟩ := h
      refine ⟨pre, post, horder, ?_⟩
      rwa [List.append_assoc, ← hsent]
    · rename_i cmds target hrun
      rw [hrun]
      exact h.enter hforward hsent.1 now (Or.inr (hscript.subset hsent.2))

/-- All that has been sent. -/
theorem Spent.sublist {sent : List κ} {place : Place ε σ κ} (h : P.Spent order sent place) :
    sent.Sublist (P.scripted order) := by
  obtain ⟨pre, post, horder, hsub⟩ := h
  have hsplit : P.scripted order = P.scripted (pre ++ [place.state]) ++ P.scripted post := by
    rw [horder, scripted, scripted, scripted, ← List.flatMap_append, List.append_assoc]
    rfl
  rw [hsplit]
  exact ((List.sublist_append_left sent _).trans hsub).trans (List.sublist_append_left _ _)

end Partition
end Cosmid.Tma
