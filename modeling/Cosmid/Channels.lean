import Mathlib.Data.List.Perm.Subperm
import Mathlib.Tactic.Common

/-! Several channels into one machine. A log has an entry for every item with the channel that
it belongs to, so it is one order of all items, and on every channel an order of its own. -/
namespace Cosmid.Channels

variable {ι κ : Type}

/-- The items of channel `i`. -/
def onChannel [DecidableEq ι] (log : List (ι × κ)) (i : ι) : List κ :=
  (log.filter fun e => e.1 = i).map Prod.snd

/-- Items that come one after the other on channel `i`. -/
def tag (i : ι) (items : List κ) : List (ι × κ) := items.map fun x => (i,x)

@[simp] theorem tag_nil (i : ι) : tag i ([] : List κ) = [] := rfl

@[simp] theorem map_snd_tag (i : ι) (items : List κ) : (tag i items).map Prod.snd = items := by
  rw [tag, List.map_map]
  exact List.map_id' items

variable [DecidableEq ι]

@[simp] theorem onChannel_nil (i : ι) : onChannel ([] : List (ι × κ)) i = [] := rfl

@[simp] theorem onChannel_append (log log' : List (ι × κ)) (i : ι) :
    onChannel (log ++ log') i = onChannel log i ++ onChannel log' i := by
  rw [onChannel, List.filter_append, List.map_append, onChannel, onChannel]

@[simp] theorem onChannel_tag_self (i : ι) (items : List κ) :
    onChannel (tag i items) i = items := by
  have hall : (tag i items).filter (fun e => e.1 = i) = tag i items := by
    rw [List.filter_eq_self]
    simp [tag]
  rw [onChannel, hall, tag, List.map_map]
  exact List.map_id' items

theorem onChannel_tag_ne {i j : ι} (h : i ≠ j) (items : List κ) :
    onChannel (tag i items) j = [] := by
  have hnone : (tag i items).filter (fun e => e.1 = j) = [] := by
    rw [List.filter_eq_nil_iff]
    simp [tag, h]
  rw [onChannel, hnone]
  rfl

/-- On every channel `log` has come to some item of those sent, and has left out none before. -/
def Follows (log sent : List (ι × κ)) : Prop := ∀ i, onChannel log i <+: onChannel sent i

theorem count_onChannel [DecidableEq κ] (log : List (ι × κ)) (i : ι) (x : κ) :
    (onChannel log i).count x = log.count (i,x) := by
  rw [onChannel, List.count, List.countP_map, List.countP_filter, List.count]
  refine List.countP_congr fun e _ => ?_
  obtain ⟨j, y⟩ := e
  simp [and_comm]

/-- So what has been sent once is in the log once at most. -/
theorem Follows.subperm {log sent : List (ι × κ)} (h : Follows log sent) : log.Subperm sent := by
  classical
  rw [List.subperm_ext_iff]
  intro e _
  obtain ⟨i, x⟩ := e
  rw [← count_onChannel, ← count_onChannel]
  exact (h i).sublist.count_le x

theorem Follows.countP_le {log sent : List (ι × κ)} (h : Follows log sent) (p : κ → Bool) :
    (log.map Prod.snd).countP p ≤ (sent.map Prod.snd).countP p := by
  rw [List.countP_map, List.countP_map]
  exact h.subperm.countP_le _

end Cosmid.Channels
