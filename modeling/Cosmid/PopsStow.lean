import Cosmid.Run
import Cosmid.Shell
import Cosmid.Tables
import Mathlib.Data.List.Infix
import Mathlib.Data.List.Nodup
import Mathlib.Data.List.Perm.Subperm
import Mathlib.Data.Nat.Find
import Std.Data.String.ToNat

/-! `POPSstow` (BBB/srvr/BBB/POPSstow): the directories `F*` of `/media/uSD/Data` go to
`oldData`, each under its own name or with the first suffix that is free. Its variables
are not quoted, so the shell splits and expands their values. -/
namespace Cosmid.Pops

open Shell

/-- A directory in `Data` or in `Data/oldData`. -/
inductive Path
  | data (name : Word)
  | oldData (name : Word)
deriving DecidableEq

def Path.name : Path → Word
  | .data name => name
  | .oldData name => name

/-- The shell, and what `mv` makes of a directory when it moves another one into it. -/
structure Host (δ : Type) extends Globbing where
  into : δ → Word → δ → Option δ

/-- The directories in `Data` and in `oldData` with their contents, and the moves
announced so far. -/
structure DataCard (δ : Type) where
  data : List (Word × δ)
  oldData : List (Word × δ)
  echoed : List (Word × Word)
deriving DecidableEq

namespace DataCard

variable {δ : Type}

def runNames (c : DataCard δ) : List Word := c.data.map Prod.fst

def oldNames (c : DataCard δ) : List Word := c.oldData.map Prod.fst

/-- Names are unique in a directory. -/
structure Valid (c : DataCard δ) : Prop where
  runs : c.runNames.Nodup
  old : c.oldNames.Nodup

def find (c : DataCard δ) : Path → Option δ
  | .data name => c.data.lookup name
  | .oldData name => c.oldData.lookup name

def remove (c : DataCard δ) : Path → DataCard δ
  | .data name => {c with data := c.data.filter fun e => e.1 ≠ name}
  | .oldData name => {c with oldData := c.oldData.filter fun e => e.1 ≠ name}

def put (c : DataCard δ) (d : δ) : Path → DataCard δ
  | .data name => {c with data := c.data ++ [(name,d)]}
  | .oldData name => {c with oldData := c.oldData ++ [(name,d)]}

def replace (c : DataCard δ) (d : δ) : Path → DataCard δ
  | .data name => {c with data := c.data.map fun e => if e.1 = name then (name,d) else e}
  | .oldData name => {c with oldData := c.oldData.map fun e => if e.1 = name then (name,d) else e}

def rename (c : DataCard δ) (src dst : Path) : DataCard δ :=
  match c.find src with
  | some d => (c.remove src).put d dst
  | none => c

def moveInto (h : Host δ) (dst : Path) (c : DataCard δ) (src : Path) : DataCard δ :=
  if src = dst then c
  else
    match c.find src, c.find dst with
    | some s, some d =>
      match h.into d src.name s with
      | some d' => (c.remove src).replace d' dst
      | none => c
    | _, _ => c

/-- `mv`: with an existing directory as the last argument all others are moved into it,
otherwise only a single one is renamed. -/
def mv (h : Host δ) (c : DataCard δ) (args : List Path) : DataCard δ :=
  match args.getLast? with
  | none => c
  | some dst =>
    if (c.find dst).isSome then args.dropLast.foldl (moveInto h dst) c
    else
      match args.dropLast with
      | [src] => c.rename src dst
      | _ => c

/-- `[ -d oldData/$dest ]`, which fails for more than one word. -/
def isDirectory (h : Host δ) (c : DataCard δ) (dest : Word) : Bool :=
  match h.expand c.oldNames dest with
  | [name] => (c.find (.oldData name)).isSome
  | _ => false

/-- `$run$suffix` with the suffix `.i`. -/
def suffixed (run : Word) (i : ℕ) : Word := run ++ '.' :: Nat.toDigits 10 i

/-- The `while` loop; `none` is a loop that has not ended. -/
def findDest (h : Host δ) (c : DataCard δ) (run : Word) : ℕ → ℕ → Word → Option Word
  | 0, _, _ => none
  | fuel+1, i, dest =>
    if c.isDirectory h dest then findDest h c run fuel (i+1) (suffixed run i) else some dest

/-- One iteration of the `for` loop. -/
def stowRun (h : Host δ) (fuel : ℕ) (c : DataCard δ) (run : Word) : Option (DataCard δ) :=
  (c.findDest h run fuel 1 run).map fun dest =>
    let c := {c with echoed := c.echoed ++ [(run,dest)]}
    c.mv h ((h.expand c.runNames run).map .data ++ (h.expand c.oldNames dest).map .oldData)

/-- The output of `ls -d F*`. -/
def listing (h : Host δ) (c : DataCard δ) : List Word :=
  h.sort (c.runNames.filter (h.isMatch ['F','*']))

/-- The words of `$runs`. -/
def runs (h : Host δ) (c : DataCard δ) : List Word :=
  (fieldSplit (substitution (c.listing h))).flatMap (h.expand c.runNames)

def popsStow (h : Host δ) (fuel : ℕ) (c : DataCard δ) : Option (DataCard δ) :=
  Run.run (stowRun h fuel) c (c.runs h)

theorem find_oldData_isSome_iff (c : DataCard δ) (name : Word) :
    (c.find (.oldData name)).isSome = true ↔ name ∈ c.oldNames :=
  Tables.lookup_isSome_iff c.oldData name

theorem exists_find_data (c : DataCard δ) (name : Word) (h : name ∈ c.runNames) :
    ∃ d, c.find (.data name) = some d ∧ (name,d) ∈ c.data :=
  Tables.exists_lookup c.data name h

/-- With one source and a destination that does not exist `mv` renames. -/
theorem mv_rename (h : Host δ) (c : DataCard δ) (src dst : Path) (hdst : c.find dst = none) :
    c.mv h [src,dst] = c.rename src dst := by
  have hlast : [src,dst].getLast? = some dst := rfl
  have hinit : [src,dst].dropLast = [src] := rfl
  rw [mv, hlast, hinit]
  simp only [hdst, Option.isSome_none, Bool.false_eq_true, if_false]

/-- The names that are tried, in order. -/
def candidate (run : Word) : ℕ → Word
  | 0 => run
  | k+1 => suffixed run (k+1)

theorem suffixed_injective (run : Word) : Function.Injective (suffixed run) := by
  intro i j h
  have hd := List.append_cancel_left h
  apply Nat.repr_injective
  unfold Nat.repr
  rw [(List.cons.inj hd).2]

theorem suffixed_ne (run : Word) (i : ℕ) : suffixed run i ≠ run := by
  intro h
  have hlen := congrArg List.length h
  rw [suffixed, List.length_append, List.length_cons] at hlen
  omega

theorem candidate_injective (run : Word) : Function.Injective (candidate run) := by
  intro i j h
  cases i with
  | zero =>
    cases j with
    | zero => rfl
    | succ j => exact absurd h.symm (suffixed_ne run (j+1))
  | succ i =>
    cases j with
    | zero => exact absurd h (suffixed_ne run (i+1))
    | succ j => exact suffixed_injective run h

theorem special_candidate (run : Word) (hrun : Plain run) (k : ℕ) :
    ∀ x ∈ candidate run k, isSpecial x = false := by
  cases k with
  | zero => exact hrun.special
  | succ k =>
    apply hrun.append_special
    intro x hx
    rcases List.mem_cons.mp hx with rfl | hx
    · rfl
    · have hdigit := Nat.isDigit_of_mem_toDigits (by decide) (by decide) hx
      by_contra hs
      rw [Bool.not_eq_false] at hs
      simp only [isSpecial, Bool.or_eq_true, decide_eq_true_eq] at hs
      rcases hs with (rfl | rfl) | rfl
      · cases hdigit
      · cases hdigit
      · cases hdigit

/-- Among more names than there are entries one is free. -/
theorem exists_candidate (run : Word) (names : List Word) :
    ∃ k, k ≤ names.length ∧ candidate run k ∉ names := by
  by_contra hno
  have hall (k : ℕ) (hk : k ≤ names.length) : candidate run k ∈ names := by
    by_contra h
    exact hno ⟨k, hk, h⟩
  -- Then one different name more than there are entries would be among them.
  have hsub : (List.range (names.length+1)).map (candidate run) ⊆ names := by
    intro w hw
    obtain ⟨k, hk, rfl⟩ := List.mem_map.mp hw
    exact hall k (Nat.le_of_lt_succ (List.mem_range.mp hk))
  have hnodup := List.Nodup.map (candidate_injective run) (List.nodup_range (n := names.length+1))
  have hle := (hnodup.subperm hsub).length_le
  rw [List.length_map, List.length_range] at hle
  omega

theorem exists_first_candidate (run : Word) (names : List Word) :
    ∃ k, k ≤ names.length ∧ candidate run k ∉ names ∧ ∀ i < k, candidate run i ∈ names := by
  have hex : ∃ k, candidate run k ∉ names := by
    obtain ⟨k, -, hk⟩ := exists_candidate run names
    exact ⟨k, hk⟩
  refine ⟨Nat.find hex, ?_, Nat.find_spec hex, ?_⟩
  · obtain ⟨k, hle, hk⟩ := exists_candidate run names
    exact Nat.le_trans (Nat.find_min' hex hk) hle
  · intro i hi
    by_contra h
    exact Nat.find_min hex hi h

theorem isDirectory_candidate (h : Host δ) (c : DataCard δ) (run : Word) (hrun : Plain run)
    (k : ℕ) : c.isDirectory h (candidate run k) = true ↔ candidate run k ∈ c.oldNames := by
  rw [isDirectory, expand_of_special _ _ _ (special_candidate run hrun k)]
  exact find_oldData_isSome_iff c _

/-- The loop ends at the first name that is free. -/
theorem findDest_candidate (h : Host δ) (c : DataCard δ) (run : Word) (hrun : Plain run)
    (fuel j k : ℕ) (hfree : candidate run j ∉ c.oldNames)
    (htaken : ∀ i < j, candidate run i ∈ c.oldNames) (hkj : k ≤ j) (hfuel : j < k+fuel) :
    c.findDest h run fuel (k+1) (candidate run k) = some (candidate run j) := by
  -- The first `k` names have been found taken; the fuel lasts for the others up to `j`.
  induction fuel generalizing k with
  | zero => omega
  | succ fuel ih =>
    rw [findDest]
    rcases Nat.lt_or_eq_of_le hkj with hlt | rfl
    · rw [if_pos ((isDirectory_candidate h c run hrun k).mpr (htaken k hlt))]
      exact ih (k+1) hlt (by omega)
    · rw [if_neg]
      intro hdir
      exact hfree ((isDirectory_candidate h c run hrun k).mp hdir)

/-- One run is moved, under a name that is new. -/
theorem stowRun_plain (h : Host δ) (c : DataCard δ) (run : Word) (hrun : Plain run)
    (hmem : run ∈ c.runNames) : ∃ dest d, (run,d) ∈ c.data ∧ dest ∉ c.oldNames ∧
      ∀ fuel, c.oldData.length < fuel → stowRun h fuel c run =
        some ⟨c.data.filter fun e => e.1 ≠ run,c.oldData ++ [(dest,d)],c.echoed ++ [(run,dest)]⟩ := by
  obtain ⟨d, hd, hdmem⟩ := exists_find_data c run hmem
  obtain ⟨k, hk, hfree, htaken⟩ := exists_first_candidate run c.oldNames
  refine ⟨candidate run k, d, hdmem, hfree, ?_⟩
  intro fuel hfuel
  have hlen : c.oldNames.length = c.oldData.length := List.length_map _
  have hdest := findDest_candidate h c run hrun fuel k 0 hfree htaken (Nat.zero_le k) (by omega)
  have hnone : c.find (.oldData (candidate run k)) = none := by
    rw [← Option.not_isSome_iff_eq_none, find_oldData_isSome_iff]
    exact hfree
  set e : DataCard δ := {c with echoed := c.echoed ++ [(run,candidate run k)]} with he
  have hmv : e.mv h [.data run,.oldData (candidate run k)] =
      e.rename (.data run) (.oldData (candidate run k)) := mv_rename h e _ _ hnone
  have hfind : e.find (.data run) = some d := hd
  rw [stowRun, show c.findDest h run fuel 1 run = _ from hdest, Option.map_some]
  change some (e.mv h ((h.expand e.runNames run).map .data ++
    (h.expand e.oldNames (candidate run k)).map .oldData)) = _
  rw [expand_of_special _ _ _ hrun.special,
    expand_of_special _ _ _ (special_candidate run hrun k)]
  change some (e.mv h [.data run,.oldData (candidate run k)]) = _
  rw [hmv, rename, hfind]
  rfl

/-- What moving the runs of `moves`, each given with its contents and its new name,
leaves behind. -/
structure Stowed (c : DataCard δ) (moves : List ((Word × δ) × Word)) (c' : DataCard δ) : Prop where
  data : c'.data = c.data.filter fun e => e.1 ∉ moves.map fun m => m.1.1
  oldData : c'.oldData = c.oldData ++ moves.map fun m => (m.2,m.1.2)
  echoed : c'.echoed = c.echoed ++ moves.map fun m => (m.1.1,m.2)
  moved : ∀ m ∈ moves, m.1 ∈ c.data
  fresh : c'.oldNames.Nodup

theorem run_stowRun (h : Host δ) (rs : List Word) (c : DataCard δ) (hold : c.oldNames.Nodup)
    (hnodup : rs.Nodup) (hplain : ∀ run ∈ rs, Plain run) (hmem : ∀ run ∈ rs, run ∈ c.runNames) :
    ∃ moves c', moves.map (fun m => m.1.1) = rs ∧ Stowed c moves c' ∧
      ∀ fuel, c.oldData.length+rs.length < fuel → Run.run (stowRun h fuel) c rs = some c' := by
  induction rs generalizing c with
  | nil =>
    refine ⟨[], c, rfl, ⟨?_, ?_, ?_, ?_, hold⟩, fun _ _ => rfl⟩
    · simp
    · simp
    · simp
    · simp
  | cons run rs ih =>
    obtain ⟨hrun, hnodup⟩ := List.nodup_cons.mp hnodup
    obtain ⟨dest, d, hd, hfree, hstep⟩ := stowRun_plain h c run (hplain run List.mem_cons_self)
      (hmem run List.mem_cons_self)
    set c1 : DataCard δ :=
      ⟨c.data.filter fun e => e.1 ≠ run,c.oldData ++ [(dest,d)],c.echoed ++ [(run,dest)]⟩ with hc1
    have hold1 : c1.oldNames.Nodup := by
      have hnew := List.Nodup.concat hfree hold
      rw [List.concat_eq_append] at hnew
      rw [oldNames, hc1, List.map_append]
      exact hnew
    have hmem1 : ∀ r ∈ rs, r ∈ c1.runNames := by
      intro r hr
      obtain ⟨e, he, rfl⟩ := List.mem_map.mp (hmem r (List.mem_cons_of_mem _ hr))
      apply List.mem_map_of_mem
      refine List.mem_filter.mpr ⟨he, decide_eq_true ?_⟩
      exact fun heq => hrun (heq ▸ hr)
    -- The other runs are moved on a card with one run less and one entry more.
    obtain ⟨moves, c', hmoves, hst, hrest⟩ := ih c1 hold1 hnodup
      (fun r hr => hplain r (List.mem_cons_of_mem _ hr)) hmem1
    refine ⟨((run,d),dest) :: moves, c', ?_, ?_, ?_⟩
    · rw [List.map_cons, hmoves]
    · refine ⟨?_, ?_, ?_, ?_, hst.fresh⟩
      · rw [hst.data, hc1, List.filter_filter]
        apply List.filter_congr
        intro e _
        simp only [List.map_cons, List.mem_cons, not_or, Bool.decide_and, Bool.and_comm]
      · rw [hst.oldData, hc1, List.append_assoc]
        rfl
      · rw [hst.echoed, hc1, List.append_assoc]
        rfl
      · intro m hm
        rcases List.mem_cons.mp hm with rfl | hm
        · exact hd
        · exact List.mem_of_mem_filter (hst.moved m hm)
    · intro fuel hfuel
      rw [List.length_cons] at hfuel
      rw [Run.run_cons_of_step _ (hstep fuel (by omega))]
      apply hrest
      rw [hc1, List.length_append, List.length_singleton]
      omega

/-- What `F*` matches. -/
def isRun (name : Word) : Bool := ['F'].isPrefixOf name

theorem isMatch_run (h : Host δ) (name : Word) : h.isMatch ['F','*'] name = isRun name := by
  rw [Bool.eq_iff_iff, isRun, List.isPrefixOf_iff_prefix]
  apply h.isMatch_star ['F'] name (List.cons_ne_nil _ _)
  intro c hc
  rw [List.mem_singleton.mp hc]
  decide

/-- The loop goes over the runs, each once. -/
theorem runs_perm (h : Host δ) (c : DataCard δ)
    (hplain : ∀ name ∈ c.runNames, isRun name = true → Plain name) :
    (c.runs h).Perm (c.runNames.filter isRun) ∧ ∀ run ∈ c.runs h, Plain run := by
  have hlist : (c.listing h).Perm (c.runNames.filter isRun) := by
    rw [listing, funext (isMatch_run h)]
    exact h.sort_perm _
  have hall : ∀ run ∈ c.listing h, Plain run := by
    intro run hrun
    obtain ⟨hmem, hF⟩ := List.mem_filter.mp (hlist.mem_iff.mp hrun)
    exact hplain run hmem hF
  have hruns : c.runs h = c.listing h := by
    rw [runs, fieldSplit_substitution _ hall]
    calc (c.listing h).flatMap (h.expand c.runNames)
        = (c.listing h).flatMap fun run => [run] :=
          List.flatMap_congr fun run hrun => expand_of_special _ _ _ (hall run hrun).special
      _ = c.listing h := List.flatMap_singleton' _
  rw [hruns]
  exact ⟨hlist, hall⟩

/-- Runs whose names the shell leaves alone are all moved, each under a name that is new
at that time; what was in `oldData` before stays as it is. -/
theorem popsStow_preserves (h : Host δ) (c : DataCard δ) (hc : c.Valid)
    (hplain : ∀ name ∈ c.runNames, isRun name = true → Plain name) :
    ∃ moves c', (moves.map Prod.fst).Perm (c.data.filter fun e => isRun e.1) ∧
      Stowed c moves c' ∧ c'.data = (c.data.filter fun e => !isRun e.1) ∧
      (∀ ms m rest, moves = ms ++ m :: rest → m.2 ∉ c.oldNames ++ ms.map Prod.snd) ∧
      ∀ fuel, c.oldData.length+c.data.length < fuel → popsStow h fuel c = some c' := by
  obtain ⟨hperm, hruns⟩ := runs_perm h c hplain
  have hnodup : (c.runs h).Nodup := hperm.nodup_iff.mpr (hc.runs.filter _)
  have hmem : ∀ run ∈ c.runs h, run ∈ c.runNames := by
    intro run hrun
    exact List.mem_of_mem_filter (hperm.mem_iff.mp hrun)
  obtain ⟨moves, c', hmoves, hst, hrun⟩ := run_stowRun h (c.runs h) c hc.old hnodup hruns hmem
  have hiff (e : Word × δ) (he : e ∈ c.data) : e.1 ∈ c.runs h ↔ isRun e.1 = true := by
    rw [hperm.mem_iff, List.mem_filter]
    exact and_iff_right (List.mem_map_of_mem he)
  refine ⟨moves, c', ?_, hst, ?_, ?_, ?_⟩
  · rw [← hmoves, ← Function.comp_def, ← List.map_map] at hnodup
    -- Names are unique, so the runs that were moved are the runs with these names.
    apply (List.perm_ext_iff_of_nodup hnodup.of_map (hc.runs.of_map.filter _)).mpr
    intro e
    rw [List.mem_filter]
    constructor
    · intro he
      obtain ⟨m, hm, rfl⟩ := List.mem_map.mp he
      have hrun : m.1.1 ∈ c.runs h := hmoves ▸ List.mem_map_of_mem hm
      exact ⟨hst.moved m hm, (hiff m.1 (hst.moved m hm)).mp hrun⟩
    · rintro ⟨he, hF⟩
      obtain ⟨m, hm, hname⟩ := List.mem_map.mp (hmoves ▸ (hiff e he).mpr hF)
      have heq := List.inj_on_of_nodup_map hc.runs (hst.moved m hm) he hname
      exact heq ▸ List.mem_map_of_mem hm
  · rw [hst.data, hmoves]
    apply List.filter_congr
    intro e he
    rw [decide_not, Bool.not_inj_iff, Bool.eq_iff_iff, decide_eq_true_eq]
    exact hiff e he
  · intro ms m rest hsplit hold
    have hnames : c'.oldNames = (c.oldNames ++ ms.map Prod.snd) ++ m.2 :: rest.map Prod.snd := by
      rw [oldNames, hst.oldData, hsplit, List.map_append, List.map_map, List.append_assoc,
        List.map_append]
      rfl
    have hfresh := hnames ▸ hst.fresh
    exact (List.nodup_append.mp hfresh).2.2 _ hold _ List.mem_cons_self rfl
  · intro fuel hfuel
    apply hrun
    have hle := hperm.length_eq ▸ List.length_filter_le isRun c.runNames
    rw [runNames, List.length_map] at hle
    omega

/-- Matching for patterns without brackets. -/
def starMatch : Word → Word → Bool
  | [], name => name.isEmpty
  | c :: w, name =>
    if c = '*' then name.tails.any (starMatch w)
    else
      match name with
      | [] => false
      | x :: name => (c = '?' || c = x) && starMatch w name

theorem starMatch_star (w name : Word) (hw : ∀ c ∈ w, isSpecial c = false) :
    starMatch (w ++ ['*']) name = true ↔ w <+: name := by
  induction w generalizing name with
  | nil =>
    refine iff_of_true ?_ List.nil_prefix
    exact List.any_eq_true.mpr ⟨[], (List.mem_tails _ _).mpr List.nil_suffix, rfl⟩
  | cons c w ih =>
    have hc := hw c List.mem_cons_self
    simp only [isSpecial, Bool.or_eq_false_iff, decide_eq_false_iff_not] at hc
    obtain ⟨⟨hstar, hany⟩, -⟩ := hc
    rw [List.cons_append, starMatch.eq_def]
    simp only [if_neg hstar]
    cases name with
    | nil => exact iff_of_false Bool.false_ne_true (by simp)
    | cons x name =>
      simp only
      rw [List.cons_prefix_cons, Bool.and_eq_true, Bool.or_eq_true, decide_eq_true_eq,
        decide_eq_true_eq, ih name fun d hd => hw d (List.mem_cons_of_mem _ hd)]
      simp only [hany, false_or]

/-- Listings come in the order given, and a directory is the list of the names moved
into it. -/
def starHost : Host (List Word) where
  isMatch := starMatch
  sort := id
  sort_perm := List.Perm.refl
  isMatch_star w name _ hw := starMatch_star w name hw
  into d name _ := some (d ++ [name])

/-- `F1` is in `oldData` already, and so is what would be its first suffixed name. -/
theorem popsStow_preserves_suffix : ∃ c' : DataCard (List Word),
    popsStow starHost 4 ⟨[(['F','1'],[])],[(['F','1'],[]),(['F','1','.','1'],[])],[]⟩ = some c' ∧
      c'.data = [] ∧ c'.oldNames.Nodup := by
  obtain ⟨moves, c', -, hst, hdata, -, hrun⟩ := popsStow_preserves starHost
    ⟨[(['F','1'],[])],[(['F','1'],[]),(['F','1','.','1'],[])],[]⟩ ⟨by decide, by decide⟩
    (by
      intro name hname _
      rw [List.mem_singleton.mp hname]
      exact ⟨by decide, by simp [isBlank], by simp [isSpecial]⟩)
  exact ⟨c', hrun 4 (by decide), hdata, hst.fresh⟩

/-- A run that is named `F*`, with two directories in `oldData`: the `test` command gets
two names and fails, and `mv` gets them too, so that the first ends up in the second. -/
theorem popsStow_merges :
    popsStow starHost 4 ⟨[(['F','*'],[])],[(['F','1'],[]),(['F','2'],[])],[]⟩ =
      some ⟨[],[(['F','2'],[['F','*'],['F','1']])],[(['F','*'],['F','*'])]⟩ := by
  decide

end DataCard
end Cosmid.Pops
