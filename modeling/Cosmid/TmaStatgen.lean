import Cosmid.Tables

/-! `TMAstatgen` (TMAstat/TM/TMAstatgen): the states that the algorithms of a TMA input
declare are numbered for the switch table (TMAstat.sws) and for the display
(TMAstat.tmc). -/
namespace Cosmid.TmaStatgen

open Tables

abbrev Text := List Char

section Patterns

/-- `\s` for bytes. -/
def isSpace (c : Char) : Bool :=
  c = ' ' || c = '\t' || c = '\n' || c = '\x0b' || c = '\x0c' || c = '\r'

/-- `\w` for bytes. -/
def isWord (c : Char) : Bool := c.isAlphanum || c = '_'

/-- What follows `word` at the front of a text. -/
def skip (same : Char → Char → Bool) : Text → Text → Option Text
  | [], line => some line
  | _ :: _, [] => none
  | c :: word, d :: line => if same c d then skip same word line else none

/-- What follows `\s_?Algo\s` at the front of a text. -/
def skipAlgo (same : Char → Char → Bool) : Text → Option Text
  | [] => none
  | c :: line =>
    if isSpace c then
      let line := match line with
        | '_' :: rest => rest
        | line => line
      match skip same ['A','l','g','o'] line with
      | some (d :: rest) => if isSpace d then some rest else none
      | _ => none
    else none

/-- `m/^[^#]*>\s_?Algo\s/`. -/
def mentionsAlgo : Text → Bool
  | [] => false
  | c :: line =>
    (c ≠ '#' && mentionsAlgo line) || (c = '>' && (skipAlgo (· == ·) line).isSome)

/-- `(\w+)\s(\w+)$`. A word has to be taken as a whole, since what follows it is not
a word character. -/
def twoWords (line : Text) : Option (Text × Text) :=
  match line.dropWhile isWord with
  | [] => none
  | c :: rest =>
    let partition := line.takeWhile isWord
    let state := rest.takeWhile isWord
    if partition ≠ [] ∧ isSpace c ∧ state ≠ [] ∧
      (rest.dropWhile isWord = [] ∨ rest.dropWhile isWord = ['\n']) then some (partition,state)
    else none

/-- `m/^[^#]*>\s_?Algo\s(\w+)\s(\w+)$/i`, with the longest match of `[^#]*` first. -/
def declaration : Text → Option (Text × Text)
  | [] => none
  | c :: line =>
    (if c ≠ '#' then declaration line else none).or
      (if c = '>' then (skipAlgo (fun c d => c.toLower = d.toLower) line).bind twoWords else none)

end Patterns

/-- A position in the input, `$ARGV:$.`. -/
structure Place where
  file : Text
  line : ℕ
deriving DecidableEq

inductive Message
  | redefined (place : Place) (partition state : Text)
  | invalidSyntax (place : Place)
  | tooWide (partition : Text) (maxWidth : ℕ)
deriving DecidableEq

/-- `$partition{$partition}`. -/
structure Partition where
  stateNum : List (Text × ℕ)
  states : List Text
deriving DecidableEq

/-- The partitions in the order of `@partitions`, and the warnings so far. -/
structure Reader where
  partitions : List (Text × Partition)
  warnings : List Message
deriving DecidableEq

def Partition.declare (p : Partition) (state : Text) : Partition :=
  if (p.stateNum.lookup state).isSome then p
  else ⟨p.stateNum ++ [(state,p.states.length+1)],p.states ++ [state]⟩

namespace Reader

def new : Reader := ⟨[],[]⟩

def addPartition (r : Reader) (partition : Text) : Reader :=
  if (r.partitions.lookup partition).isSome then r
  else {r with partitions := r.partitions ++ [(partition,⟨[],[]⟩)]}

def declare (r : Reader) (place : Place) (partition state : Text) : Reader :=
  let r := r.addPartition partition
  {r with
    partitions := r.partitions.map fun e => if e.1 = partition then (e.1,e.2.declare state) else e
    warnings := r.warnings ++
      if ∃ p ∈ r.partitions.lookup partition, (p.stateNum.lookup state).isSome then
        [.redefined place partition state] else []}

/-- The body of the input loop. -/
def readLine (r : Reader) (place : Place) (line : Text) : Except Message Reader :=
  if mentionsAlgo line then
    match declaration line with
    | some (partition, state) => .ok (r.declare place partition state)
    | none => .error (.invalidSyntax place)
  else .ok r

/-- Lines are counted in each file from 1. -/
def readFile (r : Reader) (file : Text × List Text) : Except Message Reader :=
  (file.2.zipIdx 1).foldlM (fun r (line, n) => r.readLine ⟨file.1,n⟩ line) r

def readFiles (files : List (Text × List Text)) : Except Message Reader :=
  files.foldlM readFile new

end Reader

/-- `Algo<partition>_text` and `Algo<partition>_textf` of TMAstat.tmc. -/
structure TextTable where
  partition : Text
  text : List Text
  nstates : ℕ
deriving DecidableEq

/-- One `SW_Variable` of TMAstat.sws with its cases. -/
structure Switch where
  partition : Text
  cases : List (Text × ℕ)
deriving DecidableEq

/-- `sprintf("%-W.Ws", $state)`. -/
def sprintf (w : ℕ) (state : Text) : Text := (state.take w).rightpad w ' '

/-- `none` is an access outside the array. -/
def TextTable.textf (t : TextTable) (snum : UInt8) : Option Text :=
  t.text[if snum.toNat ≤ t.nstates then snum.toNat else 0]?

def textTable (w : ℕ) (partition : Text) (p : Partition) : TextTable where
  partition := partition
  text := ([] :: p.states).map (sprintf w)
  nstates := p.states.length

def switch (partition : Text) (p : Partition) : Switch where
  partition := partition
  cases := (List.range' 1 p.states.length).map fun n => (p.states.getD (n-1) [],n)

structure Output where
  tmc : List TextTable
  sws : List Switch
  messages : List Message
deriving DecidableEq

def widthWarning (w : ℕ) (partition : Text) (p : Partition) : List Message :=
  let maxWidth := (p.states.map List.length).foldl max 0
  if maxWidth > w then [.tooWide partition maxWidth] else []

def tmastatgen (w : ℕ) (files : List (Text × List Text)) : Except Message Output :=
  (Reader.readFiles files).map fun r =>
    ⟨r.partitions.map fun e => textTable w e.1 e.2,r.partitions.map fun e => switch e.1 e.2,
      r.warnings ++ r.partitions.flatMap fun e => widthWarning w e.1 e.2⟩

/-- The partition and the state that a line declares. -/
def declared (line : Text) : Option (Text × Text) :=
  if mentionsAlgo line then declaration line else none

/-- Everything that is declared in the input, in order. -/
def declarations (files : List (Text × List Text)) : List (Text × Text) :=
  files.flatMap fun file => file.2.filterMap declared

/-- The distinct states of a partition in the order of their first appearance. -/
def statesOf (ds : List (Text × Text)) (partition : Text) : List Text :=
  ((ds.filter fun d => d.1 = partition).map Prod.snd).eraseDups

/-- The states of a partition with their numbers. -/
def numbered (states : List Text) : Partition := ⟨states.zipIdx 1,states⟩

/-- What is to be known of the input `ds`. -/
def tableOf (ds : List (Text × Text)) : List (Text × Partition) :=
  (ds.map Prod.fst).eraseDups.map fun partition => (partition,numbered (statesOf ds partition))

theorem statesOf_concat (ds : List (Text × Text)) (partition state : Text) :
    statesOf (ds ++ [(partition,state)]) partition =
      if state ∈ statesOf ds partition then statesOf ds partition
      else statesOf ds partition ++ [state] := by
  have hfilter : ([(partition,state)].filter fun d => d.1 = partition) = [(partition,state)] :=
    List.filter_cons_of_pos (decide_eq_true rfl)
  have hmap : [(partition,state)].map Prod.snd = [state] := rfl
  rw [statesOf, List.filter_append, hfilter, List.map_append, hmap, eraseDups_concat]
  simp only [statesOf, List.contains_iff_mem, List.mem_eraseDups]

theorem statesOf_concat_ne (ds : List (Text × Text)) (partition state other : Text)
    (h : other ≠ partition) : statesOf (ds ++ [(partition,state)]) other = statesOf ds other := by
  have hfilter : ([(partition,state)].filter fun d => d.1 = other) = [] :=
    List.filter_cons_of_neg (fun hp => h (of_decide_eq_true hp).symm)
  rw [statesOf, List.filter_append, hfilter, List.append_nil, statesOf]

theorem statesOf_of_not_mem (ds : List (Text × Text)) (partition : Text)
    (h : partition ∉ ds.map Prod.fst) : statesOf ds partition = [] := by
  have hfilter : (ds.filter fun d => d.1 = partition) = [] := by
    apply List.filter_eq_nil_iff.mpr
    intro d hd hp
    exact h (List.mem_map.mpr ⟨d, hd, of_decide_eq_true hp⟩)
  rw [statesOf, hfilter]
  rfl

/-- A new state gets the next number. -/
theorem numbered_declare (states : List Text) (state : Text) :
    (numbered states).declare state =
      numbered (if state ∈ states then states else states ++ [state]) := by
  have hsome : ((states.zipIdx 1).lookup state).isSome = true ↔ state ∈ states := by
    rw [lookup_isSome_iff, List.zipIdx_map_fst]
  unfold Partition.declare numbered
  by_cases h : state ∈ states
  · rw [if_pos (hsome.mpr h), if_pos h]
  · rw [if_neg (fun hs => h (hsome.mp hs)), if_neg h, List.zipIdx_append, Nat.add_comm 1]
    rfl

theorem keys_tableOf (ds : List (Text × Text)) :
    (tableOf ds).map Prod.fst = (ds.map Prod.fst).eraseDups := by
  rw [tableOf, List.map_map]
  exact List.map_id _

namespace Reader

theorem addPartition_eq (r : Reader) (ds : List (Text × Text)) (partition : Text)
    (h : r.partitions = tableOf ds) :
    (r.addPartition partition).partitions =
      (ds.map Prod.fst ++ [partition]).eraseDups.map fun p => (p,numbered (statesOf ds p)) := by
  have hsome : (r.partitions.lookup partition).isSome = true ↔ partition ∈ ds.map Prod.fst := by
    rw [h, lookup_isSome_iff, keys_tableOf, List.mem_eraseDups]
  rw [addPartition, eraseDups_concat]
  simp only [List.contains_iff_mem]
  -- A partition that is new starts without states.
  by_cases hmem : partition ∈ ds.map Prod.fst
  · rw [if_pos (hsome.mpr hmem), if_pos hmem, h, tableOf]
  · rw [if_neg (fun hs => hmem (hsome.mp hs)), if_neg hmem, List.map_append, List.map_singleton,
      statesOf_of_not_mem ds partition hmem, h]
    rfl

/-- One declaration. -/
theorem declare_eq (r : Reader) (ds : List (Text × Text)) (place : Place)
    (partition state : Text) (h : r.partitions = tableOf ds) :
    (r.declare place partition state).partitions = tableOf (ds ++ [(partition,state)]) := by
  rw [declare]
  simp only [addPartition_eq r ds partition h]
  rw [List.map_map, tableOf, List.map_append]
  apply List.map_congr_left
  intro p _
  by_cases hp : p = partition
  · subst hp
    simp only [Function.comp_apply, if_true, numbered_declare, statesOf_concat]
  · simp only [Function.comp_apply, if_neg hp, statesOf_concat_ne ds partition state p hp]

theorem readLine_eq (r r' : Reader) (ds : List (Text × Text)) (place : Place) (line : Text)
    (h : r.partitions = tableOf ds) (hr : r.readLine place line = .ok r') :
    r'.partitions = tableOf (ds ++ (declared line).toList) := by
  rw [readLine] at hr
  rw [declared]
  split at hr
  · rename_i hm
    rw [if_pos hm]
    split at hr
    · rename_i partition state hd
      obtain rfl := Except.ok.inj hr
      rw [hd]
      exact declare_eq r ds place partition state h
    · cases hr
  · rename_i hm
    obtain rfl := Except.ok.inj hr
    rw [if_neg hm, Option.toList_none, List.append_nil, h]

theorem readFile_eq (r r' : Reader) (ds : List (Text × Text)) (file : Text × List Text)
    (h : r.partitions = tableOf ds) (hr : r.readFile file = .ok r') :
    r'.partitions = tableOf (ds ++ file.2.filterMap declared) := by
  change List.foldlM (fun r (e : Text × ℕ) => readLine r ⟨file.1,e.2⟩ e.1) r _ = _ at hr
  have hinv := foldlM_history (fun r (e : Text × ℕ) => readLine r ⟨file.1,e.2⟩ e.1)
    (fun h (r : Reader) => r.partitions = tableOf (ds ++ (h.map Prod.fst).filterMap declared))
    ?_ [] r r' (file.2.zipIdx 1) ?_ hr
  · rwa [List.nil_append, List.zipIdx_map_fst] at hinv
  · -- The lines so far, without their numbers, hold the declarations so far.
    intro h s e s' hs he
    have hline := readLine_eq s s' _ _ _ hs he
    rw [hline, List.append_assoc, List.map_append, List.filterMap_append]
    congr 2
  · rwa [List.map_nil, List.filterMap_nil, List.append_nil]

theorem readFiles_eq (files : List (Text × List Text)) (r : Reader)
    (hr : readFiles files = .ok r) : r.partitions = tableOf (declarations files) := by
  have hinv := foldlM_history readFile
    (fun h (r : Reader) => r.partitions = tableOf (declarations h)) ?_ [] new r files rfl hr
  · exact hinv
  · intro h s file s' hs hf
    rw [readFile_eq s s' _ file hs hf, declarations, declarations, List.flatMap_append,
      List.flatMap_singleton]

end Reader

theorem tables_filter {β : Type} (ds : List (Text × Text)) (f : Text → Partition → β)
    (key : β → Text) (hkey : ∀ partition p, key (f partition p) = partition) (partition : Text)
    (h : partition ∈ ds.map Prod.fst) :
    (((tableOf ds).map fun e => f e.1 e.2).filter fun b => key b == partition) =
      [f partition (numbered (statesOf ds partition))] := by
  rw [tableOf, List.map_map, List.filter_map]
  have hcomp : ((fun b => key b == partition) ∘ ((fun e : Text × Partition => f e.1 e.2) ∘
      fun p => (p,numbered (statesOf ds p)))) = fun p => p == partition := by
    funext p
    simp only [Function.comp_apply, hkey]
  rw [hcomp, filter_eraseDups _ _ h]
  rfl

/-- The cases number the states from 1. -/
theorem switch_cases (partition : Text) (states : List Text) :
    (switch partition (numbered states)).cases = states.zipIdx 1 := by
  apply List.ext_getElem
  · simp [switch, numbered]
  · intro i h1 h2
    have hi : i < states.length := by simpa [switch, numbered] using h1
    simp [switch, numbered, List.getElem_zipIdx, Nat.add_comm, hi]

theorem textf_of_le (w : ℕ) (partition : Text) (states : List Text) (snum : UInt8)
    (h : snum.toNat ≤ states.length) :
    (textTable w partition (numbered states)).textf snum =
      (([] :: states)[snum.toNat]?).map (sprintf w) := by
  have hle : snum.toNat ≤ (textTable w partition (numbered states)).nstates := h
  rw [TextTable.textf, if_pos hle, textTable, List.getElem?_map, numbered]

theorem textf_of_gt (w : ℕ) (partition : Text) (states : List Text) (snum : UInt8)
    (h : states.length < snum.toNat) :
    (textTable w partition (numbered states)).textf snum = some (sprintf w []) := by
  have hgt : ¬snum.toNat ≤ (textTable w partition (numbered states)).nstates := Nat.not_le.mpr h
  rw [TextTable.textf, if_neg hgt]
  rfl

theorem sprintf_nil (w : ℕ) : sprintf w [] = List.replicate w ' ' := by
  rw [sprintf, List.take_nil, List.rightpad, List.nil_append, List.length_nil, Nat.sub_zero]

/-- The display decodes what the switch table encodes. -/
structure Decodes (w : ℕ) (states : List Text) (t : TextTable) (sw : Switch) : Prop where
  names : sw.cases.map Prod.fst = states
  nstates : t.nstates = states.length
  numbers : sw.cases.map Prod.snd = List.range' 1 states.length
  unique : ∀ state ∈ states, ∃! n, (state,n) ∈ sw.cases
  shown : ∀ state n, (state,n) ∈ sw.cases →
    (UInt8.ofNat n).toNat = n ∧ t.textf (UInt8.ofNat n) = some (sprintf w state)
  blank : ∀ snum : UInt8, snum.toNat ∉ sw.cases.map Prod.snd →
    t.textf snum = some (List.replicate w ' ')

theorem mem_cases_iff (partition : Text) (states : List Text) (state : Text) (n : ℕ) :
    (state,n) ∈ (switch partition (numbered states)).cases ↔
      1 ≤ n ∧ states[n-1]? = some state := by
  rw [switch_cases]
  exact List.mk_mem_zipIdx_iff_le_and_getElem?_sub

theorem decodes_numbered (w : ℕ) (partition : Text) (states : List Text) (hnodup : states.Nodup)
    (hle : states.length ≤ 255) :
    Decodes w states (textTable w partition (numbered states))
      (switch partition (numbered states)) where
  names := by rw [switch_cases, List.zipIdx_map_fst]
  nstates := rfl
  numbers := by rw [switch_cases, List.zipIdx_map_snd]
  unique := by
    -- The state at index `i` has the number `i+1`, and no state is there twice.
    intro state hs
    obtain ⟨i, hi, hget⟩ := List.getElem_of_mem hs
    have hsome : states[i]? = some state := List.getElem?_eq_some_iff.mpr ⟨hi, hget⟩
    refine ⟨i+1, (mem_cases_iff partition states state (i+1)).mpr ⟨by omega, hsome⟩, ?_⟩
    intro n hn
    obtain ⟨hpos, hn⟩ := (mem_cases_iff partition states state n).mp hn
    have heq := (List.getElem?_inj hi hnodup).mp (hsome.trans hn.symm)
    omega
  shown := by
    intro state n hn
    obtain ⟨hpos, hn⟩ := (mem_cases_iff partition states state n).mp hn
    obtain ⟨hlt, -⟩ := List.getElem?_eq_some_iff.mp hn
    have hbyte : (UInt8.ofNat n).toNat = n := by
      rw [UInt8.toNat_ofNat']
      omega
    -- Entry 0 of the table is the blank one.
    have hget : ([] :: states)[n]? = states[n-1]? := by
      rw [List.getElem?_cons, if_neg (by omega)]
    refine ⟨hbyte, ?_⟩
    rw [textf_of_le w partition states _ (by omega), hbyte, hget, hn, Option.map_some]
  blank := by
    intro snum hno
    rw [switch_cases, List.zipIdx_map_snd, List.mem_range'_1] at hno
    rw [← sprintf_nil]
    rcases Nat.lt_or_ge states.length snum.toNat with hgt | hle
    · exact textf_of_gt w partition states snum hgt
    · have hzero : snum.toNat = 0 := by omega
      rw [textf_of_le w partition states snum hle, hzero]
      rfl

/-- Both files are made from the same table. -/
theorem tmastatgen_ok (w : ℕ) (files : List (Text × List Text)) (o : Output)
    (h : tmastatgen w files = .ok o) :
    o.tmc = ((tableOf (declarations files)).map fun e => textTable w e.1 e.2) ∧
      o.sws = (tableOf (declarations files)).map fun e => switch e.1 e.2 := by
  rw [tmastatgen] at h
  cases hr : Reader.readFiles files with
  | error m =>
    rw [hr] at h
    cases h
  | ok r =>
    rw [hr] at h
    obtain rfl := Except.ok.inj h
    simp only [Reader.readFiles_eq files r hr, and_self]

theorem twoWords_word (line partition state : Text) (h : twoWords line = some (partition,state)) :
    ∀ c ∈ state, isWord c = true := by
  rw [twoWords] at h
  split at h
  · cases h
  · rename_i c rest _
    dsimp only at h
    split at h
    · obtain ⟨-, hstate⟩ := Prod.mk.inj (Option.some.inj h)
      intro d hd
      rw [← hstate] at hd
      exact List.all_eq_true.mp List.all_takeWhile d hd
    · cases h

theorem declaration_word (line partition state : Text)
    (h : declaration line = some (partition,state)) : ∀ c ∈ state, isWord c = true := by
  induction line with
  | nil => cases h
  | cons c line ih =>
    rw [declaration, Option.or_eq_some_iff] at h
    rcases h with h | ⟨-, h⟩
    · exact ih (Option.ite_none_right_eq_some.mp h).2
    · obtain ⟨-, h⟩ := Option.ite_none_right_eq_some.mp h
      obtain ⟨rest, -, h⟩ := Option.bind_eq_some_iff.mp h
      exact twoWords_word rest partition state h

/-- Nothing between the quotes of TMAstat.tmc needs an escape. -/
theorem text_word (w : ℕ) (files : List (Text × List Text)) (o : Output)
    (h : tmastatgen w files = .ok o) :
    ∀ t ∈ o.tmc, ∀ text ∈ t.text, ∀ c ∈ text, isWord c = true ∨ c = ' ' := by
  rw [(tmastatgen_ok w files o h).1]
  intro t ht text htext c hc
  obtain ⟨e, he, rfl⟩ := List.mem_map.mp ht
  obtain ⟨partition, -, rfl⟩ := List.mem_map.mp he
  obtain ⟨state, hstate, rfl⟩ := List.mem_map.mp htext
  rw [sprintf, List.rightpad] at hc
  rcases List.mem_append.mp hc with hc | hc
  · rcases List.mem_cons.mp hstate with rfl | hstate
    · cases List.mem_of_mem_take hc
    · obtain ⟨d, hd, hsnd⟩ := List.mem_map.mp (List.mem_eraseDups.mp hstate)
      obtain ⟨file, -, hd⟩ := List.mem_flatMap.mp (List.mem_of_mem_filter hd)
      obtain ⟨line, -, hline⟩ := List.mem_filterMap.mp hd
      have hdecl : declaration line = some (d.1,d.2) := (Option.ite_none_right_eq_some.mp hline).2
      left
      exact declaration_word line d.1 d.2 hdecl c (hsnd ▸ List.mem_of_mem_take hc)
  · exact Or.inr (List.eq_of_mem_replicate hc)

theorem length_statesOf_le (ds : List (Text × Text)) (partition : Text) :
    (statesOf ds partition).length ≤ ds.length := by
  calc (statesOf ds partition).length
      ≤ ((ds.filter fun d => d.1 = partition).map Prod.snd).length := length_eraseDups_le _
    _ = (ds.filter fun d => d.1 = partition).length := List.length_map _
    _ ≤ ds.length := List.length_filter_le _ _

/-- Each partition has one table and one switch, and what the switch writes for a state the
table shows as that state. -/
theorem display_decodes_switch (w : ℕ) (files : List (Text × List Text)) (o : Output)
    (h : tmastatgen w files = .ok o)
    (hle : ∀ partition, (statesOf (declarations files) partition).length ≤ 255)
    (partition : Text) (hp : partition ∈ (declarations files).map Prod.fst) :
    ∃ t sw, (o.tmc.filter fun t => t.partition == partition) = [t] ∧
      (o.sws.filter fun sw => sw.partition == partition) = [sw] ∧
      Decodes w (statesOf (declarations files) partition) t sw := by
  obtain ⟨htmc, hsws⟩ := tmastatgen_ok w files o h
  rw [htmc, hsws]
  exact ⟨_, _, tables_filter _ (textTable w) TextTable.partition (fun _ _ => rfl) partition hp,
    tables_filter _ switch Switch.partition (fun _ _ => rfl) partition hp,
    decodes_numbered w partition _ (nodup_eraseDups _) (hle partition)⟩

/-- Two files with two partitions, one of whose states is declared twice. -/
def twoFiles : List (Text × List Text) :=
  [("a.tma".toList,["> Algo P Idle\n".toList,"# > Algo P Off\n".toList,"> Algo Q On\n".toList]),
    ("b.tma".toList,["> _Algo P Run\n".toList,"> _Algo P Idle".toList,"; > hold\n".toList])]

theorem display_decodes_switch_two : ∃ o t sw, tmastatgen 4 twoFiles = .ok o ∧
    (o.tmc.filter fun t => t.partition == ['P']) = [t] ∧
    (o.sws.filter fun sw => sw.partition == ['P']) = [sw] ∧
    Decodes 4 ["Idle".toList,"Run".toList] t sw := by
  have hle (partition : Text) : (statesOf (declarations twoFiles) partition).length ≤ 255 :=
    Nat.le_trans (length_statesOf_le _ partition) (by decide)
  obtain ⟨t, sw, ht, hsw, hd⟩ := display_decodes_switch 4 twoFiles _ rfl hle ['P'] (by decide)
  exact ⟨_, t, sw, rfl, ht, hsw, hd⟩

end Cosmid.TmaStatgen
