import Cosmid.PopsClient
import Cosmid.Scan
import Mathlib.Logic.Function.Iterate

/-! The status that `POPS_client` takes from what it has read, against the well-formed status
lines in it. The number is stored before the newline behind it is looked at. -/
namespace Cosmid.Pops

/-- The line at the front of `u` without its newline, and its length with it. -/
def lineHead (u : List UInt8) : Option (Option (List UInt8) × ℕ) :=
  if 0x0a ∈ u then some (some (u.takeWhile (· ≠ 0x0a)),(u.takeWhile (· ≠ 0x0a)).length+1)
  else none

theorem takeWhile_line (line v : List UInt8) (hline : 0x0a ∉ line)
    (hv : v = [] ∨ v.head? = some 0x0a) : (line ++ v).takeWhile (· ≠ 0x0a) = line := by
  have hall : ∀ c ∈ line, decide (c ≠ 0x0a) = true := by
    intro c hc
    exact decide_eq_true (ne_of_mem_of_not_mem hc hline)
  rw [List.takeWhile_append_of_pos hall]
  rcases hv with rfl | hv
  · rw [List.takeWhile_nil, List.append_nil]
  · obtain ⟨rest, rfl⟩ := List.head?_eq_some_iff.mp hv
    rw [List.takeWhile_cons_of_neg (by simp), List.append_nil]

theorem lineHead_line (line rest : List UInt8) (hline : 0x0a ∉ line) :
    lineHead (line ++ 0x0a :: rest) = some (some line, line.length+1) := by
  rw [lineHead, if_pos (by simp), takeWhile_line line _ hline (Or.inr rfl)]

/-- Either there is no newline, or a line with what follows it. -/
theorem lineHead_cases (u : List UInt8) : (0x0a ∉ u ∧ lineHead u = none) ∨
    ∃ line rest, u = line ++ 0x0a :: rest ∧ 0x0a ∉ line ∧
      lineHead u = some (some line, line.length+1) := by
  by_cases hnl : 0x0a ∈ u
  · obtain ⟨line, rest, rfl, hline⟩ := List.eq_append_cons_of_mem hnl
    exact Or.inr ⟨line, rest, rfl, hline, lineHead_line line rest hline⟩
  · exact Or.inl ⟨hnl, if_neg hnl⟩

/-- Complete lines, without the newlines that end them. -/
def lineScanner : Scanner UInt8 (List UInt8) where
  head := lineHead
  head_pos u item n h := by
    rcases lineHead_cases u with ⟨-, hu⟩ | ⟨line, rest, rfl, -, hu⟩
    · rw [hu] at h
      cases h
    · rw [hu] at h
      cases h
      exact ⟨Nat.succ_pos _, by simp⟩
  head_append u v r h := by
    rcases lineHead_cases u with ⟨-, hu⟩ | ⟨line, rest, rfl, hline, hu⟩
    · rw [hu] at h
      cases h
    · rw [← h, hu, List.append_assoc, List.cons_append, lineHead_line line _ hline]

/-- The `N` of a line that is a decimal number of at most 255 and nothing else. -/
def statusNumber (line : List UInt8) : Option UInt8 :=
  if line ≠ [] ∧ line.all isDigit then uint8Of line else none

/-- The number of at most 255 that a line starts with, whatever follows its digits. -/
def startNumber (line : List UInt8) : Option UInt8 :=
  let ds := line.takeWhile isDigit
  if ds ≠ [] then uint8Of ds else none

/-- The numbers of the well-formed status lines. -/
def statusNumbers (u : List UInt8) : List UInt8 := (lineScanner.scan u).1.filterMap statusNumber

/-- The numbers that lines start with, and the one that what follows the last newline does. -/
def startNumbers (u : List UInt8) : List UInt8 :=
  ((lineScanner.scan u).1 ++ [(lineScanner.scan u).2]).filterMap startNumber

/-- The last of the numbers, or what was known before. -/
def lastKnown (srvr : UInt8) (numbers : List UInt8) : UInt8 := numbers.getLast?.getD srvr

theorem startNumber_of_statusNumber (line : List UInt8) (value : UInt8)
    (h : statusNumber line = some value) : startNumber line = some value := by
  rw [statusNumber, Option.ite_none_right_eq_some] at h
  obtain ⟨⟨hne, hall⟩, h⟩ := h
  have hds : line.takeWhile isDigit = line :=
    List.takeWhile_eq_self_iff.mpr (List.all_eq_true.mp hall)
  rw [startNumber, hds, if_pos hne, h]

theorem lastKnown_cons (srvr value : UInt8) (numbers : List UInt8) :
    lastKnown srvr (value :: numbers) = lastKnown value numbers := by
  cases h : numbers.getLast? with
  | none =>
    rw [List.getLast?_eq_none_iff.mp h]
    rfl
  | some last => simp [lastKnown, List.getLast?_cons, h]

theorem lastKnown_getD (srvr : UInt8) (number : Option UInt8) (numbers : List UInt8) :
    lastKnown (number.getD srvr) numbers = lastKnown srvr (number.toList ++ numbers) := by
  cases number with
  | none => rfl
  | some value => exact (lastKnown_cons srvr value numbers).symm

/-- The numbers line by line. -/
theorem startNumbers_nil (u : List UInt8) (h : 0x0a ∉ u) :
    startNumbers u = (startNumber u).toList := by
  have hscan := lineScanner.scan_none (show lineScanner.head u = none from if_neg h)
  rw [startNumbers, hscan]
  cases hs : startNumber u <;> simp [hs]

theorem startNumbers_line (line rest : List UInt8) (hline : 0x0a ∉ line) :
    startNumbers (line ++ 0x0a :: rest) = (startNumber line).toList ++ startNumbers rest := by
  have hscan := lineScanner.scan_some (show lineScanner.head _ = _ from lineHead_line line rest hline)
  have hdrop : (line ++ 0x0a :: rest).drop (line.length+1) = rest := by simp
  rw [hdrop] at hscan
  rw [startNumbers, hscan]
  cases hs : startNumber line <;> simp [hs, startNumbers]

theorem statusNumbers_nil (u : List UInt8) (h : startNumbers u = []) : statusNumbers u = [] := by
  rw [startNumbers, List.filterMap_eq_nil_iff] at h
  rw [statusNumbers, List.filterMap_eq_nil_iff]
  intro line hline
  by_contra hne
  obtain ⟨value, hvalue⟩ := Option.ne_none_iff_exists'.mp hne
  have hnone := h line (List.mem_append_left _ hline)
  rw [startNumber_of_statusNumber line value hvalue] at hnone
  cases hnone

namespace PopsClient

/-- The rest of a line that does not start with a digit changes nothing. -/
theorem statusLoop_other (lib : StatusLib) (c : PopsClient) (line v : List UInt8)
    (hu : c.ibuf.unread = line ++ v) (hline : 0x0a ∉ line) (hv : v = [] ∨ v.head? = some 0x0a)
    (hdigit : ∀ d ∈ (line ++ v).head?, ¬isDigit d) :
    ∃ c', statusLoop lib c = statusLoop lib c' ∧ c'.ibuf.unread = v.drop 1 ∧ c'.srvr = c.srvr := by
  by_cases hnil : line ++ v = []
  · obtain ⟨-, rfl⟩ := List.append_eq_nil_iff.mp hnil
    exact ⟨c, rfl, hu.trans hnil, rfl⟩
  · refine ⟨c.statusLine lib, statusLoop_of_ne_nil lib c (by rwa [hu]), ?_⟩
    have hlen := c.ibuf.length_unread
    rw [hu, List.length_append] at hlen
    obtain ⟨d, w, hw⟩ := List.exists_cons_of_ne_nil hnil
    have hd : ¬isDigit d := hdigit d (by rw [hw]; rfl)
    rw [statusLine, c.ibuf.getD_cp (hu.trans hw), if_neg hd, otherLine, hu,
      takeWhile_line line v hline hv]
    split_ifs with hend
    · refine ⟨?_, rfl⟩
      rw [Nat.add_assoc, InputBuffer.unread_advance, hu, ← List.drop_drop, List.drop_left]
    · refine ⟨?_, rfl⟩
      have hvnil : v = [] := List.eq_nil_of_length_eq_zero (by omega)
      rw [InputBuffer.unread_advance, hu, List.drop_left, hvnil]
      rfl

/-- A line, or what follows the last newline: the status becomes the number it starts with. -/
theorem statusLoop_line (lib : StatusLib) (c : PopsClient) (line v : List UInt8)
    (hu : c.ibuf.unread = line ++ v) (hline : 0x0a ∉ line) (hv : v = [] ∨ v.head? = some 0x0a) :
    ∃ c', statusLoop lib c = statusLoop lib c' ∧ c'.ibuf.unread = v.drop 1 ∧
      c'.srvr = (startNumber line).getD c.srvr := by
  have hsplit := List.takeWhile_append_dropWhile (p := isDigit) (l := line)
  have hds : ∀ d ∈ line.takeWhile isDigit, isDigit d := fun d hd => List.mem_takeWhile_imp hd
  have hrest : ∀ d ∈ (line.dropWhile isDigit ++ v).head?, ¬isDigit d := by
    have hhead := List.head?_dropWhile_not isDigit line
    intro d hd
    cases htail : line.dropWhile isDigit with
    | nil =>
      rw [htail, List.nil_append] at hd
      rcases hv with rfl | hv
      · cases hd
      · rw [hv] at hd
        obtain rfl := Option.some.inj hd
        decide
    | cons e tail =>
      rw [htail] at hd hhead
      obtain rfl := Option.some.inj hd
      exact Bool.eq_false_iff.mp hhead
  unfold startNumber
  dsimp only
  generalize line.takeWhile isDigit = ds at *
  generalize line.dropWhile isDigit = tail at *
  subst hsplit
  have htail : 0x0a ∉ tail := fun h => hline (List.mem_append_right _ h)
  rw [List.append_assoc] at hu
  by_cases hnil : ds = []
  · subst hnil
    rw [if_neg (not_not.mpr rfl)]
    exact statusLoop_other lib c tail v hu htail hv hrest
  · have hstart : c.statusLine lib = c.digitLine lib := by
      obtain ⟨d, ds', rfl⟩ := List.exists_cons_of_ne_nil hnil
      rw [statusLine, c.ibuf.getD_cp hu, if_pos (hds d (List.mem_cons_self ..))]
    have hloop := statusLoop_of_ne_nil lib c (by rw [hu]; simp [hnil])
    rw [hstart, c.digitLine_eq lib ds (tail ++ v) hu hnil hds hrest] at hloop
    have hadv : InputBuffer.unread ⟨c.ibuf.buf,c.ibuf.cp+ds.length⟩ = tail ++ v := by
      rw [InputBuffer.unread_advance, hu, List.drop_left]
    rw [if_pos hnil, hloop]
    -- Unless the newline follows at once, the rest of the line is left to the next turn.
    cases uint8Of ds with
    | none => exact statusLoop_other lib _ tail v hadv htail hv hrest
    | some value =>
      dsimp only
      by_cases hnl : (tail ++ v).head? = some 0x0a
      · rw [if_pos hnl]
        have htnil : tail = [] := by
          cases tail with
          | nil => rfl
          | cons e tail =>
            obtain rfl := Option.some.inj hnl
            exact absurd (List.mem_cons_self ..) htail
        refine ⟨_, rfl, ?_, rfl⟩
        rw [InputBuffer.unread_advance, hu, htnil, List.nil_append, ← List.drop_drop, List.drop_left]
      · rw [if_neg hnl]
        exact statusLoop_other lib _ tail v hadv htail hv hrest

/-- After the loop the status is the last number that a line has started with. -/
theorem statusLoop_srvr (lib : StatusLib) (c : PopsClient) (u : List UInt8)
    (hu : c.ibuf.unread = u) : (statusLoop lib c).srvr = lastKnown c.srvr (startNumbers u) := by
  induction u using lineScanner.scan_induction generalizing c with
  | hwait u h =>
    rcases lineHead_cases u with ⟨hline, -⟩ | ⟨line, rest, -, -, hsome⟩
    · obtain ⟨c', hloop, hnil, hsrvr⟩ := statusLoop_line lib c u [] (by rw [hu, List.append_nil])
        hline (Or.inl rfl)
      calc (statusLoop lib c).srvr
          = (startNumber u).getD c.srvr := by rw [hloop, statusLoop_nil lib c' hnil, hsrvr]
        _ = lastKnown ((startNumber u).getD c.srvr) [] := rfl
        _ = lastKnown c.srvr (startNumbers u) := by
          rw [lastKnown_getD, startNumbers_nil u hline, List.append_nil]
    · cases h.symm.trans hsome
  | hpiece u item n h ih =>
    rcases lineHead_cases u with ⟨-, hnone⟩ | ⟨line, rest, rfl, hline, hsome⟩
    · cases h.symm.trans hnone
    · obtain ⟨-, rfl⟩ := Prod.mk.inj (Option.some.inj (h.symm.trans hsome))
      have hdrop : (line ++ 0x0a :: rest).drop (line.length+1) = rest := by simp
      obtain ⟨c', hloop, hrest, hsrvr⟩ := statusLoop_line lib c line (0x0a :: rest) hu hline
        (Or.inr rfl)
      rw [hdrop] at ih
      calc (statusLoop lib c).srvr
          = lastKnown c'.srvr (startNumbers rest) := by rw [hloop, ih c' hrest]
        _ = lastKnown c.srvr ((startNumber line).toList ++ startNumbers rest) := by
          rw [hsrvr, lastKnown_getD]
        _ = lastKnown c.srvr (startNumbers (line ++ 0x0a :: rest)) := by
          rw [startNumbers_line line rest hline]

/-- The client at the start of the loop, with `bytes` read. -/
def received (c : PopsClient) (bytes : List UInt8) : PopsClient :=
  {c with ibuf := ⟨c.ibuf.buf ++ bytes,0⟩}

/-- So many turns of the loop use up the buffer. -/
theorem statusLine_iterate (lib : StatusLib) (c : PopsClient) :
    ∃ n, ((statusLine lib)^[n] c).ibuf.unread = [] := by
  induction hn : c.ibuf.unread.length using Nat.strongRecOn generalizing c with
  | _ n ih =>
    by_cases hnil : c.ibuf.unread = []
    · exact ⟨0, hnil⟩
    · have hlen := c.ibuf.length_unread
      have hpos := List.length_pos_of_ne_nil hnil
      obtain ⟨m, hm⟩ := ih _ (hn ▸ statusLine_lt lib c (by omega)) (c.statusLine lib) rfl
      exact ⟨m+1, hm⟩

/-- The loop ends, and leaves the `N` of the last well-formed status line, if and only if the
last line that starts with a number starts with that one. -/
theorem status_iff (io : DasIO) (lib : StatusLib) (c : PopsClient) (bytes : List UInt8) :
    (∃ n, ((statusLine lib)^[n] (c.received bytes)).ibuf.unread = []) ∧
      (c.appInput io lib bytes).srvr = lastKnown c.srvr (statusNumbers (c.ibuf.buf ++ bytes)) ↔
    ∀ N, (startNumbers (c.ibuf.buf ++ bytes)).getLast? = some N →
      N = lastKnown c.srvr (statusNumbers (c.ibuf.buf ++ bytes)) := by
  have hsrvr : (c.appInput io lib bytes).srvr =
      lastKnown c.srvr (startNumbers (c.ibuf.buf ++ bytes)) :=
    statusLoop_srvr lib (c.received bytes) _ rfl
  rw [and_iff_right (statusLine_iterate lib _), hsrvr]
  generalize c.ibuf.buf ++ bytes = u
  constructor
  · intro h N hN
    rwa [lastKnown, hN] at h
  · intro h
    cases hlast : (startNumbers u).getLast? with
    | none =>
      have hnil := List.getLast?_eq_none_iff.mp hlast
      rw [hnil, statusNumbers_nil u hnil]
    | some N =>
      rw [lastKnown, hlast]
      exact h N hlast

/-- `"5x\n"` is no status line, and makes the status 5. -/
theorem malformed_line_taken :
    ¬((∃ n, ((statusLine StatusLib.decimal)^[n]
        (PopsClient.new.received [0x35, 0x78, 0x0a])).ibuf.unread = []) ∧
      (PopsClient.new.appInput .keeping StatusLib.decimal [0x35, 0x78, 0x0a]).srvr =
        lastKnown 0 (statusNumbers [0x35, 0x78, 0x0a])) := by
  have hstart : startNumbers [0x35, 0x78, 0x0a] = [5] := by
    have hline := startNumbers_line [0x35, 0x78] [] (by decide)
    rw [startNumbers_nil [] (by decide)] at hline
    exact hline
  have hstatus : statusNumbers [0x35, 0x78, 0x0a] = [] := by
    have hhead : lineScanner.head [0x35, 0x78, 0x0a] = some (some [0x35, 0x78], 3) :=
      lineHead_line [0x35, 0x78] [] (by decide)
    rw [statusNumbers, lineScanner.scan_some hhead]
    have hnone : lineScanner.head (([0x35, 0x78, 0x0a] : List UInt8).drop 3) = none := rfl
    rw [lineScanner.scan_none hnone]
    rfl
  rintro ⟨-, h⟩
  have hsrvr : (PopsClient.new.appInput .keeping StatusLib.decimal [0x35, 0x78, 0x0a]).srvr = _ :=
    statusLoop_srvr StatusLib.decimal (PopsClient.new.received [0x35, 0x78, 0x0a]) _ rfl
  rw [hsrvr, show InputBuffer.unread _ = ([0x35, 0x78, 0x0a] : List UInt8) from rfl, hstart,
    hstatus] at h
  exact absurd h (by decide)

end PopsClient
end Cosmid.Pops
