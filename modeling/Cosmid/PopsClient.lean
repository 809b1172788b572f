import Cosmid.DasIO
import Mathlib.Data.List.TakeWhile

/-! `POPS_client` (POPS/POPS.cc): the driver's connection to the server, and the
status it keeps for telemetry. Messages for the operator are left out. -/
namespace Cosmid.Pops

def isDigit (c : UInt8) : Bool := 0x30 ≤ c && c ≤ 0x39

/-- The decimal number with the digits `ds`. -/
def decimal (ds : List UInt8) : ℕ := ds.foldl (fun n c => 10*n+(c.toNat-0x30)) 0

/-- The number, if it fits. -/
def uint8Of (ds : List UInt8) : Option UInt8 :=
  if decimal ds ≤ 255 then some (UInt8.ofNat (decimal ds)) else none

/-- The library's parsers that the client uses. Both return true, here `none` and
`true`, when what they look for is not there; a number is passed over also when it does
not fit. -/
structure StatusLib where
  notUint8 : InputBuffer → Option UInt8 × InputBuffer
  notStr : List UInt8 → InputBuffer → Bool × InputBuffer
  notUint8_digits : ∀ b ds rest, b.unread = ds ++ rest → ds ≠ [] → (∀ c ∈ ds, isDigit c) →
    (∀ c ∈ rest.head?, ¬isDigit c) → notUint8 b = (uint8Of ds, ⟨b.buf,b.cp+ds.length⟩)
  notStr_hit : ∀ b rest, b.unread = 0x0a :: rest → notStr [0x0a] b = (false, ⟨b.buf,b.cp+1⟩)
  notStr_miss : ∀ b, b.unread.head? ≠ some 0x0a → notStr [0x0a] b = (true, b)

/-- Parsers for decimal numbers and for strings. -/
def StatusLib.decimal : StatusLib where
  notUint8 b :=
    let ds := b.unread.takeWhile isDigit
    if ds = [] then (none, b)
    else (uint8Of ds, ⟨b.buf,b.cp+ds.length⟩)
  notStr str b :=
    if str.isPrefixOf b.unread then (false, ⟨b.buf,b.cp+str.length⟩) else (true, b)
  notUint8_digits b ds rest hu hne hds hrest := by
    have hstop : rest.takeWhile isDigit = [] := by
      cases rest with
      | nil => rfl
      | cons c rest => exact List.takeWhile_cons_of_neg (hrest c rfl)
    have htake : b.unread.takeWhile isDigit = ds := by
      rw [hu, List.takeWhile_append_of_pos hds, hstop, List.append_nil]
    simp only [htake, if_neg hne]
  notStr_hit b rest hu := by simp [hu]
  notStr_miss b hu := by
    cases h : b.unread with
    | nil => rfl
    | cons c rest =>
      rw [h] at hu
      have hc : (0x0a == c) = false := by
        rw [beq_eq_false_iff_ne]
        rintro rfl
        exact hu rfl
      simp [List.isPrefixOf, hc]

/-- `srvr` is `POPS.Srvr`, `connected` what `is_negotiated` says, and `poorlyFormed`
counts the reports of a poorly formed status response. -/
structure PopsClient where
  ibuf : InputBuffer
  srvr : UInt8
  connected : Bool
  poorlyFormed : ℕ

namespace PopsClient

def new : PopsClient := ⟨InputBuffer.empty,0,false,0⟩

/-- What `forward` writes for a command. -/
def forward (c : PopsClient) (cmd : List UInt8) : List UInt8 := if c.connected then cmd else []

/-- The branch for a line that starts with a digit. -/
def digitLine (lib : StatusLib) (c : PopsClient) : PopsClient :=
  match lib.notUint8 c.ibuf with
  | (none, b) => {c with ibuf := b, poorlyFormed := c.poorlyFormed+1}
  | (some value, b) =>
    match lib.notStr [0x0a] b with
    | (true, b) => {c with ibuf := b, srvr := value, poorlyFormed := c.poorlyFormed+1}
    | (false, b) => {c with ibuf := b, srvr := value}

/-- The branch for any other line: go behind its newline. The newline is overwritten
for the message, but nothing reads it again. -/
def otherLine (c : PopsClient) : PopsClient :=
  let n := (c.ibuf.unread.takeWhile (· ≠ 0x0a)).length
  if c.ibuf.cp+n < c.ibuf.nc then {c with ibuf := ⟨c.ibuf.buf,c.ibuf.cp+n+1⟩}
  else {c with ibuf := ⟨c.ibuf.buf,c.ibuf.cp+n⟩}

def statusLine (lib : StatusLib) (c : PopsClient) : PopsClient :=
  if isDigit (c.ibuf.buf.getD c.ibuf.cp 0) then c.digitLine lib else c.otherLine

/-- A number, with what follows it. -/
theorem digitLine_eq (lib : StatusLib) (c : PopsClient) (ds rest : List UInt8)
    (hu : c.ibuf.unread = ds ++ rest) (hne : ds ≠ []) (hds : ∀ d ∈ ds, isDigit d)
    (hrest : ∀ d ∈ rest.head?, ¬isDigit d) :
    c.digitLine lib = match uint8Of ds with
      | none => {c with
        ibuf := ⟨c.ibuf.buf,c.ibuf.cp+ds.length⟩
        poorlyFormed := c.poorlyFormed+1}
      | some value =>
        if rest.head? = some 0x0a then
          {c with ibuf := ⟨c.ibuf.buf,c.ibuf.cp+(ds.length+1)⟩, srvr := value}
        else {c with
          ibuf := ⟨c.ibuf.buf,c.ibuf.cp+ds.length⟩
          srvr := value
          poorlyFormed := c.poorlyFormed+1} := by
  have hunread : InputBuffer.unread ⟨c.ibuf.buf,c.ibuf.cp+ds.length⟩ = rest := by
    rw [InputBuffer.unread_advance, hu, List.drop_left]
  rw [digitLine, lib.notUint8_digits c.ibuf ds rest hu hne hds hrest]
  cases uint8Of ds with
  | none => rfl
  | some value =>
    by_cases hnl : rest.head? = some 0x0a
    · obtain ⟨rest', rfl⟩ := List.head?_eq_some_iff.mp hnl
      simp only [lib.notStr_hit _ rest' hunread, hnl, if_true, Nat.add_assoc]
    · simp only [lib.notStr_miss _ (by rw [hunread]; exact hnl), if_neg hnl]

/-- Every line is progress. -/
theorem statusLine_lt (lib : StatusLib) (c : PopsClient) (h : c.ibuf.cp < c.ibuf.nc) :
    (c.statusLine lib).ibuf.unread.length < c.ibuf.unread.length := by
  have hlen := c.ibuf.length_unread
  have hadv (n : ℕ) : (InputBuffer.unread ⟨c.ibuf.buf,c.ibuf.cp+n⟩).length =
      c.ibuf.unread.length-n := by rw [InputBuffer.unread_advance, List.length_drop]
  obtain ⟨d, u, hu⟩ : ∃ d u, c.ibuf.unread = d :: u := by
    cases hcase : c.ibuf.unread with
    | nil => rw [hcase, List.length_nil] at hlen; omega
    | cons d u => exact ⟨d, u, rfl⟩
  unfold statusLine
  rw [c.ibuf.getD_cp hu]
  by_cases hd : isDigit d = true
  · rw [if_pos hd]
    have hsplit := (List.takeWhile_append_dropWhile (p := isDigit) (l := d :: u)).symm
    have hpos : 0 < ((d :: u).takeWhile isDigit).length := by
      rw [List.takeWhile_cons_of_pos hd]
      exact Nat.succ_pos _
    rw [c.digitLine_eq lib _ _ (hu.trans hsplit) (List.ne_nil_of_length_pos hpos)
      (fun e he => List.mem_takeWhile_imp he) ?_]
    · split
      · rw [hadv]
        omega
      · split <;> rw [hadv] <;> omega
    · intro e he hdigit
      have hhead := List.head?_dropWhile_not isDigit (d :: u)
      rw [Option.mem_def.mp he] at hhead
      exact absurd hdigit (by simp [hhead])
  · rw [if_neg hd]
    unfold otherLine
    dsimp only
    split
    · rw [Nat.add_assoc, hadv]
      omega
    · rename_i hend
      rw [hadv]
      omega

/-- The loop of `app_input`. -/
def statusLoop (lib : StatusLib) (c : PopsClient) : PopsClient :=
  if _h : c.ibuf.cp < c.ibuf.nc then statusLoop lib (c.statusLine lib) else c
termination_by c.ibuf.unread.length
decreasing_by exact statusLine_lt lib c _h

theorem statusLoop_of_ne_nil (lib : StatusLib) (c : PopsClient) (h : c.ibuf.unread ≠ []) :
    statusLoop lib c = statusLoop lib (c.statusLine lib) := by
  have hlen := c.ibuf.length_unread
  have hpos := List.length_pos_of_ne_nil h
  rw [statusLoop, dif_pos (by omega)]

theorem statusLoop_nil (lib : StatusLib) (c : PopsClient) (hu : c.ibuf.unread = []) :
    statusLoop lib c = c := by
  have hlen := c.ibuf.length_unread
  rw [hu, List.length_nil] at hlen
  rw [statusLoop, dif_neg (by omega)]

/-- One read of `bytes` followed by `app_input`. -/
def appInput (io : DasIO) (lib : StatusLib) (c : PopsClient) (bytes : List UInt8) : PopsClient :=
  let c := statusLoop lib {c with ibuf := ⟨(io.read c.ibuf bytes).buf,0⟩}
  {c with ibuf := io.reportOk c.ibuf.nc c.ibuf}

/-- `protocol_timeout` and `app_process_eof`: the connection is given up. -/
def lose (c : PopsClient) : PopsClient := {c with srvr := 0, connected := false}

end PopsClient
end Cosmid.Pops
