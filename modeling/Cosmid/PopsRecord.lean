import Cosmid.DasIO
import Mathlib.Data.Int.Notation

/-! `UserPkts_UDP::protocol_input` (POPS/POPS.cc): the parser of the records that the
particle spectrometer sends, and the telemetry structure they are published in. The
library's field parsers and `mktime` are parameters, and floats are opaque. -/
namespace Cosmid.Pops

/-- `POPS_t`; `F` are the floats and `D` the doubles. -/
structure Telemetry (F D : Type) where
  time : D
  partNum : UInt32
  histSum : UInt32
  partConNumCc : F
  baseline : UInt32
  blth : UInt32
  std : F
  maxSTD : F
  pMbar : F
  msTemp : F
  pumpLife : F
  widthSTD : F
  widthAvg : F
  flow : F
  pumpFB : F
  ldTemp : F
  laserFB : F
  ldMon : F
  airTemp : F
  batV : F
  laserCurrent : F
  flowSet : F
  blStart : UInt32
  thMult : F
  logmin : F
  logmax : F
  skipSave : Int32
  minPeakPts : UInt32
  maxPeakPts : UInt32
  rawPts : Int32
  bin01 : UInt32
  bin02 : UInt32
  bin03 : UInt32
  bin04 : UInt32
  bin05 : UInt32
  bin06 : UInt32
  bin07 : UInt32
  bin08 : UInt32
  bin09 : UInt32
  bin10 : UInt32
  bin11 : UInt32
  bin12 : UInt32
  bin13 : UInt32
  bin14 : UInt32
  bin15 : UInt32
  bin16 : UInt32
  nBins : UInt16
  intStatus : UInt8
  dataStatus : UInt8
  srvr : UInt8
  stale : UInt8
deriving DecidableEq, Inhabited

/-- The local variables of `protocol_input`, once all of them are parsed. -/
structure Record (F : Type) where
  year : ℤ
  month : ℤ
  day : ℤ
  hour : ℤ
  minute : ℤ
  second : ℤ
  timeSSM : F
  intStatus : UInt8
  dataStatus : UInt8
  partNum : UInt32
  histSum : UInt32
  partConNumCc : F
  baseline : UInt32
  blth : UInt32
  std : F
  maxSTD : F
  pMbar : F
  msTemp : F
  pumpLife : F
  widthSTD : F
  widthAvg : F
  flow : F
  pumpFB : F
  ldTemp : F
  laserFB : F
  ldMon : F
  airTemp : F
  batV : F
  laserCurrent : F
  flowSet : F
  blStart : UInt32
  thMult : F
  nBins : UInt16
  logmin : F
  logmax : F
  skipSave : Int32
  minPeakPts : UInt32
  maxPeakPts : UInt32
  rawPts : Int32
  bin01 : UInt32
  bin02 : UInt32
  bin03 : UInt32
  bin04 : UInt32
  bin05 : UInt32
  bin06 : UInt32
  bin07 : UInt32
  bin08 : UInt32
  bin09 : UInt32
  bin10 : UInt32
  bin11 : UInt32
  bin12 : UInt32
  bin13 : UInt32
  bin14 : UInt32
  bin15 : UInt32
  bin16 : UInt32
deriving DecidableEq

/-- The fields of `struct tm` that the source sets. -/
structure Tm where
  tmYear : ℤ
  tmMon : ℤ
  tmMday : ℤ
  tmHour : ℤ
  tmMin : ℤ
  tmSec : ℤ
  tmIsdst : ℤ

/-- A parser works on the buffer at `cp`. It fails where the source's `not_…`
function returns true, and what it did to the buffer stays. -/
abbrev Parse (α : Type) := OptionT (StateM InputBuffer) α

/-- `timeOf ltime ssm` is `ltime` plus the fraction of a second in `ssm`. -/
structure FieldLib (F D : Type) where
  notStr : List UInt8 → Parse Unit
  notFound : UInt8 → Parse Unit
  notNdigits : ℕ → Parse ℤ
  notUint8 : Parse UInt8
  notUint16 : Parse UInt16
  notUint32 : Parse UInt32
  notInt32 : Parse Int32
  notNfloat : Parse F
  mktime : Tm → ℤ
  timeOf : ℤ → F → D

variable {F D : Type}

namespace FieldLib

/-- A field with the comma behind it. -/
def comma {α : Type} (lib : FieldLib F D) (field : Parse α) : Parse α := do
  let a ← field
  lib.notStr [0x2c]
  pure a

/-- The condition of the one big `if`: `POPS,` and the fields in their order. -/
def parse (lib : FieldLib F D) : Parse (Record F) := do
  lib.notStr [0x50, 0x4f, 0x50, 0x53, 0x2c]
  lib.notFound 0x2c
  lib.notFound 0x2c
  let year ← lib.notNdigits 4
  let month ← lib.notNdigits 2
  let day ← lib.notNdigits 2
  lib.notStr [0x54]
  let hour ← lib.notNdigits 2
  let minute ← lib.notNdigits 2
  let second ← lib.comma (lib.notNdigits 2)
  let timeSSM ← lib.comma lib.notNfloat
  let intStatus ← lib.comma lib.notUint8
  let dataStatus ← lib.comma lib.notUint8
  let partNum ← lib.comma lib.notUint32
  let histSum ← lib.comma lib.notUint32
  let partConNumCc ← lib.comma lib.notNfloat
  let baseline ← lib.comma lib.notUint32
  let blth ← lib.comma lib.notUint32
  let std ← lib.comma lib.notNfloat
  let maxSTD ← lib.comma lib.notNfloat
  let pMbar ← lib.comma lib.notNfloat
  let msTemp ← lib.comma lib.notNfloat
  let pumpLife ← lib.comma lib.notNfloat
  let widthSTD ← lib.comma lib.notNfloat
  let widthAvg ← lib.comma lib.notNfloat
  let flow ← lib.comma lib.notNfloat
  let pumpFB ← lib.comma lib.notNfloat
  let ldTemp ← lib.comma lib.notNfloat
  let laserFB ← lib.comma lib.notNfloat
  let ldMon ← lib.comma lib.notNfloat
  let airTemp ← lib.comma lib.notNfloat
  let batV ← lib.comma lib.notNfloat
  let laserCurrent ← lib.comma lib.notNfloat
  let flowSet ← lib.comma lib.notNfloat
  let blStart ← lib.comma lib.notUint32
  let thMult ← lib.comma lib.notNfloat
  let nBins ← lib.comma lib.notUint16
  let logmin ← lib.comma lib.notNfloat
  let logmax ← lib.comma lib.notNfloat
  let skipSave ← lib.comma lib.notInt32
  let minPeakPts ← lib.comma lib.notUint32
  let maxPeakPts ← lib.comma lib.notUint32
  let rawPts ← lib.comma lib.notInt32
  let bin01 ← lib.comma lib.notUint32
  let bin02 ← lib.comma lib.notUint32
  let bin03 ← lib.comma lib.notUint32
  let bin04 ← lib.comma lib.notUint32
  let bin05 ← lib.comma lib.notUint32
  let bin06 ← lib.comma lib.notUint32
  let bin07 ← lib.comma lib.notUint32
  let bin08 ← lib.comma lib.notUint32
  let bin09 ← lib.comma lib.notUint32
  let bin10 ← lib.comma lib.notUint32
  let bin11 ← lib.comma lib.notUint32
  let bin12 ← lib.comma lib.notUint32
  let bin13 ← lib.comma lib.notUint32
  let bin14 ← lib.comma lib.notUint32
  let bin15 ← lib.comma lib.notUint32
  let bin16 ← lib.notUint32
  pure ⟨year,month,day,hour,minute,second,timeSSM,intStatus,dataStatus,partNum,histSum,
    partConNumCc,baseline,blth,std,maxSTD,pMbar,msTemp,pumpLife,widthSTD,widthAvg,flow,pumpFB,
    ldTemp,laserFB,ldMon,airTemp,batV,laserCurrent,flowSet,blStart,thMult,nBins,logmin,logmax,
    skipSave,minPeakPts,maxPeakPts,rawPts,bin01,bin02,bin03,bin04,bin05,bin06,bin07,bin08,bin09,
    bin10,bin11,bin12,bin13,bin14,bin15,bin16⟩

end FieldLib

/-- `buft`. -/
def Record.buft (r : Record F) : Tm :=
  ⟨r.year-1900,r.month-1,r.day,r.hour,r.minute,r.second,0⟩

/-- The receiver's buffer, the telemetry, and how often `mktime` was reported. -/
structure UserPktsUDP (F D : Type) where
  ibuf : InputBuffer
  pops : Telemetry F D
  mktimeErrors : ℕ

namespace UserPktsUDP

/-- From the call of `mktime` on, in the order of the source. `Laser_Current` and
`Flow_Set` are not in its list. -/
def publish (lib : FieldLib F D) (u : UserPktsUDP F D) (r : Record F) : UserPktsUDP F D :=
  let ltime := lib.mktime r.buft
  let u := if ltime = -1 then {u with mktimeErrors := u.mktimeErrors+1}
    else {u with pops := {u.pops with time := lib.timeOf ltime r.timeSSM}}
  {u with pops := {u.pops with
    intStatus := r.intStatus
    dataStatus := r.dataStatus
    partNum := r.partNum
    histSum := r.histSum
    partConNumCc := r.partConNumCc
    baseline := r.baseline
    blth := r.blth
    std := r.std
    maxSTD := r.maxSTD
    pMbar := r.pMbar
    msTemp := r.msTemp
    pumpLife := r.pumpLife
    widthSTD := r.widthSTD
    widthAvg := r.widthAvg
    flow := r.flow
    pumpFB := r.pumpFB
    ldTemp := r.ldTemp
    laserFB := r.laserFB
    ldMon := r.ldMon
    airTemp := r.airTemp
    batV := r.batV
    blStart := r.blStart
    thMult := r.thMult
    nBins := r.nBins
    logmin := r.logmin
    logmax := r.logmax
    skipSave := r.skipSave
    minPeakPts := r.minPeakPts
    maxPeakPts := r.maxPeakPts
    rawPts := r.rawPts
    bin01 := r.bin01
    bin02 := r.bin02
    bin03 := r.bin03
    bin04 := r.bin04
    bin05 := r.bin05
    bin06 := r.bin06
    bin07 := r.bin07
    bin08 := r.bin08
    bin09 := r.bin09
    bin10 := r.bin10
    bin11 := r.bin11
    bin12 := r.bin12
    bin13 := r.bin13
    bin14 := r.bin14
    bin15 := r.bin15
    bin16 := r.bin16
    stale := 0}}

/-- The buffer when the parser starts. -/
def received (io : DasIO) (u : UserPktsUDP F D) (datagram : List UInt8) : InputBuffer :=
  ⟨(io.read u.ibuf datagram).buf,0⟩

/-- One datagram and the call of `protocol_input` for it. -/
def protocolInput (io : DasIO) (lib : FieldLib F D) (u : UserPktsUDP F D) (datagram : List UInt8) :
    UserPktsUDP F D :=
  match lib.parse (u.received io datagram) with
  | (none, b) => {u with ibuf := if b.cp < b.nc then io.consume b.nc b else b}
  | (some r, b) => {u.publish lib r with ibuf := io.reportOk b.nc b}

end UserPktsUDP

/-- Telemetry with all values of a record, except that the time and the two values
that the source does not copy are the ones given. -/
def Record.fill (r : Record F) (time : D) (laserCurrent flowSet : F) (p : Telemetry F D) :
    Telemetry F D where
  time := time
  partNum := r.partNum
  histSum := r.histSum
  partConNumCc := r.partConNumCc
  baseline := r.baseline
  blth := r.blth
  std := r.std
  maxSTD := r.maxSTD
  pMbar := r.pMbar
  msTemp := r.msTemp
  pumpLife := r.pumpLife
  widthSTD := r.widthSTD
  widthAvg := r.widthAvg
  flow := r.flow
  pumpFB := r.pumpFB
  ldTemp := r.ldTemp
  laserFB := r.laserFB
  ldMon := r.ldMon
  airTemp := r.airTemp
  batV := r.batV
  laserCurrent := laserCurrent
  flowSet := flowSet
  blStart := r.blStart
  thMult := r.thMult
  nBins := r.nBins
  logmin := r.logmin
  logmax := r.logmax
  skipSave := r.skipSave
  minPeakPts := r.minPeakPts
  maxPeakPts := r.maxPeakPts
  rawPts := r.rawPts
  bin01 := r.bin01
  bin02 := r.bin02
  bin03 := r.bin03
  bin04 := r.bin04
  bin05 := r.bin05
  bin06 := r.bin06
  bin07 := r.bin07
  bin08 := r.bin08
  bin09 := r.bin09
  bin10 := r.bin10
  bin11 := r.bin11
  bin12 := r.bin12
  bin13 := r.bin13
  bin14 := r.bin14
  bin15 := r.bin15
  bin16 := r.bin16
  intStatus := r.intStatus
  dataStatus := r.dataStatus
  srvr := p.srvr
  stale := 0

namespace Record

/-- The telemetry that the record asks for: every instrument field from the record.
There is none if its date is not a time. -/
def published (lib : FieldLib F D) (r : Record F) (p : Telemetry F D) : Option (Telemetry F D) :=
  if lib.mktime r.buft = -1 then none
  else some (r.fill (lib.timeOf (lib.mktime r.buft) r.timeSSM) r.laserCurrent r.flowSet p)

/-- The time after the record: the old one if its date is not a time. -/
def timeAfter (lib : FieldLib F D) (r : Record F) (p : Telemetry F D) : D :=
  if lib.mktime r.buft = -1 then p.time else lib.timeOf (lib.mktime r.buft) r.timeSSM

/-- The two records make the same of the telemetry `p`: they have the same values, apart from the
two that the source does not copy, and the same time or none. -/
def Agrees (lib : FieldLib F D) (p : Telemetry F D) (r r' : Record F) : Prop :=
  r.fill (r.timeAfter lib p) p.laserCurrent p.flowSet p =
    r'.fill (r'.timeAfter lib p) p.laserCurrent p.flowSet p

theorem fill_inj (r r' : Record F) {time time' : D} {laser laser' flow flow' : F}
    {p : Telemetry F D} (h : r.fill time laser flow p = r'.fill time' laser' flow' p) :
    laser = laser' ∧ flow = flow' := by
  have hl := congrArg Telemetry.laserCurrent h
  have hf := congrArg Telemetry.flowSet h
  exact ⟨hl, hf⟩

end Record

namespace UserPktsUDP

/-- What the source's list of assignments amounts to. -/
theorem publish_pops (lib : FieldLib F D) (u : UserPktsUDP F D) (r : Record F) :
    (u.publish lib r).pops =
      r.fill (r.timeAfter lib u.pops) u.pops.laserCurrent u.pops.flowSet u.pops := by
  unfold publish Record.timeAfter
  dsimp only
  split_ifs <;> rfl

theorem protocolInput_pops (io : DasIO) (lib : FieldLib F D) (u : UserPktsUDP F D)
    (datagram : List UInt8) :
    (u.protocolInput io lib datagram).pops =
      match (lib.parse (u.received io datagram)).1 with
      | none => u.pops
      | some r => r.fill (r.timeAfter lib u.pops) u.pops.laserCurrent u.pops.flowSet u.pops := by
  unfold protocolInput
  split
  · rename_i heq
    rw [heq]
  · rename_i r b heq
    rw [heq]
    exact u.publish_pops lib r

/-- The telemetry is as before, or holds every value of the record that the datagram is. -/
def WholeOrNothing (io : DasIO) (lib : FieldLib F D) (u : UserPktsUDP F D)
    (datagram : List UInt8) : Prop :=
  (u.protocolInput io lib datagram).pops = u.pops ∨
    ∃ r, (lib.parse ⟨datagram,0⟩).1 = some r ∧
      r.published lib u.pops = some (u.protocolInput io lib datagram).pops

/-- A datagram is published whole or not at all if and only if what is received with it, behind
the bytes that earlier ones have left, is no record; or is a record of which the telemetry has all
that the source would change; or agrees with the record that the datagram is by itself, its date
is a time, and the telemetry has its `Laser_Current` and `Flow_Set` already. -/
theorem wholeOrNothing_iff (io : DasIO) (lib : FieldLib F D) (u : UserPktsUDP F D)
    (datagram : List UInt8) :
    u.WholeOrNothing io lib datagram ↔
      ∀ r, (lib.parse (u.received io datagram)).1 = some r →
        u.pops = r.fill (r.timeAfter lib u.pops) u.pops.laserCurrent u.pops.flowSet u.pops ∨
        ∃ r', (lib.parse ⟨datagram,0⟩).1 = some r' ∧ r'.Agrees lib u.pops r ∧
          lib.mktime r'.buft ≠ -1 ∧ u.pops.laserCurrent = r'.laserCurrent ∧
          u.pops.flowSet = r'.flowSet := by
  unfold WholeOrNothing
  rw [protocolInput_pops]
  cases hparse : (lib.parse (u.received io datagram)).1 with
  | none => simp
  | some r =>
    simp only [Option.some.injEq, forall_eq']
    refine or_congr eq_comm (exists_congr fun r' => and_congr_right fun _ => ?_)
    constructor
    · -- When all is published as it should be, the two fields that the source leaves out have
      -- been right before.
      intro hpub
      unfold Record.published at hpub
      split_ifs at hpub with htime
      have hfill := Option.some.inj hpub
      obtain ⟨hl, hf⟩ := r'.fill_inj r hfill
      refine ⟨?_, htime, hl.symm, hf.symm⟩
      rw [hl, hf] at hfill
      rw [Record.Agrees, Record.timeAfter, if_neg htime]
      exact hfill
    · rintro ⟨hagrees, htime, hl, hf⟩
      rw [Record.Agrees, Record.timeAfter, if_neg htime] at hagrees
      rw [Record.published, if_neg htime, ← hl, ← hf, hagrees]

end UserPktsUDP

namespace FieldLib

/-- The digits at `cp`. -/
def digits (b : InputBuffer) : List UInt8 := b.unread.takeWhile fun c => 0x30 ≤ c && c ≤ 0x39

def number (ds : List UInt8) : ℕ := ds.foldl (fun n c => 10*n+(c.toNat-0x30)) 0

/-- A run of at least one digit, converted by `conv`. -/
def decimalField {α : Type} (conv : ℕ → α) : Parse α := fun b =>
  if digits b = [] then (none, b)
  else (some (conv (number (digits b))), ⟨b.buf,b.cp+(digits b).length⟩)

/-- Parsers for unsigned decimal numbers without a fraction, and `mktime` for dates
of the Gregorian calendar in UTC. -/
def decimal : FieldLib ℤ ℤ where
  notStr str := fun b =>
    if str.isPrefixOf b.unread then (some (), ⟨b.buf,b.cp+str.length⟩) else (none, b)
  notFound c := fun b =>
    if c ∈ b.unread then (some (), ⟨b.buf,b.cp+(b.unread.idxOf c+1)⟩) else (none, b)
  notNdigits n := fun b =>
    if (digits b).length < n then (none, b)
    else (some (number ((digits b).take n) : ℤ), ⟨b.buf,b.cp+n⟩)
  notUint8 := decimalField UInt8.ofNat
  notUint16 := decimalField UInt16.ofNat
  notUint32 := decimalField UInt32.ofNat
  notInt32 := decimalField Int32.ofNat
  notNfloat := decimalField fun n => (n : ℤ)
  mktime t :=
    let m := (t.tmMon+10)%12
    let y := t.tmYear+1900-m/10
    let days := 365*y+y/4-y/100+y/400+(153*m+2)/5+t.tmMday-1-719468
    86400*days+3600*t.tmHour+60*t.tmMin+t.tmSec
  timeOf ltime _ := ltime

end FieldLib

namespace UserPktsUDP

/-- `POPS,1,f,20240102T030405,` and a one in each of the 49 fields behind it. -/
def onesRecord : List UInt8 :=
  [0x50, 0x4f, 0x50, 0x53, 0x2c, 0x31, 0x2c, 0x66, 0x2c, 0x32, 0x30, 0x32, 0x34, 0x30, 0x31, 0x30,
    0x32, 0x54, 0x30, 0x33, 0x30, 0x34, 0x30, 0x35, 0x2c] ++
    (List.replicate 48 [0x31, 0x2c]).flatten ++ [0x31]

/-- The first record after the start of the program: the telemetry takes its
`Part_Num` but not its `Laser_Current`. -/
theorem laser_current_kept : ¬(⟨InputBuffer.empty,default,0⟩ : UserPktsUDP ℤ ℤ).WholeOrNothing
    DasIO.keeping FieldLib.decimal onesRecord := by
  have hparse : ((FieldLib.decimal.parse ⟨onesRecord,0⟩).1.map
      fun r => (r.partNum, r.laserCurrent)) = some (1, 1) := by decide +kernel
  obtain ⟨r, hr, hvalues⟩ := Option.map_eq_some_iff.mp hparse
  obtain ⟨hpart, hlaser⟩ := Prod.mk.inj hvalues
  rw [WholeOrNothing, protocolInput_pops]
  have hreceived : (⟨InputBuffer.empty,default,0⟩ : UserPktsUDP ℤ ℤ).received DasIO.keeping
      onesRecord = ⟨onesRecord,0⟩ := rfl
  rw [hreceived, hr]
  rintro (hsame | ⟨r', hr', hpub⟩)
  · have hzero := congrArg Telemetry.partNum hsame
    exact absurd (hpart.symm.trans hzero) (by decide)
  · obtain rfl := Option.some.inj hr'
    unfold Record.published at hpub
    split_ifs at hpub
    obtain ⟨hkept, -⟩ := r.fill_inj r ((Option.some.inj hpub).trans rfl)
    exact absurd (hlaser.symm.trans hkept) (by decide)

end UserPktsUDP
end Cosmid.Pops
