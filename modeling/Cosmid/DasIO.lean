import Mathlib.Data.List.Basic
import Mathlib.Tactic.Common

/-! What the programs take from the communication library they are linked with.
The library is not part of the repository, so its functions are parameters, and
the facts the programs rely on are fields beside them. -/
namespace Cosmid

/-- `buf[0..nc)` of an interface and its parse position `cp`. -/
structure InputBuffer where
  buf : List UInt8
  cp : ℕ
deriving DecidableEq

namespace InputBuffer

def empty : InputBuffer := ⟨[],0⟩

def nc (b : InputBuffer) : ℕ := b.buf.length

/-- The bytes from `cp` up to `nc`. -/
def unread (b : InputBuffer) : List UInt8 := b.buf.drop b.cp

@[simp] theorem unread_empty : empty.unread = [] := rfl

@[simp] theorem nc_mk (d : List UInt8) (cp : ℕ) : nc ⟨d,cp⟩ = d.length := rfl

@[simp] theorem unread_mk_zero (d : List UInt8) : unread ⟨d,0⟩ = d := rfl

theorem length_unread (b : InputBuffer) : b.unread.length = b.nc-b.cp := by
  simp only [unread, nc, List.length_drop]

theorem unread_advance (b : InputBuffer) (n : ℕ) :
    unread ⟨b.buf,b.cp+n⟩ = b.unread.drop n := by
  simp only [unread, List.drop_drop]

theorem getD_unread (b : InputBuffer) (i : ℕ) : b.buf.getD (b.cp+i) 0 = b.unread.getD i 0 := by
  rw [unread, List.getD_eq_getElem?_getD, List.getD_eq_getElem?_getD, List.getElem?_drop]

theorem getD_cp (b : InputBuffer) {c : UInt8} {u : List UInt8} (hu : b.unread = c :: u) :
    b.buf.getD b.cp 0 = c := by
  rw [← Nat.add_zero b.cp, getD_unread, hu]
  rfl

end InputBuffer

/-- The input side of an interface. `notFound` and the other `not…` functions
return true when what they look for is not there. `resume` is the parse position
with which the next call of the input handler starts: the library may keep `cp`
or restart it. -/
structure DasIO where
  notFound : UInt8 → InputBuffer → Bool × InputBuffer
  consume : ℕ → InputBuffer → InputBuffer
  reportOk : ℕ → InputBuffer → InputBuffer
  resume : ℕ → ℕ
  notFound_hit : ∀ c b pre post, b.unread = pre ++ c :: post → c ∉ pre →
    notFound c b = (false, ⟨b.buf,b.cp+(pre.length+1)⟩)
  notFound_miss : ∀ c b, c ∉ b.unread → notFound c b = (true, InputBuffer.empty)
  consume_buf : ∀ n b, (consume n b).buf = b.buf.drop n
  consume_cp : ∀ n b, b.cp ≤ n → (consume n b).cp = 0
  reportOk_buf : ∀ n b, (reportOk n b).buf = b.buf.drop n
  reportOk_cp : ∀ n b, b.cp ≤ n → (reportOk n b).cp = 0
  resume_cases : ∀ cp, resume cp = cp ∨ resume cp = 0

namespace DasIO

/-- One read appends what arrived at `buf[nc]`. -/
def read (io : DasIO) (b : InputBuffer) (bytes : List UInt8) : InputBuffer :=
  ⟨b.buf ++ bytes, io.resume b.cp⟩

@[simp] theorem resume_zero (io : DasIO) : io.resume 0 = 0 := by
  rcases io.resume_cases 0 with h | h <;> exact h

@[simp] theorem read_zero (io : DasIO) (d bytes : List UInt8) :
    io.read ⟨d,0⟩ bytes = ⟨d ++ bytes,0⟩ := by
  simp only [read, resume_zero]

/-- Dropping what has been parsed leaves the unread bytes at the front. -/
theorem consume_parsed (io : DasIO) (b : InputBuffer) : io.consume b.cp b = ⟨b.unread,0⟩ := by
  have hb := io.consume_buf b.cp b
  have hc := io.consume_cp b.cp b (Nat.le_refl _)
  cases h : io.consume b.cp b
  simp_all [InputBuffer.unread]

theorem reportOk_parsed (io : DasIO) (b : InputBuffer) : io.reportOk b.cp b = ⟨b.unread,0⟩ := by
  have hb := io.reportOk_buf b.cp b
  have hc := io.reportOk_cp b.cp b (Nat.le_refl _)
  cases h : io.reportOk b.cp b
  simp_all [InputBuffer.unread]

/-- The two outcomes of a search, with the split of the unread bytes it found. -/
theorem notFound_cases (io : DasIO) (c : UInt8) (b : InputBuffer) :
    (c ∉ b.unread ∧ io.notFound c b = (true, InputBuffer.empty)) ∨
    ∃ pre post, b.unread = pre ++ c :: post ∧ c ∉ pre ∧
      io.notFound c b = (false, ⟨b.buf,b.cp+(pre.length+1)⟩) := by
  by_cases h : c ∈ b.unread
  · obtain ⟨pre, post, hsplit, hpre⟩ := List.eq_append_cons_of_mem h
    exact Or.inr ⟨pre, post, hsplit, hpre, io.notFound_hit c b pre post hsplit hpre⟩
  · exact Or.inl ⟨h, io.notFound_miss c b h⟩

private def dropFront (n : ℕ) (b : InputBuffer) : InputBuffer := ⟨b.buf.drop n,b.cp-n⟩

/-- An input side that keeps `cp` between calls and moves it with the bytes. -/
def keeping : DasIO where
  notFound c b := if c ∈ b.unread then (false, ⟨b.buf,b.cp+(b.unread.idxOf c+1)⟩)
    else (true, InputBuffer.empty)
  consume := dropFront
  reportOk := dropFront
  resume := id
  notFound_hit c b pre post h hpre := by
    have hi : b.unread.idxOf c = pre.length := by
      rw [h, List.idxOf_append_of_notMem hpre, List.idxOf_cons_self, Nat.add_zero]
    simp [h, ← hi]
  notFound_miss c b h := by simp [h]
  consume_buf _ _ := rfl
  consume_cp n b h := by simp only [dropFront]; omega
  reportOk_buf _ _ := rfl
  reportOk_cp n b h := by simp only [dropFront]; omega
  resume_cases _ := Or.inl rfl

/-- The same with `cp` restarted for every call. -/
def restarting : DasIO where
  notFound := keeping.notFound
  consume := keeping.consume
  reportOk := keeping.reportOk
  resume _ := 0
  notFound_hit := keeping.notFound_hit
  notFound_miss := keeping.notFound_miss
  consume_buf := keeping.consume_buf
  consume_cp := keeping.consume_cp
  reportOk_buf := keeping.reportOk_buf
  reportOk_cp := keeping.reportOk_cp
  resume_cases _ := Or.inr rfl

end DasIO

/-- The output side of a connection: whether its output buffer is empty, and
what a write does to it. -/
structure OutputSocket where
  State : Type
  obufEmpty : State → Bool
  iwrite : List UInt8 → State → State

/-- An output side that always takes everything at once. -/
def OutputSocket.direct : OutputSocket := ⟨Unit, fun _ => true, fun _ s => s⟩

/-- Serio packets: the layout of `serio_pkt_hdr` behind its LRC byte, the packet
types, and `crc16modbus_word`, whose buffer argument may be the null pointer. -/
structure SerioLib where
  pktTypeSID : UInt8
  pktTypeXIO : UInt8
  pktTypeNPH : UInt8
  hdrBody : UInt8 → UInt16 → UInt16 → List UInt8
  hdrType : List UInt8 → UInt8
  hdrLength : List UInt8 → UInt16
  hdrCRC : List UInt8 → UInt16
  crc16modbusWord : UInt32 → Option (List UInt8) → UInt32
  length_hdrBody : ∀ type length crc, (hdrBody type length crc).length = 5
  hdrType_hdrBody : ∀ lrc type length crc, hdrType (lrc :: hdrBody type length crc) = type
  hdrLength_hdrBody : ∀ lrc type length crc, hdrLength (lrc :: hdrBody type length crc) = length
  hdrCRC_hdrBody : ∀ lrc type length crc, hdrCRC (lrc :: hdrBody type length crc) = crc

namespace SerioLib

def lowByte (n : UInt16) : UInt8 := UInt8.ofNat n.toNat
def highByte (n : UInt16) : UInt8 := UInt8.ofNat (n.toNat/256)
def word (low high : UInt8) : UInt16 := UInt16.ofNat (low.toNat+256*high.toNat)

theorem word_lowByte_highByte (n : UInt16) : word (lowByte n) (highByte n) = n := by
  have hn := n.toNat_lt
  apply UInt16.toNat_inj.mp
  simp only [word, lowByte, highByte, UInt8.toNat_ofNat', UInt16.toNat_ofNat']
  omega

/-- One byte of CRC-16/MODBUS. -/
def crc16Byte (crc : UInt32) (b : UInt8) : UInt32 :=
  (List.range 8).foldl (fun c _ => if c &&& 1 = 1 then (c >>> 1) ^^^ 0xa001 else c >>> 1)
    (crc ^^^ b.toUInt32)

/-- A library with an unpadded header, low bytes first, and CRC-16/MODBUS. -/
def packed : SerioLib where
  pktTypeSID := 1
  pktTypeXIO := 2
  pktTypeNPH := 3
  hdrBody type length crc :=
    [type,lowByte length,highByte length,lowByte crc,highByte crc]
  hdrType hdr := hdr.getD 1 0
  hdrLength hdr := word (hdr.getD 2 0) (hdr.getD 3 0)
  hdrCRC hdr := word (hdr.getD 4 0) (hdr.getD 5 0)
  crc16modbusWord crc bfr := bfr.elim 0xffff (List.foldl crc16Byte crc)
  length_hdrBody _ _ _ := rfl
  hdrType_hdrBody _ _ _ _ := rfl
  hdrLength_hdrBody _ _ length _ := word_lowByte_highByte length
  hdrCRC_hdrBody _ _ _ crc := word_lowByte_highByte crc

/-- `serio::pkt_hdr_size`, also `sizeof(serio_pkt_hdr)`. -/
def pktHdrSize : ℕ := 6

/-- The CRC that the exporters store for a payload. -/
def crcOf (serio : SerioLib) (bfr : List UInt8) : UInt16 :=
  (serio.crc16modbusWord (serio.crc16modbusWord 0 none) (some bfr)).toUInt16

/-- The header that every `forward_packet` builds in front of its payload: the
LRC byte is the negated sum of the bytes behind it. -/
def mkHdr (serio : SerioLib) (type : UInt8) (bfr : List UInt8) : List UInt8 :=
  let body := serio.hdrBody type (UInt16.ofNat bfr.length) (serio.crcOf bfr)
  (-(body.foldl (· + ·) 0)) :: body

@[simp] theorem length_mkHdr (serio : SerioLib) (type : UInt8) (bfr : List UInt8) :
    (serio.mkHdr type bfr).length = pktHdrSize := by
  simp [mkHdr, serio.length_hdrBody, pktHdrSize]

/-- A header and payload as the receiving end of the stream checks them. -/
structure WellFormed (serio : SerioLib) (type : UInt8) (hdr payload : List UInt8) : Prop where
  length_hdr : hdr.length = pktHdrSize
  sum_hdr : hdr.foldl (· + ·) 0 = 0
  hdrType_eq : serio.hdrType hdr = type
  hdrLength_eq : (serio.hdrLength hdr).toNat = payload.length
  hdrCRC_eq : serio.hdrCRC hdr = serio.crcOf payload

theorem foldl_add_start (a : UInt8) (xs : List UInt8) :
    xs.foldl (· + ·) a = a+xs.foldl (· + ·) 0 := by
  induction xs generalizing a with
  | nil => simp
  | cons x xs ih => rw [List.foldl_cons, List.foldl_cons, ih, ih (0+x), UInt8.zero_add, UInt8.add_assoc]

/-- What `forward_packet` builds is well formed as long as its length field can
hold the payload's size. -/
theorem wellFormed_mkHdr (serio : SerioLib) (type : UInt8) (bfr : List UInt8)
    (h : bfr.length < 65536) : serio.WellFormed type (serio.mkHdr type bfr) bfr where
  length_hdr := length_mkHdr serio type bfr
  sum_hdr := by
    rw [mkHdr, List.foldl_cons, foldl_add_start, UInt8.zero_add]
    exact UInt8.add_left_neg _
  hdrType_eq := serio.hdrType_hdrBody _ _ _ _
  hdrLength_eq := by
    rw [mkHdr, serio.hdrLength_hdrBody, UInt16.toNat_ofNat', Nat.mod_eq_of_lt h]
  hdrCRC_eq := serio.hdrCRC_hdrBody _ _ _ _

end SerioLib
end Cosmid
