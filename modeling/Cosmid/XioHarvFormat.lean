import Cosmid.XiomasControl
import Mathlib.Data.List.GetD

/-! The format of a Xiomas header: what `xhgValidateHeader` accepts is what `xhgFillHeader`
makes of the packet IDs, sources and flags that are in use. -/
namespace Cosmid.Xiomas

/-- The setters leave the LRC byte as it is. -/
def xhgSetBlockCount (hdr : List UInt8) (uCount : UInt32) : List UInt8 :=
  hdr.take 12 ++ xhgSetValue32 uCount

def xhgSetPayloadLength (hdr : List UInt8) (uLength : UInt32) : List UInt8 :=
  hdr.take 8 ++ xhgSetValue32 uLength ++ hdr.drop 12

/-- The fields that may be sent: the IDs of packets and of streams, the onboard and the
ground systems, and a payload that fits a packet. -/
structure ValidFields (pid src flags : UInt8) (len : UInt32) : Prop where
  pid_mem : pid < Xhpid.packetLimit ∨ (Xhpid.fireLayer ≤ pid ∧ pid < Xhpid.streamLimit)
  src_mem : src < Xhsrc.onboardLimit ∨ (Xhsrc.havardServer ≤ src ∧ src < Xhsrc.remoteLimit)
  flags_valid : flags &&& ~~~Xhf.validFlags = 0
  len_le : pid < Xhpid.packetLimit → len.toNat ≤ xioHarMaxPayloadLength

section Fields

theorem toUInt8_lowByte (v : UInt32) : (v &&& 0xff).toUInt8 = v.toUInt8 := by
  apply UInt8.toNat_inj.mp
  rw [UInt32.toNat_toUInt8, UInt32.toNat_toUInt8, UInt32.toNat_and]
  have h : v.toNat &&& 255 = v.toNat%2^8 := Nat.and_two_pow_sub_one_eq_mod v.toNat 8
  exact (congrArg (· % 2^8) h).trans (Nat.mod_mod _ _)

/-- The bytes of a field, read and written back. -/
theorem xhgSetValue32_xhgGetValue32 (a b c d : UInt8) :
    xhgSetValue32 (xhgGetValue32 [a,b,c,d]) = [a,b,c,d] := by
  simp only [xhgGetValue32, xhgSetValue32, toUInt8_lowByte, List.getD_cons_zero,
    List.getD_cons_succ, List.cons.injEq, and_true]
  refine ⟨?_, ?_, ?_, ?_⟩ <;>
  · apply UInt8.eq_of_toBitVec_eq
    ext i hi
    -- Of the four bytes only one has a bit there.
    simp <;> grind

theorem xhgSetValue32_field (field : List UInt8) (h : field.length = 4) :
    xhgSetValue32 (xhgGetValue32 field) = field := by
  match field, h with
  | [a,b,c,d], _ => exact xhgSetValue32_xhgGetValue32 a b c d

/-- A header is made of its fields. -/
theorem fields_eq (hdr : List UInt8) (h : hdr.length = xioHarvardHeaderSize) :
    hdr = mStart hdr ++ [mPacketID hdr,mSource hdr,hdr.getD 6 0,mFlags hdr] ++ mPayloadLength hdr ++
      mBlockCount hdr := by
  have hlen : hdr.length = 16 := h
  have hfour : (hdr.drop 4).take 4 = [mPacketID hdr,mSource hdr,hdr.getD 6 0,mFlags hdr] := by
    rw [List.drop_eq_getElem_cons (by omega), List.drop_eq_getElem_cons (by omega),
      List.drop_eq_getElem_cons (by omega), List.drop_eq_getElem_cons (by omega), mPacketID,
      mSource, mFlags, List.getD_eq_getElem _ _ (by omega), List.getD_eq_getElem _ _ (by omega),
      List.getD_eq_getElem _ _ (by omega), List.getD_eq_getElem _ _ (by omega)]
    rfl
  have hcount : mBlockCount hdr = hdr.drop 12 := by
    rw [mBlockCount, List.take_of_length_le]
    rw [List.length_drop, h]
    decide
  rw [mStart, mPayloadLength, hcount, ← hfour]
  have h8 : hdr.take 8 = hdr.take 4 ++ (hdr.drop 4).take 4 := List.take_add (i := 4) (j := 4)
  have h12 : hdr.take 12 = hdr.take 8 ++ (hdr.drop 8).take 4 := List.take_add (i := 8) (j := 4)
  rw [← h8, ← h12, List.take_append_drop]

end Fields

section Valid

variable (pid src flags lrc : UInt8) (len count : UInt32)

/-- A header with any LRC byte. -/
def withLRC : List UInt8 :=
  xioHarPacketStart ++ [pid,src,lrc,flags] ++ xhgSetValue32 len ++ xhgSetValue32 count

theorem xhgFillHeader_eq :
    xhgFillHeader pid src flags len count =
      withLRC pid src flags (xhgCalculateLRC (withLRC pid src flags 0 len count)) len count := rfl

/-- There is one LRC byte that makes the sum right. -/
theorem xhgCalculateLRC_withLRC :
    xhgCalculateLRC (withLRC pid src flags lrc len count) = 0 ↔
      lrc = xhgCalculateLRC (withLRC pid src flags 0 len count) := by
  have hsix : 6 < (withLRC pid src flags 0 len count).length := by
    change 6 < 16
    decide
  have hset := xhgCalculateLRC_set (withLRC pid src flags 0 len count) 6 lrc hsix (by decide)
  have hzero : (withLRC pid src flags 0 len count)[6] = 0 := rfl
  have hlrc : (withLRC pid src flags 0 len count).set 6 lrc =
    withLRC pid src flags lrc len count := rfl
  rw [hzero, hlrc, UInt8.not_eq_neg_sub, UInt8.not_eq_neg_sub] at hset
  grind

/-- The checks, one after the other. -/
theorem xhgValidateHeader_iff (hdr : List UInt8) (n : ℕ) :
    xhgValidateHeader hdr n = true ↔ mStart hdr = xioHarPacketStart ∧
      ValidFields (mPacketID hdr) (mSource hdr) (mFlags hdr) (xhgGetPayloadLength hdr) ∧
      xhgCalculateLRC hdr = 0 ∧ xhgGetPacketLength hdr = n := by
  have hp : ∀ p : UInt8, ¬((p ≥ Xhpid.packetLimit ∧ p < Xhpid.fireLayer) ∨ p ≥ Xhpid.streamLimit) ↔
      p < Xhpid.packetLimit ∨ (Xhpid.fireLayer ≤ p ∧ p < Xhpid.streamLimit) := by
    simp only [Xhpid.packetLimit, Xhpid.fireLayer, Xhpid.streamLimit]
    grind
  have hs : ∀ s : UInt8, ¬((s ≥ Xhsrc.onboardLimit ∧ s < Xhsrc.havardServer) ∨
      s ≥ Xhsrc.remoteLimit) ↔
      s < Xhsrc.onboardLimit ∨ (Xhsrc.havardServer ≤ s ∧ s < Xhsrc.remoteLimit) := by
    simp only [Xhsrc.onboardLimit, Xhsrc.havardServer, Xhsrc.remoteLimit]
    grind
  simp only [xhgValidateHeader, Bool.and_eq_true, Bool.not_eq_true', ← Bool.not_eq_true,
    Bool.or_eq_true, decide_eq_true_eq, hp, hs]
  constructor
  · rintro ⟨⟨⟨⟨⟨⟨hstart, hpid⟩, hsrc⟩, hlrc⟩, hflags⟩, hlen⟩, hn⟩
    exact ⟨hstart, ⟨hpid, hsrc, hflags, fun hlt => by grind⟩, hlrc, hn⟩
  · rintro ⟨hstart, ⟨hpid, hsrc, hflags, hlen⟩, hlrc, hn⟩
    refine ⟨⟨⟨⟨⟨⟨hstart, hpid⟩, hsrc⟩, hlrc⟩, hflags⟩, ?_⟩, hn⟩
    rintro ⟨hle, hgt⟩
    -- The limit itself is no packet ID.
    have hlt : mPacketID hdr < Xhpid.packetLimit := by
      simp only [Xhpid.packetLimit, Xhpid.fireLayer, Xhpid.streamLimit] at *
      grind
    exact absurd (hlen hlt) (Nat.not_le.mpr hgt)

theorem xhgValidateHeader_filled (n : ℕ) (h : ValidFields pid src flags len)
    (hn : (UInt32.ofNat xioHarvardHeaderSize+len).toNat = n) :
    xhgValidateHeader (xhgFillHeader pid src flags len count) n = true := by
  refine (xhgValidateHeader_iff _ n).mpr ⟨rfl, ?_, xhgCalculateLRC_xhgFillHeader _ _ _ _ _, ?_⟩
  · rw [xhgGetPayloadLength_xhgFillHeader]
    exact h
  · rw [xhgGetPacketLength, xhgGetPayloadLength_xhgFillHeader]
    exact hn

/-- A header that is accepted is the one its own fields are filled into. -/
theorem eq_filled (hdr : List UInt8) (n : ℕ) (hlen : hdr.length = xioHarvardHeaderSize)
    (h : xhgValidateHeader hdr n = true) :
    hdr = xhgFillHeader (mPacketID hdr) (mSource hdr) (mFlags hdr) (xhgGetPayloadLength hdr)
      (xhgGetBlockCount hdr) := by
  obtain ⟨hstart, -, hlrc, -⟩ := (xhgValidateHeader_iff hdr n).mp h
  have hsize : hdr.length = 16 := hlen
  have hwith : hdr = withLRC (mPacketID hdr) (mSource hdr) (mFlags hdr) (hdr.getD 6 0)
      (xhgGetPayloadLength hdr) (xhgGetBlockCount hdr) := by
    rw [withLRC, ← hstart, xhgGetPayloadLength, xhgGetBlockCount, xhgSetValue32_field,
      xhgSetValue32_field]
    · exact fields_eq hdr hlen
    · rw [mBlockCount, List.length_take, List.length_drop, hsize]
      rfl
    · rw [mPayloadLength, List.length_take, List.length_drop, hsize]
      rfl
  rw [hwith, xhgCalculateLRC_withLRC] at hlrc
  rw [xhgFillHeader_eq, ← hlrc]
  exact hwith

/-- The headers that are accepted for a length are those that `xhgFillHeader` makes of
valid fields, each of one choice of them. -/
theorem accepted_iff_filled (hdr : List UInt8) (n : ℕ)
    (hlen : hdr.length = xioHarvardHeaderSize) :
    (xhgValidateHeader hdr n = true ↔ ∃ pid src flags len count, ValidFields pid src flags len ∧
      (UInt32.ofNat xioHarvardHeaderSize+len).toNat = n ∧
      hdr = xhgFillHeader pid src flags len count) ∧
    ∀ pid src flags len count, hdr = xhgFillHeader pid src flags len count →
      pid = mPacketID hdr ∧ src = mSource hdr ∧ flags = mFlags hdr ∧
      len = xhgGetPayloadLength hdr ∧ count = xhgGetBlockCount hdr := by
  constructor
  · constructor
    · intro h
      obtain ⟨-, hfields, -, hn⟩ := (xhgValidateHeader_iff hdr n).mp h
      exact ⟨_, _, _, _, _, hfields, hn, eq_filled hdr n hlen h⟩
    · rintro ⟨pid, src, flags, len, count, hfields, hn, rfl⟩
      exact xhgValidateHeader_filled pid src flags len count n hfields hn
  · rintro pid src flags len count rfl
    exact ⟨rfl, rfl, rfl, (xhgGetPayloadLength_xhgFillHeader _ _ _ _ _).symm,
      (xhgGetBlockCount_xhgFillHeader _ _ _ _ _).symm⟩

/-- The header of an imagery packet without payload. -/
theorem accepted_iff_filled_bare : ∃ pid src flags len count, ValidFields pid src flags len ∧
    (UInt32.ofNat xioHarvardHeaderSize+len).toNat = 16 ∧
    barePacket = xhgFillHeader pid src flags len count :=
  (accepted_iff_filled barePacket 16 rfl).1.mp (by decide)

variable (len' count' : UInt32)

/-- What the LRC byte owes to the two fields behind it. -/
theorem xhgCalculateLRC_fields :
    xhgCalculateLRC (withLRC pid src flags 0 len count) =
        xhgCalculateLRC (withLRC pid src flags 0 len' count') ↔
      (xhgSetValue32 len).sum+(xhgSetValue32 count).sum =
        (xhgSetValue32 len').sum+(xhgSetValue32 count').sum := by
  have hsum : ∀ l c, ((withLRC pid src flags 0 l c).take xioHarvardHeaderSize).sum =
      (xioHarPacketStart ++ [pid,src,0,flags]).sum+
        ((xhgSetValue32 l).sum+(xhgSetValue32 c).sum) := by
    intro l c
    have htake : (withLRC pid src flags 0 l c).take xioHarvardHeaderSize =
      withLRC pid src flags 0 l c := rfl
    rw [htake, withLRC, List.sum_append, List.sum_append, add_assoc]
  rw [xhgCalculateLRC_eq, xhgCalculateLRC_eq, hsum, hsum, UInt8.not_inj, add_right_inj]

/-- A count that is set behind a filled LRC byte is read back, but the header is accepted
only if the bytes of the two counts add up to the same. -/
theorem xhgSetBlockCount_filled (n : ℕ) (h : ValidFields pid src flags len)
    (hn : (UInt32.ofNat xioHarvardHeaderSize+len).toNat = n) :
    xhgGetBlockCount (xhgSetBlockCount (xhgFillHeader pid src flags len count) count') = count' ∧
    (xhgValidateHeader (xhgSetBlockCount (xhgFillHeader pid src flags len count) count') n = true ↔
      (xhgSetValue32 count).sum = (xhgSetValue32 count').sum) := by
  set lrc := xhgCalculateLRC (withLRC pid src flags 0 len count) with hl
  have hset : xhgSetBlockCount (xhgFillHeader pid src flags len count) count' =
    withLRC pid src flags lrc len count' := rfl
  have hget : xhgGetPayloadLength (withLRC pid src flags lrc len count') = len :=
    xhgGetValue32_xhgSetValue32 len
  refine ⟨xhgGetValue32_xhgSetValue32 count', ?_⟩
  rw [hset, xhgValidateHeader_iff, xhgCalculateLRC_withLRC, hl, xhgCalculateLRC_fields,
    add_right_inj, xhgGetPacketLength, hget]
  exact ⟨fun hv => hv.2.2.1, fun hv => ⟨rfl, h, hv, hn⟩⟩

/-- The same for the length, with the limit it must keep to. -/
theorem xhgSetPayloadLength_filled (h : ValidFields pid src flags len) :
    xhgGetPayloadLength (xhgSetPayloadLength (xhgFillHeader pid src flags len count) len') = len' ∧
    (xhgValidateHeader (xhgSetPayloadLength (xhgFillHeader pid src flags len count) len')
        (UInt32.ofNat xioHarvardHeaderSize+len').toNat = true ↔
      (xhgSetValue32 len).sum = (xhgSetValue32 len').sum ∧
        (pid < Xhpid.packetLimit → len'.toNat ≤ xioHarMaxPayloadLength)) := by
  set lrc := xhgCalculateLRC (withLRC pid src flags 0 len count) with hl
  have hset : xhgSetPayloadLength (xhgFillHeader pid src flags len count) len' =
    withLRC pid src flags lrc len' count := rfl
  have hget : xhgGetPayloadLength (withLRC pid src flags lrc len' count) = len' :=
    xhgGetValue32_xhgSetValue32 len'
  refine ⟨xhgGetValue32_xhgSetValue32 len', ?_⟩
  rw [hset, xhgValidateHeader_iff, xhgCalculateLRC_withLRC, hl, xhgCalculateLRC_fields,
    add_left_inj, xhgGetPacketLength, hget]
  constructor
  · rintro ⟨-, hv, hsum, -⟩
    exact ⟨hsum, hv.len_le⟩
  · rintro ⟨hsum, hle⟩
    exact ⟨rfl, ⟨h.pid_mem, h.src_mem, h.flags_valid, hle⟩, hsum, rfl⟩

end Valid
end Cosmid.Xiomas
