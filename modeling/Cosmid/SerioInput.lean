import Cosmid.DasIO
import Mathlib.Data.Nat.Find

/-! How the exporters read from tm_ip_export: `xiomas_tcp_export::app_input` and
`nephex_tcp_export::app_input` are the same loop over serio packets, with an ACK that
acts on another object. -/
namespace Cosmid

/-- The type of a serio packet and its payload, whose length is in the header. -/
structure SerioPkt where
  type : UInt8
  payload : List UInt8
deriving DecidableEq

namespace SerioLib

variable (serio : SerioLib)

instance (type : UInt8) (hdr payload : List UInt8) :
    Decidable (serio.WellFormed type hdr payload) :=
  decidable_of_iff (hdr.length = pktHdrSize ∧ hdr.foldl (· + ·) 0 = 0 ∧ serio.hdrType hdr = type ∧
      (serio.hdrLength hdr).toNat = payload.length ∧ serio.hdrCRC hdr = serio.crcOf payload)
    ⟨fun ⟨h1, h2, h3, h4, h5⟩ => ⟨h1, h2, h3, h4, h5⟩,
      fun ⟨h1, h2, h3, h4, h5⟩ => ⟨h1, h2, h3, h4, h5⟩⟩

/-- The complete packet with valid LRC and CRC that starts at `p`, if there is one. -/
def packetAt (buf : List UInt8) (p : ℕ) : Option SerioPkt :=
  let hdr := (buf.drop p).take pktHdrSize
  let payload := (buf.drop (p+pktHdrSize)).take (serio.hdrLength hdr).toNat
  if serio.WellFormed (serio.hdrType hdr) hdr payload then some ⟨serio.hdrType hdr,payload⟩
  else none

/-- A packet lies inside the buffer. -/
theorem packetAt_le (buf : List UInt8) (p : ℕ) (pkt : SerioPkt)
    (h : serio.packetAt buf p = some pkt) :
    p+(pktHdrSize+pkt.payload.length) ≤ buf.length := by
  simp only [packetAt, Option.ite_none_right_eq_some, Option.some.injEq] at h
  obtain ⟨hwell, rfl⟩ := h
  have hhdr := hwell.length_hdr
  unfold pktHdrSize at *
  simp only [List.length_take, List.length_drop] at hhdr ⊢
  omega

/-- What a `forward_packet` builds is such a packet. -/
theorem packetAt_mkHdr (type : UInt8) (payload rest : List UInt8) (h : payload.length < 65536) :
    serio.packetAt (serio.mkHdr type payload ++ (payload ++ rest)) 0 = some ⟨type,payload⟩ := by
  have hwell := serio.wellFormed_mkHdr type payload h
  have hhdr : (serio.mkHdr type payload ++ (payload ++ rest)).take pktHdrSize =
      serio.mkHdr type payload := List.take_left' (serio.length_mkHdr type payload)
  have hrest : (serio.mkHdr type payload ++ (payload ++ rest)).drop pktHdrSize =
      payload ++ rest := List.drop_left' (serio.length_mkHdr type payload)
  simp only [packetAt, List.drop_zero, Nat.zero_add, hhdr, hrest, hwell.hdrType_eq,
    hwell.hdrLength_eq, List.take_left, if_pos hwell]

end SerioLib

/-- The search for packets and the payload of control packets. `notSerioPkt` looks for
the first packet at or behind `cp`; it returns true, here `none`, when there is none. -/
structure SerioInput (serio : SerioLib) where
  pktTypeCTRL : UInt8
  ctrlPayloadSize : ℕ
  ctrlSubtypeACK : ℕ
  ctrlSubtype : List UInt8 → ℕ
  ctrlLength : List UInt8 → ℕ
  notSerioPkt : InputBuffer → Option SerioPkt × InputBuffer
  notSerioPkt_hit : ∀ b p pkt, b.cp ≤ p → serio.packetAt b.buf p = some pkt →
    (∀ q, b.cp ≤ q → q < p → serio.packetAt b.buf q = none) →
    notSerioPkt b = (some pkt, ⟨b.buf,p⟩)
  notSerioPkt_miss : ∀ b, (∀ p, b.cp ≤ p → serio.packetAt b.buf p = none) →
    (notSerioPkt b).1 = none

namespace SerioInput

variable {serio : SerioLib}

/-- The two outcomes of the search. -/
theorem notSerioPkt_cases (lib : SerioInput serio) (b : InputBuffer) :
    (∃ b', lib.notSerioPkt b = (none, b')) ∨
    ∃ p pkt, b.cp ≤ p ∧ serio.packetAt b.buf p = some pkt ∧
      lib.notSerioPkt b = (some pkt, ⟨b.buf,p⟩) := by
  by_cases h : ∃ p, b.cp ≤ p ∧ (serio.packetAt b.buf p).isSome
  · obtain ⟨hp, hsome⟩ := Nat.find_spec h
    obtain ⟨pkt, hpkt⟩ := Option.isSome_iff_exists.mp hsome
    refine Or.inr ⟨Nat.find h, pkt, hp, hpkt, lib.notSerioPkt_hit b _ pkt hp hpkt ?_⟩
    intro q hq hlt
    have hnot := Nat.find_min h hlt
    rw [not_and, Option.not_isSome_iff_eq_none] at hnot
    exact hnot hq
  · left
    refine ⟨(lib.notSerioPkt b).2, Prod.ext (lib.notSerioPkt_miss b ?_) rfl⟩
    intro p hp
    by_contra hne
    exact h ⟨p, hp, Option.ne_none_iff_isSome.mp hne⟩

/-- With `cp` at a packet the search finds it again. -/
theorem notSerioPkt_again (lib : SerioInput serio) (buf : List UInt8) (p : ℕ) (pkt : SerioPkt)
    (h : serio.packetAt buf p = some pkt) :
    lib.notSerioPkt ⟨buf,p⟩ = (some pkt, ⟨buf,p⟩) := by
  refine lib.notSerioPkt_hit ⟨buf,p⟩ p pkt (Nat.le_refl p) h ?_
  intro q hle hlt
  exact absurd hlt (Nat.not_lt.mpr hle)

/-- A search over the offsets one by one. A control packet has a subtype byte, an unused
one and a word with the length. -/
def searching (serio : SerioLib) : SerioInput serio where
  pktTypeCTRL := 0
  ctrlPayloadSize := 4
  ctrlSubtypeACK := 0
  ctrlSubtype payload := (payload.getD 0 0).toNat
  ctrlLength payload := (SerioLib.word (payload.getD 2 0) (payload.getD 3 0)).toNat
  notSerioPkt b :=
    match (List.range' b.cp (b.nc-b.cp)).find? fun p => (serio.packetAt b.buf p).isSome with
    | some p => (serio.packetAt b.buf p, ⟨b.buf,p⟩)
    | none => (none, b)
  notSerioPkt_hit b p pkt hp h hfirst := by
    have hle := serio.packetAt_le b.buf p pkt h
    have hfind : ((List.range' b.cp (b.nc-b.cp)).find? fun p =>
        (serio.packetAt b.buf p).isSome) = some p := by
      rw [List.find?_range'_eq_some]
      refine ⟨by rw [h]; rfl, List.mem_range'_1.mpr ⟨hp, ?_⟩, ?_⟩
      · unfold SerioLib.pktHdrSize at hle
        rw [InputBuffer.nc]
        omega
      · intro q hq hlt
        rw [hfirst q hq hlt]
        rfl
    rw [hfind]
    dsimp only
    rw [h]
  notSerioPkt_miss b h := by
    have hfind : ((List.range' b.cp (b.nc-b.cp)).find? fun p =>
        (serio.packetAt b.buf p).isSome) = none := by
      rw [List.find?_eq_none]
      intro p hp
      rw [h p (List.mem_range'_1.mp hp).1]
      exact Bool.false_ne_true
    rw [hfind]

end SerioInput
end Cosmid
