import Cosmid.XiomasRcvrRun

/-! Which headers case `xtr_idle` of `xiomas_tcp_rcvr::protocol_input` takes for the
start of a packet, and the length it gives the packet. -/
namespace Cosmid.Xiomas

variable {out : OutputSocket}

/-- The length that the checks are made with is a sum modulo 2^32. -/
theorem xhgGetPacketLength_eq (hdr : List UInt8) : xhgGetPacketLength hdr =
    (xioHarvardHeaderSize+(xhgGetPayloadLength hdr).toNat)%4294967296 := by
  rw [xhgGetPacketLength, UInt32.toNat_add]
  rfl

/-- The sum is the true length unless the payload field is one of the topmost values. -/
theorem xhgGetPacketLength_true_iff (hdr : List UInt8) :
    xhgGetPacketLength hdr = xioHarvardHeaderSize+(xhgGetPayloadLength hdr).toNat ↔
      (xhgGetPayloadLength hdr).toNat+xioHarvardHeaderSize < 4294967296 := by
  have hlt := (xhgGetPayloadLength hdr).toNat_lt
  rw [xhgGetPacketLength_eq]
  unfold xioHarvardHeaderSize
  omega

/-- With a sum that wrapped, the length is shorter than the header itself. -/
theorem xhgGetPacketLength_lt_iff (hdr : List UInt8) :
    xhgGetPacketLength hdr < xioHarvardHeaderSize ↔
      4294967296 ≤ (xhgGetPayloadLength hdr).toNat+xioHarvardHeaderSize := by
  have hlt := (xhgGetPayloadLength hdr).toNat_lt
  rw [xhgGetPacketLength_eq]
  unfold xioHarvardHeaderSize
  omega

/-- Without a payload field that wraps, the checks let through what they are for. -/
theorem PassesChecks.bounds {hdr : List UInt8} (h : PassesChecks hdr)
    (hwrap : (xhgGetPayloadLength hdr).toNat+xioHarvardHeaderSize < 4294967296) :
    xioHarvardHeaderSize ≤ xhgGetPacketLength hdr ∧
      xhgGetPacketLength hdr ≤ maxSpktLength+1000 := by
  refine ⟨Nat.not_lt.mp fun hlt => ?_, h.2⟩
  have hwrapped := (xhgGetPacketLength_lt_iff hdr).mp hlt
  omega

namespace XiomasTcpRcvr

/-- Past the checks, the length of the packet is the one the header states. -/
theorem xtrIdleCase_past (io : DasIO) (r : XiomasTcpRcvr out) (circSpace : ℕ)
    (hdr rest : List UInt8) (hhdr : hdr.length = xioHarvardHeaderSize)
    (hu : r.ibuf.unread = hdr ++ rest) (hpast : ∀ s, r.xtrIdleCase io circSpace ≠ (s, .again)) :
    PassesChecks hdr ∧
      (r.xtrIdleCase io circSpace).1.bytesRemainingInPacket = xhgGetPacketLength hdr := by
  have htake : r.ibuf.unread.take xioHarvardHeaderSize = hdr := by
    rw [hu, ← hhdr, List.take_left]
  have hlen : xioHarvardHeaderSize ≤ r.ibuf.unread.length := by
    rw [hu, List.length_append, hhdr]
    exact Nat.le_add_right _ _
  rcases xtrIdleCase_spec io r circSpace _ hdr htake rfl hlen with
    ⟨-, s, hs, -⟩ | ⟨hpass, -, hs⟩ | ⟨hpass, -, -, r0, mode, -, -, -, hrem, hs⟩
  · exact absurd hs (hpast _)
  · exact ⟨hpass, by rw [hs]⟩
  · refine ⟨hpass, ?_⟩
    rw [hs]
    exact hrem

/-- Past the checks of case `xtr_idle`, a packet whose length field is not one of
the topmost values has its true length, and there is always something to wait for. -/
theorem length_past_checks (io : DasIO) (r : XiomasTcpRcvr out) (circSpace : ℕ)
    (hdr rest : List UInt8) (hidle : r.state = .xtrIdle)
    (hhdr : hdr.length = xioHarvardHeaderSize) (hu : r.ibuf.unread = hdr ++ rest)
    (hpast : ∀ s, r.switchCase io circSpace ≠ (s, .again))
    (hwrap : (xhgGetPayloadLength hdr).toNat+xioHarvardHeaderSize < 4294967296) :
    let remaining := (r.switchCase io circSpace).1.bytesRemainingInPacket
    remaining = xioHarvardHeaderSize+(xhgGetPayloadLength hdr).toNat ∧
      xioHarvardHeaderSize ≤ remaining ∧ remaining ≤ maxSpktLength+1000 := by
  rw [r.switchCase_idle io circSpace hidle] at hpast ⊢
  obtain ⟨hpass, hrem⟩ := xtrIdleCase_past io r circSpace hdr rest hhdr hu hpast
  dsimp only
  rw [hrem]
  exact ⟨(xhgGetPacketLength_true_iff hdr).mpr hwrap, hpass.bounds hwrap⟩

/-- A header that passes the checks is never skipped. -/
theorem xtrIdleCase_ne_again (io : DasIO) (r : XiomasTcpRcvr out) (circSpace : ℕ)
    (hdr : List UInt8) (hhdr : r.ibuf.unread.take xioHarvardHeaderSize = hdr)
    (hlen : xioHarvardHeaderSize ≤ r.ibuf.unread.length) (hpass : PassesChecks hdr)
    (s : XiomasTcpRcvr out) : r.xtrIdleCase io circSpace ≠ (s, .again) := by
  rcases xtrIdleCase_spec io r circSpace _ hdr hhdr rfl hlen with
    ⟨hnot, -⟩ | ⟨-, -, hs⟩ | ⟨-, -, -, r0, mode, -, -, -, -, hs⟩
  · exact absurd hpass hnot
  · rw [hs]
    simp
  · rw [hs]
    simp

/-- A receiver in `xtr_idle` that looks at a packet without payload. -/
def atBarePacket : XiomasTcpRcvr .direct :=
  {(new false () : XiomasTcpRcvr .direct) with ibuf := ⟨barePacket,0⟩, state := .xtrIdle}

theorem atBarePacket_past (s : XiomasTcpRcvr .direct) :
    atBarePacket.switchCase DasIO.keeping 0 ≠ (s, .again) :=
  xtrIdleCase_ne_again DasIO.keeping atBarePacket 0 barePacket (by decide) (by decide)
    (by decide) s

theorem length_past_checks_bare :
    let remaining := (atBarePacket.switchCase DasIO.keeping 0).1.bytesRemainingInPacket
    remaining = xioHarvardHeaderSize+(xhgGetPayloadLength barePacket).toNat ∧
      xioHarvardHeaderSize ≤ remaining ∧ remaining ≤ maxSpktLength+1000 :=
  length_past_checks DasIO.keeping atBarePacket 0 barePacket [] rfl (by decide)
    (List.append_nil _).symm atBarePacket_past (by decide)

/-- The header is 16 bytes long, so 14 bytes more than the payload are never the
length of a packet. -/
theorem length_not_fourteen_more :
    (∀ s, atBarePacket.switchCase DasIO.keeping 0 ≠ (s, .again)) ∧
      (atBarePacket.switchCase DasIO.keeping 0).1.bytesRemainingInPacket ≠
        14+(xhgGetPayloadLength barePacket).toNat := by
  refine ⟨atBarePacket_past, ?_⟩
  obtain ⟨-, hrem⟩ := xtrIdleCase_past DasIO.keeping atBarePacket 0 barePacket [] (by decide)
    (List.append_nil _).symm atBarePacket_past
  rw [switchCase_idle _ _ _ rfl, hrem]
  decide

end XiomasTcpRcvr
end Cosmid.Xiomas
