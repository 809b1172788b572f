import Cosmid.XiomasRcvr
import Cosmid.XiomasUdpRcvr
import Mathlib.Algebra.BigOperators.Group.List.Basic
import Mathlib.Data.UInt

/-! Control headers (`sendFlag` of both receivers): what is filled in is read back and
accepted, and a header that is accepted is not accepted with one byte changed. -/
namespace Cosmid.Xiomas

section Fields

theorem toUInt32_lowByte (v : UInt32) : (v &&& 0xff).toUInt8.toUInt32 = v &&& 0xff := by
  rw [UInt32.toUInt32_toUInt8]
  apply UInt32.toNat_inj.mp
  rw [UInt32.toNat_mod, UInt32.toNat_and]
  have h : v.toNat &&& 255 ≤ 255 := Nat.and_le_right
  exact Nat.mod_eq_of_lt (Nat.lt_succ_of_le h)

theorem getElem_lowByte (i : ℕ) (hi : i < 32) : (255#32)[i] = decide (i < 8) := by
  decide +revert

theorem xhgGetValue32_xhgSetValue32 (v : UInt32) : xhgGetValue32 (xhgSetValue32 v) = v := by
  simp only [xhgGetValue32, xhgSetValue32, List.getD_cons_zero, List.getD_cons_succ,
    toUInt32_lowByte]
  apply UInt32.eq_of_toBitVec_eq
  ext i hi
  -- Bit `i` is in byte `i/8`.
  simp [getElem_lowByte]
  grind

variable (pid src flags : UInt8) (len count : UInt32)

theorem length_xhgFillHeader :
    (xhgFillHeader pid src flags len count).length = xioHarvardHeaderSize := rfl

theorem xhgGetPayloadLength_xhgFillHeader :
    xhgGetPayloadLength (xhgFillHeader pid src flags len count) = len :=
  xhgGetValue32_xhgSetValue32 len

theorem xhgGetBlockCount_xhgFillHeader :
    xhgGetBlockCount (xhgFillHeader pid src flags len count) = count :=
  xhgGetValue32_xhgSetValue32 count

end Fields

section LRC

theorem xhgCalculateLRC_eq (hdr : List UInt8) :
    xhgCalculateLRC hdr = ~~~(hdr.take xioHarvardHeaderSize).sum := by
  rw [xhgCalculateLRC, List.sum_eq_foldl]

/-- Changing one byte changes the sum by the difference. -/
theorem xhgCalculateLRC_set (hdr : List UInt8) (i : ℕ) (b : UInt8) (hi : i < hdr.length)
    (his : i < xioHarvardHeaderSize) :
    ~~~xhgCalculateLRC (hdr.set i b) = ~~~xhgCalculateLRC hdr+(-hdr[i]+b) := by
  have hit : i < (hdr.take xioHarvardHeaderSize).length := by
    rw [List.length_take]
    exact lt_min his hi
  rw [xhgCalculateLRC_eq, xhgCalculateLRC_eq, UInt8.not_not, UInt8.not_not, List.take_set,
    List.sum_set', dif_pos hit, List.getElem_take]

/-- With its LRC byte filled in, the header's bytes sum up to 255. -/
theorem xhgCalculateLRC_xhgFillHeader (pid src flags : UInt8) (len count : UInt32) :
    xhgCalculateLRC (xhgFillHeader pid src flags len count) = 0 := by
  set unfilled := xioHarPacketStart ++ [pid,src,0,flags] ++ xhgSetValue32 len ++
    xhgSetValue32 count with hu
  have hfill : xhgFillHeader pid src flags len count =
      unfilled.set 6 (xhgCalculateLRC unfilled) := rfl
  have hlen : unfilled.length = 16 := rfl
  have hzero : unfilled[6] = 0 := rfl
  have hset := xhgCalculateLRC_set unfilled 6 (xhgCalculateLRC unfilled) (by omega) (by decide)
  rw [← hfill, hzero, neg_zero, zero_add, UInt8.not_eq_neg_sub (xhgCalculateLRC unfilled),
    sub_add_eq_add_sub, neg_add_cancel, zero_sub, ← UInt8.not_zero] at hset
  exact UInt8.not_inj.mp hset

theorem xhgValidateHeader_lrc (hdr : List UInt8) (n : ℕ) (h : xhgValidateHeader hdr n = true) :
    xhgCalculateLRC hdr = 0 := by
  simp only [xhgValidateHeader, Bool.and_eq_true, decide_eq_true_eq] at h
  exact h.1.1.1.2

/-- One byte changed is enough to be rejected, whatever length is expected. -/
theorem xhgValidateHeader_set (hdr : List UInt8) (n m i : ℕ) (b : UInt8)
    (h : xhgValidateHeader hdr n = true) (hi : i < hdr.length) (his : i < xioHarvardHeaderSize)
    (hb : b ≠ hdr[i]) : xhgValidateHeader (hdr.set i b) m = false := by
  apply Bool.eq_false_iff.mpr
  intro hset
  have hdiff := xhgCalculateLRC_set hdr i b hi his
  rw [xhgValidateHeader_lrc _ _ h, xhgValidateHeader_lrc _ _ hset, left_eq_add,
    neg_add_eq_zero] at hdiff
  exact hb hdiff.symm

end LRC

/-- A gateway control header with valid flags is accepted for its length and no other. -/
theorem xhgValidateHeader_control (flags : UInt8) (count : UInt32) (n : ℕ)
    (h : flags &&& ~~~Xhf.validFlags = 0) :
    xhgValidateHeader (xhgFillHeader Xhpid.gwControl Xhsrc.gateway flags 0 count) n =
      decide (n = xioHarvardHeaderSize) := by
  set hdr := xhgFillHeader Xhpid.gwControl Xhsrc.gateway flags 0 count with hh
  have hstart : mStart hdr = xioHarPacketStart := rfl
  have hpid : mPacketID hdr = Xhpid.gwControl := rfl
  have hsrc : mSource hdr = Xhsrc.gateway := rfl
  have hflags : mFlags hdr = flags := rfl
  have hlrc : xhgCalculateLRC hdr = 0 := xhgCalculateLRC_xhgFillHeader _ _ _ _ _
  have hlen : xhgGetPayloadLength hdr = 0 := xhgGetPayloadLength_xhgFillHeader _ _ _ _ _
  have hsize : xhgGetPacketLength hdr = xioHarvardHeaderSize := by
    rw [xhgGetPacketLength, hlen]
    rfl
  simp only [xhgValidateHeader, hstart, hpid, hsrc, hflags, hlrc, hlen, hsize, h, decide_true,
    Bool.and_true, eq_comm (b := n)]
  rfl

/-- What the other end makes of a control header. -/
structure ControlHeader (hdr : List UInt8) (flag : UInt8) (blockCount : ℕ) : Prop where
  length : hdr.length = xioHarvardHeaderSize
  accepted : xhgValidateHeader hdr xioHarvardHeaderSize = true
  payloadLength : xhgGetPayloadLength hdr = 0
  flags : mFlags hdr = flag
  count : (xhgGetBlockCount hdr).toNat = blockCount

theorem controlHeader_fill (flag : UInt8) (blockCount : ℕ) (hlt : blockCount < 4294967296)
    (h : flag = Xhf.cts ∨ flag = Xhf.ncts) :
    ControlHeader (xhgFillHeader Xhpid.gwControl Xhsrc.gateway flag 0 (UInt32.ofNat blockCount))
      flag blockCount where
  length := length_xhgFillHeader _ _ _ _ _
  accepted := by
    have hvalid : flag &&& ~~~Xhf.validFlags = 0 := by
      rcases h with h | h
      · rw [h]
        decide
      · rw [h]
        decide
    rw [xhgValidateHeader_control flag _ _ hvalid]
    exact decide_eq_true rfl
  payloadLength := xhgGetPayloadLength_xhgFillHeader _ _ _ _ _
  flags := rfl
  count := by
    rw [xhgGetBlockCount_xhgFillHeader]
    exact UInt32.toNat_ofNat_of_lt' hlt

/-- One header goes out, and it carries the receiver's new block count. -/
theorem XiomasTcpRcvr.sendFlag_control {out : OutputSocket} (r : XiomasTcpRcvr out)
    (flag : UInt8) (h : flag = Xhf.cts ∨ flag = Xhf.ncts) :
    ∃ hdr, ControlHeader hdr flag (r.sendFlag flag).blockCount ∧
      (r.sendFlag flag).blockCount = u32 (r.blockCount+1) ∧
      (r.sendFlag flag).sock = out.iwrite hdr r.sock ∧
      (r.sendFlag flag).trace = r.trace ++ [.sent hdr] :=
  ⟨_, controlHeader_fill flag (u32 (r.blockCount+1)) (Nat.mod_lt _ (by decide)) h, rfl, rfl, rfl⟩

theorem UdpGateway.sendFlag_control {out : OutputSocket} (g g' : UdpGateway out)
    (flag : UInt8) (h : flag = Xhf.cts ∨ flag = Xhf.ncts) (hg : g.sendFlag flag = some g') :
    ∃ u hdr, g.xutr = some u ∧ g'.xutr = some (u.send hdr) ∧
      ControlHeader hdr flag g'.rcvr.blockCount ∧
      g'.rcvr.blockCount = u32 (g.rcvr.blockCount+1) := by
  obtain ⟨u, hu, rfl⟩ := Option.map_eq_some_iff.mp hg
  exact ⟨u, _, hu, rfl,
    controlHeader_fill flag ((g.rcvr.blockCount+1)%4294967296) (Nat.mod_lt _ (by decide)) h, rfl⟩

/-- Every control header that either receiver sends is accepted and read back, and no
accepted header survives a change of one byte. -/
theorem control_headers_checked (out : OutputSocket) (flag : UInt8)
    (h : flag = Xhf.cts ∨ flag = Xhf.ncts) :
    (∀ r : XiomasTcpRcvr out, ∃ hdr, ControlHeader hdr flag (r.sendFlag flag).blockCount ∧
      (r.sendFlag flag).blockCount = u32 (r.blockCount+1) ∧
      (r.sendFlag flag).sock = out.iwrite hdr r.sock ∧
      (r.sendFlag flag).trace = r.trace ++ [.sent hdr]) ∧
    (∀ g g' : UdpGateway out, g.sendFlag flag = some g' →
      ∃ u hdr, g.xutr = some u ∧ g'.xutr = some (u.send hdr) ∧
        ControlHeader hdr flag g'.rcvr.blockCount ∧
        g'.rcvr.blockCount = u32 (g.rcvr.blockCount+1)) ∧
    ∀ (hdr : List UInt8) (i : ℕ) (b : UInt8) (hi : i < hdr.length),
      hdr.length = xioHarvardHeaderSize → xhgValidateHeader hdr (xhgGetPacketLength hdr) = true →
      b ≠ hdr[i] → ∀ n, xhgValidateHeader (hdr.set i b) n = false := by
  refine ⟨?_, ?_, ?_⟩
  · intro r
    exact r.sendFlag_control flag h
  · intro g g' hg
    exact g.sendFlag_control g' flag h hg
  · intro hdr i b hi hlen hv hb n
    exact xhgValidateHeader_set hdr _ n i b hv hi (hlen ▸ hi) hb

/-- At the wrap-around of the block count, and with a bit of its field flipped. -/
theorem control_headers_checked_wrap :
    (∃ hdr, ControlHeader hdr Xhf.cts 0 ∧
      (XiomasTcpRcvr.sendFlag {(XiomasTcpRcvr.new true () : XiomasTcpRcvr .direct) with
        blockCount := 4294967295} Xhf.cts).trace = [.sent hdr]) ∧
    xhgValidateHeader (barePacket.set 12 3) 16 = false := by
  have h := control_headers_checked .direct Xhf.cts (Or.inl rfl)
  constructor
  · obtain ⟨hdr, hc, -, -, ht⟩ := h.1 {XiomasTcpRcvr.new true () with blockCount := 4294967295}
    exact ⟨hdr, hc, ht⟩
  · exact h.2.2 barePacket 12 3 (by decide) rfl (by decide) (by decide) 16

/-- The header is 16 bytes long, and 14 is not the length of any packet. -/
theorem control_header_not_fourteen :
    ∃ hdr, ((XiomasTcpRcvr.new true () : XiomasTcpRcvr .direct).sendFlag Xhf.cts).trace =
        [.sent hdr] ∧ hdr.length = 16 ∧ xhgValidateHeader hdr 14 = false :=
  ⟨_, rfl, rfl, by decide⟩

end Cosmid.Xiomas
