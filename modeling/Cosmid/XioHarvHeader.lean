import Mathlib.Data.List.Basic
import Mathlib.Tactic.Common

/-! Xiomas packet headers (Xiomas/XioHarvGatewayPacket.cpp and .h). A header is the
list of its bytes: every member of the struct is a byte or an array of bytes, so
it is laid out without padding. -/
namespace Cosmid.Xiomas

/-- `sizeof(XioHarvardHeader)`. -/
def xioHarvardHeaderSize : ℕ := 16

/-- The ASCII codes of `$PKT`. -/
def xioHarPacketStart : List UInt8 := [0x24,0x50,0x4b,0x54]

def xioHarMaxPayloadLength : ℕ := 511-xioHarvardHeaderSize

namespace Xhpid

def gwControl : UInt8 := 1
def xioStatus : UInt8 := 3
def packetLimit : UInt8 := 4
def fireLayer : UInt8 := 0x81
def mwBand : UInt8 := 0x82
def lwBand : UInt8 := 0x83
def streamLimit : UInt8 := 0x84

end Xhpid

namespace Xhsrc

def gateway : UInt8 := 1
def scanner : UInt8 := 2
def opu : UInt8 := 3
def onboardLimit : UInt8 := 4
def havardServer : UInt8 := 8
def remoteLimit : UInt8 := 10

end Xhsrc

namespace Xhf

def qos : UInt8 := 0x01
def ncts : UInt8 := 0x10
def cts : UInt8 := 0x20
def rts : UInt8 := 0x40
def validFlags : UInt8 := qos ||| ncts ||| cts ||| rts

end Xhf

section Fields

variable (hdr : List UInt8)

def mStart : List UInt8 := hdr.take 4
def mPacketID : UInt8 := hdr.getD 4 0
def mSource : UInt8 := hdr.getD 5 0
def mFlags : UInt8 := hdr.getD 7 0
def mPayloadLength : List UInt8 := (hdr.drop 8).take 4
def mBlockCount : List UInt8 := (hdr.drop 12).take 4

end Fields

/-- The 32-bit value of a 4-byte little-endian field. -/
def xhgGetValue32 (aValueLE : List UInt8) : UInt32 :=
  (aValueLE.getD 0 0).toUInt32 ||| ((aValueLE.getD 1 0).toUInt32 <<< 8) |||
    ((aValueLE.getD 2 0).toUInt32 <<< 16) ||| ((aValueLE.getD 3 0).toUInt32 <<< 24)

def xhgSetValue32 (uValue : UInt32) : List UInt8 :=
  [(uValue &&& 0xff).toUInt8, ((uValue >>> 8) &&& 0xff).toUInt8,
    ((uValue >>> 16) &&& 0xff).toUInt8, ((uValue >>> 24) &&& 0xff).toUInt8]

def xhgGetPayloadLength (hdr : List UInt8) : UInt32 := xhgGetValue32 (mPayloadLength hdr)

def xhgGetBlockCount (hdr : List UInt8) : UInt32 := xhgGetValue32 (mBlockCount hdr)

/-- The header's length plus the payload's, in unsigned 32-bit arithmetic. -/
def xhgGetPacketLength (hdr : List UInt8) : ℕ :=
  (UInt32.ofNat xioHarvardHeaderSize+xhgGetPayloadLength hdr).toNat

/-- The complement of the sum of the header's bytes, modulo 256. -/
def xhgCalculateLRC (hdr : List UInt8) : UInt8 :=
  ~~~((hdr.take xioHarvardHeaderSize).foldl (· + ·) 0)

/-- The header is built with a zero LRC byte, which is then replaced. -/
def xhgFillHeader (ePID eSrc uFlags : UInt8) (uPayloadLength uBlockCount : UInt32) : List UInt8 :=
  let withLRC (lrc : UInt8) := xioHarPacketStart ++ [ePID,eSrc,lrc,uFlags] ++
    xhgSetValue32 uPayloadLength ++ xhgSetValue32 uBlockCount
  withLRC (xhgCalculateLRC (withLRC 0))

def xhgValidateHeader (hdr : List UInt8) (uPacketLength : ℕ) : Bool :=
  let pid := mPacketID hdr
  let src := mSource hdr
  decide (mStart hdr = xioHarPacketStart) &&
    !((pid ≥ Xhpid.packetLimit && pid < Xhpid.fireLayer) || pid ≥ Xhpid.streamLimit) &&
    !((src ≥ Xhsrc.onboardLimit && src < Xhsrc.havardServer) || src ≥ Xhsrc.remoteLimit) &&
    decide (xhgCalculateLRC hdr = 0) &&
    decide (mFlags hdr &&& ~~~Xhf.validFlags = 0) &&
    !(pid ≤ Xhpid.packetLimit && (xhgGetPayloadLength hdr).toNat > xioHarMaxPayloadLength) &&
    decide (xhgGetPacketLength hdr = uPacketLength)

theorem xhgValidateHeader_length (hdr : List UInt8) (n : ℕ) (h : xhgValidateHeader hdr n = true) :
    xhgGetPacketLength hdr = n := by
  simp only [xhgValidateHeader, Bool.and_eq_true, decide_eq_true_eq] at h
  exact h.2

theorem xhgValidateHeader_start (hdr : List UInt8) (n : ℕ) (h : xhgValidateHeader hdr n = true) :
    mStart hdr = xioHarPacketStart := by
  simp only [xhgValidateHeader, Bool.and_eq_true, decide_eq_true_eq] at h
  exact h.1.1.1.1.1.1

/-- Bytes with a valid header at their front start with `$`. -/
theorem exists_cons_of_validateHeader (u : List UInt8) (n : ℕ)
    (h : xhgValidateHeader (u.take xioHarvardHeaderSize) n = true) : ∃ q, u = 0x24 :: q := by
  have hs := xhgValidateHeader_start _ _ h
  cases u with
  | nil => cases hs
  | cons a q =>
    simp only [mStart, xioHarvardHeaderSize, xioHarPacketStart, List.take_succ_cons,
      List.cons.injEq] at hs
    exact ⟨q, by rw [hs.1]⟩

/-- A packet without payload. -/
def barePacket : List UInt8 := xhgFillHeader Xhpid.fireLayer Xhsrc.opu 0 0 1

example : xhgValidateHeader barePacket 16 = true := by decide

end Cosmid.Xiomas
