import Cosmid.DasIO
import Cosmid.Ring

/-! `xiomas_tcp_export` (Xiomas/xiomas_export.cc and .h): the circular buffer, the
credit window toward tm_ip_export and the two ways bytes and acknowledgements
come in. Unsigned fields are naturals below 2^32; where the source's arithmetic
can leave that range it is written with `u32` and `u32Sub`. A failed `nl_assert`
ends the program and is `none` here. -/
namespace Cosmid.Xiomas

def u32 (n : ℕ) : ℕ := n%4294967296

/-- Subtraction in unsigned 32-bit arithmetic. -/
def u32Sub (a b : ℕ) : ℕ := u32 (a+(4294967296-b))

def maxSpktLength : ℕ := 213183
def maxSpktDataPerSerioPkt : ℕ := 956
def circBufferSize : ℕ := 270000

/-- The fields of the object, its socket, and what it did to the outside: the
spans handed to `iwrite`, the receivers acknowledged, and how often the overflow
message was issued. `ι` names the receivers a `client` pointer can point to. -/
structure XiomasTcpExport (out : OutputSocket) (ι : Type) where
  circ : ℕ → UInt8
  circSize : ℕ
  circHead : ℕ
  circTail : ℕ
  outstandingBytes : ℕ
  client : Option ι
  sock : out.State
  iwrites : List (List UInt8)
  acks : List ι
  overflows : ℕ

namespace XiomasTcpExport

variable {out : OutputSocket} {ι : Type}

/-- The constructor; `new_memory` does not initialise the buffer. -/
def new (circ : ℕ → UInt8) (sock : out.State) : XiomasTcpExport out ι where
  circ := circ
  circSize := circBufferSize
  circHead := circBufferSize+1
  circTail := 0
  outstandingBytes := 0
  client := none
  sock := sock
  iwrites := []
  acks := []
  overflows := 0

def circLength (x : XiomasTcpExport out ι) : ℕ :=
  if x.circHead > x.circSize then 0
  else if x.circTail > x.circHead then u32Sub x.circTail x.circHead
  else u32 (u32Sub x.circSize x.circHead+x.circTail)

def circSpace (x : XiomasTcpExport out ι) : ℕ := u32Sub x.circSize x.circLength

def circHeadBytes (x : XiomasTcpExport out ι) : ℕ :=
  if x.circHead > x.circSize then 0
  else if x.circTail > x.circHead then u32Sub x.circHead x.circTail
  else u32Sub x.circSize x.circHead

def circConsume (x : XiomasTcpExport out ι) (nBytes : ℕ) : Option (XiomasTcpExport out ι) :=
  if nBytes ≤ x.circHeadBytes then
    let head := u32 (x.circHead+nBytes)
    let head := if head = x.circSize then 0 else head
    let head := if head = x.circTail then x.circSize+1 else head
    some {x with outstandingBytes := u32 (x.outstandingBytes+nBytes), circHead := head}
  else none

/-- An empty buffer is filled from the front again. -/
def rewind (x : XiomasTcpExport out ι) : XiomasTcpExport out ι :=
  if x.circHead > x.circSize then {x with circHead := 0, circTail := 0} else x

/-- The room behind `circ_tail` without going around the end of the array. -/
def tailSpace (x : XiomasTcpExport out ι) : ℕ :=
  if x.circTail ≥ x.circHead then x.circSize-x.circTail else x.circHead-x.circTail

/-- `circ_commit` behind its overflow check: `data` is what is left of the
caller's bytes and is not empty. -/
def circCopy (x : XiomasTcpExport out ι) (data : List UInt8) : Option (XiomasTcpExport out ι) :=
  let x := x.rewind
  let tailSpace := if data.length < x.tailSpace then data.length else x.tailSpace
  let x := {x with
    circ := Ring.blit x.circ x.circTail (data.take tailSpace)
    circTail := x.circTail+tailSpace}
  if x.circTail ≤ x.circSize then
    let x := if x.circTail = x.circSize then {x with circTail := 0} else x
    let data := data.drop tailSpace
    if data = [] then some x
    else if x.circTail = 0 ∧ data.length ≤ x.circHead then
      -- The source advances by the first part's length here, not by the second's.
      some {x with
        circ := Ring.blit x.circ x.circTail data
        circTail := x.circTail+tailSpace}
    else none
  else none

def circCommit (x : XiomasTcpExport out ι) (data : List UInt8) : Option (XiomasTcpExport out ι) :=
  let x' := if data.length > x.circSpace then {x with overflows := x.overflows+1} else x
  let data := if data.length > x.circSpace then data.take x.circSpace else data
  if data = [] then some x' else x'.circCopy data

def circTransmit (x : XiomasTcpExport out ι) (nBytes : ℕ) : Option (XiomasTcpExport out ι) :=
  if nBytes = 0 then some x
  else
    let txmitBytes := x.circHeadBytes
    if txmitBytes > 0 then
      let txmitBytes := if nBytes < txmitBytes then nBytes else txmitBytes
      let span := Ring.flat x.circ x.circHead txmitBytes
      let x := {x with iwrites := x.iwrites ++ [span], sock := out.iwrite span x.sock}
      match x.circConsume txmitBytes with
      | none => none
      | some x => x.circTransmit (nBytes-txmitBytes)
    else none
termination_by nBytes
decreasing_by split <;> omega

/-- Clear to send: less than 2000 bytes unacknowledged and nothing in `obuf`. -/
def cts (x : XiomasTcpExport out ι) : Bool :=
  x.outstandingBytes < 2000 && out.obufEmpty x.sock

/-- Transmitting adds to the unacknowledged bytes, which bounds `process_queue`. -/
theorem circTransmit_outstandingBytes (x y : XiomasTcpExport out ι) (n : ℕ)
    (hn : x.outstandingBytes+n < 4294967296) (h : x.circTransmit n = some y) :
    y.outstandingBytes = x.outstandingBytes+n := by
  induction n using Nat.strongRecOn generalizing x with
  | _ n ih =>
    rw [circTransmit] at h
    by_cases h0 : n = 0
    · rw [if_pos h0] at h
      obtain rfl := Option.some.inj h
      omega
    · simp only [h0, if_false] at h
      split at h
      · rename_i hpos
        split at h
        · cases h
        · rename_i x' hc
          simp only [circConsume, Option.ite_none_right_eq_some, Option.some.injEq] at hc
          obtain ⟨-, rfl⟩ := hc
          have hx := ih _ (by split <;> omega) _ ?_ h
          · rw [hx]
            simp only [u32]
            split <;> omega
          · simp only [u32]
            split <;> omega
      · cases h

/-- Once the queue is empty a waiting receiver is acknowledged and forgotten. -/
def ackClient (x : XiomasTcpExport out ι) : XiomasTcpExport out ι :=
  match x.client with
  | some c => {x with acks := x.acks ++ [c], client := none}
  | none => x

/-- One batch is at most a full serio packet with its header. -/
def batchBytes (len : ℕ) : ℕ :=
  if len > maxSpktDataPerSerioPkt+SerioLib.pktHdrSize then
    maxSpktDataPerSerioPkt+SerioLib.pktHdrSize else len

theorem batchBytes_le (len : ℕ) : batchBytes len ≤ len ∧ batchBytes len ≤ 962 := by
  have hmax : maxSpktDataPerSerioPkt+SerioLib.pktHdrSize = 962 := rfl
  unfold batchBytes
  split <;> omega

theorem batchBytes_pos (len : ℕ) (h : 0 < len) : 0 < batchBytes len := by
  have hmax : maxSpktDataPerSerioPkt+SerioLib.pktHdrSize = 962 := rfl
  unfold batchBytes
  split <;> omega

theorem outstandingBytes_of_cts (x : XiomasTcpExport out ι) (h : x.cts = true) :
    x.outstandingBytes < 2000 := by
  simp only [cts, Bool.and_eq_true, decide_eq_true_eq] at h
  exact h.1

def processQueue (x : XiomasTcpExport out ι) : Option (XiomasTcpExport out ι) :=
  if _hsend : x.cts ∧ x.circLength > 0 then
    match _htransmit : x.circTransmit (batchBytes x.circLength) with
    | none => none
    | some y => y.processQueue
  else some (if x.circLength = 0 then x.ackClient else x)
termination_by 2000-x.outstandingBytes
decreasing_by
  have hlt := outstandingBytes_of_cts x _hsend.1
  have hle := batchBytes_le x.circLength
  have hpos := batchBytes_pos x.circLength _hsend.2
  have := circTransmit_outstandingBytes x y (batchBytes x.circLength) (by omega) _htransmit
  omega

def forwardPacket (serio : SerioLib) (x : XiomasTcpExport out ι) (bfr : List UInt8) :
    Option (XiomasTcpExport out ι) :=
  (x.circCommit (serio.mkHdr serio.pktTypeSID bfr)).bind fun x =>
    (x.circCommit bfr).bind processQueue

/-- The `ctrl_subtype_ACK` case of `app_input`, for an ACK of `length` bytes. -/
def appInputAck (x : XiomasTcpExport out ι) (length : ℕ) : Option (XiomasTcpExport out ι) :=
  processQueue {x with
    outstandingBytes := if length > x.outstandingBytes then 0 else x.outstandingBytes-length}

/-- A receiver that is already registered is replaced. -/
def requestAck (x : XiomasTcpExport out ι) (client : ι) : XiomasTcpExport out ι :=
  {x with client := some client}

end XiomasTcpExport
end Cosmid.Xiomas
