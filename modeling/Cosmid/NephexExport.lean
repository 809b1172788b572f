import Cosmid.DasIO

/-! `APid` and `nephex_tcp_export` (Nephex/nephex_export.cc and .h): the table of
known packets and the credit window toward tm_ip_export. Unsigned fields are
naturals below 2^16 or 2^32; where the source's arithmetic can leave that range it
is written with `u16` and `u32`. -/
namespace Cosmid.Nephex

def u16 (n : ℕ) : ℕ := n%65536
def u32 (n : ℕ) : ℕ := n%4294967296

/-- The fields of one entry of `defs` that are read again after `def`. -/
structure ApidDef where
  size : ℕ
  decimationRate : ℕ
  nToSkip : ℕ
  reported : ℕ
deriving DecidableEq

def maxApid : ℕ := 151

/-- The table, as it is addressed: `defs` from `maxApid+1` on is the memory behind
it. `uses` records the indices it has been addressed with. -/
structure APid where
  defs : ℕ → ApidDef
  uses : List ℕ

namespace APid

/-- The packets that the constructor enters: APID, size and decimation rate. -/
def entries : List (ℕ × ℕ × ℕ) :=
  [(1, 28, 20), (2, 36, 10), (3, 88, 20), (4, 20, 20), (5, 20, 4), (6, 96, 0), (7, 36, 0),
    (8, 80, 20), (132, 36, 0), (133, 12, 20), (134, 4, 0), (135, 8, 20), (136, 32, 20),
    (137, 12, 20), (138, 8, 0), (139, 8, 0), (140, 208, 0), (141, 72, 0), (142, 24, 0),
    (143, 4, 1), (144, 12, 0), (145, 44, 0), (146, 44, 0), (147, 80, 0), (148, 80, 0),
    (149, 208, 4), (150, 204, 4), (151, 204, 4)]

/-- `def` of the source. -/
def define (t : APid) (APID size dec : ℕ) : Option APid :=
  let d : ApidDef := ⟨size,dec,if dec ≠ 0 then 1 else 0,0⟩
  if APID ≤ maxApid then some {t with defs := Function.update t.defs APID d} else none

def defineAll : List (ℕ × ℕ × ℕ) → APid → Option APid
  | [], t => some t
  | (APID, size, dec) :: es, t => (t.define APID size dec).bind (defineAll es)

/-- The constructor, over whatever the memory holds. -/
def new (memory : ℕ → ApidDef) : Option APid :=
  defineAll ((List.range (maxApid+1)).map (fun i => (i, 0, 0)) ++ entries) ⟨memory,[]⟩

def use (t : APid) (APID : ℕ) : APid := {t with uses := t.uses ++ [APID]}

def getSize (t : APid) (APID : ℕ) : ℕ × APid :=
  if APID > maxApid then (0, t) else ((t.defs APID).size, t.use APID)

def okToTransmit (t : APid) (APID : ℕ) : Bool × APid :=
  if APID > maxApid then (false, t)
  else
    let d := t.defs APID
    let t := t.use APID
    if d.size = 0 ∨ d.decimationRate = 0 then (false, t)
    else
      let d := {d with nToSkip := u16 (d.nToSkip+65535)}
      if d.nToSkip = 0 then
        (true, {t with defs := Function.update t.defs APID {d with nToSkip := d.decimationRate}})
      else (false, {t with defs := Function.update t.defs APID d})

/-- The one accessor that does not look at the bound. -/
def notReported (t : APid) (APID : ℕ) : Bool × APid :=
  let d := t.defs APID
  let t := t.use APID
  if d.reported ≠ 0 then (false, t)
  else (true, {t with defs := Function.update t.defs APID {d with reported := 1}})

theorem defineAll_isSome (es : List (ℕ × ℕ × ℕ)) (t : APid) (hes : ∀ e ∈ es, e.1 ≤ maxApid) :
    ∃ t', defineAll es t = some t' ∧ t'.uses = t.uses := by
  induction es generalizing t with
  | nil => exact ⟨t, rfl, rfl⟩
  | cons e es ih =>
    obtain ⟨APID, size, dec⟩ := e
    have hdef : APID ≤ maxApid := hes _ List.mem_cons_self
    simp only [defineAll, define, if_pos hdef, Option.bind_some]
    exact ih _ (fun e he => hes e (List.mem_cons_of_mem _ he))

/-- No `def` of the constructor misses the table. -/
theorem new_isSome (memory : ℕ → ApidDef) : ∃ t, new memory = some t ∧ t.uses = [] := by
  refine defineAll_isSome _ _ ?_
  intro e he
  rcases List.mem_append.mp he with he | he
  · obtain ⟨i, hi, rfl⟩ := List.mem_map.mp he
    exact Nat.le_of_lt_succ (List.mem_range.mp hi)
  · exact (by decide : ∀ e ∈ entries, e.1 ≤ maxApid) e he

/-- Every access was to an entry of the table. -/
def InTable (t : APid) : Prop := ∀ APID ∈ t.uses, APID ≤ maxApid

theorem inTable_use (t : APid) (APID : ℕ) : (t.use APID).InTable ↔ t.InTable ∧ APID ≤ maxApid := by
  simp only [InTable, use, List.forall_mem_append, List.forall_mem_singleton]

theorem getSize_inTable (t : APid) (APID : ℕ) : (t.getSize APID).2.InTable ↔ t.InTable := by
  unfold getSize
  split_ifs with h
  · rfl
  · exact (t.inTable_use APID).trans (and_iff_left (Nat.not_lt.mp h))

theorem okToTransmit_inTable (t : APid) (APID : ℕ) :
    (t.okToTransmit APID).2.InTable ↔ t.InTable := by
  unfold okToTransmit
  split_ifs with h
  · rfl
  · have huse := (t.inTable_use APID).trans (and_iff_left (Nat.not_lt.mp h))
    dsimp only
    split_ifs <;> exact huse

theorem notReported_inTable (t : APid) (APID : ℕ) :
    (t.notReported APID).2.InTable ↔ t.InTable ∧ APID ≤ maxApid := by
  have huse := t.inTable_use APID
  unfold notReported
  dsimp only
  split_ifs <;> exact huse

end APid

/-- The fields of the object and its socket, and what it wrote, packet by packet. -/
structure NephexTcpExport (out : OutputSocket) where
  outstandingBytes : ℕ
  sock : out.State
  iwrites : List (List UInt8)

namespace NephexTcpExport

variable {out : OutputSocket}

def new (sock : out.State) : NephexTcpExport out := ⟨0,sock,[]⟩

/-- Clear to send: less than 2000 bytes unacknowledged and nothing in `obuf`. -/
def cts (x : NephexTcpExport out) : Bool :=
  x.outstandingBytes < 2000 && out.obufEmpty x.sock

/-- `forward_packet` asserts `CTS()`. -/
def forwardPacket (serio : SerioLib) (x : NephexTcpExport out) (bfr : List UInt8) :
    Option (NephexTcpExport out) :=
  if x.cts then
    let pkt := serio.mkHdr serio.pktTypeNPH bfr ++ bfr
    some {x with
      sock := out.iwrite pkt x.sock
      iwrites := x.iwrites ++ [pkt]
      outstandingBytes := u32 (x.outstandingBytes+(SerioLib.pktHdrSize+bfr.length))}
  else none

/-- The `ctrl_subtype_ACK` case of `app_input`, for an ACK of `length` bytes. -/
def appInputAck (x : NephexTcpExport out) (length : ℕ) : NephexTcpExport out :=
  {x with
    outstandingBytes := if length > x.outstandingBytes then 0 else x.outstandingBytes-length}

end NephexTcpExport
end Cosmid.Nephex
