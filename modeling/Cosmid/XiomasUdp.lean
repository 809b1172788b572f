import Cosmid.DasIO

/-! `xiomas_udp_export` (Xiomas/xiomas_export.cc): one packet at a time, until the
peer answers. -/
namespace Cosmid.Xiomas

/-- `not_str("OK\n")` of the library. -/
structure OkParser where
  notOK : InputBuffer → Bool × InputBuffer
  notOK_hit : ∀ b rest, b.unread = 0x4f :: 0x4b :: 0x0a :: rest →
    notOK b = (false, ⟨b.buf,b.cp+3⟩)
  notOK_miss : ∀ b, ¬[0x4f, 0x4b, 0x0a] <+: b.unread → (notOK b).1 = true

namespace OkParser

/-- `not_str`: `cp` stops at the first byte that is missing or wrong. -/
def notStr : List UInt8 → InputBuffer → Bool × InputBuffer
  | [], b => (false, b)
  | c :: cs, b => if b.unread.head? = some c then notStr cs ⟨b.buf,b.cp+1⟩ else (true, b)

theorem notStr_hit (s : List UInt8) (b : InputBuffer) (h : s <+: b.unread) :
    notStr s b = (false, ⟨b.buf,b.cp+s.length⟩) := by
  induction s generalizing b with
  | nil => rfl
  | cons c cs ih =>
    obtain ⟨rest, hrest⟩ := h
    have hnext : cs <+: (⟨b.buf,b.cp+1⟩ : InputBuffer).unread := by
      rw [InputBuffer.unread_advance, ← hrest]
      exact List.prefix_append cs rest
    rw [notStr, if_pos (by rw [← hrest]; rfl), ih _ hnext, List.length_cons, Nat.add_right_comm,
      Nat.add_assoc]

theorem notStr_miss (s : List UInt8) (b : InputBuffer) (h : ¬s <+: b.unread) :
    (notStr s b).1 = true := by
  induction s generalizing b with
  | nil => exact absurd List.nil_prefix h
  | cons c cs ih =>
    rw [notStr]
    split_ifs with hc
    · refine ih _ fun hcs => h ?_
      rw [InputBuffer.unread_advance] at hcs
      obtain ⟨rest, hrest⟩ := List.head?_eq_some_iff.mp hc
      rw [hrest] at hcs ⊢
      exact List.cons_prefix_cons.mpr ⟨rfl, hcs⟩
    · rfl

def scanning : OkParser where
  notOK := notStr [0x4f, 0x4b, 0x0a]
  notOK_hit b rest h := notStr_hit _ b ⟨rest, h.symm⟩
  notOK_miss b h := notStr_miss _ b h

end OkParser

/-- The fields of the object and its socket, what it wrote, packet by packet, and
how often it reported incomplete input. -/
structure XiomasUdpExport (out : OutputSocket) where
  ibuf : InputBuffer
  ackPending : Bool
  packetsDropped : ℕ
  sock : out.State
  iwrites : List (List UInt8)
  incomplete : ℕ

namespace XiomasUdpExport

variable {out : OutputSocket}

def new (sock : out.State) : XiomasUdpExport out := ⟨InputBuffer.empty,false,0,sock,[],0⟩

/-- The length field has 16 bits, and it is what is sent. -/
def forwardPacket (serio : SerioLib) (x : XiomasUdpExport out) (bfr : List UInt8) :
    XiomasUdpExport out :=
  if x.ackPending ∨ out.obufEmpty x.sock = false then
    {x with packetsDropped := x.packetsDropped+1}
  else
    let payload := bfr.take (bfr.length%65536)
    let pkt := serio.mkHdr serio.pktTypeXIO payload ++ payload
    {x with ackPending := true, sock := out.iwrite pkt x.sock, iwrites := x.iwrites ++ [pkt]}

/-- An answer has been taken off the buffer. -/
theorem notOK_lt (ok : OkParser) (b b' : InputBuffer) (h : ok.notOK b = (false, b')) :
    b'.unread.length < b.unread.length := by
  by_cases hok : [0x4f, 0x4b, 0x0a] <+: b.unread
  · obtain ⟨rest, hrest⟩ := hok
    rw [ok.notOK_hit b rest hrest.symm] at h
    obtain rfl := (Prod.mk.inj h).2
    rw [InputBuffer.unread_advance, List.length_drop, ← hrest, List.length_append]
    simp only [List.length_cons]
    omega
  · have hmiss := ok.notOK_miss b hok
    rw [h] at hmiss
    cases hmiss

/-- `app_input`: any input counts as the answer. -/
def appInputLoop (io : DasIO) (ok : OkParser) (x : XiomasUdpExport out) : XiomasUdpExport out :=
  if x.ibuf.cp < x.ibuf.nc then
    match _h : ok.notOK x.ibuf with
    | (true, b) =>
      {x with
        ibuf := io.consume b.nc b
        ackPending := false
        incomplete := if b.cp ≥ b.nc then x.incomplete+1 else x.incomplete}
    | (false, b) => appInputLoop io ok {x with ibuf := b, ackPending := false}
  else {x with ibuf := io.consume x.ibuf.nc x.ibuf}
termination_by x.ibuf.unread.length
decreasing_by exact notOK_lt ok x.ibuf b _h

/-- One read of `bytes` followed by `app_input`. -/
def appInput (io : DasIO) (ok : OkParser) (x : XiomasUdpExport out) (bytes : List UInt8) :
    XiomasUdpExport out :=
  appInputLoop io ok {x with ibuf := io.read x.ibuf bytes}

theorem appInputLoop_frame (io : DasIO) (ok : OkParser) (x : XiomasUdpExport out) :
    (appInputLoop io ok x).iwrites = x.iwrites ∧
    (appInputLoop io ok x).ackPending = (x.ackPending && decide (x.ibuf.unread = [])) := by
  induction hn : x.ibuf.unread.length using Nat.strongRecOn generalizing x with
  | _ n ih =>
    have hlen := x.ibuf.length_unread
    rw [appInputLoop]
    by_cases hlt : x.ibuf.cp < x.ibuf.nc
    · have hne : x.ibuf.unread ≠ [] := by
        intro hnil
        rw [hnil, List.length_nil] at hlen
        omega
      rw [if_pos hlt, decide_eq_false hne, Bool.and_false]
      split
      · exact ⟨rfl, rfl⟩
      · rename_i b hb
        obtain ⟨hw, hp⟩ := ih _ (by rw [← hn]; exact notOK_lt ok x.ibuf b hb)
          {x with ibuf := b, ackPending := false} rfl
        exact ⟨hw, hp.trans (Bool.false_and _)⟩
    · have hnil : x.ibuf.unread = [] := List.length_eq_zero_iff.mp (by omega)
      rw [if_neg hlt, decide_eq_true hnil, Bool.and_true]
      exact ⟨rfl, rfl⟩

end XiomasUdpExport

/-- What can happen to `xiomas_udp_export`. -/
inductive UdpOp (out : OutputSocket)
  | forward (bfr : List UInt8)
  | input (bytes : List UInt8)
  | socket (sock : out.State)

namespace XiomasUdpExport

variable {out : OutputSocket}

def udpStep (io : DasIO) (serio : SerioLib) (ok : OkParser) (x : XiomasUdpExport out) :
    UdpOp out → XiomasUdpExport out
  | .forward bfr => x.forwardPacket serio bfr
  | .input bytes => x.appInput io ok bytes
  | .socket sock => {x with sock := sock}

end XiomasUdpExport
end Cosmid.Xiomas
