import Cosmid.NephexExport

/-! `nephex_tcp_rcvr` (Nephex/nephex_export.cc): the loop that looks for frames in
the byte stream of the instrument, logs them and forwards some of them. The timer
it sets for every frame is added in `NephexWatchdog`. -/
namespace Cosmid.Nephex

/-- What `log_packet` or `forward_packet` is called with: `len` bytes from `off` on
in a buffer of which `nc` bytes are filled. The length parameters have 16 bits, so
`bytes` is what the function gets. -/
structure Span where
  off : ℕ
  len : ℕ
  nc : ℕ
  bytes : List UInt8
deriving DecidableEq

def Span.ofBuffer (b : InputBuffer) (off len : ℕ) : Span :=
  ⟨off,len,b.nc,(b.buf.drop off).take (u16 len)⟩

/-- The span lies in the buffer and its length is not truncated. -/
structure Span.InBuffer (s : Span) : Prop where
  end_le : s.off+s.len ≤ s.nc
  len_lt : s.len < 65536

inductive NephexEvent
  | incorrectLength (APID expected len : ℕ)
  | logPacket (span : Span)
  | clearToSend (span : Span)
  | forwardPacket (span : Span)
deriving DecidableEq

/-- The span that an event passes on. -/
def NephexEvent.span? : NephexEvent → Option Span
  | incorrectLength _ _ _ => none
  | logPacket span => some span
  | clearToSend span => some span
  | forwardPacket span => some span

/-- The bytes that an event passes to `log_packet`. -/
def NephexEvent.logged? : NephexEvent → Option (List UInt8)
  | logPacket span => some span.bytes
  | _ => none

/-- The frame for which `CTS()` has been true at an event. -/
def NephexEvent.offered? : NephexEvent → Option (List UInt8)
  | clearToSend span => some span.bytes
  | _ => none

structure NephexTcpRcvr where
  ibuf : InputBuffer
  trace : List NephexEvent

def NephexTcpRcvr.new : NephexTcpRcvr := ⟨InputBuffer.empty,[]⟩

/-- `RCVR_BUFSIZE` of `nephex_tcp_rcvr`; the library keeps one byte back. -/
def rcvrBufsize : ℕ := 50000

/-- Two bytes from `i` on, low byte first. -/
def word (buf : List UInt8) (i : ℕ) : ℕ :=
  (buf.getD i 0).toNat+256*(buf.getD (i+1) 0).toNat

theorem word_lt (buf : List UInt8) (i : ℕ) : word buf i < 65536 := by
  have h1 := (buf.getD i 0).toNat_lt
  have h2 := (buf.getD (i+1) 0).toNat_lt
  rw [word]
  omega

theorem word_unread (b : InputBuffer) (i : ℕ) : word b.buf (b.cp+i) = word b.unread i := by
  rw [word, word, ← b.getD_unread, ← b.getD_unread, Nat.add_assoc b.cp]

/-- The receiver with the table and the exporter it works on. -/
structure NephexSystem (out : OutputSocket) where
  rcvr : NephexTcpRcvr
  apids : APid
  exp : NephexTcpExport out

namespace NephexSystem

variable {out : OutputSocket}

def emit (s : NephexSystem out) (e : NephexEvent) : NephexSystem out :=
  {s with rcvr := {s.rcvr with trace := s.rcvr.trace ++ [e]}}

def setIbuf (s : NephexSystem out) (ibuf : InputBuffer) : NephexSystem out :=
  {s with rcvr := {s.rcvr with ibuf := ibuf}}

/-- The size check, with `cp` behind the header. -/
def checkSize (s : NephexSystem out) (APID len : ℕ) : NephexSystem out :=
  let (apidLen, apids) := s.apids.getSize APID
  if apidLen+6 ≠ len then
    let (report, apids) := apids.notReported APID
    let s := {s with apids := apids}
    if report then s.emit (.incorrectLength APID (apidLen+6) len) else s
  else {s with apids := apids}

/-- The exporter is asked first: a packet that cannot be sent does not count for
the decimation. The trace notes the frames for which the answer is yes. -/
def forward (serio : SerioLib) (s : NephexSystem out) (APID : ℕ) (span : Span) :
    Option (NephexSystem out) :=
  if s.exp.cts then
    let (ok, apids) := s.apids.okToTransmit APID
    let s := {s with apids := apids}.emit (.clearToSend span)
    if ok then (s.exp.forwardPacket serio span.bytes).map fun exp =>
      {s with exp := exp}.emit (.forwardPacket span)
    else some s
  else some s

theorem forward_held (serio : SerioLib) (s : NephexSystem out) (APID : ℕ) (span : Span)
    (hcts : ¬s.exp.cts = true) : s.forward serio APID span = some s := if_neg hcts

/-- The table behind the question, and the frame in the trace. -/
def asked (s : NephexSystem out) (APID : ℕ) (span : Span) : NephexSystem out :=
  {s with apids := (s.apids.okToTransmit APID).2}.emit (.clearToSend span)

theorem forward_skipped (serio : SerioLib) (s : NephexSystem out) (APID : ℕ) (span : Span)
    (hcts : s.exp.cts = true) (hok : ¬(s.apids.okToTransmit APID).1 = true) :
    s.forward serio APID span = some (s.asked APID span) := by
  rw [forward, if_pos hcts]
  exact if_neg hok

/-- The assertion of `forward_packet` holds, since the exporter has just been asked. -/
theorem forward_sent (serio : SerioLib) (s : NephexSystem out) (APID : ℕ) (span : Span)
    (hcts : s.exp.cts = true) (hok : (s.apids.okToTransmit APID).1 = true) :
    ∃ exp, s.exp.forwardPacket serio span.bytes = some exp ∧
      s.forward serio APID span =
        some ({s.asked APID span with exp := exp}.emit (.forwardPacket span)) := by
  refine ⟨_, if_pos hcts, ?_⟩
  rw [forward, if_pos hcts]
  refine (if_pos hok).trans ?_
  rw [NephexTcpExport.forwardPacket]
  exact congrArg _ (if_pos hcts)

/-- A complete frame, with `cp` behind its header. -/
def takeFrame (serio : SerioLib) (s : NephexSystem out) (APID len : ℕ) :
    Option (NephexSystem out) :=
  let b := s.rcvr.ibuf
  let span := Span.ofBuffer b (b.cp-8) (len+9)
  (((s.checkSize APID len).emit (.logPacket span)).forward serio APID span).map fun s =>
    s.setIbuf ⟨b.buf,b.cp+(len+1)⟩

/-- One turn of the loop. The Boolean is true if the loop goes on. -/
def loopBody (io : DasIO) (serio : SerioLib) (s : NephexSystem out) :
    Option (NephexSystem out × Bool) :=
  match io.notFound 0xaa s.rcvr.ibuf with
  | (true, b) => some (s.setIbuf b, false)
  | (false, b) =>
    -- What follows a sync byte at the end of the buffer is not known yet.
    if b.cp < b.nc ∧ b.buf.getD b.cp 0 ≠ 0xaa then some (s.setIbuf b, true)
    else
      let cp := b.cp+1
      -- An incomplete frame is looked at again from its first sync byte on.
      if b.nc < cp+6 then some (s.setIbuf ⟨b.buf,cp-2⟩, false)
      else
        let APID := word b.buf cp%1024
        let len := word b.buf (cp+4)
        let cp := cp+6
        if b.nc < cp+len+1 then some (s.setIbuf ⟨b.buf,cp-8⟩, false)
        else (takeFrame serio (s.setIbuf ⟨b.buf,cp⟩) APID len).map fun s => (s, true)

/-- `report_ok(cp)` behind the loop. -/
def finish (io : DasIO) (s : NephexSystem out) : NephexSystem out :=
  s.setIbuf (io.reportOk s.rcvr.ibuf.cp s.rcvr.ibuf)

theorem takeFrame_ibuf (serio : SerioLib) (s s' : NephexSystem out) (APID len : ℕ)
    (h : s.takeFrame serio APID len = some s') :
    s'.rcvr.ibuf = ⟨s.rcvr.ibuf.buf,s.rcvr.ibuf.cp+(len+1)⟩ := by
  simp only [takeFrame, Option.map_eq_some_iff] at h
  obtain ⟨t, -, rfl⟩ := h
  rfl

/-- One turn of the loop, where the search stops at `u`. -/
theorem loopBody_hit (io : DasIO) (serio : SerioLib) (s : NephexSystem out)
    (pre u : List UInt8) (hsplit : s.rcvr.ibuf.unread = pre ++ u) (hpre : 0xaa ∉ pre)
    (hu : u.head? = some 0xaa) :
    s.loopBody io serio =
      let b := s.rcvr.ibuf
      let q := b.cp+pre.length
      if 1 < u.length ∧ u.getD 1 0 ≠ 0xaa then some (s.setIbuf ⟨b.buf,q+1⟩, true)
      else if u.length < 8 ∨ u.length < word u 6+9 then some (s.setIbuf ⟨b.buf,q⟩, false)
      else (takeFrame serio (s.setIbuf ⟨b.buf,q+8⟩) (word u 2%1024) (word u 6)).map
        fun s => (s, true) := by
  obtain ⟨post, rfl⟩ := List.head?_eq_some_iff.mp hu
  have hm := io.notFound_hit 0xaa s.rcvr.ibuf pre post hsplit hpre
  simp only [loopBody]
  generalize s.rcvr.ibuf = b at *
  have hdrop : b.buf.drop (b.cp+pre.length) = 0xaa :: post := by
    rw [← List.drop_drop, show b.buf.drop b.cp = _ from hsplit, List.drop_left]
  have hnc : b.buf.length = b.cp+pre.length+(post.length+1) := by
    have hlen := congrArg List.length hdrop
    rw [List.length_drop, List.length_cons] at hlen
    omega
  have hget (i : ℕ) : b.buf.getD (b.cp+pre.length+i) 0 = (0xaa :: post).getD i 0 := by
    rw [← hdrop]
    exact InputBuffer.getD_unread ⟨b.buf,b.cp+pre.length⟩ i
  have hword (i : ℕ) : word b.buf (b.cp+pre.length+i) = word (0xaa :: post) i := by
    rw [← hdrop]
    exact word_unread ⟨b.buf,b.cp+pre.length⟩ i
  rw [← Nat.add_assoc] at hm
  generalize b.cp+pre.length = q at *
  rw [hm]
  simp only [InputBuffer.nc_mk, hnc, hget, hword, Nat.add_assoc, List.length_cons, Nat.reduceAdd]
  by_cases hskip : 1 < post.length+1 ∧ (0xaa :: post).getD 1 0 ≠ 0xaa
  · rw [if_pos hskip, if_pos ⟨by omega, hskip.2⟩]
  · rw [if_neg hskip, if_neg (fun h => hskip ⟨by omega, h.2⟩)]
    by_cases hhdr : post.length+1 < 8
    · rw [if_pos (by omega), if_pos (Or.inl hhdr)]
      rfl
    · rw [if_neg (by omega)]
      by_cases hdata : post.length+1 < word (0xaa :: post) 6+9
      · rw [if_pos (by omega), if_pos (Or.inr hdata)]
        rfl
      · rw [if_neg (by omega), if_neg (by omega)]

/-- A turn after which the loop goes on has made progress. -/
theorem loopBody_again (io : DasIO) (serio : SerioLib) (s s' : NephexSystem out)
    (h : s.loopBody io serio = some (s', true)) :
    s'.rcvr.ibuf.unread.length < s.rcvr.ibuf.unread.length := by
  rcases io.notFound_cases 0xaa s.rcvr.ibuf with ⟨-, hm⟩ | ⟨pre, post, hsplit, hpre, -⟩
  · simp [loopBody, hm] at h
  · have hlen := congrArg List.length hsplit
    rw [List.length_append, List.length_cons] at hlen
    have hadv (n : ℕ) : (InputBuffer.unread ⟨s.rcvr.ibuf.buf,s.rcvr.ibuf.cp+n⟩).length =
        s.rcvr.ibuf.unread.length-n := by rw [InputBuffer.unread_advance, List.length_drop]
    rw [loopBody_hit io serio s pre _ hsplit hpre rfl] at h
    dsimp only at h
    split at h
    · obtain rfl := (Prod.mk.inj (Option.some.inj h)).1
      rw [setIbuf, Nat.add_assoc, hadv]
      omega
    · split at h
      · cases h
      · simp only [Option.map_eq_some_iff] at h
        obtain ⟨t, ht, heq⟩ := h
        obtain rfl := (Prod.mk.inj heq).1
        rw [takeFrame_ibuf serio _ _ _ _ ht, setIbuf, Nat.add_assoc, Nat.add_assoc, hadv]
        omega

def protocolInputLoop (io : DasIO) (serio : SerioLib) (s : NephexSystem out) :
    Option (NephexSystem out) :=
  if s.rcvr.ibuf.cp < s.rcvr.ibuf.nc then
    match _h : s.loopBody io serio with
    | none => none
    | some (s', true) => protocolInputLoop io serio s'
    | some (s', false) => some (s'.finish io)
  else some (s.finish io)
termination_by s.rcvr.ibuf.unread.length
decreasing_by exact loopBody_again io serio s s' _h

/-- One read of `bytes` followed by `protocol_input`. -/
def protocolInput (io : DasIO) (serio : SerioLib) (s : NephexSystem out) (bytes : List UInt8) :
    Option (NephexSystem out) :=
  protocolInputLoop io serio (s.setIbuf (io.read s.rcvr.ibuf bytes))

end NephexSystem

/-- What can happen while the instrument is connected: a read, an ACK from
tm_ip_export, and a change of the exporter's output buffer. -/
inductive NephexInput (out : OutputSocket)
  | read (bytes : List UInt8)
  | ack (length : ℕ)
  | exportSocket (sock : out.State)

namespace NephexSystem

variable {out : OutputSocket}

def step (io : DasIO) (serio : SerioLib) (s : NephexSystem out) :
    NephexInput out → Option (NephexSystem out)
  | .read bytes => s.protocolInput io serio bytes
  | .ack length => some {s with exp := s.exp.appInputAck length}
  | .exportSocket sock => some {s with exp := {s.exp with sock := sock}}

/-- The state in which the instrument connects for the first time. -/
structure Started (s : NephexSystem out) : Prop where
  rcvr_eq : s.rcvr = .new
  apids_new : ∃ memory, APid.new memory = some s.apids

end NephexSystem
end Cosmid.Nephex
