import Cosmid.XiomasPacket

/-! The connections that `xiomas_tcp_svc::new_client` accepts, each with its own
receiver, and the exporter they share. Events come in any order. -/
namespace Cosmid.Xiomas

open RcvrEvent XiomasTcpRcvr

/-- `rcvr i` is the receiver of connection `i`, in its constructor state as long
as the connection has not been made. -/
structure XioSystem (out : OutputSocket) (ι : Type) where
  rcvr : ι → XiomasTcpRcvr out
  exp : XiomasTcpExport out ι

/-- One read of a connection followed by its `protocol_input`, an ACK from
tm_ip_export, the timeout that an `ack()` schedules, and whatever an output side
does by itself. -/
inductive SysEvent (out : OutputSocket) (ι : Type)
  | read (i : ι) (bytes : List UInt8)
  | ack (length : ℕ)
  | timeout (i : ι)
  | exportSocket (sock : out.State)
  | rcvrSocket (i : ι) (sock : out.State)

variable {out : OutputSocket} {ι : Type}

namespace SysEvent

/-- What the event brings in on connection `i`. -/
def bytesOf [DecidableEq ι] (i : ι) : SysEvent out ι → List UInt8
  | read j bytes => if j = i then bytes else []
  | _ => []

/-- The input of connection `i` in a run. -/
def inputOf [DecidableEq ι] (i : ι) (es : List (SysEvent out ι)) : List UInt8 :=
  es.flatMap (bytesOf i)

theorem inputOf_append [DecidableEq ι] (i : ι) (es : List (SysEvent out ι)) (e : SysEvent out ι) :
    inputOf i (es ++ [e]) = inputOf i es ++ bytesOf i e := by
  simp [inputOf]

theorem inputOf_read [DecidableEq ι] (i : ι) (es : List (SysEvent out ι)) (bytes : List UInt8) :
    inputOf i (es ++ [read i bytes]) = inputOf i es ++ bytes := by
  rw [inputOf_append, bytesOf, if_pos rfl]

theorem bytesOf_eq_nil [DecidableEq ι] (i : ι) (e : SysEvent out ι)
    (hnot : ∀ bytes, e ≠ read i bytes) : bytesOf i e = [] := by
  cases e with
  | read j bytes =>
    have hj : j ≠ i := by
      rintro rfl
      exact hnot bytes rfl
    simp only [bytesOf, if_neg hj]
  | _ => rfl

/-- What the event itself does to the exporter, without a receiver's calls. -/
def ownOps : SysEvent out ι → List (ExportOp out ι)
  | ack length => [.ack length]
  | exportSocket sock => [.socket sock]
  | _ => []

/-- Connections other than `i` stay silent. -/
def OnlyReads (i : ι) (e : SysEvent out ι) : Prop := ∀ j bytes, e = read j bytes → j = i

end SysEvent

open SysEvent

namespace XioSystem

def sysStep (io : DasIO) (serio : SerioLib) [DecidableEq ι] (s : XioSystem out ι) :
    SysEvent out ι → Option (XioSystem out ι)
  | .read i bytes => ((s.rcvr i).protocolInput io serio i s.exp bytes).map fun p =>
      {rcvr := Function.update s.rcvr i p.1, exp := p.2}
  | .ack length => (s.exp.appInputAck length).map fun x => {s with exp := x}
  | .timeout i => some {s with rcvr := Function.update s.rcvr i (s.rcvr i).protocolTimeout}
  | .exportSocket sock => some {s with exp := {s.exp with sock := sock}}
  | .rcvrSocket i sock =>
      some {s with rcvr := Function.update s.rcvr i {s.rcvr i with sock := sock}}

/-- A read leaves the connection's receiver as its `protocol_input` does. -/
theorem sysStep_read_rcvr (io : DasIO) (serio : SerioLib) [DecidableEq ι] {i : ι}
    {s s' : XioSystem out ι} {bytes : List UInt8} {r : XiomasTcpRcvr out}
    {x : Option (XiomasTcpExport out ι)}
    (heq : (s.rcvr i).protocolInput io serio i s.exp bytes = x.map fun y => (r,y))
    (hs : s.sysStep io serio (.read i bytes) = some s') : s'.rcvr i = r := by
  simp only [sysStep, heq, Option.map_map, Option.map_eq_some_iff] at hs
  obtain ⟨y, -, rfl⟩ := hs
  exact Function.update_self i r s.rcvr

/-- Every receiver is in its constructor state, and the exporter in any state it
can be in. -/
structure Started (s : XioSystem out ι) : Prop where
  fresh : ∀ i, ∃ transmitting sock, s.rcvr i = .new transmitting sock
  valid : s.exp.CircValid

/-- The state in which the program starts. The receivers' `transmitting` flags
and the buffer's bytes are what the memory happened to hold. -/
def new (transmitting : ι → Bool) (rcvrSock : ι → out.State) (circ : ℕ → UInt8)
    (expSock : out.State) : XioSystem out ι where
  rcvr i := .new (transmitting i) (rcvrSock i)
  exp := .new circ expSock

theorem started_new (transmitting : ι → Bool) (rcvrSock : ι → out.State) (circ : ℕ → UInt8)
    (expSock : out.State) : (new transmitting rcvrSock circ expSock : XioSystem out ι).Started :=
  ⟨fun _ => ⟨_, _, rfl⟩, XiomasTcpExport.circValid_new _ _⟩

end XioSystem

open XioSystem

/-- Nothing happened to a receiver as far as packets are concerned. -/
structure Kept (r s : XiomasTcpRcvr out) : Prop where
  ibuf_eq : s.ibuf = r.ibuf
  state_eq : s.state = r.state
  remaining_eq : s.bytesRemainingInPacket = r.bytesRemainingInPacket
  transmitting_eq : s.transmittingCurrentPacket = r.transmittingCurrentPacket
  packetTrace_eq : s.packetTrace = r.packetTrace

namespace Kept

theorem refl (r : XiomasTcpRcvr out) : Kept r r := ⟨rfl, rfl, rfl, rfl, rfl⟩

theorem protocolTimeout (r : XiomasTcpRcvr out) : Kept r r.protocolTimeout := by
  refine ⟨rfl, rfl, rfl, rfl, ?_⟩
  exact Quiet.packetTrace_eq (.of_event _ rfl rfl)

theorem searching {r s : XiomasTcpRcvr out} {input : List UInt8} (h : Kept r s)
    (hr : Searching r input) : Searching s input :=
  ⟨by rw [h.state_eq]; exact hr.state_ne, by rw [h.packetTrace_eq]; exact hr.packetTrace_eq,
    by rw [h.ibuf_eq]; exact hr.buf_suffix⟩

theorem midPacket {r s : XiomasTcpRcvr out} {mode : LogMode} {size : ℕ} {body : List UInt8}
    (h : Kept r s) (hr : MidPacket r mode size body) : MidPacket s mode size body := by
  refine ⟨?_, hr.mode_ne, hr.header_le, hr.valid, hr.size_le, hr.first_pos, hr.first_le, ?_, ?_, ?_⟩
  · rw [h.state_eq, hr.state_eq]
  · rw [h.packetTrace_eq, h.transmitting_eq, hr.packetTrace_eq]
  · rw [h.remaining_eq, hr.remaining_eq]
  · rw [h.ibuf_eq, hr.ibuf_eq]

theorem receiving {r s : XiomasTcpRcvr out} {input : List UInt8} (h : Kept r s)
    (hr : Receiving r input) : Receiving s input := by
  rcases hr with hr | ⟨mode, size, body, hsuf, hr⟩
  · exact Or.inl (h.searching hr)
  · exact Or.inr ⟨mode, size, body, hsuf, h.midPacket hr⟩

end Kept

/-- No operation on the exporter fails an assertion, and its registers stay valid. -/
theorem exportStep_valid (serio : SerioLib) (x : XiomasTcpExport out ι) (hv : x.CircValid)
    (op : ExportOp out ι) :
    ∃ y, exportStep serio x op = some y ∧ y.CircValid ∧ y.circSize = x.circSize := by
  cases op with
  | forward bfr =>
    obtain ⟨z, n, y, hy, hz, -, hd⟩ := x.forwardPacket_spec serio hv bfr
    refine ⟨y, hy, hd.valid, ?_⟩
    rw [hd.frame, hz.frame]
  | requestAck client =>
    exact ⟨_, rfl, ⟨hv.size_lt, hv.tail_lt, hv.head_cases, hv.outstanding_lt⟩, rfl⟩
  | ack length =>
    obtain ⟨n, y, hy, hd⟩ := x.appInputAck_spec hv length
    refine ⟨y, hy, hd.valid, ?_⟩
    rw [hd.frame]
  | socket sock =>
    exact ⟨_, rfl, ⟨hv.size_lt, hv.tail_lt, hv.head_cases, hv.outstanding_lt⟩, rfl⟩

theorem exportRun_valid (serio : SerioLib) (x : XiomasTcpExport out ι) (hv : x.CircValid)
    (ops : List (ExportOp out ι)) : ∃ y, Run.run (exportStep serio) x ops = some y ∧
      y.CircValid ∧ y.circSize = x.circSize := by
  refine Run.run_invariant (exportStep serio) (fun _ _ => True)
    (fun y => y.CircValid ∧ y.circSize = x.circSize) ?_ x ops ⟨hv, rfl⟩ (Run.along_true _ x ops)
  rintro y op ⟨hyv, hys⟩ -
  obtain ⟨z, hz, hzv, hzs⟩ := exportStep_valid serio y hyv op
  exact ⟨z, hz, hzv, hzs.trans hys⟩

/-- What one event does: the calls on the exporter, and at most one receiver that
gets on with its input. -/
inductive SysCall [DecidableEq ι] (es : List (SysEvent out ι)) (s s' : XioSystem out ι) :
    SysEvent out ι → List (ExportOp out ι) → Prop
  | read (i : ι) (bytes : List UInt8) (evs : List RcvrEvent) :
      PacketCall s.exp.circSpace (inputOf i es) bytes (s.rcvr i) (s'.rcvr i) evs →
      (∀ j, j ≠ i → s'.rcvr j = s.rcvr j) → SysCall es s s' (.read i bytes) (exportOps out i evs)
  | other (e : SysEvent out ι) : (∀ i bytes, e ≠ .read i bytes) →
      (∀ i, Kept (s.rcvr i) (s'.rcvr i)) → SysCall es s s' e e.ownOps

/-- The invariant of every run: valid registers, and receivers that match what
has been read on their connections. -/
structure SysInv [DecidableEq ι] (es : List (SysEvent out ι)) (s : XioSystem out ι) : Prop where
  valid : s.exp.CircValid
  receiving : ∀ i, Receiving (s.rcvr i) (inputOf i es)

theorem sysInv_started [DecidableEq ι] (s : XioSystem out ι) (h : s.Started) : SysInv [] s := by
  refine ⟨h.valid, ?_⟩
  intro i
  obtain ⟨transmitting, sock, hi⟩ := h.fresh i
  rw [hi]
  exact Or.inl (searching_new transmitting sock)

theorem SysCall.receiving [DecidableEq ι] {es : List (SysEvent out ι)} {s s' : XioSystem out ι}
    {e : SysEvent out ι} {ops : List (ExportOp out ι)} (h : SysCall es s s' e ops) (i : ι)
    (hr : Receiving (s.rcvr i) (inputOf i es)) : Receiving (s'.rcvr i) (inputOf i (es ++ [e])) := by
  rw [inputOf_append]
  cases h with
  | read j bytes evs hcall hframe =>
    by_cases hij : i = j
    · subst hij
      simp only [bytesOf, if_true]
      exact hcall.receiving
    · simp only [bytesOf, if_neg (Ne.symm hij), List.append_nil]
      rw [hframe i hij]
      exact hr
  | other _ hnone hkept =>
    rw [bytesOf_eq_nil i e (hnone i), List.append_nil]
    exact (hkept i).receiving hr

/-- When a single receiver is replaced, a reflexive relation to the replacement is one to
every receiver. -/
theorem update_rel {α : Type} [DecidableEq ι] (R : α → α → Prop) (hrefl : ∀ a, R a a)
    (f : ι → α) (i : ι) {a : α} (h : R (f i) a) (j : ι) : R (f j) (Function.update f i a j) := by
  by_cases hij : j = i
  · subst hij
    rw [Function.update_self]
    exact h
  · rw [Function.update_of_ne hij]
    exact hrefl _

/-- One event, after the events `es`. -/
theorem sysStep_spec (io : DasIO) (serio : SerioLib) [DecidableEq ι] (es : List (SysEvent out ι))
    (s : XioSystem out ι) (hv : s.exp.CircValid) (e : SysEvent out ι)
    (hrecv : ∀ i bytes, e = .read i bytes → Receiving (s.rcvr i) (inputOf i es)) :
    ∃ s' ops, s.sysStep io serio e = some s' ∧
      Run.run (exportStep serio) s.exp ops = some s'.exp ∧ SysCall es s s' e ops := by
  cases e with
  | read i bytes =>
    obtain ⟨r, evs, hcall, heq⟩ :=
      protocolInput_spec io serio i (s.rcvr i) s.exp _ bytes (hrecv i bytes rfl)
    obtain ⟨y, hy, -⟩ := exportRun_valid serio s.exp hv (exportOps out i evs)
    refine ⟨⟨Function.update s.rcvr i r,y⟩, exportOps out i evs, ?_, hy, .read i bytes evs ?_ ?_⟩
    · simp only [sysStep, heq, hy, Option.map_some]
    · simpa using hcall
    · intro j hj
      exact Function.update_of_ne hj _ _
  | ack length =>
    obtain ⟨n, y, hy, hd⟩ := s.exp.appInputAck_spec hv length
    refine ⟨⟨s.rcvr,y⟩, [.ack length], ?_, ?_, .other _ (by simp) (fun _ => .refl _)⟩
    · simp only [sysStep, hy, Option.map_some]
    · simp [Run.run, exportStep, hy]
  | timeout i =>
    exact ⟨_, [], rfl, rfl, .other _ (by simp) (update_rel Kept .refl _ i (.protocolTimeout _))⟩
  | exportSocket sock =>
    exact ⟨_, [.socket sock], rfl, rfl, .other _ (by simp) (fun _ => .refl _)⟩
  | rcvrSocket i sock =>
    exact ⟨_, [], rfl, rfl, .other _ (by simp) (update_rel Kept .refl _ i ⟨rfl, rfl, rfl, rfl, rfl⟩)⟩

theorem sysStep_sysInv (io : DasIO) (serio : SerioLib) [DecidableEq ι]
    (es : List (SysEvent out ι)) (s : XioSystem out ι) (hs : SysInv es s) (e : SysEvent out ι) :
    ∃ s' ops, s.sysStep io serio e = some s' ∧
      Run.run (exportStep serio) s.exp ops = some s'.exp ∧ SysCall es s s' e ops ∧
      SysInv (es ++ [e]) s' ∧ s'.exp.circSize = s.exp.circSize := by
  obtain ⟨s', ops, hs', hops, hcall⟩ :=
    sysStep_spec io serio es s hs.valid e (fun i _ _ => hs.receiving i)
  obtain ⟨y, hy, hv, hsize⟩ := exportRun_valid serio s.exp hs.valid ops
  obtain rfl := Option.some.inj (hops.symm.trans hy)
  exact ⟨s', ops, hs', hops, hcall, ⟨hv, fun i => hcall.receiving i (hs.receiving i)⟩, hsize⟩

end Cosmid.Xiomas
