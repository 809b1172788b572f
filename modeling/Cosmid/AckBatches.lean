import Cosmid.AckInput
import Cosmid.Reconnection

/-! Reads of the two `app_input` functions that hold several packets of tm_ip_export: an exporter
that reads bytes does what one does that is given the acknowledgements one by one. -/
namespace Cosmid

namespace SerioInput

variable {serio : SerioLib}

/-- Control packets with these payloads, one behind the other. -/
def controlBytes (lib : SerioInput serio) (payloads : List (List UInt8)) : List UInt8 :=
  payloads.flatMap fun payload => serio.mkHdr lib.pktTypeCTRL payload ++ payload

/-- The lengths in those of them that are ACKs. -/
def ackLengths (lib : SerioInput serio) (payloads : List (List UInt8)) : List ℕ :=
  payloads.filterMap fun payload =>
    if lib.ctrlSubtype payload = lib.ctrlSubtypeACK then some (lib.ctrlLength payload) else none

theorem ackLengths_cons (lib : SerioInput serio) (payload : List UInt8)
    (payloads : List (List UInt8)) : lib.ackLengths (payload :: payloads) =
      if lib.ctrlSubtype payload = lib.ctrlSubtypeACK then
        lib.ctrlLength payload :: lib.ackLengths payloads else lib.ackLengths payloads := by
  rw [ackLengths, List.filterMap_cons]
  split_ifs <;> rfl

/-- A control packet is as the exporters take it. -/
def Sized (lib : SerioInput serio) (payload : List UInt8) : Prop :=
  payload.length = lib.ctrlPayloadSize ∧ payload.length < 65536

end SerioInput

/-- A read of whole control packets, or anything else that happens to the exporter. -/
inductive WireEvent (ε : Type)
  | read (payloads : List (List UInt8))
  | op (e : ε)

namespace AckInput

variable {σ ε : Type} {serio : SerioLib}

section

variable (target : AckTarget σ) (Inv : σ → Prop)
  (hack : ∀ exp length, Inv exp → ∃ exp', target.appInputAck exp length = some exp' ∧ Inv exp')

include hack

/-- A turn at a control packet of the right size takes it from the front, and counts it if it
is an ACK. -/
theorem loopTurn_sized (io : DasIO) (lib : SerioInput serio) (s : AckInput σ)
    (payload rest : List UInt8) (hp : lib.Sized payload)
    (hbuf : s.ibuf = ⟨serio.mkHdr lib.pktTypeCTRL payload ++ (payload ++ rest),0⟩)
    (hinv : Inv s.exp) :
    ∃ s', loopTurn io lib target s = some (s', true) ∧ s'.ibuf = ⟨rest,0⟩ ∧ Inv s'.exp ∧
      if lib.ctrlSubtype payload = lib.ctrlSubtypeACK then
        target.appInputAck s.exp (lib.ctrlLength payload) = some s'.exp
      else s'.exp = s.exp := by
  have hfind : lib.notSerioPkt s.ibuf = (some ⟨lib.pktTypeCTRL,payload⟩, s.ibuf) := by
    rw [hbuf]
    exact lib.notSerioPkt_again _ 0 _ (serio.packetAt_mkHdr lib.pktTypeCTRL payload rest hp.2)
  obtain ⟨s', hs', hinv', hib⟩ :=
    loopTurn_control target Inv hack io lib s s.ibuf ⟨lib.pktTypeCTRL,payload⟩ hfind rfl hinv
  refine ⟨s', hs', ?_, hinv', ?_⟩
  · rw [hib, hbuf]
    exact lib.skipControl_front io lib.pktTypeCTRL payload rest hp.1
  · rw [loopTurn, hfind] at hs'
    dsimp only at hs'
    rw [if_pos rfl, if_neg (not_not.mpr hp.1)] at hs'
    split_ifs at hs' ⊢
    · obtain ⟨exp, hexp, -⟩ := hack s.exp (lib.ctrlLength payload) hinv
      obtain ⟨t, ht, ht', -⟩ := ackCase_spec target s _ exp hexp
      rw [ht, Option.map_some] at hs'
      obtain rfl := (Prod.mk.inj (Option.some.inj hs')).1
      rw [hexp]
      exact congrArg some ht'.symm
    · obtain rfl := (Prod.mk.inj (Option.some.inj hs')).1
      rfl

/-- The loop goes through all of them, each in one turn, and leaves nothing behind. -/
theorem loop_sized (io : DasIO) (lib : SerioInput serio) (payloads : List (List UInt8))
    (hps : ∀ payload ∈ payloads, lib.Sized payload) (s : AckInput σ)
    (hbuf : s.ibuf = ⟨lib.controlBytes payloads,0⟩) (hinv : Inv s.exp) :
    ∃ s', loop io lib target (payloads.length+1) s = some (some s') ∧
      s'.ibuf = InputBuffer.empty ∧ Inv s'.exp ∧
      Run.run target.appInputAck s.exp (lib.ackLengths payloads) = some s'.exp := by
  induction payloads generalizing s with
  | nil =>
    -- The last turn only finds `cp` at the end.
    have hend : ¬s.ibuf.cp < s.ibuf.nc := by
      rw [hbuf]
      exact Nat.lt_irrefl 0
    refine ⟨s, ?_, hbuf, hinv, rfl⟩
    rw [loop, if_neg hend]
  | cons payload payloads ih =>
    rw [List.forall_mem_cons] at hps
    rw [SerioInput.controlBytes, List.flatMap_cons, List.append_assoc] at hbuf
    obtain ⟨t, ht, hbuf', hinv', hexp⟩ :=
      loopTurn_sized target Inv hack io lib s payload _ hps.1 hbuf hinv
    obtain ⟨s', hs', hempty, hinv'', hrun⟩ := ih hps.2 t hbuf' hinv'
    have hlt : s.ibuf.cp < s.ibuf.nc := by
      rw [hbuf, InputBuffer.nc_mk, List.length_append, SerioLib.length_mkHdr]
      exact Nat.add_pos_left (by decide) _
    refine ⟨s', ?_, hempty, hinv'', ?_⟩
    · rw [List.length_cons, loop, if_pos hlt, ht]
      exact hs'
    · rw [lib.ackLengths_cons]
      split_ifs at hexp ⊢
      · rw [Run.run_cons_of_step _ hexp]
        exact hrun
      · rw [← hexp]
        exact hrun

end

section

variable (io : DasIO) (lib : SerioInput serio) (target : AckTarget σ) (step : σ → ε → Option σ)
  (ackOp : ℕ → ε)

/-- The exporter that reads bytes. One turn of the loop for each packet, and one to see that
there is no other, are enough for it to end. -/
def wireStep (s : AckInput σ) : WireEvent ε → Option (AckInput σ)
  | .read payloads => (loop io lib target (payloads.length+1)
      {s with ibuf := io.read s.ibuf (lib.controlBytes payloads)}).join
  | .op e => (step s.exp e).map fun exp => {s with exp := exp}

/-- What a read is to the exporter that is given acknowledgements. -/
def unpacked : WireEvent ε → List ε
  | .read payloads => (lib.ackLengths payloads).map ackOp
  | .op e => [e]

/-- Reads are of packets of the right size. -/
def SizedReads : WireEvent ε → Prop
  | .read payloads => ∀ payload ∈ payloads, lib.Sized payload
  | .op _ => True

variable (Inv : σ → Prop)
  (hack : ∀ exp length, Inv exp → ∃ exp', target.appInputAck exp length = some exp' ∧ Inv exp')
  (hop : ∀ exp e, Inv exp → ∃ exp', step exp e = some exp' ∧ Inv exp')
  (hackOp : ∀ exp length, step exp (ackOp length) = target.appInputAck exp length)

include hack hop hackOp

theorem wireStep_unpacked (s : AckInput σ) (hbuf : s.ibuf = InputBuffer.empty) (hinv : Inv s.exp)
    (e : WireEvent ε) (he : SizedReads lib e) :
    ∃ s', wireStep io lib target step s e = some s' ∧ s'.ibuf = InputBuffer.empty ∧
      Inv s'.exp ∧ Run.run step s.exp (unpacked lib ackOp e) = some s'.exp := by
  cases e with
  | read payloads =>
    -- Nothing was left in front of what has been read.
    have hread : io.read s.ibuf (lib.controlBytes payloads) = ⟨lib.controlBytes payloads,0⟩ := by
      rw [hbuf]
      exact io.read_zero [] _
    obtain ⟨s', hs', hempty, hinv', hrun⟩ := loop_sized target Inv hack io lib payloads he
      {s with ibuf := io.read s.ibuf (lib.controlBytes payloads)} hread hinv
    refine ⟨s', ?_, hempty, hinv', ?_⟩
    · rw [wireStep, hs']
      rfl
    · rw [unpacked, Run.run_map, funext₂ hackOp]
      exact hrun
  | op e =>
    obtain ⟨exp, hexp, hinv'⟩ := hop s.exp e hinv
    refine ⟨{s with exp := exp}, ?_, hbuf, hinv', ?_⟩
    · rw [wireStep, hexp]
      rfl
    · rw [unpacked, Run.run_cons_of_step _ hexp]
      rfl

/-- The exporter that reads bytes refines the one that is given acknowledgements. -/
theorem wire_refines (exp : σ) (hinv : Inv exp) (es : List (WireEvent ε))
    (hes : ∀ e ∈ es, SizedReads lib e) :
    Run.Throughout (wireStep io lib target step) (fun fs s => s.ibuf = InputBuffer.empty ∧
      Run.run step exp (fs.flatMap (unpacked lib ackOp)) = some s.exp)
      ⟨exp,InputBuffer.empty,[]⟩ es := by
  intro fs hfs
  obtain ⟨s, hs, hbuf, -, hrun⟩ := Run.run_history (wireStep io lib target step)
    (fun _ e => SizedReads lib e)
    (fun h s => s.ibuf = InputBuffer.empty ∧ Inv s.exp ∧
      Run.run step exp (h.flatMap (unpacked lib ackOp)) = some s.exp)
    (fun h s e hi he => by
      obtain ⟨hbuf, hi, hrun⟩ := hi
      obtain ⟨s', hs', hbuf', hi', hrun'⟩ :=
        wireStep_unpacked io lib target step ackOp Inv hack hop hackOp s hbuf hi e he
      refine ⟨s', hs', hbuf', hi', ?_⟩
      rw [List.flatMap_append, List.flatMap_singleton, Run.run_append, hrun, Option.bind_some]
      exact hrun')
    [] ⟨exp,InputBuffer.empty,[]⟩ fs ⟨rfl, hinv, rfl⟩
    (Run.along_of_mem _ _ _ fun e he _ => hes e (hfs.subset he))
  exact ⟨s, hs, hbuf, hrun⟩

end

end AckInput

open Xiomas Nephex

/-- However the packets of tm_ip_export are put together in reads, and whatever happens between
the reads, each ACK counts once and in order: both exporters are at every moment where the same
operations with the ACKs one by one would have brought them, and no byte is left to be parsed. -/
theorem acks_coalesced (out : OutputSocket) (ι : Type) (io : DasIO) {serio : SerioLib}
    (lib : SerioInput serio) :
    (∀ (circ : ℕ → UInt8) (sock : out.State) (es : List (WireEvent (ExportOp out ι))),
      (∀ e ∈ es, AckInput.SizedReads lib e) →
      Run.Throughout (AckInput.wireStep io lib XiomasTcpExport.ackTarget (exportStep serio))
        (fun fs s => s.ibuf = InputBuffer.empty ∧
          Run.run (exportStep serio) (.new circ sock)
            (fs.flatMap (AckInput.unpacked lib .ack)) = some s.exp)
        ⟨.new circ sock,InputBuffer.empty,[]⟩ es) ∧
    ∀ (x : NephexTcpExport out) (es : List (WireEvent (NephexOp out))),
      (∀ e ∈ es, AckInput.SizedReads lib e) →
      Run.Throughout (AckInput.wireStep io lib NephexTcpExport.ackTarget
        (NephexTcpExport.exportStep serio))
        (fun fs s => s.ibuf = InputBuffer.empty ∧
          Run.run (NephexTcpExport.exportStep serio) x
            (fs.flatMap (AckInput.unpacked lib .ack)) = some s.exp)
        ⟨x,InputBuffer.empty,[]⟩ es := by
  constructor
  · intro circ sock es hes
    refine AckInput.wire_refines io lib XiomasTcpExport.ackTarget (exportStep serio) .ack
      XiomasTcpExport.CircValid XiomasTcpExport.ackTarget_circValid ?_ (fun _ _ => rfl) _
      (XiomasTcpExport.circValid_new circ sock) es hes
    intro x op hv
    obtain ⟨y, hy, hyv, -⟩ := exportStep_valid serio x hv op
    exact ⟨y, hy, hyv⟩
  · intro x es hes
    refine AckInput.wire_refines io lib NephexTcpExport.ackTarget
      (NephexTcpExport.exportStep serio) .ack (fun _ => True)
      (fun _ _ _ => ⟨_, rfl, trivial⟩) ?_ (fun _ _ => rfl) x trivial es hes
    rintro x op -
    cases op with
    | forward bfr =>
      by_cases hcts : x.cts = true
      · have hstep : x.exportStep serio (.forward bfr) = x.forwardPacket serio bfr.val :=
          if_pos hcts
        exact ⟨_, hstep.trans (if_pos hcts), trivial⟩
      · exact ⟨x, by rw [NephexTcpExport.exportStep, if_neg hcts], trivial⟩
    | ack length => exact ⟨_, rfl, trivial⟩
    | socket sock => exact ⟨_, rfl, trivial⟩

/-- Two ACKs in one read. -/
theorem acks_coalesced_two :
    (∃ s, Run.run (AckInput.wireStep DasIO.keeping (.searching .packed) XiomasTcpExport.ackTarget
        (exportStep SerioLib.packed))
        ⟨(.new (fun _ => 0) () : XiomasTcpExport .direct Unit),InputBuffer.empty,[]⟩
        [.read [ackFive,ackFive]] = some s ∧ s.ibuf = InputBuffer.empty ∧
      Run.run (exportStep SerioLib.packed) (.new (fun _ => 0) ()) [.ack 5,.ack 5] = some s.exp) ∧
    ∃ s, Run.run (AckInput.wireStep DasIO.keeping (.searching .packed) NephexTcpExport.ackTarget
        (NephexTcpExport.exportStep SerioLib.packed))
        ⟨(.new () : NephexTcpExport .direct),InputBuffer.empty,[]⟩
        [.read [ackFive,ackFive]] = some s ∧ s.ibuf = InputBuffer.empty ∧
      Run.run (NephexTcpExport.exportStep SerioLib.packed) (.new ()) [.ack 5,.ack 5] =
        some s.exp := by
  have hsized : (SerioInput.searching .packed).Sized ackFive := ⟨rfl, by decide⟩
  have hreads : ∀ payload ∈ [ackFive,ackFive], (SerioInput.searching .packed).Sized payload := by
    intro payload hpayload
    rcases List.mem_pair.mp hpayload with rfl | rfl <;> exact hsized
  obtain ⟨hx, hn⟩ := acks_coalesced .direct Unit DasIO.keeping (.searching .packed)
  obtain ⟨s, hs, hbuf, hrun⟩ := hx (fun _ => 0) () [.read [ackFive,ackFive]]
    (fun e he => List.mem_singleton.mp he ▸ hreads) _ List.prefix_rfl
  obtain ⟨t, ht, htbuf, htrun⟩ := hn (.new ()) [.read [ackFive,ackFive]]
    (fun e he => List.mem_singleton.mp he ▸ hreads) _ List.prefix_rfl
  exact ⟨⟨s, hs, hbuf, hrun⟩, t, ht, htbuf, htrun⟩

end Cosmid
