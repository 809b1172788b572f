import Cosmid.XiomasStatusPath

/-! The scanner at the other end (Xiomas/XioHarvGatewayPacket.h, EXHPacketFlags): it sends
status packets until it is told to hold off, and then asks to send until it may. -/
namespace Cosmid.Xiomas

variable {out : OutputSocket}

/-- A status packet that asks for nothing. -/
structure PlainStatus (p : List UInt8) : Prop extends ScannerPacket p where
  isStatus_eq : isStatus p = true
  hasRTS_eq : hasRTS p = false

/-- A control packet that asks to send. -/
structure SendRequest (p : List UInt8) : Prop extends ScannerPacket p where
  isStatus_eq : isStatus p = false
  hasRTS_eq : hasRTS p = true

/-- The gateway, and whether the scanner holds off. -/
structure ScannerLoop (out : OutputSocket) where
  gate : UdpGateway out
  holding : Bool

/-- A packet of the scanner, which may get lost, as its answer may; and what happens at the
transmitter and at the exporter. -/
inductive ScannerEvent (out : OutputSocket)
  | send (p : List UInt8) (arrives heard : Bool)
  | xutrSocket (sock : out.State)
  | exportInput (bytes : List UInt8)
  | exportSocket (sock : out.State)

/-- `xhfNCTS` holds the scanner off, and `xhfCTS` lets it send. -/
def hear (holding : Bool) (flag : UInt8) : Bool :=
  if flag = Xhf.ncts then true else if flag = Xhf.cts then false else holding

namespace ScannerLoop

open UdpGateway

/-- What the scanner makes of the flags sent by the gateway from `g` to `g'`. -/
def answered (holding : Bool) (g g' : UdpGateway out) : Bool :=
  (g'.flagsSent.drop g.flagsSent.length).foldl hear holding

def step (io : DasIO) (serio : SerioLib) (ok : OkParser) (s : ScannerLoop out) :
    ScannerEvent out → Option (ScannerLoop out)
  | .send p arrives heard =>
    if arrives then
      (s.gate.protocolInput io serio p).map fun g =>
        ⟨g,if heard then answered s.holding s.gate g else s.holding⟩
    else some s
  | .xutrSocket sock => (s.gate.step io serio ok (.xutrSocket sock)).map fun g => {s with gate := g}
  | .exportInput bytes =>
    (s.gate.step io serio ok (.export (.input bytes))).map fun g => {s with gate := g}
  | .exportSocket sock =>
    (s.gate.step io serio ok (.export (.socket sock))).map fun g => {s with gate := g}

/-- The scanner does as it is told. -/
def Obeys (s : ScannerLoop out) : ScannerEvent out → Prop
  | .send p _ _ => if s.holding then SendRequest p else PlainStatus p
  | _ => True

/-- The gateway can answer what reaches it, and the answer reaches the scanner. -/
def Answers (s : ScannerLoop out) : ScannerEvent out → Prop
  | .send _ arrives heard => arrives = true → heard = true ∧ ∃ u, s.gate.xutr = some u ∧ u.Able
  | _ => True

/-- A status packet is counted, and the eleventh is answered. -/
theorem step_status (io : DasIO) (serio : SerioLib) (g : UdpGateway out)
    (u : XiomasUdpTxmtr out) (hbuf : g.rcvr.ibuf.buf = []) (hu : g.xutr = some u)
    (hable : u.Able) (p : List UInt8) (hp : PlainStatus p) (hten : g.rcvr.pktsRecd.toNat ≤ 10) :
    ∃ g', g.protocolInput io serio p = some g' ∧ g'.rcvr.ibuf.buf = [] ∧
      g'.rcvr.pktsRecd.toNat = g.rcvr.pktsRecd.toNat+1 ∧
      g'.forwarded = g.forwarded ++ [p] ∧
      g'.flagsSent = g.flagsSent ++ if g.rcvr.pktsRecd.toNat = 10 then [Xhf.ncts] else [] := by
  obtain ⟨g', hg', hbuf', hcount, hfwd, hflags⟩ :=
    protocolInput_spec io serio g u hbuf hu hable p hp.toScannerPacket
  have hafter : countAfterRTS g.rcvr.pktsRecd p = g.rcvr.pktsRecd := by
    rw [countAfterRTS, hp.hasRTS_eq, if_neg (fun h => Bool.false_ne_true h.1)]
  have hone := toNat_add_one g.rcvr.pktsRecd (by omega)
  rw [hp.isStatus_eq, if_pos rfl, hafter] at hcount
  rw [hp.isStatus_eq, if_pos rfl] at hfwd
  refine ⟨g', hg', hbuf', by rw [hcount, hone], hfwd, ?_⟩
  -- The counter is 8 bits wide, but far from its end here.
  have hiff : g.rcvr.pktsRecd+1 > 10 ↔ g.rcvr.pktsRecd.toNat = 10 := by
    have h10 : (10 : UInt8).toNat = 10 := rfl
    rw [gt_iff_lt, UInt8.lt_iff_toNat_lt, hone, h10]
    omega
  rw [hflags, hp.hasRTS_eq, hp.isStatus_eq, hafter, if_neg (fun h => Bool.false_ne_true h.1),
    List.nil_append]
  simp only [true_and, hiff]

/-- A request is counted off, or answered if there is nothing left. -/
theorem step_request (io : DasIO) (serio : SerioLib) (g : UdpGateway out)
    (u : XiomasUdpTxmtr out) (hbuf : g.rcvr.ibuf.buf = []) (hu : g.xutr = some u)
    (hable : u.Able) (p : List UInt8) (hp : SendRequest p) :
    ∃ g', g.protocolInput io serio p = some g' ∧ g'.rcvr.ibuf.buf = [] ∧
      g'.rcvr.pktsRecd.toNat = g.rcvr.pktsRecd.toNat-1 ∧ g'.forwarded = g.forwarded ∧
      g'.flagsSent = g.flagsSent ++ if g.rcvr.pktsRecd.toNat = 0 then [Xhf.cts] else [] := by
  obtain ⟨g', hg', hbuf', hcount, hfwd, hflags⟩ :=
    protocolInput_spec io serio g u hbuf hu hable p hp.toScannerPacket
  have hafter := toNat_countAfterRTS g.rcvr.pktsRecd _ rfl p
  rw [hp.hasRTS_eq, if_pos rfl] at hafter
  rw [hp.isStatus_eq, if_neg Bool.false_ne_true] at hcount
  rw [hp.isStatus_eq, if_neg Bool.false_ne_true, List.append_nil] at hfwd
  refine ⟨g', hg', hbuf', by rw [hcount, hafter], hfwd, ?_⟩
  have hiff : g.rcvr.pktsRecd = 0 ↔ g.rcvr.pktsRecd.toNat = 0 := by
    rw [← UInt8.toNat_inj]
    rfl
  rw [hflags, hp.hasRTS_eq, hp.isStatus_eq]
  simp only [true_and, Bool.false_eq_true, false_and, if_false, List.append_nil, hiff]

/-- A request to send, with nothing else in it. -/
def bareRequest : List UInt8 := xhgFillHeader Xhpid.gwControl Xhsrc.scanner Xhf.rts 0 7

theorem bareRequest_sendRequest : SendRequest bareRequest :=
  ⟨⟨by decide, by decide, by decide, Or.inl (by decide)⟩, by decide, by decide⟩

theorem bareStatus_plainStatus : PlainStatus bareStatus :=
  ⟨bareStatus_scannerPacket, by decide, by decide⟩

theorem answered_append (holding : Bool) (g g' : UdpGateway out) (flags : List UInt8)
    (h : g'.flagsSent = g.flagsSent ++ flags) :
    answered holding g g' = flags.foldl hear holding := by
  rw [answered, h, List.drop_left]

/-- The invariant: of the status packets that came in, eleven belong to each time the scanner
was held off, and the others have been counted since. -/
structure InTurns (s : ScannerLoop out) : Prop where
  buf_eq : s.gate.rcvr.ibuf.buf = []
  count_le : s.gate.rcvr.pktsRecd.toNat ≤ if s.holding then 11 else 10
  forwarded_eq : s.gate.forwarded.length = 11*s.gate.flagsSent.count Xhf.ncts+
    if s.holding then 0 else s.gate.rcvr.pktsRecd.toNat

theorem send_inTurns (io : DasIO) (serio : SerioLib) (s : ScannerLoop out) (p : List UInt8)
    (h : s.InTurns) (hobeys : if s.holding then SendRequest p else PlainStatus p)
    (hans : ∃ u, s.gate.xutr = some u ∧ u.Able) :
    ∃ g', s.gate.protocolInput io serio p = some g' ∧
      InTurns ⟨g',answered s.holding s.gate g'⟩ := by
  obtain ⟨u, hu, hable⟩ := hans
  have hle := h.count_le
  have hfwd := h.forwarded_eq
  cases hhold : s.holding with
  | false =>
    -- A status packet: the count goes up, and with the eleventh the turn is over.
    rw [hhold, if_neg Bool.false_ne_true] at hle hfwd hobeys
    obtain ⟨g', hg', hbuf', hcount', hfwd', hflags'⟩ :=
      step_status io serio s.gate u h.buf_eq hu hable p hobeys hle
    refine ⟨g', hg', hbuf', ?_, ?_⟩
    · rw [answered_append _ _ _ _ hflags']
      dsimp only
      by_cases hten : s.gate.rcvr.pktsRecd.toNat = 10
      · have hheld : [Xhf.ncts].foldl hear false = true := by decide
        rw [if_pos hten, hheld, if_pos rfl]
        omega
      · rw [if_neg hten, List.foldl_nil, if_neg Bool.false_ne_true, hcount']
        omega
    · rw [answered_append _ _ _ _ hflags']
      dsimp only
      rw [hfwd', List.length_append, List.length_singleton, hflags', List.count_append, hcount']
      by_cases hten : s.gate.rcvr.pktsRecd.toNat = 10
      · have hheld : [Xhf.ncts].foldl hear false = true := by decide
        rw [if_pos hten, hheld, if_pos rfl, List.count_singleton_self]
        omega
      · rw [if_neg hten, List.foldl_nil, if_neg Bool.false_ne_true, List.count_nil]
        omega
  | true =>
    -- A request: the count goes down, and at 0 the next turn begins.
    rw [hhold, if_pos rfl] at hle hfwd hobeys
    obtain ⟨g', hg', hbuf', hcount', hfwd', hflags'⟩ :=
      step_request io serio s.gate u h.buf_eq hu hable p hobeys
    refine ⟨g', hg', hbuf', ?_, ?_⟩
    · rw [answered_append _ _ _ _ hflags']
      dsimp only
      rw [hcount']
      by_cases hzero : s.gate.rcvr.pktsRecd.toNat = 0
      · have hlet : [Xhf.cts].foldl hear true = false := by decide
        rw [if_pos hzero, hlet, if_neg Bool.false_ne_true, hzero]
        exact Nat.zero_le _
      · rw [if_neg hzero, List.foldl_nil, if_pos rfl]
        omega
    · rw [answered_append _ _ _ _ hflags']
      dsimp only
      rw [hfwd', hflags', List.count_append, hcount']
      by_cases hzero : s.gate.rcvr.pktsRecd.toNat = 0
      · have hnone : [Xhf.cts].count Xhf.ncts = 0 := by decide
        rw [if_pos hzero, hnone, hzero, ite_self]
        omega
      · rw [if_neg hzero, List.foldl_nil, if_pos rfl, List.count_nil]
        omega

/-- What happens at the two other ends of the gateway is nothing to the scanner. -/
theorem InTurns.gate {s : ScannerLoop out} (h : s.InTurns) {g : UdpGateway out}
    (hrcvr : g.rcvr = s.gate.rcvr) (hfwd : g.forwarded = s.gate.forwarded)
    (hflags : g.flagsSent = s.gate.flagsSent) : InTurns {s with gate := g} := by
  refine ⟨?_, ?_, ?_⟩
  · rw [hrcvr]
    exact h.buf_eq
  · rw [hrcvr]
    exact h.count_le
  · rw [hrcvr, hfwd, hflags]
    exact h.forwarded_eq

theorem flagsSent_xutrSocket (g : UdpGateway out) (sock : out.State) :
    flagsSent {g with xutr := g.xutr.map fun u => {u with sock := sock}} = g.flagsSent := by
  rw [flagsSent, flagsSent]
  cases g.xutr <;> rfl

theorem step_inTurns (io : DasIO) (serio : SerioLib) (ok : OkParser) (s : ScannerLoop out)
    (e : ScannerEvent out) (h : s.InTurns) (hobeys : s.Obeys e) (hans : s.Answers e) :
    ∃ s', s.step io serio ok e = some s' ∧ s'.InTurns := by
  cases e with
  | send p arrives heard =>
    cases arrives with
    | false => exact ⟨s, rfl, h⟩
    | true =>
      obtain ⟨rfl, hable⟩ := hans rfl
      obtain ⟨g', hg', hturns⟩ := send_inTurns io serio s p h hobeys hable
      refine ⟨_, ?_, hturns⟩
      rw [step, if_pos rfl, hg', Option.map_some, if_pos rfl]
  | xutrSocket sock => exact ⟨_, rfl, h.gate rfl rfl (flagsSent_xutrSocket s.gate sock)⟩
  | exportInput bytes => exact ⟨_, rfl, h.gate rfl rfl rfl⟩
  | exportSocket sock => exact ⟨_, rfl, h.gate rfl rfl rfl⟩

/-- Status packets that arrive are counted up to the hold. -/
theorem statuses_hold (io : DasIO) (serio : SerioLib) (ok : OkParser) (s : ScannerLoop .direct)
    (hbuf : s.gate.rcvr.ibuf.buf = []) (hhold : s.holding = false) (hlinked : s.gate.Linked)
    (ps : List (List UInt8)) (hps : ∀ p ∈ ps, PlainStatus p)
    (hlen : s.gate.rcvr.pktsRecd.toNat+ps.length ≤ 11) (hle : s.gate.rcvr.pktsRecd.toNat ≤ 10) :
    Run.Along (step io serio ok) (fun s e => s.Obeys e ∧ s.Answers e) s
      (ps.map (.send · true true)) ∧
    ∃ s', Run.run (step io serio ok) s (ps.map (.send · true true)) = some s' ∧
      s'.holding = decide (s.gate.rcvr.pktsRecd.toNat+ps.length = 11) ∧
      s'.gate.rcvr.ibuf.buf = [] ∧
      s'.gate.rcvr.pktsRecd.toNat = s.gate.rcvr.pktsRecd.toNat+ps.length ∧
      s'.gate.forwarded.length = s.gate.forwarded.length+ps.length ∧ s'.gate.Linked := by
  induction ps generalizing s with
  | nil =>
    refine ⟨trivial, s, rfl, ?_, hbuf, rfl, rfl, hlinked⟩
    rw [hhold, List.length_nil]
    exact (decide_eq_false (by omega)).symm
  | cons p ps ih =>
    obtain ⟨u, hu, hconn⟩ := hlinked
    obtain ⟨g', hg', hbuf', hcount', hfwd', hflags'⟩ := step_status io serio s.gate u hbuf hu
      ⟨hconn, rfl⟩ p (hps p List.mem_cons_self) hle
    obtain ⟨g, hg, hlinked'⟩ := Linked.step ⟨u, hu, hconn⟩ io serio ok (.packet p)
    obtain rfl : g' = g := Option.some.inj (hg'.symm.trans hg)
    have hstep : s.step io serio ok (.send p true true) =
        some ⟨g',answered s.holding s.gate g'⟩ := by
      rw [step, if_pos rfl, hg', Option.map_some, if_pos rfl]
    have hobeys : s.Obeys (.send p true true) := by
      rw [Obeys, hhold, if_neg Bool.false_ne_true]
      exact hps p List.mem_cons_self
    have hans : s.Answers (.send p true true) := fun _ => ⟨rfl, u, hu, hconn, rfl⟩
    rw [List.length_cons] at hlen
    rw [List.map_cons, Run.along_cons_of_step _ hstep, Run.run_cons_of_step _ hstep,
      List.length_cons, answered_append _ _ _ _ hflags', hhold]
    have hmore : g'.forwarded.length = s.gate.forwarded.length+1 := by
      rw [hfwd', List.length_append, List.length_singleton]
    by_cases hten : s.gate.rcvr.pktsRecd.toNat = 10
    · -- The eleventh packet is the last one, and it is answered.
      obtain rfl : ps = [] := List.eq_nil_of_length_eq_zero (by omega)
      refine ⟨⟨⟨hobeys, hans⟩, trivial⟩, _, rfl, ?_, hbuf', hcount', hmore, hlinked'⟩
      rw [if_pos hten, hten]
      rfl
    · rw [if_neg hten]
      obtain ⟨halong, s', hs', hheld, hsbuf, hscount, hsfwd, hslinked⟩ := ih ⟨g',false⟩ hbuf' rfl
        hlinked' (fun q hq => hps q (List.mem_cons_of_mem p hq)) (by dsimp only; omega)
        (by dsimp only; omega)
      dsimp only at hheld hscount hsfwd
      refine ⟨⟨⟨hobeys, hans⟩, halong⟩, s', hs', ?_, hsbuf, by omega, by omega, hslinked⟩
      rw [hheld, hcount', decide_eq_decide]
      omega

/-- A scanner that does as it is told, over a link that loses none of the answers: the counter
never gets beyond 11, so it does not wrap around, and the scanner is held off after every
eleven status packets that come in, no sooner and no later. -/
theorem scanner_in_turns (io : DasIO) (serio : SerioLib) (ok : OkParser) (g : UdpGateway out)
    (u : XiomasUdpTxmtr out) (hstart : g.Started u) (holding : Bool)
    (es : List (ScannerEvent out))
    (hes : Run.Along (step io serio ok) (fun s e => s.Obeys e ∧ s.Answers e) ⟨g,holding⟩ es) :
    Run.Throughout (step io serio ok) (fun _ s =>
      s.gate.rcvr.pktsRecd.toNat ≤ 11 ∧
      s.gate.forwarded.length = 11*s.gate.flagsSent.count Xhf.ncts+
        if s.holding then 0 else s.gate.rcvr.pktsRecd.toNat) ⟨g,holding⟩ es := by
  have hfirst : InTurns ⟨g,holding⟩ := by
    refine ⟨by rw [hstart.rcvr_eq]; rfl, by rw [hstart.rcvr_eq]; exact Nat.zero_le _, ?_⟩
    have hflags : g.flagsSent = [] := by
      rw [flagsSent, hstart.xutr_eq, Option.elim_some, hstart.iwrites_eq]
      rfl
    dsimp only
    rw [hstart.rcvr_eq, hstart.forwarded_eq, hflags]
    cases holding <;> rfl
  intro fs hfs
  obtain ⟨s, hs, hturns⟩ := Run.run_invariant (step io serio ok) _ InTurns
    (fun s e h he => step_inTurns io serio ok s e h he.1 he.2) ⟨g,holding⟩ fs hfirst
    (Run.along_of_isPrefix _ _ fs es hfs hes)
  refine ⟨s, hs, ?_, hturns.forwarded_eq⟩
  have hle := hturns.count_le
  split at hle <;> omega

/-- Eleven status packets, and a request while the scanner holds off. -/
def heldRun : List (ScannerEvent .direct) :=
  (List.replicate 11 bareStatus).map (.send · true true) ++ [.send bareRequest true true]

theorem scanner_in_turns_held : ∃ s : ScannerLoop .direct,
    Run.run (step DasIO.keeping SerioLib.packed OkParser.scanning) ⟨direct,false⟩ heldRun =
      some s ∧
    s.holding = true ∧ s.gate.forwarded.length = 11 ∧ s.gate.flagsSent.count Xhf.ncts = 1 := by
  have hstatus : ∀ p ∈ List.replicate 11 bareStatus, PlainStatus p := fun p hp =>
    List.eq_of_mem_replicate hp ▸ bareStatus_plainStatus
  obtain ⟨halong, t, ht, hheld, htbuf, htcount, htfwd, u, hu, hconn⟩ := statuses_hold
    DasIO.keeping SerioLib.packed OkParser.scanning ⟨direct,false⟩ rfl rfl ⟨_, rfl, rfl⟩ _ hstatus
    (Nat.le_refl 11) (Nat.zero_le 10)
  replace hheld : t.holding = true := hheld
  replace htcount : t.gate.rcvr.pktsRecd.toNat = 11 := htcount
  replace htfwd : t.gate.forwarded.length = 11 := htfwd
  obtain ⟨g', hg', -, -, hfwd', hflags'⟩ := step_request DasIO.keeping SerioLib.packed t.gate u
    htbuf hu ⟨hconn, rfl⟩ bareRequest bareRequest_sendRequest
  rw [htcount, if_neg (by decide)] at hflags'
  have hstep : t.step DasIO.keeping SerioLib.packed OkParser.scanning
      (.send bareRequest true true) = some ⟨g',true⟩ := by
    rw [step, if_pos rfl, hg', Option.map_some, if_pos rfl, answered_append _ _ _ _ hflags', hheld]
    rfl
  have hobeys : t.Obeys (.send bareRequest true true) := by
    rw [Obeys, hheld, if_pos rfl]
    exact bareRequest_sendRequest
  obtain ⟨s, hs, -, hlen⟩ := scanner_in_turns DasIO.keeping SerioLib.packed OkParser.scanning
    direct _ direct_started false heldRun
    ((Run.along_append _ ht _).mpr
      ⟨halong, ⟨hobeys, fun _ => ⟨rfl, u, hu, hconn, rfl⟩⟩, fun _ _ => trivial⟩) _ List.prefix_rfl
  have hsame : some s = some ⟨g',true⟩ := hs.symm.trans ((Run.run_concat _ ht _).trans hstep)
  obtain rfl := Option.some.inj hsame
  have heleven : g'.forwarded.length = 11 := by rw [hfwd', htfwd]
  dsimp only at hlen
  rw [if_pos rfl] at hlen
  have hone : g'.flagsSent.count Xhf.ncts = 1 := by omega
  exact ⟨_, hs, rfl, heleven, hone⟩

/-- Whatever has happened, the gateway is ready for the next packet. -/
theorem step_gate_ready (io : DasIO) (serio : SerioLib) (ok : OkParser) (s s' : ScannerLoop out)
    (e : ScannerEvent out) (h : ∃ ds, s.gate.Ready serio ds)
    (hs : s.step io serio ok e = some s') : ∃ ds, s'.gate.Ready serio ds := by
  obtain ⟨ds, h⟩ := h
  cases e with
  | send p arrives heard =>
    cases arrives with
    | false =>
      obtain rfl := Option.some.inj hs
      exact ⟨ds, h⟩
    | true =>
      obtain ⟨g', hg', hr⟩ := protocolInput_ready io serio ds s.gate p h
      rw [step, if_pos rfl, hg'] at hs
      obtain rfl := Option.some.inj hs
      exact ⟨_, hr⟩
  | xutrSocket sock =>
    obtain rfl := Option.some.inj hs
    exact ⟨ds, ⟨h.trace_eq, h.forwarded_eq, h.carried⟩, h.buf_eq,
      (Option.isSome_map ..).trans h.isSome⟩
  | exportInput bytes =>
    obtain ⟨sent, hsent⟩ := h.carried
    obtain rfl := Option.some.inj hs
    exact ⟨ds, ⟨h.trace_eq, h.forwarded_eq, sent, hsent.udpStep io ok (.input bytes) (by simp)⟩,
      h.buf_eq, h.isSome⟩
  | exportSocket sock =>
    obtain ⟨sent, hsent⟩ := h.carried
    obtain rfl := Option.some.inj hs
    exact ⟨ds, ⟨h.trace_eq, h.forwarded_eq, sent, hsent.udpStep io ok (.socket sock) (by simp)⟩,
      h.buf_eq, h.isSome⟩

/-- Requests that arrive and are answered count the counter down to the release. -/
theorem requests_release (io : DasIO) (serio : SerioLib) (ok : OkParser) (s : ScannerLoop out)
    (rs : List (List UInt8)) (hbuf : s.gate.rcvr.ibuf.buf = []) (hhold : s.holding = true)
    (hrs : ∀ p ∈ rs, SendRequest p) (hlen : rs.length ≤ s.gate.rcvr.pktsRecd.toNat+1)
    (hans : Run.Along (step io serio ok) Answers s (rs.map (.send · true true))) :
    ∃ s', Run.run (step io serio ok) s (rs.map (.send · true true)) = some s' ∧
      s'.holding = decide (rs.length ≤ s.gate.rcvr.pktsRecd.toNat) := by
  induction rs generalizing s with
  | nil => exact ⟨s, rfl, by rw [hhold]; simp⟩
  | cons p rs ih =>
    obtain ⟨-, u, hu, hable⟩ := hans.1 rfl
    obtain ⟨g', hg', hbuf', hcount', -, hflags'⟩ :=
      step_request io serio s.gate u hbuf hu hable p (hrs p List.mem_cons_self)
    have hstep : s.step io serio ok (.send p true true) =
        some ⟨g',answered s.holding s.gate g'⟩ := by
      rw [step, if_pos rfl, hg', Option.map_some, if_pos rfl]
    rw [List.length_cons] at hlen
    rw [List.map_cons, Run.run_cons_of_step _ hstep, List.length_cons]
    rw [answered_append _ _ _ _ hflags', hhold] at hstep ⊢
    by_cases hzero : s.gate.rcvr.pktsRecd.toNat = 0
    · -- The last one: there is nothing left, and the answer is to send.
      obtain rfl : rs = [] := List.eq_nil_of_length_eq_zero (by omega)
      refine ⟨_, rfl, ?_⟩
      rw [if_pos hzero, hzero]
      rfl
    · rw [if_neg hzero] at hstep ⊢
      obtain ⟨s', hs', heq⟩ := ih ⟨g',true⟩ hbuf' rfl
        (fun q hq => hrs q (List.mem_cons_of_mem p hq)) (by dsimp only; omega) (hans.2 _ hstep)
      refine ⟨s', hs', heq.trans ?_⟩
      dsimp only
      rw [hcount', decide_eq_decide]
      omega

/-- With a socket that writes at once, a connected transmitter answers all there is. -/
theorem answers_along (io : DasIO) (serio : SerioLib) (ok : OkParser) (s : ScannerLoop .direct)
    (h : s.gate.Linked) (ps : List (List UInt8)) :
    Run.Along (step io serio ok) Answers s (ps.map (.send · true true)) := by
  induction ps generalizing s with
  | nil => trivial
  | cons p ps ih =>
    obtain ⟨u, hu, hconn⟩ := h
    refine ⟨fun _ => ⟨rfl, u, hu, hconn, rfl⟩, fun s' hs' => ?_⟩
    obtain ⟨g', hg', hlinked⟩ := Linked.step ⟨u, hu, hconn⟩ io serio ok (.packet p)
    change s.gate.protocolInput io serio p = some g' at hg'
    rw [step, if_pos rfl, hg'] at hs'
    obtain rfl := Option.some.inj hs'
    exact ih _ hlinked

/-- Whatever was sent before, by anyone, and whatever of it got lost: a scanner that holds off
and asks to send is let go by the request behind those that its packets are counted off with,
and by none before that, as soon as requests and answers get through. -/
theorem scanner_released (io : DasIO) (serio : SerioLib) (ok : OkParser) (g : UdpGateway out)
    (u : XiomasUdpTxmtr out) (sock : out.State) (hstart : g.Started u)
    (hexp : g.exp = XiomasUdpExport.new sock) (holding : Bool) (es : List (ScannerEvent out))
    (s : ScannerLoop out) (hs : Run.run (step io serio ok) ⟨g,holding⟩ es = some s)
    (hhold : s.holding = true) (rs : List (List UInt8)) (hrs : ∀ p ∈ rs, SendRequest p)
    (hlen : rs.length ≤ s.gate.rcvr.pktsRecd.toNat+1)
    (hans : Run.Along (step io serio ok) Answers s (rs.map (.send · true true))) :
    ∃ s', Run.run (step io serio ok) s (rs.map (.send · true true)) = some s' ∧
      s'.holding = decide (rs.length ≤ s.gate.rcvr.pktsRecd.toNat) := by
  obtain ⟨ds, hready⟩ := Run.run_keeps (step io serio ok) (fun _ _ => True)
    (fun _ s => ∃ ds, s.gate.Ready serio ds)
    (fun _ s e s' h _ hs => step_gate_ready io serio ok s s' e h hs) [] ⟨g,holding⟩ s es
    ⟨[], ready_started serio sock g u hstart hexp⟩ (Run.along_true _ _ es) hs
  exact requests_release io serio ok s rs hready.buf_eq hhold hrs hlen hans

theorem scanner_released_second : ∃ s s' : ScannerLoop .direct,
    Run.run (step DasIO.keeping SerioLib.packed OkParser.scanning) ⟨direct,true⟩
      [.send bareStatus true false] = some s ∧
    Run.run (step DasIO.keeping SerioLib.packed OkParser.scanning) s
      [.send bareRequest true true,.send bareRequest true true] = some s' ∧
    s'.holding = false := by
  obtain ⟨s, hs, hhold, hcount, hlinked⟩ : ∃ s : ScannerLoop .direct,
      Run.run (step DasIO.keeping SerioLib.packed OkParser.scanning) ⟨direct,true⟩
        [.send bareStatus true false] = some s ∧ s.holding = true ∧
      s.gate.rcvr.pktsRecd.toNat = 1 ∧ s.gate.Linked :=
    ⟨_, rfl, rfl, by decide, _, rfl, rfl⟩
  obtain ⟨s', hs', hlet⟩ := scanner_released DasIO.keeping SerioLib.packed OkParser.scanning direct
    _ () direct_started rfl true [.send bareStatus true false] s hs hhold
    (List.replicate 2 bareRequest)
    (fun p hp => List.eq_of_mem_replicate hp ▸ bareRequest_sendRequest)
    (by rw [hcount]; exact Nat.le_refl 2) (answers_along _ _ _ s hlinked _)
  rw [hcount] at hlet
  exact ⟨s, s', hs, hs', hlet⟩

end ScannerLoop
end Cosmid.Xiomas
