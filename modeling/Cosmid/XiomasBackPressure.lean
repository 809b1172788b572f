import Cosmid.XiomasUdpRcvr

/-! What `xiomas_udp_rcvr` tells the scanner, against the backlog: the status packets
that have come in less those the scanner has asked for. -/
namespace Cosmid.Xiomas

variable {out : OutputSocket}

def isStatus (p : List UInt8) : Bool :=
  decide (mPacketID (p.take xioHarvardHeaderSize) = Xhpid.xioStatus)

def hasRTS (p : List UInt8) : Bool :=
  decide (mFlags (p.take xioHarvardHeaderSize) &&& Xhf.rts ≠ 0)

/-- A valid status or control packet of the scanner. -/
structure ScannerPacket (p : List UInt8) : Prop where
  length_le : xioHarvardHeaderSize ≤ p.length
  valid : xhgValidateHeader (p.take xioHarvardHeaderSize) p.length = true
  source : mSource (p.take xioHarvardHeaderSize) = Xhsrc.scanner
  kind : mPacketID (p.take xioHarvardHeaderSize) = Xhpid.gwControl ∨
    mPacketID (p.take xioHarvardHeaderSize) = Xhpid.xioStatus

/-- The request to send counts first. -/
def backlogStep (b : ℕ) (p : List UInt8) : ℕ :=
  (if hasRTS p then b-1 else b)+(if isStatus p then 1 else 0)

def backlog (ps : List (List UInt8)) : ℕ := ps.foldl backlogStep 0

/-- The flags due on a packet that finds the backlog at `b`. -/
def dueFlags (b : ℕ) (p : List UInt8) : List UInt8 :=
  (if hasRTS p ∧ b = 0 then [Xhf.cts] else []) ++
    if isStatus p ∧ backlogStep b p > 10 then [Xhf.ncts] else []

def flagsDue (b : ℕ) : List (List UInt8) → List UInt8
  | [] => []
  | p :: ps => dueFlags b p ++ flagsDue (backlogStep b p) ps

theorem backlog_concat (ps : List (List UInt8)) (p : List UInt8) :
    backlog (ps ++ [p]) = backlogStep (backlog ps) p := by
  rw [backlog, List.foldl_append]
  rfl

theorem backlog_le_length (ps : List (List UInt8)) : backlog ps ≤ ps.length := by
  suffices hgen : ∀ b, ps.foldl backlogStep b ≤ b+ps.length by simpa [backlog] using hgen 0
  induction ps with
  | nil => exact fun b => Nat.le_refl b
  | cons p ps ih =>
    intro b
    have hstep : backlogStep b p ≤ b+1 := by
      rw [backlogStep]
      split_ifs <;> omega
    have hrest := ih (backlogStep b p)
    rw [List.foldl_cons, List.length_cons]
    omega

theorem flagsDue_concat (b : ℕ) (ps : List (List UInt8)) (p : List UInt8) :
    flagsDue b (ps ++ [p]) = flagsDue b ps ++ dueFlags (ps.foldl backlogStep b) p := by
  induction ps generalizing b with
  | nil => simp [flagsDue]
  | cons q ps ih => rw [List.cons_append, flagsDue, ih, flagsDue, List.append_assoc, List.foldl_cons]

/-- The packets among the events. -/
def UdpGatewayEvent.packets (es : List (UdpGatewayEvent out)) : List (List UInt8) :=
  es.filterMap fun | .packet p => some p | _ => none

theorem UdpGatewayEvent.packets_concat (es : List (UdpGatewayEvent out))
    (e : UdpGatewayEvent out) :
    packets (es ++ [e]) = packets es ++ match e with | .packet p => [p] | _ => [] := by
  cases e <;> simp [packets]

namespace UdpGateway

open UdpGatewayEvent

/-- The flags of the control packets sent so far. -/
def flagsSent (g : UdpGateway out) : List UInt8 :=
  (g.xutr.elim [] XiomasUdpTxmtr.iwrites).map mFlags

/-- The scanner has been told what was due, and the status packets went to the exporter. -/
structure FollowsBacklog (ps : List (List UInt8)) (g : UdpGateway out) : Prop where
  flags_eq : g.flagsSent = flagsDue 0 ps
  forwarded_eq : g.forwarded = ps.filter isStatus

/-- A valid packet arrives while the transmitter can send. -/
def AbleToAnswer (g : UdpGateway out) : UdpGatewayEvent out → Prop
  | .packet p => ScannerPacket p ∧ ∃ u, g.xutr = some u ∧ u.Able
  | _ => True

/-- The invariant: the counter is the backlog. -/
structure CountsBacklog (ps : List (List UInt8)) (g : UdpGateway out) : Prop where
  buf_eq : g.rcvr.ibuf.buf = []
  count_eq : g.rcvr.pktsRecd.toNat = backlog ps
  follows : g.FollowsBacklog ps

theorem mFlags_xhgFillHeader (pid src flags : UInt8) (len count : UInt32) :
    mFlags (xhgFillHeader pid src flags len count) = flags := rfl

/-- A control packet goes out, and nothing else changes that matters here. -/
theorem sendFlag_spec (g : UdpGateway out) (u : XiomasUdpTxmtr out) (hu : g.xutr = some u)
    (hable : u.Able) (flag : UInt8) :
    ∃ g', g.sendFlag flag = some g' ∧ g'.flagsSent = g.flagsSent ++ [flag] ∧
      g'.rcvr.pktsRecd = g.rcvr.pktsRecd ∧ g'.rcvr.ibuf = g.rcvr.ibuf ∧
      g'.forwarded = g.forwarded := by
  rw [sendFlag, hu, Option.map_some]
  refine ⟨_, rfl, ?_, rfl, rfl, rfl⟩
  simp only [flagsSent, hu, hable.send_eq, Option.elim_some, List.map_append, List.map_cons,
    List.map_nil, mFlags_xhgFillHeader]

/-- The request to send is answered only if the counter is at 0, and then leaves the
counter there. -/
theorem countRTS_spec (g : UdpGateway out) (u : XiomasUdpTxmtr out) (hu : g.xutr = some u)
    (hable : u.Able) (p : List UInt8) :
    ∃ g', g.countRTS (p.take xioHarvardHeaderSize) = some g' ∧
      g'.rcvr.pktsRecd = (if hasRTS p ∧ g.rcvr.pktsRecd ≠ 0 then g.rcvr.pktsRecd-1
        else g.rcvr.pktsRecd) ∧
      g'.rcvr.ibuf = g.rcvr.ibuf ∧ g'.forwarded = g.forwarded ∧
      ((¬(hasRTS p ∧ g.rcvr.pktsRecd = 0) ∧ g'.xutr = some u) ∨
        (hasRTS p ∧ g.rcvr.pktsRecd = 0 ∧ g'.flagsSent = g.flagsSent ++ [Xhf.cts])) := by
  have hcts : g.cts = (true, g) := by
    rw [cts, hu]
    dsimp only
    rw [hable.cts_eq, ← hu]
  unfold countRTS
  by_cases hrts : mFlags (p.take xioHarvardHeaderSize) &&& Xhf.rts ≠ 0
  · have hp : hasRTS p = true := decide_eq_true hrts
    rw [if_pos hrts, hcts]
    dsimp only
    rw [if_pos rfl]
    by_cases hzero : g.rcvr.pktsRecd = 0
    · rw [if_neg (by rw [hzero]; decide)]
      obtain ⟨g', hg', hflags, hcount, hbuf, hfwd⟩ := sendFlag_spec g u hu hable Xhf.cts
      refine ⟨g', hg', ?_, hbuf, hfwd, Or.inr ⟨hp, hzero, hflags⟩⟩
      rw [if_neg (fun h => h.2 hzero), hcount]
    · rw [if_pos (by simpa [UInt8.pos_iff_ne_zero] using hzero)]
      refine ⟨_, rfl, ?_, rfl, rfl, Or.inl ⟨fun h => hzero h.2, hu⟩⟩
      rw [if_pos ⟨hp, hzero⟩]
  · have hp : hasRTS p = false := decide_eq_false hrts
    rw [if_neg hrts]
    refine ⟨g, rfl, ?_, rfl, rfl, Or.inl ⟨by simp [hp], hu⟩⟩
    rw [if_neg (by simp [hp])]

/-- A status packet raises the counter, and goes to the exporter in any case. -/
theorem takePacket_spec (serio : SerioLib) (g : UdpGateway out) (p packet : List UInt8)
    (hp : ScannerPacket p)
    (hable : g.rcvr.pktsRecd+1 > 10 → ∃ u, g.xutr = some u ∧ u.Able) :
    ∃ g', g.takePacket serio (p.take xioHarvardHeaderSize) packet = some g' ∧
      g'.rcvr.pktsRecd = (if isStatus p then g.rcvr.pktsRecd+1 else g.rcvr.pktsRecd) ∧
      g'.rcvr.ibuf = g.rcvr.ibuf ∧
      g'.forwarded = g.forwarded ++ (if isStatus p then [packet] else []) ∧
      g'.flagsSent = g.flagsSent ++
        (if isStatus p ∧ g.rcvr.pktsRecd+1 > 10 then [Xhf.ncts] else []) := by
  unfold takePacket
  rcases hp.kind with hgw | hst
  · have hns : isStatus p = false := decide_eq_false (by rw [hgw]; decide)
    rw [if_pos hgw, hns]
    exact ⟨g, rfl, rfl, rfl, (List.append_nil _).symm, by simp⟩
  · have hs : isStatus p = true := decide_eq_true hst
    rw [if_neg (by rw [hst]; decide), if_pos hst, hs]
    dsimp only
    by_cases hten : g.rcvr.pktsRecd+1 > 10
    · obtain ⟨u, hu, hua⟩ := hable hten
      obtain ⟨g', hg', hflags, hcount, hbuf, hfwd⟩ := sendFlag_spec
        {g with rcvr := {g.rcvr with pktsRecd := g.rcvr.pktsRecd+1}} u hu hua Xhf.ncts
      rw [if_pos hten, hg', Option.map_some]
      refine ⟨_, rfl, hcount, hbuf, ?_, ?_⟩
      · dsimp only
        rw [hfwd, if_pos rfl]
      · rw [if_pos ⟨rfl, hten⟩]
        exact hflags
    · rw [if_neg hten, Option.map_some]
      refine ⟨_, rfl, rfl, rfl, rfl, ?_⟩
      rw [if_neg (fun h => hten h.2), List.append_nil]
      rfl

theorem requestConnect_able (g : UdpGateway out) (u : XiomasUdpTxmtr out) (hu : g.xutr = some u)
    (hable : u.Able) :
    g.requestConnect = {g with rcvr := {g.rcvr with connectRequested := true}} := by
  have hcts : g.cts = (true, g) := by
    rw [cts, hu]
    dsimp only
    rw [hable.cts_eq, ← hu]
  unfold requestConnect
  rw [hcts]
  split_ifs with h
  · rw [← h]
  · rfl

/-- The counter after the request to send of a packet, if there is one. -/
def countAfterRTS (n : UInt8) (p : List UInt8) : UInt8 := if hasRTS p ∧ n ≠ 0 then n-1 else n

/-- What one valid packet does, in terms of the counter. -/
theorem checkPacket_spec (io : DasIO) (serio : SerioLib) (g : UdpGateway out)
    (u : XiomasUdpTxmtr out) (p : List UInt8) (hbuf : g.rcvr.ibuf.buf = p) (hu : g.xutr = some u)
    (hable : u.Able) (hp : ScannerPacket p) :
    ∃ g', g.checkPacket io serio = some g' ∧ g'.rcvr.ibuf.buf = [] ∧
      g'.rcvr.pktsRecd = (if isStatus p then countAfterRTS g.rcvr.pktsRecd p+1
        else countAfterRTS g.rcvr.pktsRecd p) ∧
      g'.forwarded = g.forwarded ++ (if isStatus p then [p] else []) ∧
      g'.flagsSent = g.flagsSent ++ ((if hasRTS p ∧ g.rcvr.pktsRecd = 0 then [Xhf.cts] else []) ++
        if isStatus p ∧ countAfterRTS g.rcvr.pktsRecd p+1 > 10 then [Xhf.ncts] else []) := by
  obtain ⟨g1, hg1, hcount1, hbuf1, hfwd1, hrts⟩ := countRTS_spec g u hu hable p
  have hcount : g1.rcvr.pktsRecd = countAfterRTS g.rcvr.pktsRecd p := hcount1
  -- At most one control packet: behind a CTS the counter is at 0.
  have hable1 : g1.rcvr.pktsRecd+1 > 10 → ∃ u', g1.xutr = some u' ∧ u'.Able := by
    intro hten
    rcases hrts with ⟨-, hxutr⟩ | ⟨-, hzero, -⟩
    · exact ⟨u, hxutr, hable⟩
    · rw [hcount, countAfterRTS, hzero, if_neg (fun h => h.2 rfl)] at hten
      exact absurd hten (by decide)
  obtain ⟨g2, hg2, hcount2, hbuf2, hfwd2, hflags2⟩ := takePacket_spec serio g1 p p hp hable1
  refine ⟨g2.setIbuf (io.reportOk g.rcvr.ibuf.nc g.rcvr.ibuf), ?_, ?_, ?_, ?_, ?_⟩
  · simp only [checkPacket, hbuf]
    rw [if_neg (Nat.not_lt.mpr hp.length_le), hp.valid, if_neg (by decide),
      if_neg (not_not.mpr hp.source), hg1, Option.bind_some, hg2, Option.map_some]
  · dsimp only [setIbuf]
    rw [io.reportOk_buf]
    exact List.drop_length
  · dsimp only [setIbuf]
    rw [hcount2, hcount]
  · dsimp only [setIbuf]
    rw [hfwd2, hfwd1]
  · change g2.flagsSent = _
    rw [hflags2, hcount, ← List.append_assoc]
    congr 1
    rcases hrts with ⟨hno, hxutr⟩ | ⟨hyes, hzero, hsent⟩
    · rw [if_neg hno, List.append_nil, flagsSent, flagsSent, hxutr, hu]
    · rw [if_pos ⟨hyes, hzero⟩]
      exact hsent

theorem protocolInput_spec (io : DasIO) (serio : SerioLib) (g : UdpGateway out)
    (u : XiomasUdpTxmtr out) (hbuf : g.rcvr.ibuf.buf = []) (hu : g.xutr = some u)
    (hable : u.Able) (p : List UInt8) (hp : ScannerPacket p) :
    ∃ g', g.protocolInput io serio p = some g' ∧ g'.rcvr.ibuf.buf = [] ∧
      g'.rcvr.pktsRecd = (if isStatus p then countAfterRTS g.rcvr.pktsRecd p+1
        else countAfterRTS g.rcvr.pktsRecd p) ∧
      g'.forwarded = g.forwarded ++ (if isStatus p then [p] else []) ∧
      g'.flagsSent = g.flagsSent ++ ((if hasRTS p ∧ g.rcvr.pktsRecd = 0 then [Xhf.cts] else []) ++
        if isStatus p ∧ countAfterRTS g.rcvr.pktsRecd p+1 > 10 then [Xhf.ncts] else []) := by
  rw [protocolInput, requestConnect_able (g.setIbuf (io.read g.rcvr.ibuf p)) u hu hable]
  refine checkPacket_spec io serio _ u p ?_ hu hable hp
  change g.rcvr.ibuf.buf ++ p = p
  rw [hbuf, List.nil_append]

/-- The counter after the request to send, while it is the backlog. -/
theorem toNat_countAfterRTS (n : UInt8) (b : ℕ) (hn : n.toNat = b) (p : List UInt8) :
    (countAfterRTS n p).toNat = if hasRTS p then b-1 else b := by
  have hzero : n = 0 ↔ b = 0 := by
    rw [← hn, ← UInt8.toNat_inj]
    rfl
  unfold countAfterRTS
  by_cases hrts : hasRTS p = true
  · by_cases hb : b = 0
    · rw [if_neg (fun h => h.2 (hzero.mpr hb)), if_pos hrts, hn]
      omega
    · have hle : (1 : UInt8) ≤ n := by
        rw [UInt8.le_iff_toNat_le, hn]
        exact Nat.one_le_iff_ne_zero.mpr hb
      rw [if_pos ⟨hrts, fun h => hb (hzero.mp h)⟩, if_pos hrts, UInt8.toNat_sub_of_le n 1 hle, hn]
      rfl
  · rw [if_neg (fun h => hrts h.1), if_neg hrts, hn]

/-- Below 255 the counter can be raised once more. -/
theorem toNat_add_one (n : UInt8) (hn : n.toNat+1 ≤ 255) : (n+1).toNat = n.toNat+1 := by
  rw [UInt8.toNat_add]
  exact Nat.mod_eq_of_lt (by change n.toNat+1 < 256; omega)

/-- What is due on a packet, in terms of a counter that counts right. -/
theorem dueFlags_of_count (n : UInt8) (b : ℕ) (hn : n.toNat = b) (p : List UInt8)
    (hle : backlogStep b p ≤ 255) :
    dueFlags b p = (if hasRTS p ∧ n = 0 then [Xhf.cts] else []) ++
      if isStatus p ∧ countAfterRTS n p+1 > 10 then [Xhf.ncts] else [] := by
  have hzero : n = 0 ↔ b = 0 := by
    rw [← hn, ← UInt8.toNat_inj]
    rfl
  have hafter := toNat_countAfterRTS n b hn p
  have hten : isStatus p = true → (countAfterRTS n p+1 > 10 ↔ backlogStep b p > 10) := by
    intro hst
    have hstep : backlogStep b p = (countAfterRTS n p).toNat+1 := by
      rw [backlogStep, if_pos hst, hafter]
    rw [gt_iff_lt, UInt8.lt_iff_toNat_lt, toNat_add_one _ (by omega), hstep]
    rfl
  have hand : (isStatus p = true ∧ countAfterRTS n p+1 > 10) ↔
      (isStatus p = true ∧ backlogStep b p > 10) := and_congr_right hten
  simp only [dueFlags, hzero, hand]

/-- Up to 255 the counter counts right. -/
theorem step_counts (io : DasIO) (serio : SerioLib) (ok : OkParser)
    (es : List (UdpGatewayEvent out)) (g : UdpGateway out) (e : UdpGatewayEvent out)
    (h : g.CountsBacklog (packets es)) (he : g.AbleToAnswer e)
    (hle : backlog (packets (es ++ [e])) ≤ 255) :
    ∃ g', g.step io serio ok e = some g' ∧ g'.CountsBacklog (packets (es ++ [e])) := by
  rw [packets_concat] at hle ⊢
  cases e with
  | packet p =>
    obtain ⟨hp, u, hu, hable⟩ := he
    obtain ⟨g', hg', hbuf, hcount, hfwd, hflags⟩ :=
      protocolInput_spec io serio g u h.buf_eq hu hable p hp
    have hn := h.count_eq
    change backlog (packets es ++ [p]) ≤ 255 at hle
    rw [backlog_concat] at hle
    have hafter := toNat_countAfterRTS g.rcvr.pktsRecd _ hn p
    refine ⟨g', hg', hbuf, ?_, ?_, ?_⟩
    · dsimp only
      rw [hcount, backlog_concat, backlogStep, ← hafter]
      rw [backlogStep, ← hafter] at hle
      split_ifs with hst
      · rw [if_pos hst] at hle
        exact toNat_add_one _ hle
      · rfl
    · dsimp only
      rw [hflags, flagsDue_concat, h.follows.flags_eq, ← backlog, dueFlags_of_count _ _ hn p hle]
    · dsimp only
      rw [hfwd, List.filter_append, h.follows.forwarded_eq, List.filter_cons, List.filter_nil]
  | xutrSocket sock =>
    dsimp only
    rw [List.append_nil]
    refine ⟨_, rfl, h.buf_eq, h.count_eq, ?_, h.follows.forwarded_eq⟩
    rw [← h.follows.flags_eq, flagsSent, flagsSent]
    cases g.xutr <;> rfl
  | «export» op =>
    dsimp only
    rw [List.append_nil]
    exact ⟨_, rfl, h.buf_eq, h.count_eq, h.follows.flags_eq, h.follows.forwarded_eq⟩

/-- With the 256th packet of a backlog the counter starts again, and nothing is sent. -/
theorem step_wraps (io : DasIO) (serio : SerioLib) (ok : OkParser)
    (es : List (UdpGatewayEvent out)) (g g' : UdpGateway out) (e : UdpGatewayEvent out)
    (h : g.CountsBacklog (packets es)) (he : g.AbleToAnswer e)
    (hgt : ¬backlog (packets (es ++ [e])) ≤ 255) (hg' : g.step io serio ok e = some g') :
    ¬g'.FollowsBacklog (packets (es ++ [e])) := by
  have hn := h.count_eq
  have hlt := UInt8.toNat_lt g.rcvr.pktsRecd
  rw [packets_concat] at hgt ⊢
  cases e with
  | packet p =>
    obtain ⟨hp, u, hu, hable⟩ := he
    obtain ⟨t, ht, -, -, -, hflags⟩ := protocolInput_spec io serio g u h.buf_eq hu hable p hp
    obtain rfl : t = g' := Option.some.inj (ht.symm.trans hg')
    change ¬backlog (packets es ++ [p]) ≤ 255 at hgt
    rw [backlog_concat, backlogStep] at hgt
    have hafter := toNat_countAfterRTS g.rcvr.pktsRecd _ hn p
    have hst : isStatus p = true := by
      by_contra hst
      rw [if_neg hst] at hgt
      split_ifs at hgt <;> omega
    rw [if_pos hst, ← hafter] at hgt
    have hmax : (countAfterRTS g.rcvr.pktsRecd p).toNat = 255 := by
      have := UInt8.toNat_lt (countAfterRTS g.rcvr.pktsRecd p)
      omega
    have hwrap : countAfterRTS g.rcvr.pktsRecd p+1 = 0 := by
      rw [← UInt8.toNat_inj, UInt8.toNat_add, hmax]
      rfl
    have hb : backlog (packets es) ≠ 0 := by
      rw [hmax] at hafter
      split_ifs at hafter <;> omega
    have hzero : g.rcvr.pktsRecd ≠ 0 := by
      intro hz
      rw [hz] at hn
      exact hb hn.symm
    -- An NCTS is due on this packet, and the counter at 0 sends nothing.
    have hdue : dueFlags (backlog (packets es)) p = [Xhf.ncts] := by
      have hstep : backlogStep (backlog (packets es)) p > 10 := by
        rw [backlogStep, if_pos hst, ← hafter, hmax]
        decide
      rw [dueFlags, if_neg (fun h => hb h.2), if_pos ⟨hst,hstep⟩, List.nil_append]
    have hsent : t.flagsSent = g.flagsSent := by
      rw [hflags, hwrap, if_neg (fun h => hzero h.2), if_neg (fun h => absurd h.2 (by decide)),
        List.nil_append, List.append_nil]
    intro hfollows
    have hlen := congrArg List.length hfollows.flags_eq
    rw [hsent, h.follows.flags_eq] at hlen
    dsimp only at hlen
    rw [flagsDue_concat, ← backlog, hdue, List.length_append, List.length_singleton] at hlen
    omega
  | xutrSocket sock =>
    dsimp only at hgt
    rw [List.append_nil] at hgt
    omega
  | «export» op =>
    dsimp only at hgt
    rw [List.append_nil] at hgt
    omega

theorem Started.countsBacklog {g : UdpGateway out} {u : XiomasUdpTxmtr out} (h : g.Started u) :
    g.CountsBacklog [] := by
  refine ⟨?_, ?_, ?_, h.forwarded_eq⟩
  · rw [h.rcvr_eq]
    rfl
  · rw [h.rcvr_eq]
    rfl
  · rw [flagsSent, h.xutr_eq, Option.elim_some, h.iwrites_eq]
    rfl

/-- From a counter that counts right on. -/
theorem throughout_iff_backlog (io : DasIO) (serio : SerioLib) (ok : OkParser)
    (g : UdpGateway out) (hg : g.CountsBacklog []) (es : List (UdpGatewayEvent out))
    (hes : Run.Along (step io serio ok) AbleToAnswer g es) :
    Run.Throughout (step io serio ok) (fun h t => t.FollowsBacklog (packets h)) g es ↔
      ∀ fs, fs <+: es → backlog (packets fs) ≤ 255 :=
  Run.throughout_iff_prefixes (step io serio ok) AbleToAnswer
    (fun fs => backlog (packets fs) ≤ 255) (fun h t => t.CountsBacklog (packets h))
    (fun h t => t.FollowsBacklog (packets h)) (fun _ _ h => h.follows) (Nat.zero_le _)
    (fun h t e hi he hle => step_counts io serio ok h t e hi he hle)
    (fun h t e t' hi he hgt ht => step_wraps io serio ok h t t' e hi he hgt ht) g es hg hes

/-- The transmitter is connected. -/
def Linked (g : UdpGateway out) : Prop := ∃ u, g.xutr = some u ∧ u.socketState = .connected

theorem Linked.send {g : UdpGateway out} (h : g.Linked) (flag : UInt8) :
    ∃ g', g.sendFlag flag = some g' ∧ g'.Linked := by
  obtain ⟨u, hu, hconn⟩ := h
  rw [sendFlag, hu, Option.map_some]
  refine ⟨_, rfl, _, rfl, ?_⟩
  rw [XiomasUdpTxmtr.send, XiomasUdpTxmtr.cts, hconn]
  dsimp only
  split_ifs <;> exact hconn

theorem Linked.cts {g : UdpGateway out} (h : g.Linked) : ∃ ok, g.cts = (ok, g) := by
  obtain ⟨u, hu, hconn⟩ := h
  rw [UdpGateway.cts, hu]
  dsimp only
  rw [XiomasUdpTxmtr.cts, hconn, ← hu]
  exact ⟨_, rfl⟩

theorem Linked.countRTS {g : UdpGateway out} (h : g.Linked) (hdr : List UInt8) :
    ∃ g', g.countRTS hdr = some g' ∧ g'.Linked := by
  obtain ⟨ok, hcts⟩ := h.cts
  unfold UdpGateway.countRTS
  rw [hcts]
  dsimp only
  split_ifs
  · exact ⟨_, rfl, h⟩
  · exact h.send _
  · exact ⟨_, rfl, h⟩
  · exact ⟨_, rfl, h⟩

theorem Linked.takePacket {g : UdpGateway out} (h : g.Linked) (serio : SerioLib)
    (hdr packet : List UInt8) : ∃ g', g.takePacket serio hdr packet = some g' ∧ g'.Linked := by
  unfold UdpGateway.takePacket
  dsimp only
  split_ifs
  · exact ⟨_, rfl, h⟩
  · have hcounted : ({g with rcvr := {g.rcvr with pktsRecd := g.rcvr.pktsRecd+1}} :
        UdpGateway out).Linked := h
    obtain ⟨g', hg', h'⟩ := hcounted.send Xhf.ncts
    rw [hg', Option.map_some]
    exact ⟨_, rfl, h'⟩
  · exact ⟨_, rfl, h⟩
  · exact ⟨_, rfl, h⟩

/-- Whatever happens, the transmitter stays connected and the program goes on. -/
theorem Linked.step {g : UdpGateway out} (h : g.Linked) (io : DasIO) (serio : SerioLib)
    (ok : OkParser) (e : UdpGatewayEvent out) : ∃ g', g.step io serio ok e = some g' ∧ g'.Linked := by
  cases e with
  | packet p =>
    have hreq : ((g.setIbuf (io.read g.rcvr.ibuf p)).requestConnect).Linked := by
      have hread : (g.setIbuf (io.read g.rcvr.ibuf p)).Linked := h
      obtain ⟨ok, hcts⟩ := hread.cts
      unfold requestConnect
      rw [hcts]
      split_ifs
      · exact h
      · exact h
    change ∃ g', ((g.setIbuf (io.read g.rcvr.ibuf p)).requestConnect).checkPacket io serio =
      some g' ∧ _
    unfold checkPacket
    dsimp only
    split_ifs
    · exact ⟨_, rfl, hreq⟩
    · exact ⟨_, rfl, hreq⟩
    · exact ⟨_, rfl, hreq⟩
    · obtain ⟨g1, hg1, h1⟩ := hreq.countRTS _
      obtain ⟨g2, hg2, h2⟩ := h1.takePacket serio _ _
      rw [hg1, Option.bind_some, hg2, Option.map_some]
      exact ⟨_, rfl, h2⟩
  | xutrSocket sock =>
    obtain ⟨u, hu, hconn⟩ := h
    refine ⟨_, rfl, {u with sock := sock}, ?_, hconn⟩
    dsimp only
    rw [hu, Option.map_some]
  | «export» op => exact ⟨_, rfl, h⟩

/-- With a socket that writes at once, a connected transmitter can always send. -/
theorem Linked.along {g : UdpGateway .direct} (h : g.Linked) (io : DasIO) (serio : SerioLib)
    (ok : OkParser) (ps : List (List UInt8)) (hps : ∀ p ∈ ps, ScannerPacket p) :
    Run.Along (UdpGateway.step io serio ok) AbleToAnswer g (ps.map .packet) := by
  induction ps generalizing g with
  | nil => trivial
  | cons p ps ih =>
    obtain ⟨u, hu, hconn⟩ := h
    refine ⟨⟨hps p (List.mem_cons_self ..), u, hu, hconn, rfl⟩, ?_⟩
    intro g' hg'
    obtain ⟨t, ht, h'⟩ := Linked.step ⟨u,hu,hconn⟩ io serio ok (.packet p)
    obtain rfl := Option.some.inj (ht.symm.trans hg')
    exact ih h' fun q hq => hps q (List.mem_cons_of_mem _ hq)

/-- A connected transmitter with a socket that writes at once. -/
def direct : UdpGateway .direct :=
  ⟨⟨InputBuffer.empty,0,0,false,[]⟩,some ⟨.connected,.connected,(),[],0⟩,.new (),[]⟩

theorem direct_started : direct.Started ⟨.connected,.connected,(),[],0⟩ := ⟨rfl,rfl,rfl,rfl⟩

theorem direct_linked : direct.Linked := ⟨_,rfl,rfl⟩

/-- A status packet of no payload that does not ask to send. -/
def bareStatus : List UInt8 := xhgFillHeader Xhpid.xioStatus Xhsrc.scanner 0 0 7

theorem bareStatus_scannerPacket : ScannerPacket bareStatus :=
  ⟨by decide, by decide, by decide, Or.inr (by decide)⟩

theorem backlog_replicate (n : ℕ) : backlog (List.replicate n bareStatus) = n := by
  induction n with
  | zero => rfl
  | succ n ih =>
    have hrts : hasRTS bareStatus = false := by decide
    have hst : isStatus bareStatus = true := by decide
    rw [List.replicate_succ', backlog_concat, ih, backlogStep, hrts, hst]
    rfl

theorem packets_map (ps : List (List UInt8)) :
    packets (ps.map (@UdpGatewayEvent.packet .direct)) = ps := by
  rw [packets, List.filterMap_map]
  exact List.filterMap_some

/-- The scanner is told the truth throughout a run if and only if the backlog never
exceeds 255. -/
theorem back_pressure_iff (io : DasIO) (serio : SerioLib) (ok : OkParser) (g : UdpGateway out)
    (u : XiomasUdpTxmtr out) (hstart : g.Started u) (es : List (UdpGatewayEvent out))
    (hes : Run.Along (step io serio ok) AbleToAnswer g es) :
    Run.Throughout (step io serio ok) (fun h t => t.FollowsBacklog (packets h)) g es ↔
      ∀ fs, fs <+: es → backlog (packets fs) ≤ 255 :=
  throughout_iff_backlog io serio ok g hstart.countsBacklog es hes

theorem back_pressure_answered :
    Run.Throughout (step DasIO.keeping SerioLib.packed OkParser.scanning)
      (fun h t => t.FollowsBacklog (packets h)) direct
      ((List.replicate 12 bareStatus).map .packet) := by
  have halong := direct_linked.along DasIO.keeping SerioLib.packed OkParser.scanning
    (List.replicate 12 bareStatus) fun p hp => by
      rw [List.eq_of_mem_replicate hp]
      exact bareStatus_scannerPacket
  refine (back_pressure_iff DasIO.keeping SerioLib.packed OkParser.scanning direct _ direct_started
    _ halong).mpr fun fs hfs => ?_
  have hlen := hfs.length_le
  rw [List.length_map, List.length_replicate] at hlen
  have hpackets : (packets fs).length ≤ fs.length := List.length_filterMap_le _ _
  have hbacklog := backlog_le_length (packets fs)
  omega

/-- The 256th status packet in a row is not answered. -/
theorem back_pressure_lost :
    Run.Along (step DasIO.keeping SerioLib.packed OkParser.scanning) AbleToAnswer direct
        ((List.replicate 256 bareStatus).map .packet) ∧
      ¬Run.Throughout (step DasIO.keeping SerioLib.packed OkParser.scanning)
        (fun h t => t.FollowsBacklog (packets h)) direct
        ((List.replicate 256 bareStatus).map .packet) := by
  have halong := direct_linked.along DasIO.keeping SerioLib.packed OkParser.scanning
    (List.replicate 256 bareStatus) fun p hp => by
      rw [List.eq_of_mem_replicate hp]
      exact bareStatus_scannerPacket
  refine ⟨halong, fun hall => ?_⟩
  have hle := (throughout_iff_backlog _ _ _ direct direct_started.countsBacklog _ halong).mp hall
    _ List.prefix_rfl
  rw [packets_map, backlog_replicate] at hle
  omega

end UdpGateway
end Cosmid.Xiomas
