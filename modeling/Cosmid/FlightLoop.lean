import Cosmid.AlgorithmOrder
import Cosmid.PopsDriver

/-! The flight algorithm, the driver of POPS(1) and its server in one loop, with nobody else giving
commands. Between them are the telemetry, which shows what the driver has published at some
time, and the commands on their way to the driver. -/
namespace Cosmid.Pops

open Channels

namespace PopsSocket

theorem execute_actions (s : PopsSocket) (cmd : UInt8) : s.actions <+: (s.execute cmd).actions := by
  unfold execute
  split_ifs
  · exact List.prefix_rfl
  · exact List.prefix_append ..
  · exact List.prefix_append ..
  · exact List.prefix_append ..
  · exact List.prefix_append ..
  · exact List.prefix_rfl

theorem foldl_execute_actions (cmds : List UInt8) (s : PopsSocket) :
    s.actions <+: (cmds.foldl execute s).actions := by
  induction cmds generalizing s with
  | nil => exact List.prefix_rfl
  | cons cmd cmds ih => exact (execute_actions s cmd).trans (ih _)

/-- A `V` does nothing. -/
theorem serial_filter (cmds : List UInt8) : serial (cmds.filter (· ≠ 0x56)) = serial cmds := by
  rw [serial, List.foldl_filter, serial]
  congr 1
  funext s cmd
  by_cases h : cmd = 0x56
  · subst h
    rfl
  · simp [h]

end PopsSocket

namespace PopsNet

theorem mem_of_digit_two (actions : List ServerAction)
    (h : 0x32 ∈ lines PopsStatus.digit [statusAfter actions]) : .startPops ∈ actions := by
  unfold statusAfter at h
  split at h
  · exact absurd h (by decide)
  · exact List.mem_of_getLast? (by assumption)
  · exact absurd h (by decide)

/-- The status 2 is shown only when the software has been started. -/
structure Shown (s : PopsNet) : Prop where
  srvr : s.drv.clt.srvr = 2 → .startPops ∈ s.srvr.actions
  written : ∀ (i : ℕ) (c : Conn), s.srvr.conns[i]? = some c → 0x32 ∈ c.written →
    .startPops ∈ s.srvr.actions

/-- Every connection is one of the driver's. -/
def Alone (s : PopsNet) : Prop := ∀ i < s.srvr.conns.length, s.Own i

/-- What happens without other clients and without an operator. -/
def alone : NetEvent → Bool
  | .operator _ | .server .accept | .server (.send _ _) => false
  | _ => true

theorem Inv.actions_prefix {log more : List (ℕ × UInt8)} {s s' : PopsNet} (h : s.Inv log)
    (h' : s'.Inv (log ++ more)) : s.srvr.actions <+: s'.srvr.actions := by
  rw [h.serial.actions_eq, h'.serial.actions_eq, List.map_append, PopsSocket.serial_append]
  exact PopsSocket.foldl_execute_actions _ _

/-- A function of the driver adds its command, if it writes one, and nothing else changes at the
server but what is waiting there. -/
theorem transmit_frame (s : PopsNet) (r : Option Command × PopsDriver) :
    ((s.transmit r).issued = s.issued ∨
      ∃ cmd, r.1 = some cmd ∧ (s.transmit r).issued = s.issued ++ tag s.conn [cmd]) ∧
    (s.transmit r).srvr.actions = s.srvr.actions ∧
    (s.transmit r).srvr.conns.length = s.srvr.conns.length ∧
    ∀ (i : ℕ) (c : Conn), (s.transmit r).srvr.conns[i]? = some c →
      ∃ d, s.srvr.conns[i]? = some d ∧ c.written = d.written := by
  unfold transmit
  split
  · rename_i cmd c hcmd hc
    refine ⟨Or.inr ⟨cmd, hcmd, rfl⟩, rfl, List.length_set, ?_⟩
    exact PopsSrvr.forall_set ⟨c, hc, rfl⟩ fun j d _ hd => ⟨d, hd, rfl⟩
  · exact ⟨Or.inl rfl, rfl, rfl, fun i c hc => ⟨c, hc, rfl⟩⟩

theorem Own.append {s t : PopsNet} {i : ℕ} (h : s.Own i) {more : List (ℕ × Command)}
    (ht : t.issued = s.issued ++ more) : t.Own i := by
  rw [Own, ht, onChannel_append]
  exact List.append_ne_nil_of_left_ne_nil h _

theorem Alone.transmit {s : PopsNet} (h : s.Alone) (r : Option Command × PopsDriver) :
    (s.transmit r).Alone := by
  obtain ⟨hissued, -, hlen, -⟩ := s.transmit_frame r
  intro i hi
  rw [hlen] at hi
  rcases hissued with hsame | ⟨cmd, -, hmore⟩
  · have hnone : (s.transmit r).issued = s.issued ++ [] := by rw [hsame, List.append_nil]
    exact (h i hi).append hnone
  · exact (h i hi).append hmore

theorem Shown.transmit {s : PopsNet} (h : s.Shown) {r : Option Command × PopsDriver}
    (hr : r.2.clt.srvr = s.drv.clt.srvr) : (s.transmit r).Shown := by
  obtain ⟨-, hactions, -, hconns⟩ := s.transmit_frame r
  refine ⟨?_, fun i c hc hmem => ?_⟩
  · rw [transmit_drv, hr, hactions]
    exact h.srvr
  · obtain ⟨d, hd, hw⟩ := hconns i c hc
    rw [hactions]
    exact h.written i d hd (by rwa [← hw])

/-- A read of the server shows the status 2 only if it leaves it. -/
theorem Shown.readOn {s : PopsNet} (h : s.Shown) {log : List (ℕ × UInt8)} (hinv : s.Inv log)
    (halone : s.Alone) (io : DasIO) {i : ℕ} {c : Conn} (hc : s.srvr.conns[i]? = some c) (n : ℕ) :
    Shown {s with srvr := s.srvr.readOn io i n c} := by
  obtain ⟨cmds, hinv'⟩ := hinv.readOn io hc n
  have hmono := hinv.actions_prefix hinv'
  have hlt : i < s.srvr.conns.length := by
    by_contra hge
    rw [List.getElem?_eq_none (Nat.le_of_not_lt hge)] at hc
    cases hc
  obtain ⟨-, hreply⟩ :=
    (hinv.lined i c hc (halone i hlt)).read io s.srvr (hinv.serial.cp_eq i c hc) n
  refine ⟨fun htwo => hmono.subset (h.srvr htwo), ?_⟩
  refine PopsSrvr.forall_set (fun hmem => ?_)
    fun j d _ hd hmem => hmono.subset (h.written j d hd hmem)
  rcases List.mem_append.mp hmem with hmem | hmem
  · exact hmono.subset (h.written i c hc hmem)
  · obtain ⟨horder, -⟩ := PopsSocket.serial_orderly ((log ++ tag i cmds).map Prod.snd)
    rw [← hinv'.serial.status_eq, ← hinv'.serial.actions_eq] at horder
    change ((s.srvr.socket c).protocolInput io (c.waiting.take n)).popsStatus = _ at horder
    rw [hreply, horder] at hmem
    exact mem_of_digit_two _ hmem

theorem holds_or_sends_srvr {d : PopsDriver} {cmd : Command} {r : Option Command × PopsDriver}
    (h : d.Holds r ∨ d.Sends cmd r) :
    r.2.clt.srvr = d.clt.srvr ∧ ∀ cmd', r.1 = some cmd' → cmd' = cmd := by
  rcases h with h | h
  · refine ⟨by rw [h.clt_eq], fun cmd' hcmd => ?_⟩
    rw [h.none_eq] at hcmd
    cases hcmd
  · refine ⟨by rw [h.clt_eq], fun cmd' hcmd => ?_⟩
    rw [h.some_eq] at hcmd
    exact (Option.some.inj hcmd).symm

/-- What a step without others adds to what the driver has issued. -/
def Issues (s s' : PopsNet) (cmd : Command) : Prop :=
  s'.issued = s.issued ∨ ∃ i, s'.issued = s.issued ++ tag i [cmd]

/-- A command of the driver's user, or a `V` of its own. -/
theorem Shown.issue {s : PopsNet} (h : s.Shown) (halone : s.Alone) {cmd : Command}
    {r : Option Command × PopsDriver} (hr : s.drv.Holds r ∨ s.drv.Sends cmd r) :
    (s.transmit r).Shown ∧ (s.transmit r).Alone ∧ s.Issues (s.transmit r) cmd := by
  obtain ⟨hsrvr, hcmd⟩ := holds_or_sends_srvr hr
  refine ⟨h.transmit hsrvr, halone.transmit r, ?_⟩
  rcases (s.transmit_frame r).1 with hsame | ⟨cmd', hsome, hmore⟩
  · exact Or.inl hsame
  · rw [hcmd cmd' hsome] at hmore
    exact Or.inr ⟨s.conn, hmore⟩

/-- A new connection. -/
theorem Shown.negotiated {s : PopsNet} (h : s.Shown) (halone : s.Alone) :
    let t := PopsNet.transmit {s with
        srvr := s.srvr.accept
        conn := s.srvr.conns.length
        received := 0}
      (PopsDriver.appConnected {s.drv with clt := {s.drv.clt with connected := true}})
    t.Shown ∧ t.Alone ∧ s.Issues t .V := by
  have hconn : s.srvr.accept.conns[s.srvr.conns.length]? = some ⟨InputBuffer.empty,[],[],[]⟩ :=
    List.getElem?_concat_length
  have hissued : (PopsNet.transmit {s with
        srvr := s.srvr.accept
        conn := s.srvr.conns.length
        received := 0}
      (PopsDriver.appConnected {s.drv with clt := {s.drv.clt with connected := true}})).issued =
      s.issued ++ tag s.srvr.conns.length [.V] := by
    simp only [PopsNet.transmit, hconn]
    rfl
  have hshown : Shown {s with
      srvr := s.srvr.accept
      conn := s.srvr.conns.length
      received := 0} := by
    refine ⟨h.srvr, fun i c hc hmem => ?_⟩
    dsimp only at hc
    rw [PopsSrvr.accept, List.getElem?_append] at hc
    split at hc
    · exact h.written i c hc hmem
    · rw [List.getElem?_singleton] at hc
      split_ifs at hc
      cases hc
      cases hmem
  refine ⟨hshown.transmit rfl, ?_, Or.inr ⟨_, hissued⟩⟩
  intro i hi
  rw [(transmit_frame _ _).2.2.1] at hi
  dsimp only at hi
  rw [PopsSrvr.accept, List.length_append] at hi
  by_cases hnew : i = s.srvr.conns.length
  · rw [Own, hissued, onChannel_append, hnew, onChannel_tag_self]
    exact List.append_ne_nil_of_right_ne_nil _ (List.cons_ne_nil _ _)
  · refine (halone i ?_).append hissued
    rw [List.length_singleton] at hi
    omega

/-- Every step without others. -/
theorem step_shown (io : DasIO) (lib : StatusLib) (s s' : PopsNet) (e : NetEvent)
    (he : alone e = true) (log : List (ℕ × UInt8)) (hinv : s.Inv log) (h : s.Shown) (halone : s.Alone)
    (hs : s.step io lib e = some s') : s'.Shown ∧ s'.Alone ∧ s.Issues s' .V := by
  cases e with
  | tmSync =>
    obtain rfl := Option.some.inj hs
    exact h.issue halone s.drv.tmSync_cases
  | record =>
    obtain rfl := Option.some.inj hs
    exact ⟨⟨h.srvr, h.written⟩, halone, Or.inl rfl⟩
  | operator c => cases he
  | connect =>
    obtain ⟨-, hs⟩ := Option.ite_none_left_eq_some.mp hs
    obtain rfl := Option.some.inj hs
    exact ⟨⟨h.srvr, h.written⟩, halone, Or.inl rfl⟩
  | negotiated =>
    obtain ⟨-, hs⟩ := Option.ite_none_right_eq_some.mp hs
    obtain rfl := Option.some.inj hs
    exact h.negotiated halone
  | driverRead n =>
    obtain ⟨hconn, hs⟩ := Option.ite_none_right_eq_some.mp hs
    obtain ⟨c, hc, hs⟩ := Option.bind_eq_some_iff.mp hs
    obtain ⟨⟨h0, hn⟩, hs⟩ := Option.ite_none_right_eq_some.mp hs
    obtain rfl := Option.some.inj hs
    refine ⟨⟨fun htwo => ?_, h.written⟩, halone, Or.inl rfl⟩
    rcases hinv.driverRead_srvr io lib hconn hc h0 hn with hsame | ⟨status, hmem, hstatus⟩
    · exact h.srvr (hsame.symm.trans htwo)
    · have hcode : status.code = 2 := hstatus.symm.trans htwo
      have hdigit : status.digit = 0x32 := by rw [PopsStatus.digit, hcode]; rfl
      rw [hdigit] at hmem
      exact h.written _ c hc hmem
  | timeout =>
    obtain ⟨-, hs⟩ := Option.ite_none_right_eq_some.mp hs
    obtain rfl := Option.some.inj hs
    exact ⟨⟨fun hzero => absurd hzero (by decide : (0 : UInt8) ≠ 2), h.written⟩, halone, Or.inl rfl⟩
  | eof =>
    obtain rfl := Option.some.inj hs
    exact ⟨⟨fun hzero => absurd hzero (by decide : (0 : UInt8) ≠ 2), h.written⟩, halone, Or.inl rfl⟩
  | server e =>
    cases e with
    | accept => cases he
    | send i bytes => cases he
    | read i n =>
      obtain ⟨srvr, hsrvr, rfl⟩ := Option.map_eq_some_iff.mp hs
      obtain ⟨c, hc, hsrvr⟩ := Option.bind_eq_some_iff.mp hsrvr
      obtain ⟨-, hsrvr⟩ := Option.ite_none_right_eq_some.mp hsrvr
      obtain rfl := Option.some.inj hsrvr
      refine ⟨h.readOn hinv halone io hc n, fun j hj => ?_, Or.inl rfl⟩
      rw [PopsSrvr.readOn, List.length_set] at hj
      exact halone j hj

/-- Without other clients the server executes nothing but what the driver has issued. -/
theorem Inv.follows_alone {log : List (ℕ × UInt8)} {s : PopsNet} (h : s.Inv log)
    (halone : s.Alone) : Follows log (s.issued.map fun e => (e.1,e.2.byte)) := by
  intro i
  by_cases hi : i < s.srvr.conns.length
  · have hmap : onChannel (s.issued.map fun e => (e.1,e.2.byte)) i =
        (onChannel s.issued i).map Command.byte := by
      rw [onChannel, List.filter_map, List.map_map, onChannel, List.map_map]
      rfl
    rw [hmap]
    exact h.follows i (halone i hi)
  · rw [h.serial.fresh i (Nat.le_of_not_lt hi)]
    exact List.nil_prefix

end PopsNet
end Cosmid.Pops

namespace Cosmid.Flight

open Channels

/-- What the algorithm's commands are for the driver of POPS(1). -/
def popsCommand : Algorithm.Command → Option Pops.OperatorCommand
  | .popsStart => some .start
  | .popsShutdown => some .shutdown
  | _ => none

/-- The algorithm, its commands on their way to the driver, the driver and the server, and the
values of `POPS.Srvr` that the telemetry has shown. -/
structure FlightLoop where
  alg : Algorithm.Config
  pending : List Pops.OperatorCommand
  net : Pops.PopsNet
  sampled : List ℕ

/-- A telemetry update of the algorithm, the arrival of a command at the driver, a telemetry
frame, and what else happens to the driver and the server. -/
inductive LoopEvent
  | update (u : Algorithm.Update)
  | deliver
  | sample
  | net (e : Pops.NetEvent)

namespace FlightLoop

/-- The telemetry is 0 before the first frame. -/
def start (now : ℕ) : FlightLoop := ⟨.start now,[],.start,[0]⟩

/-- The algorithm may see the value of any frame, however late. -/
def step (io : DasIO) (lib : Pops.StatusLib) (s : FlightLoop) : LoopEvent → Option FlightLoop
  | .update u =>
    if u.tm.popsSrvr ∈ s.sampled then
      (s.alg.step u).map fun alg =>
        {s with alg := alg, pending := s.pending ++ alg.issued.filterMap popsCommand}
    else none
  | .deliver =>
    match s.pending with
    | [] => none
    | c :: rest =>
      (s.net.step io lib (.operator c)).map fun net => {s with net := net, pending := rest}
  | .sample => some {s with sampled := s.sampled ++ [s.net.drv.clt.srvr.toNat]}
  | .net e =>
    if Pops.PopsNet.alone e then (s.net.step io lib e).map fun net => {s with net := net}
    else none

/-- The commands other than `V` that the driver has written. -/
def forwarded (net : Pops.PopsNet) : List Pops.Command :=
  (net.issued.map Prod.snd).filter (· ≠ .V)

/-- The commands other than `V` that the server has executed. -/
def executed (log : List (ℕ × UInt8)) : List UInt8 := (log.map Prod.snd).filter (· ≠ 0x56)

/-- The invariant. The algorithm leaves `POPS1_Init` only when the software has been started. -/
structure Inv (log : List (ℕ × UInt8)) (sent sent2 : List Algorithm.Command) (s : FlightLoop) :
    Prop where
  net : s.net.Inv log
  shown : s.net.Shown
  alone : s.net.Alone
  ordered : s.alg.Ordered sent sent2
  commands : (forwarded s.net ++ s.pending.map Pops.OperatorCommand.command).Sublist
    ((sent.filterMap popsCommand).map Pops.OperatorCommand.command)
  sampled : 2 ∈ s.sampled → .startPops ∈ s.net.srvr.actions
  active : s.alg.p2.state ≠ .pops1Init → .startPops ∈ s.net.srvr.actions
  executed : executed log <+: [0x42, 0x45]

theorem inv_start (now : ℕ) : (start now).Inv [] [] [] where
  net := Pops.PopsNet.inv_start
  shown := ⟨fun h => absurd h (by decide : (0 : UInt8) ≠ 2), fun i c hc => by cases hc⟩
  alone i hi := absurd hi (Nat.not_lt_zero i)
  ordered := Algorithm.Config.start_ordered now
  commands := List.Sublist.slnil
  sampled h := absurd h (by decide : 2 ∉ [0])
  active h := absurd rfl h
  executed := List.nil_prefix

/-- What the algorithm can have sent to the driver. -/
theorem popsCommands_sublist {sent : List Algorithm.Command}
    {place : Tma.Place Algorithm.View Algorithm.P2State Algorithm.Command}
    (h : Algorithm.pops1.Spent Algorithm.pops1Order sent place) :
    ((sent.filterMap popsCommand).map Pops.OperatorCommand.command).Sublist [.B, .E] :=
  (h.sublist.filterMap popsCommand).map Pops.OperatorCommand.command

/-- The shutdown is in the last script. -/
theorem shutdown_last {sent : List Algorithm.Command}
    {place : Tma.Place Algorithm.View Algorithm.P2State Algorithm.Command}
    (h : Algorithm.pops1.Spent Algorithm.pops1Order sent place)
    (hmem : .popsShutdown ∈ sent) : place.state = .pops1Shutdown := by
  obtain ⟨pre, post, horder, hsub⟩ := h
  have hscripted := hsub.subset (List.mem_append_left _ hmem)
  match pre with
  | [] =>
    obtain ⟨hstate, -⟩ := List.cons.inj horder
    rw [← hstate] at hscripted
    exact absurd hscripted (by decide)
  | [a] =>
    obtain ⟨rfl, htail⟩ := List.cons.inj horder
    obtain ⟨hstate, -⟩ := List.cons.inj htail
    rw [← hstate] at hscripted
    exact absurd hscripted (by decide)
  | [a, b] =>
    obtain ⟨-, htail⟩ := List.cons.inj horder
    obtain ⟨-, htail⟩ := List.cons.inj htail
    exact (List.cons.inj htail).1.symm
  | a :: b :: c :: pre =>
    have hlen := congrArg List.length horder
    simp [Algorithm.pops1Order] at hlen

/-- The shutdown is on its way or has been forwarded only when the software has been started. -/
theorem Inv.shutdown_started {log : List (ℕ × UInt8)} {sent sent2 : List Algorithm.Command}
    {s : FlightLoop} (h : s.Inv log sent sent2)
    (hE : .E ∈ forwarded s.net ++ s.pending.map Pops.OperatorCommand.command) :
    .startPops ∈ s.net.srvr.actions := by
  obtain ⟨c, hc, hcE⟩ := List.mem_map.mp (h.commands.subset hE)
  obtain ⟨cmd, hcmd, hsome⟩ := List.mem_filterMap.mp hc
  have hshutdown : cmd = .popsShutdown := by
    cases c <;> cases cmd <;> simp [popsCommand, Pops.OperatorCommand.command] at hsome hcE ⊢
  rw [hshutdown] at hcmd
  refine h.active ?_
  rw [shutdown_last h.ordered.pops1 hcmd]
  decide

/-- Two commands, the second of which comes only when the first is there. -/
theorem prefix_of_subperm {α : Type} {a b : α} (hab : a ≠ b) {r l : List α} (hr : r <+: [a,b])
    (hrl : r <+: l) (hl : l.Subperm [a,b]) (hb : b ∈ l → a ∈ r) : l <+: [a,b] := by
  have hmem : ∀ x ∈ l, x = a ∨ x = b := fun x hx => by simpa using hl.subset hx
  have hfirst (hbl : b ∈ l) : l.head? = some a := by
    have ha := hb hbl
    match r with
    | [] => cases ha
    | x :: r =>
      obtain ⟨rfl, -⟩ := List.cons_prefix_cons.mp hr
      obtain ⟨t, rfl⟩ := hrl
      rfl
  match l with
  | [] => exact List.nil_prefix
  | [x] =>
    rcases hmem x (List.mem_cons_self ..) with rfl | rfl
    · exact ⟨[b], rfl⟩
    · exact absurd (Option.some.inj (hfirst (List.mem_cons_self ..))).symm hab
  | [x, y] =>
    have hxy : x ≠ y := by
      obtain ⟨l, hperm, hsub⟩ := hl
      have hnodup := hperm.nodup_iff.mp (hsub.nodup (by simpa using hab))
      simpa using hnodup
    rcases hmem y (by simp) with rfl | rfl
    · have hx := (hmem x (by simp)).resolve_left hxy
      have hhead := hfirst (by simp [hx])
      exact absurd (Option.some.inj hhead) hxy
    · have hx := (hmem x (by simp)).resolve_right hxy
      exact hx ▸ List.prefix_rfl
  | x :: y :: z :: l =>
    have hlen := hl.length_le
    simp only [List.length_cons, List.length_nil] at hlen
    omega

/-- However much the server executes at once, it stays with the start followed by the shutdown. -/
theorem executed_step {log more : List (ℕ × UInt8)} {net net' : Pops.PopsNet} (hnet : net.Inv log)
    (hnet' : net'.Inv (log ++ more)) (halone : net'.Alone)
    (hissued : (forwarded net').Sublist [.B, .E])
    (hE : .E ∈ forwarded net' → .startPops ∈ net.srvr.actions)
    (h : executed log <+: [0x42, 0x45]) : executed (log ++ more) <+: [0x42, 0x45] := by
  have hfollows := hnet'.follows_alone halone
  have hbytes : ((net'.issued.map fun e => (e.1,e.2.byte)).map Prod.snd).filter (· ≠ 0x56) =
      (forwarded net').map Pops.Command.byte := by
    rw [forwarded, List.map_map, List.filter_map, List.filter_map, List.map_map]
    congr 1
    refine List.filter_congr fun e _ => ?_
    obtain ⟨i, cmd⟩ := e
    cases cmd <;> rfl
  have hcount (p : UInt8 → Bool) : (executed (log ++ more)).countP p ≤
      ((forwarded net').map Pops.Command.byte).countP p := by
    rw [executed, ← hbytes, List.countP_filter, List.countP_filter]
    exact hfollows.countP_le _
  have hsubperm : (executed (log ++ more)).Subperm [0x42, 0x45] := by
    refine List.Subperm.trans ?_ (hissued.map Pops.Command.byte).subperm
    rw [List.subperm_ext_iff]
    exact fun x _ => hcount (· == x)
  refine prefix_of_subperm (by decide) h ?_ hsubperm fun hmem => ?_
  · rw [executed, executed, List.map_append, List.filter_append]
    exact List.prefix_append ..
  · -- The shutdown has been forwarded, so the start has been executed.
    have hforwarded : .E ∈ forwarded net' := by
      have hpos := (List.countP_pos_iff (p := (· == (0x45 : UInt8)))).mpr ⟨0x45, hmem, rfl⟩
      obtain ⟨x, hx, hx45⟩ := List.countP_pos_iff.mp (Nat.lt_of_lt_of_le hpos (hcount _))
      obtain ⟨cmd, hcmd, rfl⟩ := List.mem_map.mp hx
      cases cmd with
      | E => exact hcmd
      | _ => exact absurd hx45 (by decide)
    have hstarted := hE hforwarded
    rw [hnet.serial.actions_eq, ← Pops.PopsSocket.serial_filter] at hstarted
    change .startPops ∈ (Pops.PopsSocket.serial (executed log)).actions at hstarted
    generalize executed log = r at *
    match r with
    | [] => cases hstarted
    | x :: r =>
      obtain ⟨rfl, -⟩ := List.cons_prefix_cons.mp h
      exact List.mem_cons_self ..

/-- What the driver writes of its own is no command of the algorithm. -/
theorem forwarded_V {net net' : Pops.PopsNet} (h : net.Issues net' .V) :
    forwarded net' = forwarded net := by
  rcases h with hsame | ⟨i, hmore⟩
  · rw [forwarded, hsame, forwarded]
  · rw [forwarded, hmore, List.map_append, map_snd_tag, List.filter_append, forwarded]
    exact List.append_nil _

/-- A command of the algorithm is written or dropped. -/
theorem forwarded_command {net net' : Pops.PopsNet} {c : Pops.OperatorCommand}
    (h : net.Issues net' c.command) :
    (forwarded net').Sublist (forwarded net ++ [c.command]) := by
  rcases h with hsame | ⟨i, hmore⟩
  · rw [forwarded, hsame]
    exact List.sublist_append_left _ _
  · rw [forwarded, hmore, List.map_append, map_snd_tag, List.filter_append]
    have hkeep : [c.command].filter (· ≠ .V) = [c.command] := by cases c <;> rfl
    rw [hkeep]
    exact List.Sublist.refl _

/-- The driver and the server take a step, with the commands forwarded among those that have been
on their way. -/
theorem Inv.netStep {log more : List (ℕ × UInt8)} {sent sent2 : List Algorithm.Command}
    {s : FlightLoop} (h : s.Inv log sent sent2) {net : Pops.PopsNet}
    {pending : List Pops.OperatorCommand} (hnet : net.Inv (log ++ more)) (hshown : net.Shown)
    (halone : net.Alone)
    (hcommands : (forwarded net ++ pending.map Pops.OperatorCommand.command).Sublist
      (forwarded s.net ++ s.pending.map Pops.OperatorCommand.command)) :
    Inv (log ++ more) sent sent2 {s with net := net, pending := pending} := by
  have hmono := h.net.actions_prefix hnet
  have hsub := hcommands.trans h.commands
  refine ⟨hnet, hshown, halone, h.ordered, hsub, fun htwo => hmono.subset (h.sampled htwo),
    fun hact => hmono.subset (h.active hact), ?_⟩
  refine executed_step h.net hnet halone ?_ (fun hE => ?_) h.executed
  · exact ((List.sublist_append_left _ _).trans hsub).trans (popsCommands_sublist h.ordered.pops1)
  · exact h.shutdown_started (hcommands.subset (List.mem_append_left _ hE))

/-- The commands for POPS(1) are commands of its partition. -/
theorem filterMap_popsCommand (cmds : List Algorithm.Command) :
    cmds.filterMap popsCommand = (cmds.filter Algorithm.isPops1).filterMap popsCommand := by
  rw [List.filterMap_filter]
  congr 1
  funext cmd
  cases cmd <;> rfl

/-- An update of the algorithm with a value that the telemetry has shown. -/
theorem Inv.update {log : List (ℕ × UInt8)} {sent sent2 : List Algorithm.Command} {s : FlightLoop}
    (h : s.Inv log sent sent2) (u : Algorithm.Update) (hu : u.tm.popsSrvr ∈ s.sampled)
    {alg : Algorithm.Config} (halg : s.alg.step u = some alg) :
    ∃ sent' sent2', Inv log sent' sent2'
      {s with alg := alg, pending := s.pending ++ alg.issued.filterMap popsCommand} := by
  obtain ⟨alg', halg', hordered⟩ := Algorithm.Config.step_ordered h.ordered u
  obtain rfl := Option.some.inj (halg'.symm.trans halg)
  refine ⟨_, _, h.net, h.shown, h.alone, hordered, ?_, h.sampled, ?_, h.executed⟩
  · dsimp only
    rw [List.map_append, ← List.append_assoc, filterMap_popsCommand, List.filterMap_append,
      List.map_append]
    exact h.commands.append (List.Sublist.refl _)
  · intro hleft
    by_cases hinit : s.alg.p2.state = .pops1Init
    · refine h.sampled ?_
      by_cases htwo : u.tm.popsSrvr = 2
      · rwa [← htwo]
      · -- Without a 2 the partition stays in `POPS1_Init`.
        obtain rfl := Option.some.inj halg
        obtain ⟨-, -, hnext⟩ := Algorithm.pops1.visit_spec u.now
          ⟨u.tm,(s.alg.visitP1 u).2.state,s.alg.p2.state,s.alg.p3.state⟩ s.alg.p2
          h.ordered.onScript.p2
        rcases hnext with hsame | ⟨r, hr, hwhen, -⟩ | hval
        · exact absurd (hsame.trans hinit) hleft
        · rw [hinit] at hr
          obtain rfl := List.mem_singleton.mp hr
          exact absurd (of_decide_eq_true hwhen) htwo
        · rw [hinit] at hval
          simp [Algorithm.pops1] at hval
    · exact h.active hinit

theorem step_inv (io : DasIO) (lib : Pops.StatusLib) (s s' : FlightLoop) (e : LoopEvent)
    (log : List (ℕ × UInt8)) (sent sent2 : List Algorithm.Command) (h : s.Inv log sent sent2)
    (hs : s.step io lib e = some s') : ∃ log' sent' sent2', s'.Inv log' sent' sent2' := by
  cases e with
  | update u =>
    obtain ⟨hu, hs⟩ := Option.ite_none_right_eq_some.mp hs
    obtain ⟨alg, halg, rfl⟩ := Option.map_eq_some_iff.mp hs
    exact ⟨log, h.update u hu halg⟩
  | deliver =>
    simp only [step] at hs
    split at hs
    · cases hs
    · rename_i c rest hpending
      obtain ⟨net, hnet, rfl⟩ := Option.map_eq_some_iff.mp hs
      obtain ⟨more, hinv⟩ := Pops.PopsNet.step_inv io lib s.net net _ log h.net hnet
      obtain rfl := Option.some.inj hnet
      obtain ⟨hshown, halone, hissues⟩ :=
        h.shown.issue h.alone (s.net.drv.forward_cases c.command)
      refine ⟨_, sent, sent2, h.netStep hinv hshown halone ?_⟩
      rw [hpending, List.map_cons, List.append_cons]
      exact (forwarded_command hissues).append (List.Sublist.refl _)
  | sample =>
    obtain rfl := Option.some.inj hs
    refine ⟨log, sent, sent2, h.net, h.shown, h.alone, h.ordered, h.commands, fun htwo => ?_,
      h.active, h.executed⟩
    rcases List.mem_append.mp htwo with hold | hnew
    · exact h.sampled hold
    · refine h.shown.srvr (UInt8.toNat_inj.mp ?_)
      exact (List.mem_singleton.mp hnew).symm
  | net e =>
    obtain ⟨he, hs⟩ := Option.ite_none_right_eq_some.mp hs
    obtain ⟨net, hnet, rfl⟩ := Option.map_eq_some_iff.mp hs
    obtain ⟨more, hinv⟩ := Pops.PopsNet.step_inv io lib s.net net e log h.net hnet
    obtain ⟨hshown, halone, hissues⟩ :=
      Pops.PopsNet.step_shown io lib s.net net e he log h.net h.shown h.alone hnet
    refine ⟨_, sent, sent2, h.netStep hinv hshown halone ?_⟩
    rw [forwarded_V hissues]

theorem run_inv (io : DasIO) (lib : Pops.StatusLib) (s s' : FlightLoop) (es : List LoopEvent)
    (h : ∃ log sent sent2, s.Inv log sent sent2) (hs : Run.run (step io lib) s es = some s') :
    ∃ log sent sent2, s'.Inv log sent sent2 := by
  refine Run.run_keeps (step io lib) (fun _ _ => True)
    (fun _ s => ∃ log sent sent2, s.Inv log sent sent2) ?_ [] s s' es h (Run.along_true _ s es) hs
  rintro - s e s' ⟨log, sent, sent2, h⟩ - hs
  exact step_inv io lib s s' e log sent sent2 h hs

/-- Whatever the telemetry delays, and whatever connections are lost: left to the algorithm, the
server of POPS(1) starts the software once at most, and then asks it once at most to shut down. It
never halts the machine, and the algorithm takes POPS(1) for active only when it has been
started. -/
theorem flight_loop_actions (io : DasIO) (lib : Pops.StatusLib) (now : ℕ) (es : List LoopEvent)
    (s : FlightLoop) (hs : Run.run (step io lib) (start now) es = some s) :
    s.net.srvr.actions <+: [.startPops, .sendShutdown] ∧
      (s.alg.p2.state ≠ .pops1Init → .startPops ∈ s.net.srvr.actions) := by
  obtain ⟨log, sent, sent2, h⟩ := run_inv io lib (start now) s es ⟨_, _, _, inv_start now⟩ hs
  refine ⟨?_, h.active⟩
  rw [h.net.serial.actions_eq, ← Pops.PopsSocket.serial_filter]
  obtain ⟨rest, hrest⟩ := h.executed
  have hactions : (Pops.PopsSocket.serial (executed log ++ rest)).actions =
      [.startPops, .sendShutdown] := by
    rw [hrest]
    rfl
  rw [← hactions, Pops.PopsSocket.serial_append]
  exact Pops.PopsSocket.foldl_execute_actions _ _

/-- The driver reads that the server is idle. -/
def idleRun : List LoopEvent :=
  [.net .connect, .net .negotiated, .net (.server (.read 0 2)), .net (.driverRead 2)]

/-- The algorithm starts POPS(1), and the driver reads that it is active. -/
def activeRun : List LoopEvent :=
  [.sample, .update ⟨0,⟨1,0,1000⟩,false⟩, .update ⟨4,⟨1,0,1000⟩,false⟩, .deliver,
    .net (.server (.read 0 2)), .net (.driverRead 2)]

/-- The algorithm takes it for active, and then there is a `Shutdown`. -/
def shutdownRun : List LoopEvent :=
  [.sample, .update ⟨5,⟨2,0,1000⟩,false⟩, .update ⟨6,⟨2,0,1000⟩,true⟩,
    .update ⟨7,⟨2,0,1000⟩,false⟩, .deliver, .net (.server (.read 0 2))]

/-- A whole flight: the software is started and asked to shut down. -/
theorem flight_loop_actions_flight : ∃ s,
    Run.run (step .keeping .decimal) (start 0) (idleRun ++ activeRun ++ shutdownRun) = some s ∧
    s.net.srvr.actions = [.startPops, .sendShutdown] ∧
    s.net.srvr.actions <+: [.startPops, .sendShutdown] ∧ .startPops ∈ s.net.srvr.actions := by
  -- The two reads of the driver; everything else is evaluated.
  have hidle : Pops.PopsClient.appInput .keeping .decimal ⟨InputBuffer.empty,0,true,0⟩
      [0x31, 0x0a] = ⟨InputBuffer.empty,1,true,0⟩ :=
    Pops.PopsClient.appInput_reply ⟨InputBuffer.empty,0,true,0⟩ .popsIdle rfl
  have hactive : Pops.PopsClient.appInput .keeping .decimal ⟨InputBuffer.empty,1,true,0⟩
      [0x32, 0x0a] = ⟨InputBuffer.empty,2,true,0⟩ :=
    Pops.PopsClient.appInput_reply ⟨InputBuffer.empty,1,true,0⟩ .popsActive rfl
  let loop1 (clt : Pops.PopsClient) : FlightLoop := ⟨.start 0,[],⟨⟨clt,true,false,0,0⟩,
    ⟨.popsIdle,[],[⟨InputBuffer.empty,[0x56, 0x0a],[],[0x31, 0x0a]⟩]⟩,0,2,[(0,.V)]⟩,[0]⟩
  let net2 (clt : Pops.PopsClient) : Pops.PopsNet := ⟨⟨clt,true,false,0,0⟩,
    ⟨.popsActive,[.startPops],
      [⟨InputBuffer.empty,[0x56, 0x0a, 0x42, 0x0a],[],[0x31, 0x0a, 0x32, 0x0a]⟩]⟩,
    0,4,[(0,.V), (0,.B)]⟩
  have h1 : Run.run (step .keeping .decimal) (start 0) idleRun =
      some (loop1 ⟨InputBuffer.empty,1,true,0⟩) := congrArg (fun clt => some (loop1 clt)) hidle
  obtain ⟨alg, sampled, s, h2, h3, hactions, hleft⟩ : ∃ alg sampled s,
      Run.run (step .keeping .decimal) (loop1 ⟨InputBuffer.empty,1,true,0⟩) activeRun =
        some ⟨alg,[],net2 (.appInput .keeping .decimal ⟨InputBuffer.empty,1,true,0⟩ [0x32, 0x0a]),
          sampled⟩ ∧
      Run.run (step .keeping .decimal) ⟨alg,[],net2 ⟨InputBuffer.empty,2,true,0⟩,sampled⟩
        shutdownRun = some s ∧
      s.net.srvr.actions = [.startPops, .sendShutdown] ∧ s.alg.p2.state ≠ .pops1Init :=
    ⟨_, _, _, rfl, rfl, rfl, by decide⟩
  have hs : Run.run (step .keeping .decimal) (start 0) (idleRun ++ activeRun ++ shutdownRun) =
      some s := by
    rw [hactive] at h2
    rw [Run.run_append, Run.run_append, h1, Option.bind_some, h2, Option.bind_some, h3]
  obtain ⟨hsub, hstarted⟩ := flight_loop_actions .keeping .decimal 0 _ s hs
  exact ⟨s, hs, hactions, hsub, hstarted hleft⟩

end FlightLoop
end Cosmid.Flight
