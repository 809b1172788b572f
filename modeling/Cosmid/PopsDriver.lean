import Cosmid.PopsAgreement

/-! The driver (POPS/POPS.cc) with its timer and its counters, and the server with this and
other clients. A connection that is lost leaves the server with what it has not read of it, so
commands of an old connection may be executed behind those of a new one. -/
namespace Cosmid.Pops

open Channels Lines

/-- The operator's commands (POPS/TM/POPS.cmd.in), apart from the one that ends the driver. -/
inductive OperatorCommand
  | start
  | shutdown
  | shutdownForce
deriving DecidableEq

/-- What is sent to the driver. -/
def OperatorCommand.turf : OperatorCommand → List UInt8
  | .start => [0x42, 0x0a]
  | .shutdown => [0x45, 0x0a]
  | .shutdownForce => [0x46, 0x0a]

def OperatorCommand.command : OperatorCommand → Command
  | .start => .B
  | .shutdown => .E
  | .shutdownForce => .F

/-- The string that the driver writes for a command. -/
def Command.line (cmd : Command) : List UInt8 := [cmd.byte, 0x0a]

/-- What `POPS_Cmd::app_input` does with what it has read. -/
inductive CmdResult
  | nothing
  | forward (cmd : List UInt8)
  | quit
  | invalid
deriving DecidableEq

def popsCmdAppInput : List UInt8 → CmdResult
  | [] => .nothing
  | letter :: buf =>
    if letter = 0x42 ∨ letter = 0x45 ∨ letter = 0x46 then .forward (letter :: buf)
    else if letter = 0x51 then .quit
    else .invalid

theorem popsCmdAppInput_turf (c : OperatorCommand) :
    popsCmdAppInput c.turf = .forward c.command.line := by cases c <;> rfl

/-- `POPS_client` with the base class's `socket_state` and `TO`, and `POPS.Stale`. `timer` says
whether `TO` runs for a command; without a connection the base class uses it. -/
structure PopsDriver where
  clt : PopsClient
  socketConnected : Bool
  timer : Bool
  srvrStale : UInt8
  stale : UInt8

namespace PopsDriver

def new : PopsDriver := ⟨.new,false,false,0,0⟩

/-- The command that is written, if any. -/
def forward (d : PopsDriver) (cmd : Command) : Option Command × PopsDriver :=
  if d.clt.connected then (some cmd, {d with timer := true}) else (none, d)

def appConnected (d : PopsDriver) : Option Command × PopsDriver :=
  let (cmd, d) := d.forward .V
  (cmd, {d with srvrStale := d.srvrStale+1})

def appInput (io : DasIO) (lib : StatusLib) (d : PopsDriver) (bytes : List UInt8) : PopsDriver :=
  {d with clt := d.clt.appInput io lib bytes, timer := false, srvrStale := 0}

/-- `protocol_timeout` and `app_process_eof`. Neither resets `srvr_Stale`. -/
def lose (d : PopsDriver) : PopsDriver :=
  {d with clt := d.clt.lose, socketConnected := false, timer := false}

/-- `POPS.Stale` at a telemetry frame. -/
def tick (d : PopsDriver) : PopsDriver := if d.stale < 255 then {d with stale := d.stale+1} else d

/-- The socket may be connected before the driver is, while the library still negotiates. -/
def tmSync (d : PopsDriver) : Option Command × PopsDriver :=
  let d := d.tick
  if d.stale > 2 ∧ d.socketConnected then
    if d.srvrStale = 0 then d.appConnected
    else (none, if d.srvrStale < 255 then {d with srvrStale := d.srvrStale+1} else d)
  else (none, d)

/-- Nothing is written: the timer stays as it is, and on a connection `srvr_Stale` does not
become positive. -/
structure Holds (d : PopsDriver) (r : Option Command × PopsDriver) : Prop where
  none_eq : r.1 = none
  clt_eq : r.2.clt = d.clt
  timer_eq : r.2.timer = d.timer
  srvrStale : d.clt.connected = true → r.2.srvrStale ≠ 0 → d.srvrStale ≠ 0

/-- A command is written on the connection, and the timer runs. -/
structure Sends (d : PopsDriver) (cmd : Command) (r : Option Command × PopsDriver) : Prop where
  some_eq : r.1 = some cmd
  connected : d.clt.connected = true
  clt_eq : r.2.clt = d.clt
  timer_eq : r.2.timer = true

theorem forward_cases (d : PopsDriver) (cmd : Command) :
    d.Holds (d.forward cmd) ∨ d.Sends cmd (d.forward cmd) := by
  unfold forward
  cases h : d.clt.connected with
  | false => exact Or.inl ⟨rfl, rfl, rfl, fun _ h => h⟩
  | true => exact Or.inr ⟨rfl, h, rfl, rfl⟩

theorem appConnected_cases (d : PopsDriver) :
    d.Holds d.appConnected ∨ d.Sends .V d.appConnected := by
  unfold appConnected forward
  cases h : d.clt.connected with
  | false => exact Or.inl ⟨rfl, rfl, rfl, fun hc => by rw [h] at hc; cases hc⟩
  | true => exact Or.inr ⟨rfl, h, rfl, rfl⟩

theorem tick_eq (d : PopsDriver) : ∃ stale, d.tick = {d with stale := stale} := by
  unfold tick
  split
  · exact ⟨_, rfl⟩
  · exact ⟨d.stale, rfl⟩

theorem tmSync_cases (d : PopsDriver) : d.Holds d.tmSync ∨ d.Sends .V d.tmSync := by
  obtain ⟨stale, hd⟩ := d.tick_eq
  unfold tmSync
  rw [hd]
  dsimp only
  split_ifs with hconn hzero hmax
  · rcases appConnected_cases {d with stale := stale} with h | h
    · exact Or.inl ⟨h.none_eq, h.clt_eq, h.timer_eq, h.srvrStale⟩
    · exact Or.inr ⟨h.some_eq, h.connected, h.clt_eq, h.timer_eq⟩
  · exact Or.inl ⟨rfl, rfl, rfl, fun _ _ => hzero⟩
  · exact Or.inl ⟨rfl, rfl, rfl, fun _ h => h⟩
  · exact Or.inl ⟨rfl, rfl, rfl, fun _ h => h⟩

end PopsDriver

namespace PopsClient

theorem statusLine_connected (lib : StatusLib) (c : PopsClient) :
    (c.statusLine lib).connected = c.connected := by
  unfold statusLine
  split
  · unfold digitLine
    split
    · rfl
    · split <;> rfl
  · unfold otherLine
    dsimp only
    split <;> rfl

theorem statusLoop_connected (lib : StatusLib) (c : PopsClient) :
    (statusLoop lib c).connected = c.connected := by
  induction hn : c.ibuf.unread.length using Nat.strongRecOn generalizing c with
  | _ n ih =>
    by_cases hnil : c.ibuf.unread = []
    · rw [statusLoop_nil lib c hnil]
    · have hlen := c.ibuf.length_unread
      have hpos := List.length_pos_of_ne_nil hnil
      rw [statusLoop_of_ne_nil lib c hnil,
        ih _ (hn ▸ statusLine_lt lib c (by omega)) (c.statusLine lib) rfl, statusLine_connected]

/-- A read does not end the connection. -/
theorem appInput_connected (io : DasIO) (lib : StatusLib) (c : PopsClient) (bytes : List UInt8) :
    (c.appInput io lib bytes).connected = c.connected := statusLoop_connected lib _

end PopsClient

/-- The driver, the server, the number that the server has for the driver's latest connection,
how much of what the server has written on it the driver has read, and what the driver has
written on its connections. -/
structure PopsNet where
  drv : PopsDriver
  srvr : PopsSrvr
  conn : ℕ
  received : ℕ
  issued : List (ℕ × Command)

/-- A telemetry frame, a record of the instrument, a command of the operator, a connection and
the end of its negotiation, a read of `n` bytes, a timeout, the end of a connection, and what
happens at the server. -/
inductive NetEvent
  | tmSync
  | record
  | operator (c : OperatorCommand)
  | connect
  | negotiated
  | driverRead (n : ℕ)
  | timeout
  | eof
  | server (e : SrvrEvent)

namespace PopsNet

def start : PopsNet := ⟨.new,.start,0,0,[]⟩

/-- What the driver's functions return, with the command on its way. -/
def transmit (s : PopsNet) (r : Option Command × PopsDriver) : PopsNet :=
  match r.1, s.srvr.conns[s.conn]? with
  | some cmd, some c =>
    {s with
      drv := r.2
      srvr := s.srvr.sendOn s.conn cmd.line c
      issued := s.issued ++ [(s.conn,cmd)]}
  | _, _ => {s with drv := r.2}

/-- The connection is one of the driver's. -/
def Own (s : PopsNet) (i : ℕ) : Prop := onChannel s.issued i ≠ []

instance (s : PopsNet) (i : ℕ) : Decidable (s.Own i) := inferInstanceAs (Decidable (_ ≠ []))

/-- What arrives at the server from another client is up to that client. -/
def serverStep (io : DasIO) (s : PopsNet) (e : SrvrEvent) : Option PopsNet :=
  match e with
  | .send i _ => if s.Own i then none else (s.srvr.step io e).map fun srvr => {s with srvr := srvr}
  | _ => (s.srvr.step io e).map fun srvr => {s with srvr := srvr}

def step (io : DasIO) (lib : StatusLib) (s : PopsNet) : NetEvent → Option PopsNet
  | .tmSync => some (s.transmit s.drv.tmSync)
  | .record => some {s with drv := {s.drv with stale := 0}}
  | .operator c => some (s.transmit (s.drv.forward c.command))
  | .connect =>
    if s.drv.socketConnected then none
    else some {s with drv := {s.drv with socketConnected := true}}
  | .negotiated =>
    if s.drv.socketConnected ∧ ¬s.drv.clt.connected then
      let drv := {s.drv with clt := {s.drv.clt with connected := true}}
      some (transmit {s with
        srvr := s.srvr.accept
        conn := s.srvr.conns.length
        received := 0} drv.appConnected)
    else none
  | .driverRead n =>
    if s.drv.clt.connected then
      (s.srvr.conns[s.conn]?).bind fun c =>
        if 0 < n ∧ s.received+n ≤ c.written.length then
          some {s with
            drv := s.drv.appInput io lib ((c.written.drop s.received).take n)
            received := s.received+n}
        else none
    else none
  | .timeout => if s.drv.timer then some {s with drv := s.drv.lose} else none
  | .eof => some {s with drv := s.drv.lose}
  | .server e => s.serverStep io e

/-- What the driver has sent on its connections are whole lines, and so is what the server has
not executed of it. -/
structure Lined (issued : List (ℕ × Command)) (i : ℕ) (c : Conn) : Prop where
  sent_eq : c.sent = lines Command.byte (onChannel issued i)
  rest_eq : ∃ cmds, c.ibuf.buf ++ c.waiting = lines Command.byte cmds
  buf_lt : c.ibuf.buf.length < 2

/-- The status that the driver has, or will have after the replies on their way, is the one
behind the commands `pre`, and those executed since then came on other connections. -/
def Told (log : List (ℕ × UInt8)) (s : PopsNet) (c : Conn) : Prop :=
  ∃ pre late lead es, log = pre ++ late ∧ onChannel late s.conn = [] ∧
    (lead = [] ∨ lead = [0x0a]) ∧
    c.written.drop s.received = lead ++ lines PopsStatus.digit es ∧
    known s.drv.clt.srvr es = (PopsSocket.serial (pre.map Prod.snd)).popsStatus.code

/-- The driver's connection: the server has not read anything on it, or has told the driver. -/
structure Current (log : List (ℕ × UInt8)) (s : PopsNet) (c : Conn) : Prop where
  conn_eq : s.srvr.conns[s.conn]? = some c
  lined : Lined s.issued s.conn c
  received_le : s.received ≤ c.written.length
  told : (c.written = [] ∧ c.waiting = c.sent) ∨ Told log s c
  flight : s.drv.timer = true → c.waiting ≠ [] ∨ s.received < c.written.length

/-- The part of the invariant that does not depend on the connection. -/
structure Base (log : List (ℕ × UInt8)) (s : PopsNet) : Prop where
  serial : s.srvr.Serial log
  lined : ∀ i c, s.srvr.conns[i]? = some c → s.Own i → Lined s.issued i c
  own_lt : ∀ i, s.Own i → i < s.srvr.conns.length
  clt_buf : s.drv.clt.ibuf.buf = []

/-- The invariant. -/
structure Inv (log : List (ℕ × UInt8)) (s : PopsNet) : Prop extends Base log s where
  idle : s.drv.clt.connected = false → s.drv.clt.srvr = 0 ∧ s.drv.timer = false
  current : s.drv.clt.connected = true → ∃ c, Current log s c
  own : s.drv.clt.connected = true → s.Own s.conn
  alarm : s.drv.clt.connected = true → s.drv.srvrStale ≠ 0 → s.drv.timer = true

theorem inv_start : start.Inv [] where
  serial := PopsSrvr.start_serial
  lined i c hc := by cases hc
  own_lt i hi := absurd rfl hi
  clt_buf := rfl
  idle _ := ⟨rfl, rfl⟩
  current h := by cases h
  own h := by cases h
  alarm h := by cases h

/-- What the driver may change without writing anything. -/
theorem Inv.setDrv {log : List (ℕ × UInt8)} {s : PopsNet} (h : s.Inv log) {d : PopsDriver}
    (hclt : d.clt = s.drv.clt) (htimer : d.timer = s.drv.timer)
    (hstale : s.drv.clt.connected = true → d.srvrStale ≠ 0 → s.drv.srvrStale ≠ 0) :
    Inv log {s with drv := d} := by
  refine ⟨⟨h.serial, h.lined, h.own_lt, ?_⟩, ?_, ?_, ?_, ?_⟩
  · rw [hclt]
    exact h.clt_buf
  · rw [hclt, htimer]
    exact h.idle
  · rw [hclt]
    intro hconn
    obtain ⟨c, hc⟩ := h.current hconn
    refine ⟨c, hc.conn_eq, hc.lined, hc.received_le, hc.told.imp id ?_, ?_⟩
    · rintro ⟨pre, late, lead, es, hlog, hlate, hlead, hs, hknown⟩
      exact ⟨pre, late, lead, es, hlog, hlate, hlead, hs, by rw [hclt]; exact hknown⟩
    · rw [htimer]
      exact hc.flight
  · rw [hclt]
    exact h.own
  · rw [hclt, htimer]
    exact fun hconn hpos => h.alarm hconn (hstale hconn hpos)

theorem Inv.holds {log : List (ℕ × UInt8)} {s : PopsNet} (h : s.Inv log)
    {r : Option Command × PopsDriver} (hr : s.drv.Holds r) : (s.transmit r).Inv log := by
  have heq : s.transmit r = {s with drv := r.2} := by rw [PopsNet.transmit, hr.none_eq]
  rw [heq]
  exact h.setDrv hr.clt_eq hr.timer_eq hr.srvrStale

/-- What the driver writes goes behind what the server has not read yet. -/
theorem Base.sends {log : List (ℕ × UInt8)} {s : PopsNet} (h : s.Base log) {c : Conn}
    (hc : Current log s c) {d : PopsDriver} {cmd : Command} {r : Option Command × PopsDriver}
    (hr : d.Sends cmd r) (hd : d.clt = {s.drv.clt with connected := true}) :
    (s.transmit r).Inv log := by
  have heq : s.transmit r = {s with
      drv := r.2
      srvr := s.srvr.sendOn s.conn cmd.line c
      issued := s.issued ++ [(s.conn,cmd)]} := by
    rw [transmit, hr.some_eq, hc.conn_eq]
  have hissued : s.issued ++ [(s.conn,cmd)] = s.issued ++ tag s.conn [cmd] := rfl
  have hclt : r.2.clt = {s.drv.clt with connected := true} := hr.clt_eq.trans hd
  have hconn : r.2.clt.connected = true := by rw [hclt]
  have hnew : Lined (s.issued ++ [(s.conn,cmd)]) s.conn
      {c with sent := c.sent ++ cmd.line, waiting := c.waiting ++ cmd.line} := by
    obtain ⟨cmds, hcmds⟩ := hc.lined.rest_eq
    refine ⟨?_, ⟨cmds ++ [cmd], ?_⟩, hc.lined.buf_lt⟩
    · rw [hissued, onChannel_append, onChannel_tag_self, lines_append, ← hc.lined.sent_eq]
      rfl
    · rw [lines_append, ← hcmds, List.append_assoc]
      rfl
  have hother (i : ℕ) (hi : i ≠ s.conn) :
      onChannel (s.issued ++ [(s.conn,cmd)]) i = onChannel s.issued i := by
    rw [hissued, onChannel_append, onChannel_tag_ne (Ne.symm hi), List.append_nil]
  have hlt : s.conn < s.srvr.conns.length := by
    by_contra hge
    have hnone := List.getElem?_eq_none (Nat.le_of_not_lt hge)
    rw [hc.conn_eq] at hnone
    cases hnone
  rw [heq]
  refine ⟨⟨h.serial.sendOn hc.conn_eq cmd.line, ?_, ?_, ?_⟩, ?_, ?_, ?_, ?_⟩
  · refine PopsSrvr.forall_set (fun _ => hnew) fun j e hj he hown => ?_
    rw [Own, hother j hj] at hown
    have hold := h.lined j e he hown
    exact ⟨by rw [hother j hj]; exact hold.sent_eq, hold.rest_eq, hold.buf_lt⟩
  · intro i hi
    rw [PopsSrvr.sendOn, List.length_set]
    by_cases hic : i = s.conn
    · rw [hic]
      exact hlt
    · rw [Own, hother i hic] at hi
      exact h.own_lt i hi
  · rw [hclt]
    exact h.clt_buf
  · intro hfalse
    rw [hconn] at hfalse
    cases hfalse
  · intro _
    refine ⟨_, List.getElem?_set_self hlt, hnew, hc.received_le, ?_, ?_⟩
    · rcases hc.told with ⟨hw, hwait⟩ | ⟨pre, late, lead, es, hlog, hlate, hlead, hs, hknown⟩
      · exact Or.inl ⟨hw, by rw [hwait]⟩
      · exact Or.inr ⟨pre, late, lead, es, hlog, hlate, hlead, hs, by rw [hclt]; exact hknown⟩
    · exact fun _ => Or.inl (List.append_ne_nil_of_right_ne_nil _ (List.cons_ne_nil _ _))
  · intro _
    rw [Own, hissued, onChannel_append, onChannel_tag_self]
    exact List.append_ne_nil_of_right_ne_nil _ (List.cons_ne_nil _ _)
  · exact fun _ _ => hr.timer_eq

/-- Any function of the driver that writes a command or none. -/
theorem Inv.transmit {log : List (ℕ × UInt8)} {s : PopsNet} (h : s.Inv log) {cmd : Command}
    {r : Option Command × PopsDriver} (hr : s.drv.Holds r ∨ s.drv.Sends cmd r) :
    (s.transmit r).Inv log := by
  rcases hr with hr | hr
  · exact h.holds hr
  · obtain ⟨c, hc⟩ := h.current hr.connected
    refine h.toBase.sends hc hr ?_
    rw [← hr.connected]

/-- A read of the server on a connection of the driver: the reply is the status. -/
theorem Lined.read (io : DasIO) (srvr : PopsSrvr) {issued : List (ℕ × Command)} {i : ℕ} {c : Conn}
    (h : Lined issued i c) (hcp : c.ibuf.cp = 0) (n : ℕ) :
    let socket := (srvr.socket c).protocolInput io (c.waiting.take n)
    Lined issued i ⟨socket.ibuf,c.sent,c.waiting.drop n,c.written ++ socket.written⟩ ∧
      socket.written = lines PopsStatus.digit [socket.popsStatus] := by
  obtain ⟨hrest, hshort, -, hreply⟩ := srvr.read_lines io hcp h.rest_eq n
  exact ⟨⟨h.sent_eq, hrest, hshort⟩, hreply⟩

theorem Inv.accept {log : List (ℕ × UInt8)} {s : PopsNet} (h : s.Inv log) :
    Inv log {s with srvr := s.srvr.accept} := by
  have hold (i : ℕ) (c : Conn) (hi : i < s.srvr.conns.length) :
      s.srvr.accept.conns[i]? = some c ↔ s.srvr.conns[i]? = some c := by
    rw [PopsSrvr.accept, List.getElem?_append_left hi]
  refine ⟨⟨h.serial.accept, ?_, ?_, h.clt_buf⟩, h.idle, ?_, h.own, h.alarm⟩
  · intro i c hc hown
    exact h.lined i c ((hold i c (h.own_lt i hown)).mp hc) hown
  · intro i hown
    rw [PopsSrvr.accept, List.length_append]
    exact Nat.lt_succ_of_lt (h.own_lt i hown)
  · intro hconn
    obtain ⟨c, hc⟩ := h.current hconn
    have hlt := h.own_lt s.conn (h.own hconn)
    exact ⟨c, (hold _ c hlt).mpr hc.conn_eq, hc.lined, hc.received_le, hc.told, hc.flight⟩

/-- Another client is not the driver. -/
theorem Inv.sendOn {log : List (ℕ × UInt8)} {s : PopsNet} (h : s.Inv log) {i : ℕ} {c : Conn}
    (hc : s.srvr.conns[i]? = some c) (hown : ¬s.Own i) (bytes : List UInt8) :
    Inv log {s with srvr := s.srvr.sendOn i bytes c} := by
  refine ⟨⟨h.serial.sendOn hc bytes, ?_, ?_, h.clt_buf⟩, h.idle, ?_, h.own, h.alarm⟩
  · exact PopsSrvr.forall_set (fun hi => absurd hi hown) fun j d _ hd hj => h.lined j d hd hj
  · intro j hj
    rw [PopsSrvr.sendOn, List.length_set]
    exact h.own_lt j hj
  · intro hconn
    obtain ⟨d, hd⟩ := h.current hconn
    have hne : i ≠ s.conn := by
      rintro rfl
      exact hown (h.own hconn)
    refine ⟨d, ?_, hd.lined, hd.received_le, hd.told, hd.flight⟩
    rw [PopsSrvr.sendOn, List.getElem?_set_ne hne]
    exact hd.conn_eq

/-- A read of the server, on any connection. -/
theorem Inv.readOn {log : List (ℕ × UInt8)} {s : PopsNet} (h : s.Inv log) (io : DasIO) {i : ℕ}
    {c : Conn} (hc : s.srvr.conns[i]? = some c) (n : ℕ) :
    ∃ cmds, Inv (log ++ tag i cmds) {s with srvr := s.srvr.readOn io i n c} := by
  obtain ⟨cmds, hserial⟩ := h.serial.readOn io hc n
  have hcp := h.serial.cp_eq i c hc
  refine ⟨cmds, ⟨hserial, ?_, ?_, h.clt_buf⟩, h.idle, ?_, h.own, h.alarm⟩
  · refine PopsSrvr.forall_set (fun hown => ?_) fun j d _ hd hj => h.lined j d hd hj
    exact ((h.lined i c hc hown).read io s.srvr hcp n).1
  · intro j hj
    rw [PopsSrvr.readOn, List.length_set]
    exact h.own_lt j hj
  · intro hconn
    obtain ⟨d, hd⟩ := h.current hconn
    by_cases hi : i = s.conn
    · -- The driver's own connection: the reply goes behind the others.
      subst hi
      obtain rfl := Option.some.inj (hc.symm.trans hd.conn_eq)
      obtain ⟨hlined, hreply⟩ := hd.lined.read io s.srvr hcp n
      have hlen := h.own_lt _ (h.own hconn)
      generalize hsocket : (s.srvr.socket c).protocolInput io (c.waiting.take n) = socket at *
      have hstatus : socket.popsStatus =
          (PopsSocket.serial ((log ++ tag s.conn cmds).map Prod.snd)).popsStatus := by
        rw [← hserial.status_eq, PopsSrvr.readOn, hsocket]
      refine ⟨⟨socket.ibuf,c.sent,c.waiting.drop n,c.written ++ socket.written⟩, ?_, hlined, ?_, ?_,
        fun _ => Or.inr ?_⟩
      · rw [PopsSrvr.readOn, hsocket]
        exact List.getElem?_set_self hlen
      · rw [List.length_append]
        exact Nat.le_add_right_of_le hd.received_le
      · refine Or.inr ⟨log ++ tag s.conn cmds, [], ?_⟩
        have hdrop : (c.written ++ socket.written).drop s.received =
            c.written.drop s.received ++ lines PopsStatus.digit [socket.popsStatus] := by
          rw [List.drop_append_of_le_length hd.received_le, hreply]
        rw [hdrop, ← hstatus]
        rcases hd.told with ⟨hw, -⟩ | ⟨pre, late, lead, es, -, -, hlead, hs, -⟩
        · refine ⟨[], [socket.popsStatus], (List.append_nil _).symm, rfl, Or.inl rfl, ?_,
            known_concat _ [] _⟩
          rw [hw, List.drop_nil]
        · refine ⟨lead, es ++ [socket.popsStatus], (List.append_nil _).symm, rfl, hlead, ?_,
            known_concat _ es _⟩
          rw [hs, lines_append, List.append_assoc]
      · have hle := hd.received_le
        rw [hreply, List.length_append, length_lines]
        dsimp only [List.length_singleton]
        omega
    · refine ⟨d, ?_, hd.lined, hd.received_le, ?_, hd.flight⟩
      · rw [PopsSrvr.readOn, List.getElem?_set_ne hi]
        exact hd.conn_eq
      · rcases hd.told with hnew | ⟨pre, late, lead, es, hlog, hlate, hrest⟩
        · exact Or.inl hnew
        · refine Or.inr ⟨pre, late ++ tag i cmds, lead, es, ?_, ?_, hrest⟩
          · rw [hlog, List.append_assoc]
          · rw [onChannel_append, hlate, onChannel_tag_ne hi]
            rfl

theorem Inv.serverStep {log : List (ℕ × UInt8)} {s s' : PopsNet} (h : s.Inv log) (io : DasIO)
    (e : SrvrEvent) (hs : s.serverStep io e = some s') : ∃ more, s'.Inv (log ++ more) := by
  cases e with
  | accept =>
    obtain rfl := Option.some.inj hs
    exact ⟨[], by rw [List.append_nil]; exact h.accept⟩
  | send i bytes =>
    simp only [PopsNet.serverStep] at hs
    split_ifs at hs with hown
    obtain ⟨srvr, hsrvr, rfl⟩ := Option.map_eq_some_iff.mp hs
    obtain ⟨c, hc, rfl⟩ := Option.map_eq_some_iff.mp hsrvr
    exact ⟨[], by rw [List.append_nil]; exact h.sendOn hc hown bytes⟩
  | read i n =>
    obtain ⟨srvr, hsrvr, rfl⟩ := Option.map_eq_some_iff.mp hs
    obtain ⟨c, hc, hsrvr⟩ := Option.bind_eq_some_iff.mp hsrvr
    obtain ⟨-, hsrvr⟩ := Option.ite_none_right_eq_some.mp hsrvr
    obtain rfl := Option.some.inj hsrvr
    obtain ⟨cmds, hcmds⟩ := h.readOn io hc n
    exact ⟨tag i cmds, hcmds⟩

theorem Inv.driverRead {log : List (ℕ × UInt8)} {s : PopsNet} (h : s.Inv log) (io : DasIO)
    (lib : StatusLib) {c : Conn} (hconn : s.drv.clt.connected = true)
    (hc : s.srvr.conns[s.conn]? = some c) {n : ℕ} (h0 : 0 < n)
    (hn : s.received+n ≤ c.written.length) :
    Inv log {s with
      drv := s.drv.appInput io lib ((c.written.drop s.received).take n)
      received := s.received+n} := by
  have hconn' : (s.drv.appInput io lib ((c.written.drop s.received).take n)).clt.connected = true :=
    (s.drv.clt.appInput_connected io lib _).trans hconn
  obtain ⟨d, hd⟩ := h.current hconn
  obtain rfl := Option.some.inj (hc.symm.trans hd.conn_eq)
  refine ⟨⟨h.serial, h.lined, h.own_lt, ?_⟩, ?_, ?_, fun _ => h.own hconn, fun _ hstale => ?_⟩
  · rw [PopsDriver.appInput, PopsClient.appInput, io.reportOk_buf]
    exact List.drop_length
  · intro hfalse
    rw [hconn'] at hfalse
    cases hfalse
  · intro _
    refine ⟨c, hd.conn_eq, hd.lined, hn, Or.inr ?_, fun hfalse => by cases hfalse⟩
    rcases hd.told with ⟨hw, -⟩ | ⟨pre, late, lead, es, hlog, hlate, hlead, hs, hknown⟩
    · rw [hw, List.length_nil] at hn
      omega
    · obtain ⟨done, rest, lead', rfl, hlead', hrest, hsrvr⟩ :=
        s.drv.clt.appInput_cut io lib h.clt_buf hlead hs h0
      rw [List.drop_drop] at hrest
      refine ⟨pre, late, lead', rest, hlog, hlate, hlead', hrest, ?_⟩
      rw [PopsDriver.appInput, hsrvr, ← known_append]
      exact hknown
  · exact absurd rfl hstale

/-- The status that a read makes the driver publish is its old one or has been written to it. -/
theorem Inv.driverRead_srvr {log : List (ℕ × UInt8)} {s : PopsNet} (h : s.Inv log) (io : DasIO)
    (lib : StatusLib) {c : Conn} (hconn : s.drv.clt.connected = true)
    (hc : s.srvr.conns[s.conn]? = some c) {n : ℕ} (h0 : 0 < n)
    (hn : s.received+n ≤ c.written.length) :
    (s.drv.clt.appInput io lib ((c.written.drop s.received).take n)).srvr = s.drv.clt.srvr ∨
    ∃ status : PopsStatus, status.digit ∈ c.written ∧
      (s.drv.clt.appInput io lib ((c.written.drop s.received).take n)).srvr = status.code := by
  obtain ⟨d, hd⟩ := h.current hconn
  obtain rfl := Option.some.inj (hc.symm.trans hd.conn_eq)
  rcases hd.told with ⟨hw, -⟩ | ⟨pre, late, lead, es, -, -, hlead, hs, -⟩
  · rw [hw, List.length_nil] at hn
    omega
  · obtain ⟨done, rest, lead', rfl, -, -, hsrvr⟩ :=
      s.drv.clt.appInput_cut io lib h.clt_buf hlead hs h0
    rcases List.eq_nil_or_concat' done with rfl | ⟨done, status, rfl⟩
    · exact Or.inl hsrvr
    · refine Or.inr ⟨status, List.mem_of_mem_drop (i := s.received) ?_, ?_⟩
      · rw [hs]
        simp
      · rw [hsrvr, known_concat]

/-- The driver gives the connection up. -/
theorem Inv.lose {log : List (ℕ × UInt8)} {s : PopsNet} (h : s.Inv log) :
    Inv log {s with drv := s.drv.lose} where
  serial := h.serial
  lined := h.lined
  own_lt := h.own_lt
  clt_buf := h.clt_buf
  idle _ := ⟨rfl, rfl⟩
  current hconn := by cases hconn
  own hconn := by cases hconn
  alarm hconn := by cases hconn

/-- A connection begins with a `V`. -/
theorem Inv.negotiated {log : List (ℕ × UInt8)} {s : PopsNet} (h : s.Inv log)
    (hconn : s.drv.clt.connected = false) :
    Inv log (PopsNet.transmit {s with
        srvr := s.srvr.accept
        conn := s.srvr.conns.length
        received := 0}
      (PopsDriver.appConnected {s.drv with clt := {s.drv.clt with connected := true}})) := by
  have hsends : PopsDriver.Sends {s.drv with clt := {s.drv.clt with connected := true}} .V
      (PopsDriver.appConnected {s.drv with clt := {s.drv.clt with connected := true}}) :=
    ⟨rfl, rfl, rfl, rfl⟩
  have hfresh : onChannel s.issued s.srvr.conns.length = [] := by
    by_contra hne
    exact Nat.lt_irrefl _ (h.own_lt _ hne)
  refine Base.sends
    (s := {s with srvr := s.srvr.accept, conn := s.srvr.conns.length, received := 0})
    ⟨h.accept.serial, h.accept.lined, h.accept.own_lt, h.clt_buf⟩
    (c := ⟨InputBuffer.empty,[],[],[]⟩) ?_ hsends rfl
  refine ⟨?_, ⟨by rw [hfresh]; rfl, ⟨[], rfl⟩, Nat.succ_pos 1⟩, Nat.le_refl 0,
    Or.inl ⟨rfl, rfl⟩, ?_⟩
  · exact List.getElem?_concat_length
  · intro htimer
    rw [(h.idle hconn).2] at htimer
    cases htimer

theorem step_inv (io : DasIO) (lib : StatusLib) (s s' : PopsNet) (e : NetEvent)
    (log : List (ℕ × UInt8)) (h : s.Inv log) (hs : s.step io lib e = some s') :
    ∃ more, s'.Inv (log ++ more) := by
  have hsame {t : PopsNet} (ht : t.Inv log) : ∃ more, t.Inv (log ++ more) :=
    ⟨[], by rwa [List.append_nil]⟩
  cases e with
  | tmSync =>
    obtain rfl := Option.some.inj hs
    exact hsame (h.transmit s.drv.tmSync_cases)
  | record =>
    obtain rfl := Option.some.inj hs
    exact hsame (h.setDrv rfl rfl fun _ hpos => hpos)
  | operator c =>
    obtain rfl := Option.some.inj hs
    exact hsame (h.transmit (s.drv.forward_cases c.command))
  | connect =>
    obtain ⟨-, hs⟩ := Option.ite_none_left_eq_some.mp hs
    obtain rfl := Option.some.inj hs
    exact hsame (h.setDrv rfl rfl fun _ hpos => hpos)
  | negotiated =>
    obtain ⟨⟨-, hconn⟩, hs⟩ := Option.ite_none_right_eq_some.mp hs
    obtain rfl := Option.some.inj hs
    exact hsame (h.negotiated (Bool.eq_false_iff.mpr hconn))
  | driverRead n =>
    obtain ⟨hconn, hs⟩ := Option.ite_none_right_eq_some.mp hs
    obtain ⟨c, hc, hs⟩ := Option.bind_eq_some_iff.mp hs
    obtain ⟨⟨h0, hn⟩, hs⟩ := Option.ite_none_right_eq_some.mp hs
    obtain rfl := Option.some.inj hs
    exact hsame (h.driverRead io lib hconn hc h0 hn)
  | timeout =>
    obtain ⟨-, hs⟩ := Option.ite_none_right_eq_some.mp hs
    obtain rfl := Option.some.inj hs
    exact hsame h.lose
  | eof =>
    obtain rfl := Option.some.inj hs
    exact hsame h.lose
  | server e => exact h.serverStep io e hs

theorem run_inv (io : DasIO) (lib : StatusLib) (s s' : PopsNet) (es : List NetEvent)
    (log : List (ℕ × UInt8)) (h : s.Inv log) (hs : Run.run (step io lib) s es = some s') :
    ∃ more, s'.Inv (log ++ more) := by
  refine Run.run_keeps (step io lib) (fun _ _ => True) (fun _ s => ∃ more, s.Inv (log ++ more)) ?_
    [] s s' es ⟨[], by rwa [List.append_nil]⟩ (Run.along_true _ s es) hs
  rintro - s e s' ⟨more, h⟩ - hs
  obtain ⟨more', h'⟩ := step_inv io lib s s' e _ h hs
  exact ⟨more ++ more', by rwa [← List.append_assoc]⟩

theorem scan_lines (cmds : List Command) :
    commandScanner.scan (lines Command.byte cmds) = (cmds.map Command.byte, []) := by
  have hscan := commandScanner.scan_flatten (fun cmd => [cmd, 0x0a]) (cmds.map Command.byte)
    (fun _ _ _ => rfl) rfl
  rw [List.map_map] at hscan
  exact hscan

/-- On its own connections the server takes the driver's commands in order. -/
theorem Inv.follows {log : List (ℕ × UInt8)} {s : PopsNet} (h : s.Inv log) (i : ℕ)
    (hown : s.Own i) :
    onChannel log i <+: (onChannel s.issued i).map Command.byte := by
  obtain ⟨c, hc⟩ : ∃ c, s.srvr.conns[i]? = some c :=
    ⟨_, List.getElem?_eq_getElem (h.own_lt i hown)⟩
  have htaken := (h.serial.taken i c hc).scan_eq
  rw [(h.lined i c hc hown).sent_eq, scan_lines] at htaken
  exact ⟨_, htaken.symm⟩

/-- All that the driver has sent has been read. -/
theorem Current.all_taken {log : List (ℕ × UInt8)} {s : PopsNet} (h : s.srvr.Serial log) {c : Conn}
    (hc : Current log s c) (hwait : c.waiting = []) :
    onChannel log s.conn = (onChannel s.issued s.conn).map Command.byte := by
  obtain ⟨cmds, hcmds⟩ := hc.lined.rest_eq
  have hshort := hc.lined.buf_lt
  rw [hwait, List.append_nil] at hcmds
  have hbuf : c.ibuf.buf = [] := by
    rw [hcmds, length_lines] at hshort
    rw [hcmds, List.eq_nil_of_length_eq_zero (show cmds.length = 0 by omega)]
    rfl
  have htaken := (h.taken s.conn c hc.conn_eq).scan_eq
  rw [hc.lined.sent_eq, scan_lines, hwait, hbuf, List.append_nil,
    commandScanner.scan_none rfl, List.append_nil] at htaken
  exact htaken.symm

/-- However connections are made and lost, and whatever other clients do: the server executes
the driver's commands of every connection in their order, up to one of them, and one order of
these and of all other commands explains the server's status and what it has done. On a
connection on which nothing is on its way it has executed all of them, and the driver publishes the
status behind the last one of them that it has executed, or a later one of another connection. -/
theorem driver_told (io : DasIO) (lib : StatusLib) (es : List NetEvent) (s : PopsNet)
    (hs : Run.run (step io lib) start es = some s) :
    ∃ log : List (ℕ × UInt8),
      s.srvr.popsStatus = (PopsSocket.serial (log.map Prod.snd)).popsStatus ∧
      s.srvr.actions = (PopsSocket.serial (log.map Prod.snd)).actions ∧
      (∀ i, s.Own i → onChannel log i <+: (onChannel s.issued i).map Command.byte) ∧
      (s.drv.clt.connected = false → s.drv.clt.srvr = 0) ∧
      ∀ c, s.drv.clt.connected = true → s.srvr.conns[s.conn]? = some c → c.waiting = [] →
        s.received = c.written.length →
        onChannel log s.conn = (onChannel s.issued s.conn).map Command.byte ∧
        ∃ pre late, log = pre ++ late ∧ onChannel late s.conn = [] ∧
          s.drv.clt.srvr = (PopsSocket.serial (pre.map Prod.snd)).popsStatus.code := by
  obtain ⟨log, h⟩ := run_inv io lib start s es [] inv_start hs
  rw [List.nil_append] at h
  refine ⟨log, h.serial.status_eq, h.serial.actions_eq, h.follows,
    fun hconn => (h.idle hconn).1, ?_⟩
  intro c hconn hc hwait hread
  obtain ⟨d, hd⟩ := h.current hconn
  obtain rfl := Option.some.inj (hc.symm.trans hd.conn_eq)
  refine ⟨hd.all_taken h.serial hwait, ?_⟩
  rcases hd.told with ⟨-, hnew⟩ | ⟨pre, late, lead, rs, hlog, hlate, -, hreplies, hknown⟩
  · -- The `V` at least is on its way.
    have hsent := hd.lined.sent_eq
    rw [← hnew, hwait] at hsent
    exact absurd (lines_eq_nil Command.byte hsent.symm) (h.own hconn)
  · rw [hread, List.drop_length] at hreplies
    have hnil := lines_eq_nil PopsStatus.digit (List.append_eq_nil_iff.mp hreplies.symm).2
    refine ⟨pre, late, hlog, hlate, ?_⟩
    rw [← hknown, hnil]
    rfl

/-- The telemetry frames since the latest record of the instrument. -/
def ticks (es : List NetEvent) : ℕ :=
  es.foldl (fun n e => match e with
    | .tmSync => n+1
    | .record => 0
    | _ => n) 0

theorem transmit_drv (s : PopsNet) (r : Option Command × PopsDriver) :
    (s.transmit r).drv = r.2 := by
  unfold transmit
  split <;> rfl

theorem forward_frame (d : PopsDriver) (cmd : Command) :
    ∃ timer, (d.forward cmd).2 = {d with timer := timer} := by
  unfold PopsDriver.forward
  split
  · exact ⟨true, rfl⟩
  · exact ⟨d.timer, rfl⟩

theorem appConnected_frame (d : PopsDriver) :
    ∃ timer, d.appConnected.2 = {d with timer := timer, srvrStale := d.srvrStale+1} := by
  obtain ⟨timer, h⟩ := forward_frame d .V
  refine ⟨timer, ?_⟩
  change {(d.forward .V).2 with srvrStale := (d.forward .V).2.srvrStale+1} = _
  rw [h]

theorem tmSync_frame (d : PopsDriver) :
    ∃ timer srvrStale, d.tmSync.2 = {d.tick with timer := timer, srvrStale := srvrStale} := by
  unfold PopsDriver.tmSync
  dsimp only
  split_ifs
  · obtain ⟨timer, h⟩ := appConnected_frame d.tick
    exact ⟨timer, _, h⟩
  · exact ⟨d.tick.timer, d.tick.srvrStale+1, rfl⟩
  · exact ⟨d.tick.timer, d.tick.srvrStale, rfl⟩
  · exact ⟨d.tick.timer, d.tick.srvrStale, rfl⟩

/-- Only `tm_sync` and a record change `POPS.Stale`. -/
theorem step_stale (io : DasIO) (lib : StatusLib) (s s' : PopsNet) (e : NetEvent)
    (hs : s.step io lib e = some s') : s'.drv.stale = match e with
      | .tmSync => s.drv.tick.stale
      | .record => 0
      | _ => s.drv.stale := by
  cases e with
  | tmSync =>
    obtain rfl := Option.some.inj hs
    obtain ⟨timer, srvrStale, hframe⟩ := tmSync_frame s.drv
    rw [transmit_drv, hframe]
  | record =>
    obtain rfl := Option.some.inj hs
    rfl
  | operator c =>
    obtain rfl := Option.some.inj hs
    obtain ⟨timer, hframe⟩ := forward_frame s.drv c.command
    rw [transmit_drv, hframe]
  | connect =>
    obtain ⟨-, hs⟩ := Option.ite_none_left_eq_some.mp hs
    obtain rfl := Option.some.inj hs
    rfl
  | negotiated =>
    obtain ⟨-, hs⟩ := Option.ite_none_right_eq_some.mp hs
    obtain rfl := Option.some.inj hs
    obtain ⟨timer, hframe⟩ :=
      appConnected_frame {s.drv with clt := {s.drv.clt with connected := true}}
    rw [transmit_drv, hframe]
  | driverRead n =>
    obtain ⟨-, hs⟩ := Option.ite_none_right_eq_some.mp hs
    obtain ⟨c, -, hs⟩ := Option.bind_eq_some_iff.mp hs
    obtain ⟨-, hs⟩ := Option.ite_none_right_eq_some.mp hs
    obtain rfl := Option.some.inj hs
    rfl
  | timeout =>
    obtain ⟨-, hs⟩ := Option.ite_none_right_eq_some.mp hs
    obtain rfl := Option.some.inj hs
    rfl
  | eof =>
    obtain rfl := Option.some.inj hs
    rfl
  | server e =>
    cases e with
    | send i bytes =>
      simp only [step, serverStep] at hs
      split_ifs at hs
      obtain ⟨srvr, -, rfl⟩ := Option.map_eq_some_iff.mp hs
      rfl
    | accept =>
      obtain rfl := Option.some.inj hs
      rfl
    | read i n =>
      obtain ⟨srvr, -, rfl⟩ := Option.map_eq_some_iff.mp hs
      rfl

theorem tick_toNat (d : PopsDriver) : d.tick.stale.toNat = min 255 (d.stale.toNat+1) := by
  have hlt := d.stale.toNat_lt
  unfold PopsDriver.tick
  split_ifs with h
  · have h' : d.stale.toNat < 255 := h
    have hone : (1 : UInt8).toNat = 1 := rfl
    rw [UInt8.toNat_add, hone, Nat.mod_eq_of_lt (by omega), Nat.min_eq_right (by omega)]
  · have h' : ¬d.stale.toNat < 255 := h
    omega

theorem run_stale (io : DasIO) (lib : StatusLib) (es : List NetEvent) (s : PopsNet)
    (hs : Run.run (step io lib) start es = some s) : s.drv.stale.toNat = min 255 (ticks es) := by
  induction es using List.reverseRecOn generalizing s with
  | nil =>
    obtain rfl := Option.some.inj hs
    rfl
  | append_singleton es e ih =>
    rw [Run.run_append] at hs
    obtain ⟨t, ht, hs⟩ := Option.bind_eq_some_iff.mp hs
    obtain ⟨u, hu, hs⟩ := (Run.run_cons_eq_some_iff _).mp hs
    obtain rfl := Option.some.inj hs
    have hstale := step_stale io lib t u e hu
    have hold := ih t ht
    rw [ticks, List.foldl_append, ← ticks, hstale]
    cases e with
    | tmSync =>
      rw [tick_toNat, hold]
      change _ = min 255 (ticks es+1)
      omega
    | record => rfl
    | _ => exact hold

/-- Behind a frame without records a request is outstanding. -/
theorem tmSync_srvrStale (d : PopsDriver) (hsock : d.tick.socketConnected = true)
    (h : 2 < d.tick.stale.toNat) : d.tmSync.2.srvrStale ≠ 0 := by
  have h' : d.tick.stale > 2 := h
  unfold PopsDriver.tmSync
  dsimp only
  rw [if_pos ⟨h', hsock⟩]
  split_ifs with hzero hmax
  · obtain ⟨timer, h⟩ := appConnected_frame d.tick
    rw [h, hzero]
    exact (by decide : (0+1 : UInt8) ≠ 0)
  · have hlt : d.tick.srvrStale.toNat < 255 := hmax
    intro heq
    have hone : (1 : UInt8).toNat = 1 := rfl
    have hsum := congrArg UInt8.toNat heq
    change (d.tick.srvrStale+1).toNat = 0 at hsum
    rw [UInt8.toNat_add, hone, Nat.mod_eq_of_lt (by omega)] at hsum
    omega
  · exact hzero

/-- `POPS.Stale` counts the telemetry frames without a record. While there is a connection the
timer runs only when something is on its way, so that no timeout breaks a connection at rest;
and when there have been no records for a while it runs after every frame, so that a server
that does not answer is noticed. -/
theorem watchdog (io : DasIO) (lib : StatusLib) (es : List NetEvent) (s : PopsNet)
    (hs : Run.run (step io lib) start es = some s) :
    s.drv.stale.toNat = min 255 (ticks es) ∧
    (s.drv.timer = true → s.drv.clt.connected = true ∧ ∃ c, s.srvr.conns[s.conn]? = some c ∧
      (c.waiting ≠ [] ∨ s.received < c.written.length)) ∧
    ∀ s', s.step io lib .tmSync = some s' → s'.drv.clt.connected = true →
      s'.drv.socketConnected = true → 2 < ticks (es ++ [.tmSync]) → s'.drv.timer = true := by
  obtain ⟨log, h⟩ := run_inv io lib start s es [] inv_start hs
  refine ⟨run_stale io lib es s hs, fun htimer => ?_, fun s' hs' hconn hsock hticks => ?_⟩
  · have hconn : s.drv.clt.connected = true := by
      by_contra hfalse
      rw [(h.idle (Bool.eq_false_iff.mpr hfalse)).2] at htimer
      cases htimer
    obtain ⟨c, hc⟩ := h.current hconn
    exact ⟨hconn, c, hc.conn_eq, hc.flight htimer⟩
  · have hrun : Run.run (step io lib) start (es ++ [.tmSync]) = some s' := by
      rw [Run.run_append, hs]
      exact Run.run_cons_of_step _ hs' []
    obtain ⟨log', h'⟩ := run_inv io lib start s' _ [] inv_start hrun
    obtain rfl := Option.some.inj hs'
    have hstale := run_stale io lib _ _ hrun
    obtain ⟨timer, srvrStale, hframe⟩ := tmSync_frame s.drv
    rw [transmit_drv, hframe] at hstale hsock
    refine h'.alarm hconn ?_
    rw [transmit_drv]
    refine tmSync_srvrStale s.drv hsock ?_
    change s.drv.tick.stale.toNat = _ at hstale
    omega

/-- The driver connects, the server reads its `V`, and the operator starts the software. -/
def startRun : List NetEvent :=
  [.connect, .negotiated, .server (.read 0 2), .operator .start, .server (.read 0 2)]

/-- Both replies have been read. -/
theorem driver_told_start : ∃ s,
    Run.run (step .keeping .decimal) start (startRun ++ [.driverRead 4]) = some s ∧
    ∃ log : List (ℕ × UInt8), onChannel log s.conn = [0x56, 0x42] ∧
      ∃ pre late, log = pre ++ late ∧ onChannel late s.conn = [] ∧
        s.drv.clt.srvr = (PopsSocket.serial (pre.map Prod.snd)).popsStatus.code := by
  obtain ⟨s, c, hs, hconn, hc, hwait, hread, hissued⟩ : ∃ s c,
      Run.run (step .keeping .decimal) start (startRun ++ [.driverRead 4]) = some s ∧
      s.drv.clt.connected = true ∧ s.srvr.conns[s.conn]? = some c ∧ c.waiting = [] ∧
      s.received = c.written.length ∧
      (onChannel s.issued s.conn).map Command.byte = [0x56, 0x42] :=
    ⟨_, _, rfl, PopsClient.appInput_connected .keeping .decimal _ _, rfl, rfl, rfl, rfl⟩
  obtain ⟨log, -, -, -, -, hquiet⟩ := driver_told .keeping .decimal _ s hs
  obtain ⟨htaken, htold⟩ := hquiet c hconn hc hwait hread
  exact ⟨s, hs, log, htaken.trans hissued, htold⟩

/-- The replies are not read, and three frames go by without a record. -/
theorem watchdog_start : ∃ s s',
    Run.run (step .keeping .decimal) start (startRun ++ [.tmSync, .tmSync]) = some s ∧
    s.step .keeping .decimal .tmSync = some s' ∧ s.drv.stale.toNat = 2 ∧
    (∃ c, s.srvr.conns[s.conn]? = some c ∧ (c.waiting ≠ [] ∨ s.received < c.written.length)) ∧
    s'.drv.timer = true := by
  obtain ⟨s, s', hs, hs', htimer, hconn, hsock⟩ : ∃ s s',
      Run.run (step .keeping .decimal) start (startRun ++ [.tmSync, .tmSync]) = some s ∧
      s.step .keeping .decimal .tmSync = some s' ∧ s.drv.timer = true ∧
      s'.drv.clt.connected = true ∧ s'.drv.socketConnected = true :=
    ⟨_, _, rfl, rfl, rfl, rfl, rfl⟩
  obtain ⟨hstale, hflight, halarm⟩ := watchdog .keeping .decimal _ s hs
  exact ⟨s, s', hs, hs', hstale, (hflight htimer).2, halarm s' hs' hconn hsock (by decide)⟩

end PopsNet
end Cosmid.Pops
