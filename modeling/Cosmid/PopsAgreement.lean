import Cosmid.Lines
import Cosmid.PopsClient
import Cosmid.PopsConnections

/-! The driver and the server over connections that keep the order of the bytes and may
break: as soon as nothing is under way, what the driver holds for the server's status is
the one that the server had behind its latest read on this connection. What it still
reads of an earlier connection is answered there. -/
namespace Cosmid.Pops

open Lines

/-- The commands that the driver forwards. -/
inductive Command
  | V
  | B
  | E
  | F
deriving DecidableEq

def Command.byte : Command → UInt8
  | V => 0x56
  | B => 0x42
  | E => 0x45
  | F => 0x46

/-- The digit of a status reply. -/
def PopsStatus.digit (status : PopsStatus) : UInt8 := 0x30+status.code

theorem PopsStatus.digit_facts (status : PopsStatus) : isDigit status.digit = true ∧
    uint8Of [status.digit] = some status.code := by
  cases status <;> decide

/-- The status that is known after the replies `es`, if it was `srvr` before. -/
def known (srvr : UInt8) (es : List PopsStatus) : UInt8 :=
  match es.getLast? with
  | none => srvr
  | some status => status.code

theorem known_concat (srvr : UInt8) (es : List PopsStatus) (status : PopsStatus) :
    known srvr (es ++ [status]) = status.code := by simp [known]

theorem known_append (srvr : UInt8) (es fs : List PopsStatus) :
    known srvr (es ++ fs) = known (known srvr es) fs := by
  rcases List.eq_nil_or_concat' fs with rfl | ⟨fs', status, rfl⟩
  · simp [known]
  · rw [← List.append_assoc, known_concat, known_concat]

theorem known_cons (srvr : UInt8) (status : PopsStatus) (es : List PopsStatus) :
    known srvr (status :: es) = known status.code es := known_append srvr [status] es

namespace PopsSocket

/-- A command changes the status and the system at most. -/
theorem execute_frame (s : PopsSocket) (cmd : Command) :
    (s.execute cmd.byte).ibuf = s.ibuf ∧ (s.execute cmd.byte).written = s.written := by
  cases cmd with
  | E =>
    by_cases h : s.popsStatus = .popsActive <;> simp [execute, system, Command.byte, h]
  | _ => exact ⟨rfl, rfl⟩

/-- Complete commands are executed; the start of one is left. -/
theorem commandLoop_lines (s : PopsSocket) (cmds : List Command) (tail : List UInt8)
    (htail : tail.length < 2) :
    ∃ s', s.commandLoop (lines Command.byte cmds ++ tail) = (s', false) ∧
      s'.ibuf = ⟨s.ibuf.buf,s.ibuf.cp+2*cmds.length⟩ ∧ s'.written = s.written := by
  induction cmds generalizing s with
  | nil =>
    refine ⟨s, ?_, rfl, rfl⟩
    match tail with
    | [] => rfl
    | [_] => rfl
  | cons cmd cmds ih =>
    obtain ⟨hib, hw⟩ := execute_frame {s with ibuf := ⟨s.ibuf.buf,s.ibuf.cp+2⟩} cmd
    obtain ⟨s', hs', hib', hw'⟩ :=
      ih (execute {s with ibuf := ⟨s.ibuf.buf,s.ibuf.cp+2⟩} cmd.byte)
    refine ⟨s', ?_, ?_, hw'.trans hw⟩
    · have hd : cmd.byte ≠ 0x44 := by cases cmd <;> decide
      rw [lines_cons, List.cons_append, List.cons_append, commandLoop, if_neg (by simp), if_neg hd]
      exact hs'
    · rw [hib', hib, List.length_cons]
      simp only [InputBuffer.mk.injEq, true_and]
      omega

/-- A read is answered with the status after the commands that it completes. -/
theorem protocolInput_lines (io : DasIO) (s : PopsSocket) (bytes : List UInt8)
    (cmds : List Command) (tail : List UInt8) (hcp : s.ibuf.cp = 0)
    (hu : s.ibuf.buf ++ bytes = lines Command.byte cmds ++ tail) (htail : tail.length < 2) :
    (s.protocolInput io bytes).ibuf = ⟨tail,0⟩ ∧
    (s.protocolInput io bytes).written =
      [(s.protocolInput io bytes).popsStatus.digit, 0x0a] := by
  have hib : s.ibuf = ⟨s.ibuf.buf,0⟩ := by rw [← hcp]
  have hread : io.read s.ibuf bytes = ⟨lines Command.byte cmds ++ tail,0⟩ := by
    rw [hib, io.read_zero, ← hu]
  obtain ⟨s', hs', hib', hw'⟩ := commandLoop_lines
    {s with ibuf := ⟨lines Command.byte cmds ++ tail,0⟩, written := []} cmds tail htail
  have hunread : s'.ibuf.unread = tail := by
    rw [hib', InputBuffer.unread_advance, InputBuffer.unread_mk_zero, ← length_lines Command.byte,
      List.drop_left]
  simp only [protocolInput, hread, InputBuffer.unread_mk_zero, hs', Bool.false_eq_true, if_false]
  refine ⟨?_, ?_⟩
  · exact (io.consume_parsed s'.ibuf).trans (by rw [hunread])
  · change s'.written ++ _ = _
    rw [hw']
    rfl

end PopsSocket

namespace PopsClient

/-- A status line, whole or without its newline. -/
theorem statusLine_digit (lib : StatusLib) (c : PopsClient) (status : PopsStatus)
    (rest : List UInt8) (hu : c.ibuf.unread = status.digit :: rest)
    (hrest : rest = [] ∨ rest.head? = some 0x0a) :
    (c.statusLine lib).srvr = status.code ∧ (c.statusLine lib).ibuf.unread = rest.drop 1 := by
  obtain ⟨hdigit, hcode⟩ := status.digit_facts
  rw [statusLine, c.ibuf.getD_cp hu, if_pos hdigit, c.digitLine_eq lib [status.digit] rest hu
    (List.cons_ne_nil _ _) (by simpa using hdigit) ?_, hcode]
  · rcases hrest with rfl | hnl
    · refine ⟨rfl, ?_⟩
      exact (c.ibuf.unread_advance 1).trans (by rw [hu]; rfl)
    · dsimp only
      rw [if_pos hnl]
      exact ⟨rfl, (c.ibuf.unread_advance 2).trans (by rw [hu]; rfl)⟩
  · intro d hd
    rcases hrest with rfl | hnl
    · cases hd
    · rw [hnl] at hd
      obtain rfl := Option.some.inj hd
      decide

/-- The newline that is left over from a status line. -/
theorem statusLine_newline (lib : StatusLib) (c : PopsClient) (rest : List UInt8)
    (hu : c.ibuf.unread = 0x0a :: rest) :
    (c.statusLine lib).srvr = c.srvr ∧ (c.statusLine lib).ibuf.unread = rest := by
  have hlen := c.ibuf.length_unread
  rw [hu, List.length_cons] at hlen
  have hzero : (c.ibuf.unread.takeWhile (· ≠ 0x0a)).length = 0 := by simp [hu]
  rw [statusLine, c.ibuf.getD_cp hu, if_neg (by decide), otherLine, hzero, if_pos (by omega)]
  refine ⟨rfl, ?_⟩
  rw [Nat.add_zero, InputBuffer.unread_advance, hu]
  rfl

/-- The driver takes the last status that it finds in a read, also when the newline
behind it is still to come. -/
theorem statusLoop_lines (lib : StatusLib) (c : PopsClient) (es : List PopsStatus) :
    (c.ibuf.unread = lines PopsStatus.digit es → (statusLoop lib c).srvr = known c.srvr es) ∧
    ∀ status, c.ibuf.unread = lines PopsStatus.digit es ++ [status.digit] →
      (statusLoop lib c).srvr = known c.srvr (es ++ [status]) := by
  induction es generalizing c with
  | nil =>
    refine ⟨fun hu => ?_, fun status hu => ?_⟩
    · rw [statusLoop_nil lib c hu]
      rfl
    · obtain ⟨hsrvr, hrest⟩ := statusLine_digit lib c status [] hu (Or.inl rfl)
      rw [statusLoop_of_ne_nil lib c (by simp [hu]), statusLoop_nil lib _ hrest, known_concat,
        hsrvr]
  | cons e es ih =>
    refine ⟨fun hu => ?_, fun status hu => ?_⟩
    · obtain ⟨hsrvr, hrest⟩ := statusLine_digit lib c e _ hu (Or.inr rfl)
      rw [statusLoop_of_ne_nil lib c (by simp [hu]), (ih _).1 hrest, hsrvr, known_cons]
    · obtain ⟨hsrvr, hrest⟩ := statusLine_digit lib c e _ hu (Or.inr rfl)
      rw [statusLoop_of_ne_nil lib c (by simp [hu]), (ih _).2 status hrest, hsrvr, List.cons_append,
        known_cons]

/-- The effect of one read on the status: the reads cut the stream of replies in any
place, so a newline may come first and a digit last. -/
theorem appInput_lines (io : DasIO) (lib : StatusLib) (c : PopsClient) (hbuf : c.ibuf.buf = [])
    (lead : List UInt8) (hlead : lead = [] ∨ lead = [0x0a]) (es : List PopsStatus) :
    (c.appInput io lib (lead ++ lines PopsStatus.digit es)).srvr = known c.srvr es ∧
    ∀ status, (c.appInput io lib (lead ++ (lines PopsStatus.digit es ++ [status.digit]))).srvr =
      known c.srvr (es ++ [status]) := by
  have hread (bytes : List UInt8) : (c.appInput io lib bytes).srvr =
      (statusLoop lib {c with ibuf := ⟨bytes,0⟩}).srvr := by
    simp only [appInput, DasIO.read, hbuf, List.nil_append]
  rcases hlead with rfl | rfl
  · refine ⟨?_, fun status => ?_⟩
    · rw [hread, List.nil_append]
      exact (statusLoop_lines lib {c with ibuf := ⟨_,0⟩} es).1 rfl
    · rw [hread, List.nil_append]
      exact (statusLoop_lines lib {c with ibuf := ⟨_,0⟩} es).2 status rfl
  · have hnl (u : List UInt8) : ∃ c', c'.ibuf.unread = u ∧ c'.srvr = c.srvr ∧
        statusLoop lib {c with ibuf := ⟨0x0a :: u,0⟩} = statusLoop lib c' := by
      obtain ⟨hs, hu⟩ := statusLine_newline lib {c with ibuf := ⟨0x0a :: u,0⟩} u rfl
      exact ⟨_, hu, hs, statusLoop_of_ne_nil lib _ (List.cons_ne_nil _ _)⟩
    refine ⟨?_, fun status => ?_⟩
    · obtain ⟨c', hu, hs, hloop⟩ := hnl (lines PopsStatus.digit es)
      rw [hread, List.singleton_append, hloop, ← hs]
      exact (statusLoop_lines lib c' es).1 hu
    · obtain ⟨c', hu, hs, hloop⟩ := hnl (lines PopsStatus.digit es ++ [status.digit])
      rw [hread, List.singleton_append, hloop, ← hs]
      exact (statusLoop_lines lib c' es).2 status hu

/-- A read of the driver cuts the replies on their way behind their leading newline, and takes
the status from those it has read. -/
theorem appInput_cut (io : DasIO) (lib : StatusLib) (clt : PopsClient) (hbuf : clt.ibuf.buf = [])
    {replies lead : List UInt8} {es : List PopsStatus} (hlead : lead = [] ∨ lead = [0x0a])
    (hs : replies = lead ++ lines PopsStatus.digit es) {n : ℕ} (h0 : 0 < n) :
    ∃ done rest lead', es = done ++ rest ∧ (lead' = [] ∨ lead' = [0x0a]) ∧
      replies.drop n = lead' ++ lines PopsStatus.digit rest ∧
      (clt.appInput io lib (replies.take n)).srvr = known clt.srvr done := by
  obtain ⟨u, hu, hcut⟩ : ∃ u, replies.take n = lead ++ u ∧
      u ++ replies.drop n = lines PopsStatus.digit es := by
    rcases hlead with rfl | rfl
    · exact ⟨_, rfl, by rw [List.take_append_drop, hs, List.nil_append]⟩
    · obtain ⟨m, rfl⟩ := Nat.exists_eq_succ_of_ne_zero (Nat.ne_of_gt h0)
      refine ⟨(lines PopsStatus.digit es).take m, by rw [hs]; rfl, ?_⟩
      rw [hs]
      exact List.take_append_drop m _
  rw [hu]
  rcases lines_cut PopsStatus.digit _ _ es hcut with ⟨done, rest, rfl, rfl, hv⟩ |
      ⟨done, status, rest, rfl, rfl, hv⟩
  · exact ⟨done, rest, [], rfl, Or.inl rfl, hv, (clt.appInput_lines io lib hbuf lead hlead done).1⟩
  · refine ⟨done ++ [status], rest, [0x0a], ?_, Or.inr rfl, hv,
      (clt.appInput_lines io lib hbuf lead hlead done).2 status⟩
    rw [List.append_assoc]
    rfl

/-- A whole reply, read at once. -/
theorem appInput_reply (c : PopsClient) (status : PopsStatus) (hbuf : c.ibuf.buf = []) :
    c.appInput .keeping .decimal [status.digit, 0x0a] =
      ⟨InputBuffer.empty,status.code,c.connected,c.poorlyFormed⟩ := by
  have hread : (⟨( DasIO.keeping.read c.ibuf [status.digit, 0x0a]).buf,0⟩ : InputBuffer) =
      ⟨[status.digit, 0x0a],0⟩ := by rw [ DasIO.read, hbuf, List.nil_append]
  have hloop : statusLoop .decimal {c with ibuf := ⟨[status.digit, 0x0a],0⟩} =
      ⟨⟨[status.digit, 0x0a],2⟩,status.code,c.connected,c.poorlyFormed⟩ := by
    rw [statusLoop_of_ne_nil _ {c with ibuf := ⟨[status.digit, 0x0a],0⟩} (List.cons_ne_nil _ _)]
    cases status <;> exact statusLoop_nil _ _ rfl
  unfold appInput
  dsimp only
  rw [hread, hloop]
  rfl

end PopsClient

/-- A read of `n` bytes on a connection on which only whole commands have been sent: the reply
is the status, and what is left is the rest of whole commands. -/
theorem PopsSrvr.read_lines (io : DasIO) (s : PopsSrvr) {c : Conn} (hcp : c.ibuf.cp = 0)
    (hrest : ∃ cmds, c.ibuf.buf ++ c.waiting = lines Command.byte cmds) (n : ℕ) :
    let socket := (s.socket c).protocolInput io (c.waiting.take n)
    (∃ cmds, socket.ibuf.buf ++ c.waiting.drop n = lines Command.byte cmds) ∧
      socket.ibuf.buf.length < 2 ∧ socket.ibuf.cp = 0 ∧
      socket.written = lines PopsStatus.digit [socket.popsStatus] := by
  obtain ⟨cmds, hcmds⟩ := hrest
  rw [← List.take_append_drop n c.waiting, ← List.append_assoc] at hcmds
  -- The read completes some of the commands and may begin another one.
  obtain ⟨done, tail, cmds', htail, hu, hrest⟩ : ∃ (done : List Command) (tail : List UInt8)
      (cmds' : List Command), tail.length < 2 ∧
      c.ibuf.buf ++ c.waiting.take n = lines Command.byte done ++ tail ∧
      tail ++ c.waiting.drop n = lines Command.byte cmds' := by
    rcases lines_cut Command.byte _ _ cmds hcmds with ⟨done, rest, -, hu, hv⟩ |
        ⟨done, cmd, rest, -, hu, hv⟩
    · exact ⟨done, [], rest, Nat.succ_pos 1, by rw [hu, List.append_nil], hv⟩
    · exact ⟨done, [cmd.byte], cmd :: rest, Nat.lt_succ_self 1, hu, by rw [hv]; rfl⟩
  obtain ⟨hib, hw⟩ := (s.socket c).protocolInput_lines io (c.waiting.take n) done tail hcp hu htail
  refine ⟨⟨cmds', ?_⟩, ?_, ?_, hw⟩
  · rw [hib]
    exact hrest
  · rw [hib]
    exact htail
  · rw [hib]

/-- Whole commands have been sent on the connection. What is still to be scanned of them are
whole commands too, of which the first may have been read in part. -/
structure Conn.Whole (c : Conn) : Prop where
  cp_eq : c.ibuf.cp = 0
  rest_eq : ∃ cmds, c.ibuf.buf ++ c.waiting = lines Command.byte cmds

/-- The driver, the server with the connections that the driver has made, the number of the
latest one, and how much of what the server has written on it the driver has read. The server
may go on reading an earlier connection; what it writes there reaches nobody. -/
structure PopsSystem where
  clt : PopsClient
  srvr : PopsSrvr
  conn : ℕ
  received : ℕ

/-- A command from the operator or a repeated `V`, a read of `n` bytes at the server on
connection `i` or at the driver, the loss of the connection, and a new one. -/
inductive PopsEvent
  | forward (cmd : Command)
  | srvrRead (i n : ℕ)
  | cltRead (n : ℕ)
  | lose
  | reconnect

namespace PopsSystem

def start : PopsSystem := ⟨.new,.start,0,0⟩

def send (s : PopsSystem) (cmd : Command) : PopsSystem :=
  match s.srvr.conns[s.conn]? with
  | some c => {s with srvr := s.srvr.sendOn s.conn (s.clt.forward [cmd.byte, 0x0a]) c}
  | none => s

/-- `none` where there is nothing to read, or a connection already. -/
def step (io : DasIO) (lib : StatusLib) (s : PopsSystem) : PopsEvent → Option PopsSystem
  | .forward cmd => some (s.send cmd)
  | .srvrRead i n => (s.srvr.step io (.read i n)).map fun srvr => {s with srvr := srvr}
  | .cltRead n =>
    if s.clt.connected then
      (s.srvr.conns[s.conn]?).bind fun c =>
        if 0 < n ∧ s.received+n ≤ c.written.length then
          some {s with
            clt := s.clt.appInput io lib ((c.written.drop s.received).take n)
            received := s.received+n}
        else none
    else none
  | .lose => some {s with clt := s.clt.lose}
  | .reconnect =>
    if s.clt.connected then none
    else
      -- `app_connected` sends a `V`.
      some (send {
        clt := {s.clt with connected := true}
        srvr := s.srvr.accept
        conn := s.srvr.conns.length
        received := 0} .V)

/-- Connected on `c`, something has been delivered on it, and none of its bytes is in flight or
left in a buffer. -/
structure Quiet (s : PopsSystem) (c : Conn) : Prop where
  connected : s.clt.connected = true
  conn_eq : s.srvr.conns[s.conn]? = some c
  delivered : 0 < s.received
  waiting_eq : c.waiting = []
  received_eq : s.received = c.written.length
  srvr_unread : c.ibuf.unread = []
  clt_unread : s.clt.ibuf.unread = []

/-- The status that the driver has, or will have after the replies in flight, is the one behind
the server's latest read on the connection `c`, and the server's if it has read nothing since. -/
def Told (io : DasIO) (lib : StatusLib) (h : List PopsEvent) (s : PopsSystem) (c : Conn) : Prop :=
  ∃ pre n post t lead es, h = pre ++ .srvrRead s.conn n :: post ∧
    (∀ m, .srvrRead s.conn m ∉ post) ∧
    Run.run (step io lib) start (pre ++ [.srvrRead s.conn n]) = some t ∧
    ((∀ i m, .srvrRead i m ∉ post) → s.srvr.popsStatus = t.srvr.popsStatus) ∧
    (lead = [] ∨ lead = [0x0a]) ∧
    c.written.drop s.received = lead ++ lines PopsStatus.digit es ∧
    known s.clt.srvr es = t.srvr.popsStatus.code

/-- The invariant: whole commands on every connection, and on the latest one the server's latest
reply is true. -/
structure Inv (io : DasIO) (lib : StatusLib) (h : List PopsEvent) (s : PopsSystem) : Prop where
  reached : Run.run (step io lib) start h = some s
  whole : ∀ (i : ℕ) (c : Conn), s.srvr.conns[i]? = some c → c.Whole
  clt_buf : s.clt.ibuf.buf = []
  current : s.clt.connected = true → ∃ c, s.srvr.conns[s.conn]? = some c ∧
    s.received ≤ c.written.length ∧ (c.written = [] ∨ Told io lib h s c)

theorem inv_start (io : DasIO) (lib : StatusLib) : Inv io lib [] start where
  reached := rfl
  whole i c hc := by cases hc
  clt_buf := rfl
  current h := by cases h

/-- What is told stays so as long as the server does not read. -/
theorem Told.extend {io : DasIO} {lib : StatusLib} {h : List PopsEvent} {s s' : PopsSystem}
    {c c' : Conn} (ht : Told io lib h s c) (e : PopsEvent) (he : ∀ i m, .srvrRead i m ≠ e)
    (hclt : s'.clt.srvr = s.clt.srvr) (hstatus : s'.srvr.popsStatus = s.srvr.popsStatus)
    (hconn : s'.conn = s.conn) (hreceived : s'.received = s.received)
    (hwritten : c'.written = c.written) : Told io lib (h ++ [e]) s' c' := by
  obtain ⟨pre, n, post, t, lead, es, hh, hpost, hrun, hsame, hlead, hs, hknown⟩ := ht
  have hmem {i m : ℕ} (hi : .srvrRead i m ∈ post ++ [e]) : .srvrRead i m ∈ post :=
    (List.mem_append.mp hi).resolve_right fun hlast => he i m (List.mem_singleton.mp hlast)
  refine ⟨pre, n, post ++ [e], t, lead, es, ?_, ?_, ?_, ?_, hlead, ?_, ?_⟩
  · rw [hh, hconn, List.append_assoc]
    rfl
  · rw [hconn]
    exact fun m hm => hpost m (hmem hm)
  · rw [hconn]
    exact hrun
  · intro hnone
    rw [hstatus]
    exact hsame fun i m hm => hnone i m (List.mem_append_left _ hm)
  · rw [hwritten, hreceived]
    exact hs
  · rw [hclt]
    exact hknown

/-- What the driver sends on the connection goes behind what the server has not read yet. -/
theorem send_eq (s : PopsSystem) (cmd : Command) {c : Conn}
    (hc : s.srvr.conns[s.conn]? = some c) :
    s.send cmd = {s with
      srvr := s.srvr.sendOn s.conn (s.clt.forward [cmd.byte, 0x0a]) c} := by
  rw [send, hc]

theorem send_whole (s : PopsSystem) (cmd : Command)
    (h : ∀ (i : ℕ) (c : Conn), s.srvr.conns[i]? = some c → c.Whole) :
    ∀ (i : ℕ) (c : Conn), (s.send cmd).srvr.conns[i]? = some c → c.Whole := by
  cases hc : s.srvr.conns[s.conn]? with
  | none =>
    rw [send, hc]
    exact h
  | some c =>
    obtain ⟨hcp, cmds, hcmds⟩ := h _ c hc
    rw [send_eq s cmd hc]
    refine PopsSrvr.forall_set ⟨hcp, ?_⟩ fun j d _ hd => h j d hd
    unfold PopsClient.forward
    split
    · refine ⟨cmds ++ [cmd], ?_⟩
      rw [lines_append, ← hcmds, List.append_assoc]
      rfl
    · exact ⟨cmds, (congrArg (c.ibuf.buf ++ ·) (List.append_nil c.waiting)).trans hcmds⟩

/-- A connection of the list is in it. -/
theorem conn_lt {s : PopsSystem} {c : Conn} (hc : s.srvr.conns[s.conn]? = some c) :
    s.conn < s.srvr.conns.length := by
  by_contra hge
  rw [List.getElem?_eq_none (Nat.le_of_not_lt hge)] at hc
  cases hc

theorem Inv.forward {io : DasIO} {lib : StatusLib} {h : List PopsEvent} {s : PopsSystem}
    (hinv : Inv io lib h s) (cmd : Command) :
    Inv io lib (h ++ [.forward cmd]) (s.send cmd) := by
  have hclt : (s.send cmd).clt = s.clt := by
    unfold send
    split <;> rfl
  refine ⟨(Run.run_concat _ hinv.reached _).trans rfl, s.send_whole cmd hinv.whole, ?_, ?_⟩
  · rw [hclt]
    exact hinv.clt_buf
  · rw [hclt]
    intro hconn
    obtain ⟨c, hc, hle, htold⟩ := hinv.current hconn
    rw [send_eq s cmd hc]
    refine ⟨_, List.getElem?_set_self (conn_lt hc), hle, htold.imp id fun ht => ?_⟩
    exact ht.extend _ (fun i m hne => by cases hne) rfl rfl rfl rfl rfl

theorem Inv.srvrRead {io : DasIO} {lib : StatusLib} {h : List PopsEvent} {s s' : PopsSystem}
    (hinv : Inv io lib h s) (i n : ℕ) (hs : s.step io lib (.srvrRead i n) = some s') :
    Inv io lib (h ++ [.srvrRead i n]) s' := by
  have hreached : Run.run (step io lib) start (h ++ [.srvrRead i n]) = some s' :=
    (Run.run_concat _ hinv.reached _).trans hs
  obtain ⟨srvr, hsrvr, rfl⟩ := Option.map_eq_some_iff.mp hs
  obtain ⟨c, hc, hsrvr⟩ := Option.bind_eq_some_iff.mp hsrvr
  obtain ⟨-, hsrvr⟩ := Option.ite_none_right_eq_some.mp hsrvr
  obtain rfl := Option.some.inj hsrvr
  obtain ⟨hcp, hcmds⟩ := hinv.whole i c hc
  obtain ⟨hrest, -, hcp', hreply⟩ := s.srvr.read_lines io hcp hcmds n
  refine ⟨hreached, ?_, hinv.clt_buf, fun hconn => ?_⟩
  · exact PopsSrvr.forall_set ⟨hcp', hrest⟩ fun j d _ hd => hinv.whole j d hd
  · obtain ⟨d, hd, hle, htold⟩ := hinv.current hconn
    by_cases hi : i = s.conn
    · -- On its own connection the driver will be told.
      subst hi
      obtain rfl := Option.some.inj (hc.symm.trans hd)
      refine ⟨_, List.getElem?_set_self (conn_lt hd), ?_, Or.inr ?_⟩
      · rw [List.length_append]
        exact Nat.le_add_right_of_le hle
      · obtain ⟨lead, es, hlead, hs⟩ : ∃ lead es, (lead = [] ∨ lead = [0x0a]) ∧
            c.written.drop s.received = lead ++ lines PopsStatus.digit es := by
          rcases htold with hw | ⟨-, -, -, -, lead, es, -, -, -, -, hlead, hs, -⟩
          · exact ⟨[], [], Or.inl rfl, by rw [hw, List.drop_nil]; rfl⟩
          · exact ⟨lead, es, hlead, hs⟩
        refine ⟨h, n, [], _, lead, es ++ [_], rfl, fun m => List.not_mem_nil, hreached,
          fun _ => rfl, hlead, ?_, known_concat _ es _⟩
        dsimp only
        rw [List.drop_append_of_le_length hle, hreply, hs, lines_append, List.append_assoc]
        rfl
    · refine ⟨d, ?_, hle, htold.imp id ?_⟩
      · rw [PopsSrvr.readOn, List.getElem?_set_ne hi]
        exact hd
      · rintro ⟨pre, m, post, t, lead, es, hh, hpost, hrun, -, hlead, hs, hknown⟩
        refine ⟨pre, m, post ++ [.srvrRead i n], t, lead, es, ?_, ?_, hrun, ?_, hlead, hs, hknown⟩
        · rw [hh, List.append_assoc]
          rfl
        · intro k hk
          rcases List.mem_append.mp hk with hk | hk
          · exact hpost k hk
          · exact hi (PopsEvent.srvrRead.inj (List.mem_singleton.mp hk)).1.symm
        · exact fun hnone => absurd (by simp) (hnone i n)

theorem Inv.cltRead {io : DasIO} {lib : StatusLib} {h : List PopsEvent} {s s' : PopsSystem}
    (hinv : Inv io lib h s) (n : ℕ) (hs : s.step io lib (.cltRead n) = some s') :
    Inv io lib (h ++ [.cltRead n]) s' := by
  have hreached : Run.run (step io lib) start (h ++ [.cltRead n]) = some s' :=
    (Run.run_concat _ hinv.reached _).trans hs
  obtain ⟨hconn, hs⟩ := Option.ite_none_right_eq_some.mp hs
  obtain ⟨c, hc, hs⟩ := Option.bind_eq_some_iff.mp hs
  obtain ⟨⟨h0, hn⟩, hs⟩ := Option.ite_none_right_eq_some.mp hs
  obtain rfl := Option.some.inj hs
  refine ⟨hreached, hinv.whole, ?_, fun _ => ⟨c, hc, hn, Or.inr ?_⟩⟩
  · rw [PopsClient.appInput, io.reportOk_buf]
    exact List.drop_length
  · obtain ⟨d, hd, hle, htold⟩ := hinv.current hconn
    obtain rfl := Option.some.inj (hc.symm.trans hd)
    rcases htold with hw | ⟨pre, m, post, t, lead, es, hh, hpost, hrun, hsame, hlead, hs, hknown⟩
    · rw [hw, List.length_nil] at hn
      omega
    · obtain ⟨done, rest, lead', rfl, hlead', hrest, hsrvr⟩ :=
        s.clt.appInput_cut io lib hinv.clt_buf hlead hs h0
      rw [List.drop_drop] at hrest
      rw [known_append, ← hsrvr] at hknown
      have hstep {i k : ℕ} (hk : .srvrRead i k ∈ post ++ [.cltRead n]) : .srvrRead i k ∈ post :=
        (List.mem_append.mp hk).resolve_right fun hlast => by cases List.mem_singleton.mp hlast
      refine ⟨pre, m, post ++ [.cltRead n], t, lead', rest, ?_, fun k hk => hpost k (hstep hk),
        hrun, fun hnone => hsame fun i k hk => hnone i k (List.mem_append_left _ hk), hlead',
        hrest, hknown⟩
      rw [hh, List.append_assoc]
      rfl

theorem Inv.reconnect {io : DasIO} {lib : StatusLib} {h : List PopsEvent} {s s' : PopsSystem}
    (hinv : Inv io lib h s) (hs : s.step io lib .reconnect = some s') :
    Inv io lib (h ++ [.reconnect]) s' := by
  have hreached : Run.run (step io lib) start (h ++ [.reconnect]) = some s' :=
    (Run.run_concat _ hinv.reached _).trans hs
  obtain ⟨-, hs⟩ := Option.ite_none_left_eq_some.mp hs
  obtain rfl := Option.some.inj hs
  have hnew : s.srvr.accept.conns[s.srvr.conns.length]? = some ⟨InputBuffer.empty,[],[],[]⟩ :=
    List.getElem?_concat_length
  have haccept (i : ℕ) (c : Conn) (hc : s.srvr.accept.conns[i]? = some c) :
      c.Whole := by
    rcases PopsSrvr.accept_conns hc with hold | ⟨-, rfl⟩
    · exact hinv.whole i c hold
    · exact ⟨rfl, [], rfl⟩
  refine ⟨hreached, send_whole _ .V haccept, ?_, fun _ => ?_⟩
  · rw [send_eq _ .V hnew]
    exact hinv.clt_buf
  · rw [send_eq _ .V hnew]
    exact ⟨_, List.getElem?_set_self (conn_lt hnew), Nat.le_refl 0, Or.inl rfl⟩

theorem step_inv (io : DasIO) (lib : StatusLib) (h : List PopsEvent) (s : PopsSystem)
    (e : PopsEvent) (s' : PopsSystem) (hinv : Inv io lib h s) (hs : s.step io lib e = some s') :
    Inv io lib (h ++ [e]) s' := by
  cases e with
  | forward cmd =>
    obtain rfl := Option.some.inj hs
    exact hinv.forward cmd
  | srvrRead i n => exact hinv.srvrRead i n hs
  | cltRead n => exact hinv.cltRead n hs
  | lose =>
    have hreached := (Run.run_concat _ hinv.reached _).trans hs
    obtain rfl := Option.some.inj hs
    exact ⟨hreached, hinv.whole, hinv.clt_buf, fun hconn => by cases hconn⟩
  | reconnect => exact hinv.reconnect hs

theorem run_inv (io : DasIO) (lib : StatusLib) (es : List PopsEvent) (s : PopsSystem)
    (hr : Run.run (step io lib) start es = some s) : Inv io lib es s :=
  Run.run_keeps (step io lib) (fun _ _ => True) (Inv io lib)
    (fun h s e s' hinv _ hs => step_inv io lib h s e s' hinv hs) [] start s es
    (inv_start io lib) (Run.along_true _ start es) hr

/-- Whenever the connection has delivered something and is quiet, the driver has the status that
the server had behind its latest read on this connection, and so the server's status if the
server has read nothing of an earlier connection since then. -/
theorem status_agrees (io : DasIO) (lib : StatusLib) (es : List PopsEvent) (s : PopsSystem)
    (c : Conn) (hr : Run.run (step io lib) start es = some s) (hq : s.Quiet c) :
    ∃ pre n post t, es = pre ++ .srvrRead s.conn n :: post ∧
      (∀ m, .srvrRead s.conn m ∉ post) ∧
      Run.run (step io lib) start (pre ++ [.srvrRead s.conn n]) = some t ∧
      s.clt.srvr = t.srvr.popsStatus.code ∧
      ((∀ i m, .srvrRead i m ∉ post) → s.clt.srvr = s.srvr.popsStatus.code) := by
  obtain ⟨d, hd, -, htold⟩ := (run_inv io lib es s hr).current hq.connected
  obtain rfl := Option.some.inj (hq.conn_eq.symm.trans hd)
  rcases htold with hw | ⟨pre, n, post, t, lead, rs, hes, hpost, hrun, hsame, -, hs, hknown⟩
  · have hpos := hq.delivered
    rw [hq.received_eq, hw] at hpos
    exact absurd hpos (Nat.lt_irrefl 0)
  · rw [hq.received_eq, List.drop_length] at hs
    have hnil := lines_eq_nil PopsStatus.digit (List.append_eq_nil_iff.mp hs.symm).2
    rw [hnil] at hknown
    refine ⟨pre, n, post, t, hes, hpost, hrun, hknown, fun hnone => ?_⟩
    rw [hsame hnone]
    exact hknown

/-- The driver connects, its `V` is read and answered, and the answer is read. -/
theorem status_agrees_connected : ∃ s c,
    Run.run (step .keeping .decimal) start [.reconnect, .srvrRead 0 2, .cltRead 2] = some s ∧
      s.Quiet c ∧ s.clt.srvr = s.srvr.popsStatus.code := by
  obtain ⟨s, c, hr, hq⟩ : ∃ s c, Run.run (step .keeping .decimal) start
      [.reconnect, .srvrRead 0 2, .cltRead 2] = some s ∧ s.Quiet c := by
    have hreply := PopsClient.appInput_reply ⟨InputBuffer.empty,0,true,0⟩ .popsIdle rfl
    refine ⟨_, _, rfl, ?_, rfl, Nat.succ_pos 1, rfl, rfl, rfl, ?_⟩
    · exact congrArg PopsClient.connected hreply
    · exact congrArg (·.ibuf.unread) hreply
  refine ⟨s, c, hr, hq, ?_⟩
  obtain ⟨pre, n, post, t, hes, hpost, -, -, hsame⟩ :=
    status_agrees .keeping .decimal _ s c hr hq
  refine hsame fun i m hm => ?_
  -- The server has read once.
  rcases pre with - | ⟨a, - | ⟨b, pre⟩⟩
  · cases hes
  · obtain ⟨-, hes⟩ := List.cons.inj hes
    obtain ⟨-, rfl⟩ := List.cons.inj hes
    simp at hm
  · have hlast : .srvrRead s.conn n ∈ [PopsEvent.cltRead 2] := by
      obtain ⟨-, hes⟩ := List.cons.inj hes
      obtain ⟨-, hes⟩ := List.cons.inj hes
      rw [hes]
      exact List.mem_append_right _ List.mem_cons_self
    cases List.mem_singleton.mp hlast

/-- The `B` of a lost connection is read behind the `V` of the next one. All bytes have been
read, and the driver holds a status that the server has left. -/
theorem status_lags : ∃ s c, Run.run (step .keeping .decimal) start
      [.reconnect, .forward .B, .lose, .reconnect, .srvrRead 1 2, .cltRead 2, .srvrRead 0 4] =
        some s ∧
    s.Quiet c ∧ (∀ d ∈ s.srvr.conns, d.waiting = [] ∧ d.ibuf.unread = []) ∧
    s.clt.srvr ≠ s.srvr.popsStatus.code := by
  have hreply := PopsClient.appInput_reply ⟨InputBuffer.empty,0,true,0⟩ .popsIdle rfl
  refine ⟨_, _, rfl, ⟨?_, rfl, Nat.succ_pos 1, rfl, rfl, rfl, ?_⟩, ?_, fun heq => ?_⟩
  · exact congrArg PopsClient.connected hreply
  · exact congrArg (·.ibuf.unread) hreply
  · intro d hd
    rcases List.mem_cons.mp hd with rfl | hd
    · exact ⟨rfl, rfl⟩
    · obtain rfl := List.mem_singleton.mp hd
      exact ⟨rfl, rfl⟩
  · exact absurd ((congrArg PopsClient.srvr hreply).symm.trans heq) (by decide)

end PopsSystem
end Cosmid.Pops
