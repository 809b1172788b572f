import Cosmid.Channels
import Cosmid.PopsCommands
import Cosmid.Run

/-! The server with any number of clients. `POPS_status` and the system are the same for all of
them, and every client may send whatever it likes. -/
namespace Cosmid.Pops

open Channels

namespace PopsSocket

/-- What the commands of a list do, one after the other, to a server that has just started. -/
def serial (cmds : List UInt8) : PopsSocket := cmds.foldl execute (.new .popsIdle [])

theorem serial_append (cmds cmds' : List UInt8) :
    serial (cmds ++ cmds') = cmds'.foldl execute (serial cmds) := List.foldl_append ..

/-- The buffer and what has been written have no influence on a command. -/
theorem execute_congr {s t : PopsSocket} (hstatus : s.popsStatus = t.popsStatus)
    (hactions : s.actions = t.actions) (cmd : UInt8) :
    (s.execute cmd).popsStatus = (t.execute cmd).popsStatus ∧
      (s.execute cmd).actions = (t.execute cmd).actions := by
  have hmore (action : ServerAction) : (s.system action).actions = (t.system action).actions :=
    congrArg (· ++ [action]) hactions
  unfold execute
  rw [hstatus]
  split_ifs
  · exact ⟨hstatus, hactions⟩
  · exact ⟨rfl, hmore .startPops⟩
  · exact ⟨rfl, hmore .sendShutdown⟩
  · exact ⟨rfl, hmore .shutdownNow⟩
  · exact ⟨rfl, hmore .shutdownNow⟩
  · exact ⟨hstatus, hactions⟩

theorem foldl_execute_congr {s t : PopsSocket} (hstatus : s.popsStatus = t.popsStatus)
    (hactions : s.actions = t.actions) (cmds : List UInt8) :
    (cmds.foldl execute s).popsStatus = (cmds.foldl execute t).popsStatus ∧
      (cmds.foldl execute s).actions = (cmds.foldl execute t).actions := by
  induction cmds generalizing s t with
  | nil => exact ⟨hstatus, hactions⟩
  | cons cmd cmds ih =>
    obtain ⟨hs, ha⟩ := execute_congr hstatus hactions cmd
    exact ih hs ha

/-- `cmds` have been taken from the front of `u`, and `rest` is still to be scanned. -/
def Taken (u : List UInt8) (cmds rest : List UInt8) : Prop :=
  ∀ v, commandScanner.scan (u ++ v) =
    (cmds ++ (commandScanner.scan (rest ++ v)).1, (commandScanner.scan (rest ++ v)).2)

theorem Taken.skip {cmd nl : UInt8} {u cmds rest : List UInt8} (hnl : nl ≠ 0x0a)
    (h : Taken (nl :: u) cmds rest) : Taken (cmd :: nl :: u) cmds rest := by
  intro v
  have hhead : commandScanner.head (cmd :: nl :: u ++ v) = some (none, 1) := if_pos hnl
  rw [commandScanner.scan_some hhead]
  exact h v

theorem Taken.command {cmd : UInt8} {u cmds rest : List UInt8} (h : Taken u cmds rest) :
    Taken (cmd :: 0x0a :: u) (cmd :: cmds) rest := by
  intro v
  have hhead : commandScanner.head (cmd :: 0x0a :: u ++ v) = some (some cmd, 2) := rfl
  rw [commandScanner.scan_some hhead]
  change (cmd :: (commandScanner.scan (u ++ v)).1, (commandScanner.scan (u ++ v)).2) = _
  rw [h v]
  rfl

theorem Taken.extend {u cmds rest : List UInt8} (h : Taken u cmds rest) (v : List UInt8) :
    Taken (u ++ v) cmds (rest ++ v) := by
  intro w
  rw [List.append_assoc, List.append_assoc]
  exact h (v ++ w)

theorem Taken.trans {u cmds rest cmds' rest' : List UInt8} (h : Taken u cmds rest)
    (h' : Taken rest cmds' rest') : Taken u (cmds ++ cmds') rest' := by
  intro v
  rw [h v, h' v, List.append_assoc]

/-- Commands that are taken from a stream are the first ones in it. -/
theorem Taken.scan_eq {u cmds rest : List UInt8} (h : Taken u cmds rest) :
    (commandScanner.scan u).1 = cmds ++ (commandScanner.scan rest).1 := by
  have hnil := congrArg Prod.fst (h [])
  rwa [List.append_nil, List.append_nil] at hnil

theorem taken_nothing (u : List UInt8) : Taken u [] u := fun _ => rfl

/-- The loop takes commands until it comes to the end of the input or behind a `D`. -/
theorem commandLoop_taken (s : PopsSocket) (u : List UInt8) (hu : s.ibuf.unread = u) :
    ∃ cmds, Taken u cmds (s.commandLoop u).1.ibuf.unread ∧
      (s.commandLoop u).1.popsStatus = (cmds.foldl execute s).popsStatus ∧
      (s.commandLoop u).1.actions = (cmds.foldl execute s).actions := by
  fun_induction commandLoop s u with
  | case1 s cmd nl u hnl ih =>
    obtain ⟨cmds, htaken, hstatus, hactions⟩ := ih (by rw [InputBuffer.unread_advance, hu]; rfl)
    obtain ⟨hs, ha⟩ := foldl_execute_congr (s := {s with ibuf := ⟨s.ibuf.buf,s.ibuf.cp+1⟩})
      (t := s) rfl rfl cmds
    exact ⟨cmds, htaken.skip hnl, hstatus.trans hs, hactions.trans ha⟩
  | case2 s nl u hnl s' =>
    -- Behind a `D` the input stays where it is.
    obtain rfl := not_not.mp hnl
    have hunread : s'.ibuf.unread = u := (s.ibuf.unread_advance 2).trans (by rw [hu]; rfl)
    refine ⟨[0x44], ?_, rfl, rfl⟩
    rw [hunread]
    exact (taken_nothing u).command
  | case3 s cmd nl u hnl s' hD ih =>
    obtain rfl := not_not.mp hnl
    have hunread : (s'.execute cmd).ibuf.unread = u := by
      rw [execute_ibuf]
      exact (s.ibuf.unread_advance 2).trans (by rw [hu]; rfl)
    obtain ⟨cmds, htaken, hstatus, hactions⟩ := ih hunread
    obtain ⟨hs, ha⟩ := foldl_execute_congr (s := s') (t := s) rfl rfl (cmd :: cmds)
    exact ⟨cmd :: cmds, htaken.command, hstatus.trans hs, hactions.trans ha⟩
  | case4 u s hshort =>
    rw [hu]
    exact ⟨[], taken_nothing u, rfl, rfl⟩

/-- A read goes on with what the call before has left. -/
theorem protocolInput_taken (io : DasIO) (s : PopsSocket) (bytes : List UInt8)
    (hcp : s.ibuf.cp = 0) :
    ∃ cmds, Taken (s.ibuf.buf ++ bytes) cmds (s.protocolInput io bytes).ibuf.buf ∧
      (s.protocolInput io bytes).ibuf.cp = 0 ∧
      (s.protocolInput io bytes).popsStatus = (cmds.foldl execute s).popsStatus ∧
      (s.protocolInput io bytes).actions = (cmds.foldl execute s).actions := by
  have hib : s.ibuf = ⟨s.ibuf.buf,0⟩ := by rw [← hcp]
  have hread : io.read s.ibuf bytes = ⟨s.ibuf.buf ++ bytes,0⟩ := by rw [hib, io.read_zero]
  obtain ⟨cmds, htaken, hstatus, hactions⟩ := commandLoop_taken
    {s with ibuf := ⟨s.ibuf.buf ++ bytes,0⟩, written := []} (s.ibuf.buf ++ bytes) rfl
  obtain ⟨hs, ha⟩ := foldl_execute_congr
    (s := {s with ibuf := ⟨s.ibuf.buf ++ bytes,0⟩, written := []}) (t := s) rfl rfl cmds
  simp only [protocolInput, hread, InputBuffer.unread_mk_zero, io.consume_parsed]
  refine ⟨cmds, ?_, ?_, ?_, ?_⟩
  · split <;> exact htaken
  · split <;> rfl
  · split <;> exact hstatus.trans hs
  · split <;> exact hactions.trans ha

end PopsSocket

/-- The status behind the latest action. -/
def statusAfter (actions : List ServerAction) : PopsStatus :=
  match actions.getLast? with
  | none => .popsIdle
  | some .startPops => .popsActive
  | some _ => .popsShutdown

/-- The instrument's software is asked to shut down only directly after it has been started. -/
def Orderly (actions : List ServerAction) : Prop :=
  ∀ pre post, actions = pre ++ .sendShutdown :: post → pre.getLast? = some .startPops

theorem orderly_concat {actions : List ServerAction} (h : Orderly actions) (a : ServerAction)
    (ha : a = .sendShutdown → actions.getLast? = some .startPops) : Orderly (actions ++ [a]) := by
  intro pre post heq
  rcases List.eq_nil_or_concat' post with rfl | ⟨post', b, rfl⟩
  · obtain ⟨rfl, hlast⟩ := List.append_inj' heq rfl
    exact ha (List.cons.inj hlast).1
  · rw [← List.cons_append, ← List.append_assoc] at heq
    exact h pre post' (List.append_inj' heq rfl).1

theorem statusAfter_concat (actions : List ServerAction) (a : ServerAction) :
    statusAfter (actions ++ [a]) = if a = .startPops then .popsActive else .popsShutdown := by
  rw [statusAfter, List.getLast?_concat]
  cases a <;> rfl

namespace PopsSocket

/-- A command keeps the status and the actions in step. -/
theorem execute_orderly (s : PopsSocket) (cmd : UInt8)
    (hstatus : s.popsStatus = statusAfter s.actions) (horderly : Orderly s.actions) :
    (s.execute cmd).popsStatus = statusAfter (s.execute cmd).actions ∧
      Orderly (s.execute cmd).actions := by
  have hmore (t : PopsSocket) (a : ServerAction) (hactions : t.actions = s.actions ++ [a])
      (ht : t.popsStatus = if a = .startPops then .popsActive else .popsShutdown)
      (ha : a = .sendShutdown → s.actions.getLast? = some .startPops) :
      t.popsStatus = statusAfter t.actions ∧ Orderly t.actions := by
    rw [hactions, statusAfter_concat]
    exact ⟨ht, orderly_concat horderly a ha⟩
  unfold execute
  split_ifs with hV hB hE hactive hF
  · exact ⟨hstatus, horderly⟩
  · exact hmore _ .startPops rfl rfl fun h => by cases h
  · refine hmore _ .sendShutdown rfl rfl fun _ => ?_
    rw [hstatus, statusAfter] at hactive
    split at hactive
    · cases hactive
    · assumption
    · cases hactive
  · exact hmore _ .shutdownNow rfl rfl fun h => by cases h
  · exact hmore _ .shutdownNow rfl rfl fun h => by cases h
  · exact ⟨hstatus, horderly⟩

theorem serial_orderly (cmds : List UInt8) :
    (serial cmds).popsStatus = statusAfter (serial cmds).actions ∧
      Orderly (serial cmds).actions := by
  induction cmds using List.reverseRecOn with
  | nil => exact ⟨rfl, fun pre post heq => absurd heq (by simp [serial, new])⟩
  | append_singleton cmds cmd ih =>
    rw [serial_append]
    exact execute_orderly _ cmd ih.1 ih.2

end PopsSocket

/-- A connection of the server: the buffer of its socket, all that the client has sent on it,
what of this has not been read yet, and all that the server has written. -/
structure Conn where
  ibuf : InputBuffer
  sent : List UInt8
  waiting : List UInt8
  written : List UInt8

/-- The server with its connections, in the order in which they have been made. -/
structure PopsSrvr where
  popsStatus : PopsStatus
  actions : List ServerAction
  conns : List Conn

/-- A new client, bytes from the client of connection `i`, and a read of `n` of them. -/
inductive SrvrEvent
  | accept
  | send (i : ℕ) (bytes : List UInt8)
  | read (i n : ℕ)

namespace PopsSrvr

def start : PopsSrvr := ⟨.popsIdle,[],[]⟩

/-- `new_pops_socket`. -/
def accept (s : PopsSrvr) : PopsSrvr :=
  {s with conns := s.conns ++ [⟨InputBuffer.empty,[],[],[]⟩]}

def sendOn (s : PopsSrvr) (i : ℕ) (bytes : List UInt8) (c : Conn) : PopsSrvr :=
  {s with conns := s.conns.set i {c with sent := c.sent ++ bytes, waiting := c.waiting ++ bytes}}

/-- The socket of a connection. `POPS_status` is a global variable. -/
def socket (s : PopsSrvr) (c : Conn) : PopsSocket := ⟨c.ibuf,s.popsStatus,[],s.actions,[]⟩

def readOn (io : DasIO) (s : PopsSrvr) (i n : ℕ) (c : Conn) : PopsSrvr :=
  let socket := (s.socket c).protocolInput io (c.waiting.take n)
  ⟨socket.popsStatus,socket.actions,
    s.conns.set i ⟨socket.ibuf,c.sent,c.waiting.drop n,c.written ++ socket.written⟩⟩

/-- `none` where there is no such connection, or not so much to read. -/
def step (io : DasIO) (s : PopsSrvr) : SrvrEvent → Option PopsSrvr
  | .accept => some s.accept
  | .send i bytes => (s.conns[i]?).map (s.sendOn i bytes)
  | .read i n =>
    (s.conns[i]?).bind fun c =>
      if 0 < n ∧ n ≤ c.waiting.length then some (s.readOn io i n c) else none

/-- The invariant: `log` is an order of the commands that have been executed, and on every
connection those are the first of the ones sent. -/
structure Serial (log : List (ℕ × UInt8)) (s : PopsSrvr) : Prop where
  status_eq : s.popsStatus = (PopsSocket.serial (log.map Prod.snd)).popsStatus
  actions_eq : s.actions = (PopsSocket.serial (log.map Prod.snd)).actions
  taken : ∀ (i : ℕ) (c : Conn), s.conns[i]? = some c →
    PopsSocket.Taken c.sent (onChannel log i) (c.ibuf.buf ++ c.waiting)
  cp_eq : ∀ (i : ℕ) (c : Conn), s.conns[i]? = some c → c.ibuf.cp = 0
  fresh : ∀ i, s.conns.length ≤ i → onChannel log i = []

theorem start_serial : start.Serial [] := by
  refine ⟨rfl, rfl, ?_, ?_, fun _ _ => rfl⟩
  · intro i c hc
    cases hc
  · intro i c hc
    cases hc

/-- What is true of the connection `i` as it is now and of the others is true of all. -/
theorem forall_set {conns : List Conn} {i : ℕ} {c : Conn} {P : ℕ → Conn → Prop} (hi : P i c)
    (hother : ∀ j d, j ≠ i → conns[j]? = some d → P j d) :
    ∀ j d, (conns.set i c)[j]? = some d → P j d := by
  intro j d hd
  by_cases hji : j = i
  · subst hji
    rw [List.getElem?_set_self'] at hd
    obtain ⟨-, -, rfl⟩ := Option.map_eq_some_iff.mp hd
    exact hi
  · rw [List.getElem?_set_ne (Ne.symm hji)] at hd
    exact hother j d hji hd

theorem accept_conns {s : PopsSrvr} {i : ℕ} {c : Conn} (hc : s.accept.conns[i]? = some c) :
    s.conns[i]? = some c ∨ i = s.conns.length ∧ c = ⟨InputBuffer.empty,[],[],[]⟩ := by
  rw [accept, List.getElem?_append] at hc
  split at hc
  · exact Or.inl hc
  · rw [List.getElem?_singleton] at hc
    split_ifs at hc
    cases hc
    exact Or.inr ⟨by omega, rfl⟩

theorem Serial.accept {log : List (ℕ × UInt8)} {s : PopsSrvr} (h : s.Serial log) :
    s.accept.Serial log := by
  refine ⟨h.status_eq, h.actions_eq, ?_, ?_, ?_⟩
  · intro i c hc
    rcases accept_conns hc with hold | ⟨rfl, rfl⟩
    · exact h.taken i c hold
    · rw [h.fresh _ (Nat.le_refl _)]
      exact PopsSocket.taken_nothing []
  · intro i c hc
    rcases accept_conns hc with hold | ⟨rfl, rfl⟩
    · exact h.cp_eq i c hold
    · rfl
  · intro i hi
    rw [PopsSrvr.accept, List.length_append] at hi
    exact h.fresh i (Nat.le_of_succ_le hi)

theorem Serial.sendOn {log : List (ℕ × UInt8)} {s : PopsSrvr} (h : s.Serial log) {i : ℕ} {c : Conn}
    (hc : s.conns[i]? = some c) (bytes : List UInt8) : (s.sendOn i bytes c).Serial log := by
  refine ⟨h.status_eq, h.actions_eq, ?_, ?_, ?_⟩
  · refine forall_set ?_ fun j d _ hd => h.taken j d hd
    dsimp only
    rw [← List.append_assoc]
    exact (h.taken i c hc).extend bytes
  · exact forall_set (h.cp_eq i c hc) fun j d _ hd => h.cp_eq j d hd
  · intro j hj
    rw [PopsSrvr.sendOn, List.length_set] at hj
    exact h.fresh j hj

/-- A read executes some more commands of its connection. -/
theorem Serial.readOn {log : List (ℕ × UInt8)} {s : PopsSrvr} (h : s.Serial log) (io : DasIO)
    {i : ℕ} {c : Conn} (hc : s.conns[i]? = some c) (n : ℕ) :
    ∃ cmds, (s.readOn io i n c).Serial (log ++ tag i cmds) := by
  obtain ⟨cmds, htaken, hcp, hstatus, hactions⟩ :=
    (s.socket c).protocolInput_taken io (c.waiting.take n) (h.cp_eq i c hc)
  obtain ⟨hs, ha⟩ := PopsSocket.foldl_execute_congr (s := s.socket c)
    (t := PopsSocket.serial (log.map Prod.snd)) h.status_eq h.actions_eq cmds
  refine ⟨cmds, ?_, ?_, ?_, ?_, ?_⟩
  · rw [List.map_append, map_snd_tag, PopsSocket.serial_append]
    exact hstatus.trans hs
  · rw [List.map_append, map_snd_tag, PopsSocket.serial_append]
    exact hactions.trans ha
  · refine forall_set ?_ fun j d hji hd => ?_
    · rw [onChannel_append, onChannel_tag_self]
      refine (h.taken i c hc).trans ?_
      have hmore := htaken.extend (c.waiting.drop n)
      rwa [List.append_assoc, List.take_append_drop] at hmore
    · rw [onChannel_append, onChannel_tag_ne (Ne.symm hji), List.append_nil]
      exact h.taken j d hd
  · exact forall_set hcp fun j d _ hd => h.cp_eq j d hd
  · intro j hj
    rw [PopsSrvr.readOn, List.length_set] at hj
    have hji : i ≠ j := by
      rintro rfl
      rw [List.getElem?_eq_none hj] at hc
      cases hc
    rw [onChannel_append, onChannel_tag_ne hji, h.fresh j hj]
    rfl

theorem step_serial (io : DasIO) (s s' : PopsSrvr) (e : SrvrEvent) (log : List (ℕ × UInt8))
    (h : s.Serial log) (hs : s.step io e = some s') : ∃ more, s'.Serial (log ++ more) := by
  cases e with
  | accept =>
    obtain rfl := Option.some.inj hs
    exact ⟨[], by rw [List.append_nil]; exact h.accept⟩
  | send i bytes =>
    obtain ⟨c, hc, rfl⟩ := Option.map_eq_some_iff.mp hs
    exact ⟨[], by rw [List.append_nil]; exact h.sendOn hc bytes⟩
  | read i n =>
    obtain ⟨c, hc, hs⟩ := Option.bind_eq_some_iff.mp hs
    obtain ⟨-, hs⟩ := Option.ite_none_right_eq_some.mp hs
    obtain rfl := Option.some.inj hs
    obtain ⟨cmds, hcmds⟩ := h.readOn io hc n
    exact ⟨tag i cmds, hcmds⟩

theorem run_serial (io : DasIO) (s s' : PopsSrvr) (es : List SrvrEvent) (log : List (ℕ × UInt8))
    (h : s.Serial log) (hs : Run.run (step io) s es = some s') :
    ∃ more, s'.Serial (log ++ more) := by
  refine Run.run_keeps (step io) (fun _ _ => True) (fun _ s => ∃ more, s.Serial (log ++ more)) ?_
    [] s s' es ⟨[], by rwa [List.append_nil]⟩ (Run.along_true _ s es) hs
  rintro - s e s' ⟨more, h⟩ - hs
  obtain ⟨more', h'⟩ := step_serial io s s' e _ h hs
  exact ⟨more ++ more', by rwa [← List.append_assoc]⟩

/-- One byte holds no command. -/
theorem scan_short (u : List UInt8) (h : u.length < 2) : (commandScanner.scan u).1 = [] := by
  have hnone : commandScanner.head u = none := by
    match u with
    | [] => rfl
    | [_] => rfl
    | _ :: _ :: _ => simp only [List.length_cons] at h; omega
  rw [commandScanner.scan_none hnone]

/-- Whatever the clients send, and however the server's reads come: there is one order of the
commands of all connections that explains its status and all it has done to the system. It
has the commands of each connection in the order in which they were sent, up to some
command, and up to the last one once fewer than two bytes are left unparsed. The instrument's
software is asked to shut down only directly after it has been started. -/
theorem server_serial (io : DasIO) (es : List SrvrEvent) (s : PopsSrvr)
    (hs : Run.run (step io) start es = some s) :
    ∃ log : List (ℕ × UInt8),
      s.popsStatus = (PopsSocket.serial (log.map Prod.snd)).popsStatus ∧
      s.actions = (PopsSocket.serial (log.map Prod.snd)).actions ∧
      (∀ (i : ℕ) (c : Conn), s.conns[i]? = some c →
        onChannel log i <+: (commandScanner.scan c.sent).1 ∧
        ((c.ibuf.buf ++ c.waiting).length < 2 →
          onChannel log i = (commandScanner.scan c.sent).1)) ∧
      s.popsStatus = statusAfter s.actions ∧ Orderly s.actions := by
  obtain ⟨log, h⟩ := run_serial io start s es [] start_serial hs
  rw [List.nil_append] at h
  obtain ⟨hstatus, horderly⟩ := PopsSocket.serial_orderly (log.map Prod.snd)
  refine ⟨log, h.status_eq, h.actions_eq, fun i c hc => ?_, ?_, ?_⟩
  · have hscan := (h.taken i c hc).scan_eq
    refine ⟨⟨_, hscan.symm⟩, fun hshort => ?_⟩
    rw [hscan, scan_short _ hshort, List.append_nil]
  · rw [h.status_eq, h.actions_eq]
    exact hstatus
  · rw [h.actions_eq]
    exact horderly

/-- One client starts the software and another one shuts it down. -/
theorem server_serial_two : ∃ s, Run.run (step .keeping) start
    [.accept, .accept, .send 0 [0x42, 0x0a], .send 1 [0x45, 0x0a], .read 0 2, .read 1 2] = some s ∧
    s.popsStatus = statusAfter s.actions := by
  obtain ⟨s, hs⟩ : ∃ s, Run.run (step .keeping) start
      [.accept, .accept, .send 0 [0x42, 0x0a], .send 1 [0x45, 0x0a], .read 0 2, .read 1 2] =
        some s := ⟨_, rfl⟩
  obtain ⟨-, -, -, -, hstatus, -⟩ := server_serial .keeping _ s hs
  exact ⟨s, hs, hstatus⟩

end PopsSrvr
end Cosmid.Pops
