import Cosmid.NephexFraming

/-! The timer of `nephex_tcp_rcvr` (Nephex/nephex_export.cc): a connection over which no frame
comes in is given up. -/
namespace Cosmid.Nephex

/-- `TO.Set(5,0)`, in milliseconds. -/
def inputTimeout : ℕ := 5000

/-- The library's timer, with times in milliseconds: `set secs msecs now` is `TO.Set` and
`expired now` is `TO.Expired`. What `reset()` does to the input buffer and to `TO` is the
library's too. -/
structure SocketLib where
  Timeout : Type
  initial : Timeout
  set : ℕ → ℕ → ℕ → Timeout
  expired : ℕ → Timeout → Bool
  resetIbuf : InputBuffer → InputBuffer
  resetTO : Timeout → Timeout

/-- A timer that notes when it expires. -/
def SocketLib.deadline : SocketLib where
  Timeout := ℕ
  initial := 0
  set secs msecs now := now+(1000*secs+msecs)
  expired now t := t ≤ now
  resetIbuf _ := InputBuffer.empty
  resetTO := id

/-- The receiver with its connection and its timer. `now` is the clock of the loop. -/
structure TimedRcvr (lib : SocketLib) (out : OutputSocket) where
  sys : NephexSystem out
  isConnected : Bool
  now : ℕ
  timer : lib.Timeout

/-- The connection, its end, and the end of the waiting time; what goes on in between; and
time that goes by. -/
inductive TimedEvent (out : OutputSocket)
  | connected
  | processEof
  | protocolTimeout
  | input (e : NephexInput out)
  | elapse (ms : ℕ)

namespace TimedRcvr

variable {lib : SocketLib} {out : OutputSocket}

def new (lib : SocketLib) (sys : NephexSystem out) : TimedRcvr lib out :=
  ⟨sys,false,0,lib.initial⟩

/-- `connected`. -/
def connected (w : TimedRcvr lib out) : TimedRcvr lib out :=
  {w with isConnected := true, timer := lib.set 5 0 w.now}

/-- `protocol_timeout` and `process_eof`, which close the connection with `reset()`. -/
def reset (w : TimedRcvr lib out) : TimedRcvr lib out :=
  {w with
    sys := w.sys.setIbuf (lib.resetIbuf w.sys.rcvr.ibuf)
    isConnected := false
    timer := lib.resetTO w.timer}

/-- The timer is set for every packet, right before it is logged, so it has been set in the
calls that have logged something. -/
def input (io : DasIO) (serio : SerioLib) (w : TimedRcvr lib out) (e : NephexInput out) :
    Option (TimedRcvr lib out) :=
  (w.sys.step io serio e).map fun sys =>
    {w with
      sys := sys
      timer := if w.sys.logged.length < sys.logged.length then lib.set 5 0 w.now else w.timer}

/-- Bytes are read while the connection is there, and the loop calls `protocol_timeout` when
`TO` has expired. -/
def step (io : DasIO) (serio : SerioLib) (w : TimedRcvr lib out) :
    TimedEvent out → Option (TimedRcvr lib out)
  | .connected => if w.isConnected then none else some w.connected
  | .processEof => if w.isConnected then some w.reset else none
  | .protocolTimeout => if lib.expired w.now w.timer then some w.reset else none
  | .input (.read bytes) => if w.isConnected then w.input io serio (.read bytes) else none
  | .input e => w.input io serio e
  | .elapse ms => some {w with now := w.now+ms}

def Fits (w : TimedRcvr lib out) : TimedEvent out → Prop
  | .input e => w.sys.Fits e
  | _ => True

end TimedRcvr

/-- The line to the instrument: the frames of the connections before, the bytes of this one,
and the time since it was made or since the last frame was complete. -/
structure Line where
  up : Bool
  earlier : List (List UInt8)
  stream : List UInt8
  quiet : ℕ

namespace Line

variable {out : OutputSocket}

def new : Line := ⟨false,[],[],0⟩

/-- What is on the line does not depend on the receiver. -/
def step (l : Line) : TimedEvent out → Line
  | .connected => ⟨true,l.earlier ++ frames l.stream,[],0⟩
  | .processEof => {l with up := false}
  | .protocolTimeout => {l with up := false}
  | .input (.read bytes) =>
    {l with
      stream := l.stream ++ bytes
      quiet := if frames (l.stream ++ bytes) = frames l.stream then l.quiet else 0}
  | .input _ => l
  | .elapse ms => {l with quiet := l.quiet+ms}

def after (es : List (TimedEvent out)) : Line := es.foldl step new

theorem after_concat (es : List (TimedEvent out)) (e : TimedEvent out) :
    after (es ++ [e]) = (after es).step e := by
  rw [after, List.foldl_append]
  rfl

end Line

namespace TimedRcvr

variable {lib : SocketLib} {out : OutputSocket}

/-- The invariant: the receiver has logged the frames on the line and holds what is left over
of the connection, and its timer has been set when the line was last not quiet. -/
structure Follows (l : Line) (w : TimedRcvr lib out) : Prop where
  connected_eq : w.isConnected = l.up
  logged_eq : w.sys.logged = l.earlier ++ frames l.stream
  ibuf_eq : w.sys.rcvr.ibuf = ⟨if l.up then leftover l.stream else [],0⟩
  timer_eq : l.up = true → w.timer = lib.set 5 0 (w.now-l.quiet)
  quiet_le : l.quiet ≤ w.now

theorem follows_new (sys : NephexSystem out) (h : sys.rcvr = .new) :
    Follows Line.new (new lib sys) := by
  refine ⟨rfl, ?_, by rw [new, h]; rfl, ?_, Nat.le_refl 0⟩
  · rw [new, NephexSystem.logged_new sys h, Line.new, frames_nil]
    rfl
  · intro hup
    cases hup

theorem Follows.connected {l : Line} {w : TimedRcvr lib out} (h : Follows l w)
    (hup : l.up = false) : Follows (l.step (.connected : TimedEvent out)) w.connected := by
  refine ⟨rfl, ?_, ?_, fun _ => rfl, Nat.zero_le _⟩
  · change w.sys.logged = l.earlier ++ frames l.stream ++ frames []
    rw [h.logged_eq, frames_nil, List.append_nil]
  · change w.sys.rcvr.ibuf = ⟨leftover [],0⟩
    rw [h.ibuf_eq, hup, leftover_nil]
    rfl

theorem Follows.reset {l : Line} {w : TimedRcvr lib out} (h : Follows l w)
    (hreset : ∀ ibuf, lib.resetIbuf ibuf = InputBuffer.empty) :
    Follows {l with up := false} w.reset := by
  rw [TimedRcvr.reset, hreset]
  refine ⟨rfl, h.logged_eq, rfl, ?_, h.quiet_le⟩
  intro hup
  cases hup

theorem Follows.elapse {l : Line} {w : TimedRcvr lib out} (h : Follows l w) (ms : ℕ) :
    Follows (l.step (.elapse ms : TimedEvent out)) {w with now := w.now+ms} := by
  refine ⟨h.connected_eq, h.logged_eq, h.ibuf_eq, ?_, ?_⟩
  · intro hup
    have hshift : w.now+ms-(l.quiet+ms) = w.now-l.quiet := Nat.add_sub_add_right _ _ _
    rw [h.timer_eq hup, Line.step, hshift]
  · exact Nat.add_le_add_right h.quiet_le ms

/-- A read: the timer is set again if a frame is complete with it. -/
theorem Follows.read {l : Line} {w w' : TimedRcvr lib out} {io : DasIO} {serio : SerioLib}
    (h : Follows l w) (bytes : List UInt8) (hup : l.up = true)
    (hfit : w.sys.Fits (.read bytes)) (hw : w.input io serio (.read bytes) = some w') :
    Follows (l.step (.input (.read bytes) : TimedEvent out)) w' := by
  have hib : w.sys.rcvr.ibuf = ⟨leftover l.stream,0⟩ := by rw [h.ibuf_eq, hup, if_pos rfl]
  obtain ⟨sys, hstep, hibuf, htook⟩ := w.sys.read_spec io serio _ bytes hib hfit
  have hmore := htook.logged_eq
  rw [input, hstep, Option.map_some] at hw
  obtain rfl := Option.some.inj hw
  -- The timer is set in the calls that complete a frame of the stream, and only in them.
  have hgrown : w.sys.logged.length < sys.logged.length ↔
      ¬frames (l.stream ++ bytes) = frames l.stream := by
    rw [frames_append, List.append_right_eq_self, ← ne_eq, ← List.length_pos_iff, hmore,
      List.length_append]
    omega
  refine ⟨h.connected_eq, ?_, ?_, ?_, ?_⟩
  · change sys.logged = l.earlier ++ frames (l.stream ++ bytes)
    rw [hmore, h.logged_eq, List.append_assoc, ← frames_append]
  · change sys.rcvr.ibuf = ⟨if l.up then leftover (l.stream ++ bytes) else [],0⟩
    rw [hup, if_pos rfl, leftover_append]
    exact hibuf
  · intro _
    change (if w.sys.logged.length < sys.logged.length then lib.set 5 0 w.now else w.timer) =
      lib.set 5 0 (w.now-(if frames (l.stream ++ bytes) = frames l.stream then l.quiet else 0))
    by_cases hsame : frames (l.stream ++ bytes) = frames l.stream
    · rw [if_neg (fun hlt => hgrown.mp hlt hsame), if_pos hsame, h.timer_eq hup]
    · rw [if_pos (hgrown.mpr hsame), if_neg hsame]
      rfl
  · change (if frames (l.stream ++ bytes) = frames l.stream then l.quiet else 0) ≤ w.now
    split
    · exact h.quiet_le
    · exact Nat.zero_le _

/-- What happens to the exporter is neither input nor silence. -/
theorem Follows.exporter {l : Line} {w : TimedRcvr lib out} (h : Follows l w)
    (exp : NephexTcpExport out) : Follows l {w with
      sys := {w.sys with exp := exp}
      timer := if w.sys.logged.length < w.sys.logged.length then lib.set 5 0 w.now
        else w.timer} := by
  rw [if_neg (Nat.lt_irrefl _)]
  exact ⟨h.connected_eq,h.logged_eq,h.ibuf_eq,h.timer_eq,h.quiet_le⟩

theorem step_follows (io : DasIO) (serio : SerioLib)
    (hreset : ∀ ibuf, lib.resetIbuf ibuf = InputBuffer.empty) (l : Line)
    (w w' : TimedRcvr lib out) (e : TimedEvent out) (h : Follows l w) (hfit : w.Fits e)
    (hw : w.step io serio e = some w') : Follows (l.step e) w' := by
  cases e with
  | connected =>
    simp only [step, Option.ite_none_left_eq_some, Option.some.injEq] at hw
    obtain ⟨hconn, rfl⟩ := hw
    exact h.connected (h.connected_eq ▸ Bool.eq_false_iff.mpr hconn)
  | processEof =>
    simp only [step, Option.ite_none_right_eq_some, Option.some.injEq] at hw
    obtain ⟨-, rfl⟩ := hw
    exact h.reset hreset
  | protocolTimeout =>
    simp only [step, Option.ite_none_right_eq_some, Option.some.injEq] at hw
    obtain ⟨-, rfl⟩ := hw
    exact h.reset hreset
  | input e =>
    cases e with
    | read bytes =>
      obtain ⟨hconn, hw⟩ := Option.ite_none_right_eq_some.mp hw
      exact h.read bytes (h.connected_eq ▸ hconn) hfit hw
    | ack length =>
      obtain rfl := Option.some.inj hw
      exact h.exporter _
    | exportSocket sock =>
      obtain rfl := Option.some.inj hw
      exact h.exporter _
  | elapse ms =>
    obtain rfl := Option.some.inj hw
    exact h.elapse ms

/-- On every line, whatever is on it: every frame of every connection is logged, each of one
connection only; and the receiver may give a connection up, and does so if the loop comes to
its timer, exactly when for five seconds no frame has been complete. Bytes that are no frame
do not keep a connection, and frames that come in often enough do. This needs a `reset()` that
empties the input buffer and a timer that expires after the time set. -/
theorem quiet_line_reset (io : DasIO) (serio : SerioLib) (lib : SocketLib)
    (hset : ∀ secs msecs t now,
      lib.expired now (lib.set secs msecs t) = true ↔ t+(1000*secs+msecs) ≤ now)
    (hreset : ∀ ibuf, lib.resetIbuf ibuf = InputBuffer.empty) (sys : NephexSystem out)
    (hsys : sys.rcvr = .new) (es : List (TimedEvent out)) (w : TimedRcvr lib out)
    (hfit : Run.Along (step io serio) Fits (new lib sys) es)
    (hw : Run.run (step io serio) (new lib sys) es = some w) :
    w.sys.logged = (Line.after es).earlier ++ frames (Line.after es).stream ∧
    (w.isConnected = true ∧ (w.step io serio .protocolTimeout).isSome ↔
      (Line.after es).up = true ∧ inputTimeout ≤ (Line.after es).quiet) := by
  have h : Follows (Line.after es) w := by
    refine Run.run_keeps (step io serio) Fits (fun es w => Follows (Line.after es) w) ?_ [] _ w es
      (follows_new sys hsys) hfit hw
    intro h s e s' hs hfit hstep
    rw [Line.after_concat]
    exact step_follows io serio hreset _ s s' e hs hfit hstep
  refine ⟨h.logged_eq, ?_⟩
  have hle := h.quiet_le
  rw [h.connected_eq, step, Option.isSome_ite]
  refine and_congr_right fun hup => ?_
  rw [h.timer_eq hup, hset, inputTimeout]
  omega

/-- A frame that is cut in two by the end of a connection is no frame, and does not keep the
next connection. -/
def cutRun : List (TimedEvent .direct) :=
  [.connected,.input (.read [0xaa,0xaa,1,0]),.processEof,
    .connected,.elapse 4000,.input (.read [0,0,0,0,0x55]),.elapse 1000]

theorem quiet_line_reset_cut : ∃ w : TimedRcvr .deadline .direct,
    Run.run (step DasIO.keeping SerioLib.packed) (new .deadline NephexSystem.bare) cutRun = some w ∧
    w.isConnected = true ∧ (w.step DasIO.keeping SerioLib.packed .protocolTimeout).isSome ∧
    w.sys.logged = [] := by
  have hfirst : frames [0xaa,0xaa,1,0] = [] := by rw [frames, frameScanner.scan_none rfl]
  have hsecond : frames [0,0,0,0,0x55] = [] := by
    rw [frames, ← List.append_nil [0,0,0,0,0x55], scan_skip [0,0,0,0,0x55] [] (by decide)]
    exact frames_nil
  have hfit1 : NephexSystem.bare.Fits (.read [0xaa,0xaa,1,0]) := by
    rw [NephexSystem.Fits]
    decide
  obtain ⟨sys1, hsys1, -, -⟩ := NephexSystem.read_spec DasIO.keeping SerioLib.packed
    NephexSystem.bare [] [0xaa,0xaa,1,0] rfl hfit1
  have hfit2 : (sys1.setIbuf InputBuffer.empty).Fits (.read [0,0,0,0,0x55]) :=
    (by decide : InputBuffer.empty.nc+[0,0,0,0,0x55].length < rcvrBufsize)
  obtain ⟨sys2, hsys2, -, -⟩ := NephexSystem.read_spec DasIO.keeping SerioLib.packed
    (sys1.setIbuf InputBuffer.empty) [] [0,0,0,0,0x55] rfl hfit2
  -- The run, with what the two reads have left of the receiver.
  obtain ⟨w2, h2, hconn2, hstate2⟩ : ∃ w2 : TimedRcvr .deadline .direct,
      (new .deadline NephexSystem.bare).connected.step DasIO.keeping SerioLib.packed
        (.input (.read [0xaa,0xaa,1,0])) = some w2 ∧ w2.isConnected = true ∧ w2.sys = sys1 :=
    ⟨_, congrArg (Option.map _) hsys1, rfl, rfl⟩
  let w5 : TimedRcvr .deadline .direct :=
    {w2.reset.connected with now := w2.reset.connected.now+4000}
  have hfit5 : w5.sys.Fits (.read [0,0,0,0,0x55]) := by
    change (w2.sys.setIbuf InputBuffer.empty).Fits _
    rw [hstate2]
    exact hfit2
  obtain ⟨w6, h6⟩ : ∃ w6,
      w5.step DasIO.keeping SerioLib.packed (.input (.read [0,0,0,0,0x55])) = some w6 := by
    refine ⟨_, congrArg (Option.map _) (?_ : _ = some sys2)⟩
    change (w2.sys.setIbuf InputBuffer.empty).step _ _ _ = _
    rw [hstate2]
    exact hsys2
  let w7 : TimedRcvr .deadline .direct := {w6 with now := w6.now+1000}
  have h1 : (new .deadline NephexSystem.bare).step DasIO.keeping SerioLib.packed .connected =
      some (new .deadline NephexSystem.bare : TimedRcvr .deadline .direct).connected := rfl
  have h3 : w2.step DasIO.keeping SerioLib.packed .processEof = some w2.reset := if_pos hconn2
  have h4 : w2.reset.step DasIO.keeping SerioLib.packed .connected = some w2.reset.connected := rfl
  have h5 : w2.reset.connected.step DasIO.keeping SerioLib.packed (.elapse 4000) = some w5 := rfl
  have h7 : w6.step DasIO.keeping SerioLib.packed (.elapse 1000) = some w7 := rfl
  have hrun : Run.run (step DasIO.keeping SerioLib.packed) (new .deadline NephexSystem.bare)
      cutRun = some w7 := by
    rw [cutRun, Run.run_cons_of_step _ h1, Run.run_cons_of_step _ h2, Run.run_cons_of_step _ h3,
      Run.run_cons_of_step _ h4, Run.run_cons_of_step _ h5, Run.run_cons_of_step _ h6,
      Run.run_cons_of_step _ h7]
    rfl
  have hall : Run.Along (step DasIO.keeping SerioLib.packed) Fits
      (new .deadline NephexSystem.bare) cutRun := by
    rw [cutRun, Run.along_cons_of_step _ h1, Run.along_cons_of_step _ h2,
      Run.along_cons_of_step _ h3, Run.along_cons_of_step _ h4, Run.along_cons_of_step _ h5,
      Run.along_cons_of_step _ h6, Run.along_cons_of_step _ h7]
    exact ⟨trivial, hfit1, trivial, trivial, trivial, hfit5, trivial, trivial⟩
  obtain ⟨hlog, htimeout⟩ := quiet_line_reset DasIO.keeping SerioLib.packed .deadline
    (fun secs msecs t now => decide_eq_true_iff (p := t+(1000*secs+msecs) ≤ now)) (fun _ => rfl)
    NephexSystem.bare rfl cutRun w7 hall hrun
  have hline : Line.after cutRun = ⟨true,[],[0,0,0,0,0x55],5000⟩ := by
    simp only [Line.after, cutRun, List.foldl_cons, List.foldl_nil, Line.step, Line.new,
      List.nil_append, List.append_nil, hfirst, hsecond, frames_nil, if_true]
  rw [hline] at hlog htimeout
  obtain ⟨hconn, hsome⟩ := htimeout.mpr ⟨rfl, Nat.le_refl _⟩
  refine ⟨w7, hrun, hconn, hsome, ?_⟩
  rw [hlog, hsecond]
  rfl

end TimedRcvr
end Cosmid.Nephex
