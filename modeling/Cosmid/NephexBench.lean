import Cosmid.NephexReplay
import Cosmid.NephexThinning
import Cosmid.NephexTurns

/-! The emulator in the place of the instrument: what it forwards to its client arrives at
the exporter's receiver whole and in order, whatever its file contains. -/
namespace Cosmid.Nephex

/-- A frame at the front of `u`. -/
theorem isFrame_take (u : List UInt8) (hfirst : u.getD 0 0 = 0xaa) (hsecond : u.getD 1 0 = 0xaa)
    (hlen : word u 6+9 ≤ u.length) : IsFrame (u.take (word u 6+9)) := by
  have hsplit := List.take_append_drop (word u 6+9) u
  have htake : (u.take (word u 6+9)).length = word u 6+9 := List.length_take_of_le hlen
  have hget (i : ℕ) (hi : i < word u 6+9) : (u.take (word u 6+9)).getD i 0 = u.getD i 0 := by
    rw [← getD_append _ (u.drop (word u 6+9)) i (by omega), hsplit]
  refine ⟨?_, ?_, ?_⟩
  · rw [hget 0 (by omega), hfirst]
  · rw [hget 1 (by omega), hsecond]
  · have hword := word_append (u.take (word u 6+9)) (u.drop (word u 6+9)) 6 (by omega)
    rw [hsplit] at hword
    omega

/-- The size of the buffer of `NE_ingest`. -/
def ingestBufsize : ℕ := 1000

namespace NEIngest

/-- A turn forwards a frame or nothing, whatever is in the buffer. -/
theorem loopBody_forwards (io : DasIO) (due : Bool) (s s' : NEIngest) (turn : Turn)
    (hnc : s.ibuf.nc ≤ ingestBufsize) (h : s.loopBody io due = some (s', turn)) :
    ∃ pkts, s'.forwarded = s.forwarded ++ pkts ∧ ∀ f ∈ pkts, IsFrame f := by
  have hnone (b : InputBuffer) : ∃ pkts, (s.setIbuf b).forwarded = s.forwarded ++ pkts ∧
      ∀ f ∈ pkts, IsFrame f := ⟨[], (List.append_nil _).symm, fun f hf => by cases hf⟩
  rcases io.notFound_cases 0xaa s.ibuf with ⟨-, hm⟩ | ⟨pre, post, hsplit, -, hm⟩
  · rw [loopBody, hm] at h
    cases h
    exact hnone _
  · -- The search stops at `u`, `q` bytes behind the front of the buffer.
    have hdrop : s.ibuf.buf.drop (s.ibuf.cp+pre.length) = 0xaa :: post := by
      rw [← List.drop_drop, show s.ibuf.buf.drop s.ibuf.cp = _ from hsplit, List.drop_left]
    rw [← Nat.add_assoc] at hm
    rw [loopBody, hm] at h
    dsimp only at h
    generalize s.ibuf.cp+pre.length = q at *
    have hget (i : ℕ) : s.ibuf.buf.getD (q+i) 0 = (0xaa :: post).getD i 0 := by
      rw [← hdrop]
      exact InputBuffer.getD_unread ⟨s.ibuf.buf,q⟩ i
    have hword : word s.ibuf.buf (q+6) = word (0xaa :: post) 6 := by
      rw [← hdrop]
      exact word_unread ⟨s.ibuf.buf,q⟩ 6
    have hulen := congrArg List.length hdrop
    rw [List.length_drop] at hulen
    have hncdef : s.ibuf.nc = s.ibuf.buf.length := rfl
    have hpos : word s.ibuf.buf (q+1+1+4) = word s.ibuf.buf (q+6) := rfl
    rw [InputBuffer.nc_mk, hpos, hword] at h
    split_ifs at h with hsync hhdr hdata
    · cases h
      exact hnone _
    · cases h
      exact hnone _
    · cases h
      exact hnone _
    · simp only [replayFrame, Option.map_eq_some_iff] at h
      obtain ⟨time, -, h⟩ := h
      split_ifs at h with hdue
      · cases h
        have hframe : IsFrame ((0xaa :: post).take (word (0xaa :: post) 6+9)) := by
          refine isFrame_take _ rfl ?_ (by omega)
          rw [← hget 1]
          by_contra hne
          exact hsync ⟨by omega, hne⟩
        have hlen : word (0xaa :: post) 6+9 < 65536 := by
          unfold ingestBufsize at hnc
          omega
        refine ⟨[(0xaa :: post).take (word (0xaa :: post) 6+9)], ?_, by simpa using hframe⟩
        have hq : q+1+1+6-8 = q := by omega
        simp only [setIbuf, hq, hdrop, u16, Nat.mod_eq_of_lt hlen]
      · cases h
        exact ⟨[], (List.append_nil _).symm, fun f hf => by cases hf⟩

/-- So does a call. -/
theorem protocolInputLoop_forwards (io : DasIO) (due : ℕ → Bool) (s s' : NEIngest)
    (hnc : s.ibuf.nc ≤ ingestBufsize) (h : s.protocolInputLoop io due = some s') :
    ∃ pkts, s'.forwarded = s.forwarded ++ pkts ∧ ∀ f ∈ pkts, IsFrame f := by
  induction due, s using call_induction io with
  | hend due s hnil =>
    rw [protocolInputLoop_end io due s hnil] at h
    cases h
    exact ⟨[], (List.append_nil _).symm, fun f hf => by cases hf⟩
  | hturn due s hne ih =>
    rw [protocolInputLoop_turn io due s hne] at h
    obtain ⟨⟨t, turn⟩, hbody, h⟩ := Option.bind_eq_some_iff.mp h
    obtain ⟨pkts, hpkts, hframes⟩ := loopBody_forwards io (due 0) s t turn hnc hbody
    cases turn with
    | again =>
      obtain ⟨htnc, -⟩ := loopBody_again io (due 0) s t hbody
      obtain ⟨pkts', hpkts', hframes'⟩ := ih t hbody (by rw [htnc]; exact hnc) h
      refine ⟨pkts ++ pkts', ?_, List.forall_mem_append.mpr ⟨hframes, hframes'⟩⟩
      rw [hpkts', hpkts, List.append_assoc]
    | leave =>
      cases h
      exact ⟨pkts, hpkts, hframes⟩
    | giveUp =>
      cases h
      exact ⟨pkts, hpkts, hframes⟩

end NEIngest

/-- `nephex_tcp`: its output side and the packets it has written. -/
structure NephexTcp (emu : OutputSocket) where
  sock : emu.State
  iwrites : List (List UInt8)

namespace NephexTcp

variable {emu : OutputSocket}

/-- True if the output buffer is in use. `NE_ingest` does not look at the result, and
does not offer the packet again. -/
def forwardPacket (t : NephexTcp emu) (pkt : List UInt8) : Bool × NephexTcp emu :=
  if emu.obufEmpty t.sock then
    (false, {t with sock := emu.iwrite pkt t.sock, iwrites := t.iwrites ++ [pkt]})
  else (true, t)

/-- The packets of one call of `NE_ingest::protocol_input`. -/
def forwardAll (t : NephexTcp emu) (pkts : List (List UInt8)) : NephexTcp emu :=
  pkts.foldl (fun t pkt => (t.forwardPacket pkt).2) t

theorem forwardAll_iwrites (t : NephexTcp emu) (pkts : List (List UInt8)) :
    ∃ sent, sent.Sublist pkts ∧ (t.forwardAll pkts).iwrites = t.iwrites ++ sent := by
  induction pkts generalizing t with
  | nil => exact ⟨[], List.Sublist.slnil, (List.append_nil _).symm⟩
  | cons pkt pkts ih =>
    obtain ⟨sent, hsub, heq⟩ := ih (t.forwardPacket pkt).2
    by_cases hempty : emu.obufEmpty t.sock = true
    · refine ⟨pkt :: sent, hsub.cons_cons pkt, heq.trans ?_⟩
      rw [forwardPacket, if_pos hempty]
      exact List.append_assoc t.iwrites [pkt] sent
    · refine ⟨sent, hsub.cons pkt, heq.trans ?_⟩
      rw [forwardPacket, if_neg hempty]

end NephexTcp

/-- The emulator, the connection and the exporter. `wire` is what has been written and not
yet read; `before` and `earlier` are the packets written and the frames logged on the
connections before this one. -/
structure Bench (emu out : OutputSocket) where
  ingest : NEIngest
  tcp : NephexTcp emu
  connected : Bool
  wire : List UInt8
  sys : NephexSystem out
  before : List (List UInt8)
  earlier : List (List UInt8)

/-- A connection, its loss, a call of `NE_ingest::protocol_input` with what is read from
the file for it, a read of the receiver, and what happens at the output sides. -/
inductive BenchEvent (emu out : OutputSocket)
  | connect (sock : emu.State)
  | lose
  | ingest (bytes : List UInt8) (due : ℕ → Bool)
  | deliver (n : ℕ)
  | emuSocket (sock : emu.State)
  | ack (length : ℕ)
  | exportSocket (sock : out.State)

namespace Bench

variable {emu out : OutputSocket}

def start (lastSecs lastMsecs : ℕ) (sock : emu.State) (sys : NephexSystem out) : Bench emu out :=
  ⟨.new lastSecs lastMsecs,⟨sock,[]⟩,false,[],sys,[],[]⟩

/-- Every connection has a `nephex_tcp` object of its own. -/
def connect (b : Bench emu out) (sock : emu.State) : Bench emu out :=
  {b with
    ingest := (b.ingest.setClient 0).2
    tcp := ⟨sock,[]⟩
    connected := true
    wire := []
    before := b.before ++ b.tcp.iwrites
    earlier := b.sys.logged}

/-- `~nephex_tcp` at one end and `process_eof` at the other. `reset` is what the library's
function of this name does to the input buffer. What is on its way is lost. -/
def lose (reset : InputBuffer → InputBuffer) (b : Bench emu out) : Bench emu out :=
  {b with
    ingest := b.ingest.resetClient
    connected := false
    wire := []
    sys := b.sys.setIbuf (reset b.sys.rcvr.ibuf)}

/-- The call of `forward_packet` for each packet follows the loop of `NE_ingest` here; the
loop does not depend on it. -/
def ingestCall (io : DasIO) (b : Bench emu out) (bytes : List UInt8) (due : ℕ → Bool) :
    Option (Bench emu out) :=
  (b.ingest.protocolInput io bytes due).map fun ingest =>
    let tcp := b.tcp.forwardAll (ingest.forwarded.drop b.ingest.forwarded.length)
    {b with
      ingest := ingest
      tcp := tcp
      wire := b.wire ++ (tcp.iwrites.drop b.tcp.iwrites.length).flatten}

/-- The file is read while `Fl_Read` is set. -/
def step (io : DasIO) (serio : SerioLib) (reset : InputBuffer → InputBuffer)
    (b : Bench emu out) : BenchEvent emu out → Option (Bench emu out)
  | .connect sock => if b.connected then none else some (b.connect sock)
  | .lose => some (b.lose reset)
  | .ingest bytes due => if b.ingest.flRead then b.ingestCall io bytes due else some b
  | .deliver n =>
    if b.connected then
      (b.sys.protocolInput io serio (b.wire.take n)).map fun sys =>
        {b with sys := sys, wire := b.wire.drop n}
    else none
  | .emuSocket sock => some {b with tcp := {b.tcp with sock := sock}}
  | .ack length => some {b with sys := {b.sys with exp := b.sys.exp.appInputAck length}}
  | .exportSocket sock =>
    some {b with sys := {b.sys with exp := {b.sys.exp with sock := sock}}}

/-- What is read fits behind what is in the buffers. -/
def Fits (b : Bench emu out) : BenchEvent emu out → Prop
  | .ingest bytes _ => b.ingest.ibuf.nc+bytes.length ≤ ingestBufsize
  | .deliver n => b.sys.Fits (.read (b.wire.take n))
  | _ => True

/-- The invariant. On the connection, `done` of the packets written have been logged, and
what is in the receiver's buffer and on the way are the others. -/
structure Carried (serio : SerioLib) (done rest : List (List UInt8)) (b : Bench emu out) :
    Prop where
  frames : ∀ f ∈ b.ingest.forwarded, IsFrame f
  written : (b.before ++ b.tcp.iwrites).Sublist b.ingest.forwarded
  earlier : b.earlier.Sublist b.before
  logged_eq : b.sys.logged = b.earlier ++ done
  iwrites_eq : b.tcp.iwrites = done ++ rest
  wire_eq : b.connected = true → b.sys.rcvr.ibuf.buf ++ b.wire = rest.flatten
  idle : b.connected = false → b.ingest.flRead = false ∧ b.sys.rcvr.ibuf.buf = []
  ibuf_cp : b.sys.rcvr.ibuf.cp = 0
  ibuf_frames : Nephex.frames b.sys.rcvr.ibuf.buf = []
  offered_sublist : b.sys.offered.Sublist b.sys.logged
  thinned : NephexSystem.Thinned serio b.sys

/-- What a scan leaves holds no frame. -/
theorem frames_leftover (u : List UInt8) : Nephex.frames (leftover u) = [] := by
  have h := frames_append u []
  rw [List.append_nil, List.append_nil] at h
  exact List.append_cancel_left ((List.append_nil _).trans h).symm

theorem carried_start (serio : SerioLib) (lastSecs lastMsecs : ℕ) (sock : emu.State)
    (sys : NephexSystem out) (h : sys.Started) (hexp : sys.exp.iwrites = []) :
    Carried serio [] [] (start lastSecs lastMsecs sock sys) where
  frames := by simp [start, NEIngest.new]
  written := List.Sublist.slnil
  earlier := List.Sublist.slnil
  logged_eq := NephexSystem.logged_new sys h.rcvr_eq
  iwrites_eq := rfl
  wire_eq hconn := by cases hconn
  idle _ := ⟨rfl, by rw [start, h.rcvr_eq]; rfl⟩
  ibuf_cp := by rw [start, h.rcvr_eq]; rfl
  ibuf_frames := by
    rw [start, h.rcvr_eq]
    exact frames_nil
  offered_sublist := by
    rw [start, NephexSystem.offered_new sys h.rcvr_eq]
    exact List.nil_sublist _
  thinned := NephexSystem.thinned_started serio sys h hexp

/-- A new connection starts with nothing on its way. -/
theorem Carried.connect {serio : SerioLib} {done rest : List (List UInt8)}
    {b : Bench emu out} (h : Carried serio done rest b) (hconn : b.connected = false)
    (sock : emu.State) : Carried serio [] [] (b.connect sock) := by
  have hset : (b.ingest.setClient 0).2.forwarded = b.ingest.forwarded := by
    unfold NEIngest.setClient
    split <;> rfl
  refine ⟨?_, ?_, ?_, ?_, rfl, ?_, ?_, h.ibuf_cp, h.ibuf_frames, h.offered_sublist, ?_⟩
  · rw [Bench.connect, hset]
    exact h.frames
  · rw [Bench.connect, hset, List.append_nil]
    exact h.written
  · change b.sys.logged.Sublist (b.before ++ b.tcp.iwrites)
    rw [h.logged_eq, h.iwrites_eq]
    exact h.earlier.append (List.sublist_append_left done rest)
  · exact (List.append_nil _).symm
  · intro _
    exact (List.append_nil _).trans (h.idle hconn).2
  · intro hfalse
    cases hfalse
  · exact ⟨h.thinned.counted, h.thinned.iwrites_eq⟩

theorem Carried.lose {serio : SerioLib} {done rest : List (List UInt8)} {b : Bench emu out}
    (h : Carried serio done rest b) (reset : InputBuffer → InputBuffer)
    (hreset : ∀ ibuf, reset ibuf = InputBuffer.empty) : Carried serio done rest (b.lose reset) := by
  rw [Bench.lose, hreset]
  refine ⟨h.frames, h.written, h.earlier, h.logged_eq, h.iwrites_eq, ?_, ?_, rfl, frames_nil,
    h.offered_sublist, ?_⟩
  · intro hfalse
    cases hfalse
  · exact fun _ => ⟨rfl, rfl⟩
  · exact ⟨h.thinned.counted, h.thinned.iwrites_eq⟩

/-- What the emulator writes goes behind what is on its way. -/
theorem Carried.ingestCall {io : DasIO} {serio : SerioLib} {done rest : List (List UInt8)}
    {b b' : Bench emu out} (h : Carried serio done rest b) {bytes : List UInt8}
    {due : ℕ → Bool} (hread : b.ingest.flRead = true)
    (hfit : b.Fits (.ingest bytes due)) (hb : b.ingestCall io bytes due = some b') :
    ∃ sent, Carried serio done (rest ++ sent) b' := by
  simp only [Bench.ingestCall, Option.map_eq_some_iff] at hb
  obtain ⟨ingest, hingest, rfl⟩ := hb
  -- The file is read for a client only.
  have hconn : b.connected = true := by
    by_contra hfalse
    have hidle := (h.idle (Bool.eq_false_iff.mpr hfalse)).1
    rw [hread] at hidle
    cases hidle
  have hnc : (b.ingest.setIbuf (io.read b.ingest.ibuf bytes)).ibuf.nc ≤ ingestBufsize := by
    change (b.ingest.ibuf.buf ++ bytes).length ≤ ingestBufsize
    rw [List.length_append]
    exact hfit
  obtain ⟨pkts, hpkts, hframes⟩ :=
    NEIngest.protocolInputLoop_forwards io due _ ingest hnc hingest
  obtain ⟨-, hflRead⟩ := NEIngest.protocolInputLoop_client io due _ ingest hingest
  have hpkts' : ingest.forwarded = b.ingest.forwarded ++ pkts := hpkts
  have hdrop : ingest.forwarded.drop b.ingest.forwarded.length = pkts := by
    rw [hpkts', List.drop_left]
  obtain ⟨sent, hsent, htcp⟩ := b.tcp.forwardAll_iwrites pkts
  rw [hdrop, htcp, List.drop_left]
  refine ⟨sent, ?_, ?_, h.earlier, h.logged_eq, ?_, ?_, ?_, h.ibuf_cp, h.ibuf_frames,
    h.offered_sublist, h.thinned⟩
  · rw [hpkts', List.forall_mem_append]
    exact ⟨h.frames, hframes⟩
  · dsimp only
    rw [htcp, hpkts', ← List.append_assoc]
    exact h.written.append hsent
  · dsimp only
    rw [htcp, h.iwrites_eq, List.append_assoc]
  · intro _
    dsimp only
    rw [← List.append_assoc, h.wire_eq hconn, List.flatten_append]
  · intro hfalse
    exact absurd hconn (Bool.eq_false_iff.mp hfalse)

/-- A read takes the next frames of what is on its way. -/
theorem Carried.deliver {serio : SerioLib} {done rest : List (List UInt8)}
    {b : Bench emu out} (h : Carried serio done rest b) (io : DasIO)
    (reset : InputBuffer → InputBuffer) {n : ℕ} (hconn : b.connected = true)
    (hfit : b.Fits (.deliver n)) :
    ∃ b' took rest', b.step io serio reset (.deliver n) = some b' ∧ rest = took ++ rest' ∧
      Carried serio (done ++ took) rest' b' := by
  obtain ⟨sys, more, hsys, hib, hpass⟩ := NephexSystem.protocolInput_passing io serio b.sys
    (b.wire.take n) h.ibuf_cp h.thinned hfit
  have hwire : (b.sys.rcvr.ibuf.buf ++ b.wire.take n) ++ b.wire.drop n = rest.flatten := by
    rw [List.append_assoc, List.take_append_drop]
    exact h.wire_eq hconn
  have hrest : ∀ f ∈ rest, IsFrame f := by
    intro f hf
    refine h.frames f (h.written.subset (List.mem_append_right _ ?_))
    rw [h.iwrites_eq]
    exact List.mem_append_right _ hf
  -- The read ends between two frames of `rest`, or inside one, which stays in the buffer.
  obtain ⟨⟨rest', rfl⟩, hsplit, -⟩ := front_of_isPrefix (b.sys.rcvr.ibuf.buf ++ b.wire.take n) rest
    hrest ⟨_, hwire⟩
  generalize b.sys.rcvr.ibuf.buf ++ b.wire.take n = u at *
  refine ⟨{b with sys := sys, wire := b.wire.drop n}, Nephex.frames u, rest', ?_, rfl,
    h.frames, h.written, h.earlier, ?_, ?_, ?_, ?_, ?_, ?_, ?_, hpass.thinned⟩
  · rw [step, if_pos hconn, hsys]
    rfl
  · rw [hpass.logged_eq, h.logged_eq, List.append_assoc]
  · rw [List.append_assoc]
    exact h.iwrites_eq
  · intro _
    rw [hib]
    have hall : (Nephex.frames u).flatten ++ (leftover u ++ b.wire.drop n) =
        (Nephex.frames u).flatten ++ rest'.flatten := by
      rw [← List.flatten_append, ← hwire, ← List.append_assoc, ← hsplit]
    exact List.append_cancel_left hall
  · intro hfalse
    exact absurd hconn (Bool.eq_false_iff.mp hfalse)
  · rw [hib]
  · rw [hib]
    exact frames_leftover u
  · rw [hpass.logged_eq, hpass.offered_eq]
    exact h.offered_sublist.append hpass.more_sublist

/-- There are frames taken and on their way as the invariant says. -/
def Inv (serio : SerioLib) (b : Bench emu out) : Prop := ∃ done rest, Carried serio done rest b

section Reset

variable (io : DasIO) (serio : SerioLib) (reset : InputBuffer → InputBuffer)
  (hreset : ∀ ibuf, reset ibuf = InputBuffer.empty)

include hreset

theorem step_inv (b b' : Bench emu out) (e : BenchEvent emu out) (h : Inv serio b)
    (hfit : b.Fits e) (hb : b.step io serio reset e = some b') : Inv serio b' := by
  obtain ⟨done, rest, h⟩ := h
  cases e with
  | connect sock =>
    simp only [step, Option.ite_none_left_eq_some, Option.some.injEq] at hb
    obtain ⟨hconn, rfl⟩ := hb
    exact ⟨_, _, h.connect (Bool.eq_false_iff.mpr hconn) sock⟩
  | lose =>
    obtain rfl := Option.some.inj hb
    exact ⟨_, _, h.lose reset hreset⟩
  | ingest bytes due =>
    simp only [step] at hb
    split_ifs at hb with hread
    · obtain ⟨sent, h'⟩ := h.ingestCall hread hfit hb
      exact ⟨_, _, h'⟩
    · obtain rfl := Option.some.inj hb
      exact ⟨_, _, h⟩
  | deliver n =>
    have hconn : b.connected = true := by
      by_contra hfalse
      rw [step, if_neg hfalse] at hb
      cases hb
    obtain ⟨c, took, rest', hc, -, h'⟩ := h.deliver io reset hconn hfit
    obtain rfl := Option.some.inj (hc.symm.trans hb)
    exact ⟨_, _, h'⟩
  | emuSocket sock =>
    obtain rfl := Option.some.inj hb
    exact ⟨_, _, h.frames, h.written, h.earlier, h.logged_eq, h.iwrites_eq, h.wire_eq, h.idle,
      h.ibuf_cp, h.ibuf_frames, h.offered_sublist, h.thinned⟩
  | ack length =>
    obtain rfl := Option.some.inj hb
    exact ⟨_, _, h.frames, h.written, h.earlier, h.logged_eq, h.iwrites_eq, h.wire_eq, h.idle,
      h.ibuf_cp, h.ibuf_frames, h.offered_sublist, h.thinned.counted, h.thinned.iwrites_eq⟩
  | exportSocket sock =>
    obtain rfl := Option.some.inj hb
    exact ⟨_, _, h.frames, h.written, h.earlier, h.logged_eq, h.iwrites_eq, h.wire_eq, h.idle,
      h.ibuf_cp, h.ibuf_frames, h.offered_sublist, h.thinned.counted, h.thinned.iwrites_eq⟩

theorem run_inv (b b' : Bench emu out) (es : List (BenchEvent emu out)) (h : Inv serio b)
    (hfit : Run.Along (step io serio reset) Fits b es)
    (hb : Run.run (step io serio reset) b es = some b') : Inv serio b' :=
  Run.run_keeps (step io serio reset) Fits (fun _ => Inv serio)
    (fun _ b e b' h hfit hb => step_inv io serio reset hreset b b' e h hfit hb) [] b b' es h hfit hb

end Reset

/-- What the invariant says of a connection with nothing on its way. -/
theorem Carried.quiet {serio : SerioLib} {done rest : List (List UInt8)}
    {b : Bench emu out} (h : Carried serio done rest b) (hconn : b.connected = true)
    (hwire : b.wire = []) : rest = [] ∧ b.sys.rcvr.ibuf.buf = [] := by
  -- What is in the buffer is then whole frames, but a scan leaves none there.
  have hbuf := h.wire_eq hconn
  rw [hwire, List.append_nil] at hbuf
  have hrest : ∀ f ∈ rest, IsFrame f := by
    intro f hf
    refine h.frames f (h.written.subset (List.mem_append_right _ ?_))
    rw [h.iwrites_eq]
    exact List.mem_append_right _ hf
  have hnone := h.ibuf_frames
  rw [hbuf, Nephex.frames, scan_flatten_frames rest hrest] at hnone
  obtain rfl : rest = [] := hnone
  exact ⟨rfl, hbuf⟩

/-- Whatever the emulator's file contains, it writes frames only, and the exporter's receiver
logs those of each connection in order and whole: all of them as soon as nothing is on its
way, and a first part of them if the connection breaks. Nothing else is logged, and to
tm_ip_export goes what the thinning keeps of the logged frames that have found it clear to
send. All this needs a `reset` that empties the input buffer. -/
theorem bench_transparent (io : DasIO) (serio : SerioLib) (reset : InputBuffer → InputBuffer)
    (hreset : ∀ ibuf, reset ibuf = InputBuffer.empty) (lastSecs lastMsecs : ℕ)
    (sock : emu.State) (sys : NephexSystem out) (hsys : sys.Started) (hexp : sys.exp.iwrites = [])
    (es : List (BenchEvent emu out)) (b : Bench emu out)
    (hfit : Run.Along (step io serio reset) Fits (start lastSecs lastMsecs sock sys) es)
    (hb : Run.run (step io serio reset) (start lastSecs lastMsecs sock sys) es = some b) :
    (∀ f ∈ b.ingest.forwarded, IsFrame f) ∧
    (b.before ++ b.tcp.iwrites).Sublist b.ingest.forwarded ∧
    b.sys.logged.Sublist (b.before ++ b.tcp.iwrites) ∧
    (∃ done, b.sys.logged = b.earlier ++ done ∧ done <+: b.tcp.iwrites ∧
      (b.connected = true → b.wire = [] →
        done = b.tcp.iwrites ∧ b.sys.rcvr.ibuf.unread = [])) ∧
    b.sys.offered.Sublist b.sys.logged ∧
    b.sys.exp.iwrites = (byApid.kept b.sys.offered).map (nphPacket serio) := by
  obtain ⟨done, rest, h⟩ := run_inv io serio reset hreset _ b es
    ⟨_, _, carried_start serio lastSecs lastMsecs sock sys hsys hexp⟩ hfit hb
  refine ⟨h.frames, h.written, ?_, ⟨done, h.logged_eq, ⟨rest, h.iwrites_eq.symm⟩, ?_⟩,
    h.offered_sublist, h.thinned.iwrites_eq⟩
  · rw [h.logged_eq, h.iwrites_eq]
    exact h.earlier.append (List.sublist_append_left done rest)
  · intro hconn hwire
    obtain ⟨rfl, hbuf⟩ := h.quiet hconn hwire
    rw [h.iwrites_eq, List.append_nil, InputBuffer.unread, hbuf]
    exact ⟨rfl, List.drop_nil⟩

/-- A call that reads one frame for a client that is new. -/
theorem step_ingest_short (reset : InputBuffer → InputBuffer) (b : Bench .direct .direct)
    (hibuf : b.ingest.ibuf = InputBuffer.empty) (hread : b.ingest.flRead = true)
    (hclient : b.ingest.client.isSome = true) (htime : b.ingest.time.toSet = false) :
    ∃ ingest : NEIngest, ingest.ibuf = InputBuffer.empty ∧
      b.step .keeping .packed reset (.ingest (Replay.shortFrame 0) fun _ => true) =
        some {b with
          ingest := ingest
          tcp := {b.tcp with iwrites := b.tcp.iwrites ++ [Replay.shortFrame 0]}
          wire := b.wire ++ Replay.shortFrame 0} := by
  have hunread : (b.ingest.setIbuf ( DasIO.keeping.read b.ingest.ibuf
      (Replay.shortFrame 0))).ibuf.unread = [Replay.shortFrame 0].flatten ++ [] := by
    rw [hibuf]
    rfl
  have hsteady : Steady b.ingest.time (fun _ => true) [Replay.shortFrame 0] := by
    generalize b.ingest.time = time at *
    cases time
    cases htime
    exact ⟨_, rfl, fun _ => trivial⟩
  obtain ⟨ingest, done, kept, hingest, -, hsplit, hforwarded, hcases⟩ :=
    NEIngest.protocolInputLoop_steady .keeping (fun _ => true) _ [Replay.shortFrame 0] []
      (by simpa using Replay.shortFrame_replayable 0) hunread (Or.inl rfl) hclient hsteady
  obtain ⟨rfl, hempty⟩ : kept = [] ∧ ingest.ibuf = InputBuffer.empty := by
    rcases hcases with ⟨-, hdue, -⟩ | ⟨hkept, -, hempty⟩ | ⟨-, -, htail, -⟩
    · cases hdue
    · exact ⟨hkept, hempty⟩
    · exact absurd rfl htail
  rw [List.append_nil] at hsplit
  obtain rfl := hsplit
  have hdrop : ingest.forwarded.drop b.ingest.forwarded.length = [Replay.shortFrame 0] := by
    rw [hforwarded]
    exact List.drop_left
  refine ⟨ingest, hempty, ?_⟩
  rw [step, if_pos hread, ingestCall, NEIngest.protocolInput, hingest, Option.map_some, hdrop]
  have hiwrites : b.tcp.forwardAll [Replay.shortFrame 0] =
      {b.tcp with iwrites := b.tcp.iwrites ++ [Replay.shortFrame 0]} := rfl
  rw [hiwrites]
  dsimp only
  rw [List.drop_left, List.flatten_singleton]

/-- The connection breaks in the middle of a frame, and the next one is read in whole. -/
def brokenRun : List (BenchEvent .direct .direct) :=
  [.connect (), .ingest (Replay.shortFrame 0) (fun _ => true), .deliver 8, .lose,
    .connect (), .ingest (Replay.shortFrame 0) (fun _ => true), .deliver 14]

theorem bench_transparent_broken : ∃ (sys : NephexSystem .direct) (b : Bench .direct .direct),
    sys.Started ∧ Run.run (step .keeping .packed fun _ => InputBuffer.empty)
      (start 0 0 () sys) brokenRun = some b ∧
    b.before = [Replay.shortFrame 0] ∧ b.tcp.iwrites = [Replay.shortFrame 0] ∧
    b.sys.logged = [Replay.shortFrame 0] := by
  obtain ⟨t, ht, -⟩ := APid.new_isSome fun _ => ⟨0,0,0,0⟩
  have hstart : NephexSystem.Started (⟨.new,t,.new ()⟩ : NephexSystem .direct) := ⟨rfl, _, ht⟩
  generalize hsys : (⟨.new,t,.new ()⟩ : NephexSystem .direct) = sys at hstart
  have hexp : sys.exp.iwrites = [] := by rw [← hsys]; rfl
  have hibuf : sys.rcvr.ibuf = InputBuffer.empty := by rw [hstart.rcvr_eq]; rfl
  let f := Replay.shortFrame 0
  let reset : InputBuffer → InputBuffer := fun _ => InputBuffer.empty
  -- Up to the break: eight bytes of the frame have come in.
  let b1 : Bench .direct .direct := (start 0 0 () sys).connect ()
  obtain ⟨i1, hi1, h2⟩ := step_ingest_short reset b1 rfl rfl rfl rfl
  have hfit1 : sys.Fits (.read (f.take 8)) := by
    rw [NephexSystem.Fits, hibuf]
    decide
  obtain ⟨sys1, more1, hsys1, -, hpass1⟩ := NephexSystem.protocolInput_passing .keeping .packed sys
    (f.take 8) (by rw [hibuf]; rfl) (NephexSystem.thinned_started .packed sys hstart hexp) hfit1
  let b2 : Bench .direct .direct := {b1 with
    ingest := i1
    tcp := {b1.tcp with iwrites := [f]}
    wire := f}
  let b3 : Bench .direct .direct := {b2 with sys := sys1, wire := f.drop 8}
  -- The new connection.
  let b5 : Bench .direct .direct := (b3.lose reset).connect ()
  obtain ⟨i2, hi2, h6⟩ := step_ingest_short reset b5 hi1 rfl rfl rfl
  have hthin : NephexSystem.Thinned .packed b5.sys :=
    ⟨hpass1.thinned.counted, hpass1.thinned.iwrites_eq⟩
  have hfit2 : b5.sys.Fits (.read (f.take 14)) :=
    (by decide : InputBuffer.empty.nc+(f.take 14).length < rcvrBufsize)
  obtain ⟨sys2, more2, hsys2, -, hpass2⟩ := NephexSystem.protocolInput_passing .keeping .packed
    b5.sys (f.take 14) rfl hthin hfit2
  let b6 : Bench .direct .direct := {b5 with
    ingest := i2
    tcp := {b5.tcp with iwrites := [f]}
    wire := f}
  let b7 : Bench .direct .direct := {b6 with sys := sys2, wire := []}
  have h1 : step .keeping .packed reset (start 0 0 () sys) (.connect ()) = some b1 := rfl
  replace h2 : step .keeping .packed reset b1 (.ingest f fun _ => true) = some b2 := h2
  have h3 : step .keeping .packed reset b2 (.deliver 8) = some b3 :=
    congrArg (Option.map _) hsys1
  have h4 : step .keeping .packed reset b3 .lose = some (b3.lose reset) := rfl
  have h5 : step .keeping .packed reset (b3.lose reset) (.connect ()) = some b5 := rfl
  replace h6 : step .keeping .packed reset b5 (.ingest f fun _ => true) = some b6 := h6
  have h7 : step .keeping .packed reset b6 (.deliver 14) = some b7 :=
    congrArg (Option.map _) hsys2
  have hrun : Run.run (step .keeping .packed reset) (start 0 0 () sys) brokenRun = some b7 := by
    rw [brokenRun, Run.run_cons_of_step _ h1, Run.run_cons_of_step _ h2, Run.run_cons_of_step _ h3,
      Run.run_cons_of_step _ h4, Run.run_cons_of_step _ h5, Run.run_cons_of_step _ h6,
      Run.run_cons_of_step _ h7]
    rfl
  have hall : Run.Along (step .keeping .packed reset) Fits (start 0 0 () sys) brokenRun := by
    rw [brokenRun, Run.along_cons_of_step _ h1, Run.along_cons_of_step _ h2,
      Run.along_cons_of_step _ h3, Run.along_cons_of_step _ h4, Run.along_cons_of_step _ h5,
      Run.along_cons_of_step _ h6, Run.along_cons_of_step _ h7]
    have hroom : InputBuffer.empty.nc+f.length ≤ ingestBufsize := by decide
    refine ⟨trivial, hroom, hfit1, trivial, trivial, ?_, hfit2, trivial⟩
    change i1.ibuf.nc+f.length ≤ ingestBufsize
    rw [hi1]
    exact hroom
  obtain ⟨-, -, -, ⟨done, hlogged, -, hquiet⟩, -⟩ := bench_transparent .keeping .packed reset
    (fun _ => rfl) 0 0 () sys hstart hexp brokenRun b7 hall hrun
  obtain ⟨rfl, -⟩ := hquiet rfl rfl
  have hearlier : b7.earlier = [] := by
    have hnone : frames (f.take 8) = [] := by rw [frames, frameScanner.scan_none rfl]
    change sys1.logged = []
    rw [hpass1.logged_eq, NephexSystem.logged_new sys hstart.rcvr_eq, hibuf]
    exact hnone
  rw [hearlier] at hlogged
  exact ⟨sys, b7, hstart, hrun, rfl, rfl, hlogged⟩

end Bench
end Cosmid.Nephex
