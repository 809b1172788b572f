import Cosmid.NephexRcvr

/-! The nephelometer emulator (Nephex/nephex_emulator.cc): `NE_ingest` reads frames
from a file and forwards each one to its client when the time in the frame has come. -/
namespace Cosmid.Nephex

/-- Whether `TO` is set, and the time of the last frame looked at. When `TO` expires
is up to the clock. -/
structure TimeBase where
  toSet : Bool
  lastSecs : ℕ
  lastMsecs : ℕ
deriving DecidableEq

/-- The time of a frame moves the time base, but never back. A frame of a later second
whose milliseconds are 1000 or more behind fails the assertion. -/
def TimeBase.update (t : TimeBase) (pktSecs pktMsecs : ℕ) : Option TimeBase :=
  let t := if t.toSet then t else ⟨true,pktSecs,pktMsecs⟩
  if pktSecs > t.lastSecs ∨ (pktSecs = t.lastSecs ∧ pktMsecs > t.lastMsecs) then
    if pktMsecs < t.lastMsecs ∧ ¬pktMsecs+1000 > t.lastMsecs then none
    else some {t with lastSecs := pktSecs, lastMsecs := pktMsecs}
  else some t

/-- `NE_ingest`. `forwarded` are the packets it has called `client->forward_packet`
with. -/
structure NEIngest where
  ibuf : InputBuffer
  flRead : Bool
  time : TimeBase
  packetSn : ℕ
  client : Option ℕ
  forwarded : List (List UInt8)
deriving DecidableEq

/-- How a turn of the loop ends: with the next turn, with `break`, or with `return`. -/
inductive Turn
  | again
  | leave
  | giveUp
deriving DecidableEq

namespace NEIngest

/-- The constructor leaves `last_secs` and `last_msecs` as they are. -/
def new (lastSecs lastMsecs : ℕ) : NEIngest :=
  ⟨InputBuffer.empty,false,⟨false,lastSecs,lastMsecs⟩,0,none,[]⟩

def setIbuf (s : NEIngest) (ibuf : InputBuffer) : NEIngest := {s with ibuf := ibuf}

/-- True if there is a client already. -/
def setClient (s : NEIngest) (client : ℕ) : Bool × NEIngest :=
  if s.client.isSome then (true, s)
  else (false, {s with client := some client, flRead := true})

def resetClient (s : NEIngest) : NEIngest :=
  {s with time := {s.time with toSet := false}, flRead := false, client := none}

/-- A complete frame, with `cp` behind its header. -/
def replayFrame (s : NEIngest) (due : Bool) (len : ℕ) : Option (NEIngest × Turn) :=
  let b := s.ibuf
  let pktSecs := word b.buf b.cp+65536*word b.buf (b.cp+2)
  let pktMsecs := word b.buf (b.cp+4)
  (s.time.update pktSecs pktMsecs).map fun time =>
    if due ∧ s.client.isSome then
      ({s with
        ibuf := ⟨b.buf,b.cp+(len+1)⟩
        time := time
        packetSn := u32 (s.packetSn+1)
        forwarded := s.forwarded ++ [(b.buf.drop (b.cp-8)).take (u16 (len+9))]}, .again)
    else ({s with ibuf := ⟨b.buf,b.cp-8⟩, time := time}, .leave)

/-- One turn of the loop; `due` is what `TO.Expired()` says in it. Only the last exit
puts `cp` back to where the frame starts. -/
def loopBody (io : DasIO) (due : Bool) (s : NEIngest) : Option (NEIngest × Turn) :=
  match io.notFound 0xaa s.ibuf with
  | (true, b) => some (s.setIbuf b, .giveUp)
  | (false, b) =>
    if b.cp < b.nc ∧ b.buf.getD b.cp 0 ≠ 0xaa then some (s.setIbuf b, .again)
    else
      let cp := b.cp+1
      -- Here and below `return false` leaves `cp` inside the incomplete frame.
      if b.nc < cp+6 then some (s.setIbuf ⟨b.buf,cp⟩, .giveUp)
      else
        let len := word b.buf (cp+4)
        let cp := cp+6
        if b.nc < cp+len+1 then some (s.setIbuf ⟨b.buf,cp⟩, .giveUp)
        else (s.setIbuf ⟨b.buf,cp⟩).replayFrame due len

/-- `consume(cp)` behind the loop. -/
def finish (io : DasIO) (s : NEIngest) : NEIngest := s.setIbuf (io.consume s.ibuf.cp s.ibuf)

theorem replayFrame_again (s s' : NEIngest) (due : Bool) (len : ℕ)
    (h : s.replayFrame due len = some (s', .again)) :
    s'.ibuf = ⟨s.ibuf.buf,s.ibuf.cp+(len+1)⟩ := by
  simp only [replayFrame, Option.map_eq_some_iff] at h
  obtain ⟨time, -, h⟩ := h
  split_ifs at h <;> cases h
  rfl

/-- A turn after which the loop goes on has moved `cp`. -/
theorem loopBody_again (io : DasIO) (due : Bool) (s s' : NEIngest)
    (h : s.loopBody io due = some (s', .again)) :
    s'.ibuf.nc = s.ibuf.nc ∧ s.ibuf.cp < s'.ibuf.cp := by
  unfold loopBody at h
  rcases io.notFound_cases 0xaa s.ibuf with ⟨-, hm⟩ | ⟨pre, post, -, -, hm⟩
  · rw [hm] at h
    cases h
  · rw [hm] at h
    dsimp only at h
    split_ifs at h
    · cases h
      exact ⟨rfl, by dsimp only [setIbuf]; omega⟩
    · cases h
    · cases h
    · rw [replayFrame_again _ _ _ _ h]
      exact ⟨rfl, by dsimp only [setIbuf]; omega⟩

/-- Reading the file does not change who the client is. -/
theorem loopBody_client (io : DasIO) (due : Bool) (s s' : NEIngest) (t : Turn)
    (h : s.loopBody io due = some (s', t)) : s'.client = s.client ∧ s'.flRead = s.flRead := by
  unfold loopBody at h
  split at h
  · cases h
    exact ⟨rfl, rfl⟩
  · dsimp only at h
    split_ifs at h
    · cases h
      exact ⟨rfl, rfl⟩
    · cases h
      exact ⟨rfl, rfl⟩
    · cases h
      exact ⟨rfl, rfl⟩
    · simp only [replayFrame, Option.map_eq_some_iff] at h
      obtain ⟨time, -, h⟩ := h
      split_ifs at h <;> cases h <;> exact ⟨rfl, rfl⟩

/-- `due n` is what `TO.Expired()` says in turn `n`. -/
def protocolInputLoop (io : DasIO) (due : ℕ → Bool) (s : NEIngest) : Option NEIngest :=
  if s.ibuf.cp < s.ibuf.nc then
    match _h : s.loopBody io (due 0) with
    | none => none
    | some (s', .again) => protocolInputLoop io (fun n => due (n+1)) s'
    | some (s', .leave) => some (s'.finish io)
    | some (s', .giveUp) => some s'
  else some (s.finish io)
termination_by s.ibuf.nc-s.ibuf.cp
decreasing_by
  obtain ⟨hnc, hcp⟩ := loopBody_again io (due 0) s s' _h
  omega

/-- The loop, one turn unfolded. -/
theorem protocolInputLoop_turn (io : DasIO) (due : ℕ → Bool) (s : NEIngest)
    (h : s.ibuf.unread ≠ []) :
    s.protocolInputLoop io due = (s.loopBody io (due 0)).bind fun r =>
      match r.2 with
      | .again => r.1.protocolInputLoop io fun n => due (n+1)
      | .leave => some (r.1.finish io)
      | .giveUp => some r.1 := by
  have hpos := List.length_pos_of_ne_nil h
  rw [s.ibuf.length_unread] at hpos
  rw [protocolInputLoop, if_pos (by omega)]
  split <;> rename_i hbody <;> rw [hbody] <;> rfl

theorem protocolInputLoop_end (io : DasIO) (due : ℕ → Bool) (s : NEIngest)
    (h : s.ibuf.unread = []) :
    s.protocolInputLoop io due = some (s.setIbuf InputBuffer.empty) := by
  have hlen := s.ibuf.length_unread
  rw [h, List.length_nil] at hlen
  rw [protocolInputLoop, if_neg (by omega), finish, io.consume_parsed, h]
  rfl

theorem protocolInputLoop_client (io : DasIO) (due : ℕ → Bool) (s s' : NEIngest)
    (h : s.protocolInputLoop io due = some s') : s'.client = s.client ∧ s'.flRead = s.flRead := by
  induction hn : s.ibuf.nc-s.ibuf.cp using Nat.strongRecOn generalizing s due with
  | _ n ih =>
    by_cases hnil : s.ibuf.unread = []
    · rw [protocolInputLoop_end io due s hnil] at h
      cases h
      exact ⟨rfl, rfl⟩
    · rw [protocolInputLoop_turn io due s hnil] at h
      obtain ⟨⟨t, turn⟩, hbody, h⟩ := Option.bind_eq_some_iff.mp h
      obtain ⟨hclient, hflRead⟩ := loopBody_client io (due 0) s t turn hbody
      rw [← hclient, ← hflRead]
      cases turn with
      | again =>
        obtain ⟨hnc, hcp⟩ := loopBody_again io (due 0) s t hbody
        have hlen := List.length_pos_of_ne_nil hnil
        rw [s.ibuf.length_unread] at hlen
        exact ih _ (by omega) (fun n => due (n+1)) t h rfl
      | leave =>
        cases h
        exact ⟨rfl, rfl⟩
      | giveUp =>
        cases h
        exact ⟨rfl, rfl⟩

/-- One read of `bytes` followed by `protocol_input`. -/
def protocolInput (io : DasIO) (s : NEIngest) (bytes : List UInt8) (due : ℕ → Bool) :
    Option NEIngest := protocolInputLoop io due (s.setIbuf (io.read s.ibuf bytes))

end NEIngest

/-- `NE_ingest` and the `nephex_tcp` objects that exist. -/
structure Emulator where
  ingest : NEIngest
  live : List ℕ

/-- A connection, the destructor of a `nephex_tcp` object, and a call of
`protocol_input` with what is read for it. -/
inductive EmulatorEvent
  | connected (client : ℕ)
  | destroyed (client : ℕ)
  | input (bytes : List UInt8) (due : ℕ → Bool)

namespace Emulator

def new (lastSecs lastMsecs : ℕ) : Emulator := ⟨.new lastSecs lastMsecs,[]⟩

/-- `nephex_tcp::connected`. A client that is not accepted is handed to `delete_child`,
and exists until its destructor runs, at once or later. -/
def connected (s : Emulator) (client : ℕ) : Emulator :=
  ⟨(s.ingest.setClient client).2,client :: s.live⟩

/-- `nephex_tcp::~nephex_tcp`. -/
def destroyed (s : Emulator) (client : ℕ) : Emulator :=
  ⟨s.ingest.resetClient,s.live.filter (· ≠ client)⟩

/-- The file is read while `Fl_Read` is set. -/
def step (io : DasIO) (s : Emulator) : EmulatorEvent → Option Emulator
  | .connected client => some (s.connected client)
  | .destroyed client => some (s.destroyed client)
  | .input bytes due =>
    if s.ingest.flRead then
      (s.ingest.protocolInput io bytes due).map fun ingest => {s with ingest := ingest}
    else some s

end Emulator
end Cosmid.Nephex
