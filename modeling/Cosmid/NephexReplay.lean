import Cosmid.NephexEmulator
import Cosmid.NephexFraming

/-! The emulator's replay of its file: what a call does with the frames in the buffer,
and when nothing of the file is lost or sent twice. -/
namespace Cosmid.Nephex

/-- A frame of the file, with room for its time and no longer than the buffer. -/
structure Replayable (f : List UInt8) : Prop where
  isFrame : IsFrame f
  time_le : 14 ≤ f.length
  length_le : f.length ≤ 999

theorem Replayable.append_ne_nil {f : List UInt8} (h : Replayable f) (v : List UInt8) :
    f ++ v ≠ [] := by
  have hlen := h.time_le
  apply List.append_ne_nil_of_left_ne_nil
  exact List.ne_nil_of_length_pos (by omega)

def frameSecs (f : List UInt8) : ℕ := word f 8+65536*word f 10
def frameMsecs (f : List UInt8) : ℕ := word f 12

theorem head?_of_getD {u : List UInt8} {c : UInt8} (hne : u ≠ []) (h : u.getD 0 0 = c) :
    u.head? = some c := by
  obtain ⟨b, v, rfl⟩ := List.exists_cons_of_ne_nil hne
  exact congrArg some h

/-- A proper beginning of a frame waits for the rest of it. -/
theorem frameHead_incomplete (u v f : List UInt8) (h : IsFrame f) (hf : f = u ++ v) (hv : v ≠ []) :
    frameHead u = none := by
  have hv := List.length_pos_of_ne_nil hv
  have hlen := h.length_eq
  have hsum := congrArg List.length hf
  rw [List.length_append] at hsum
  unfold frameHead
  by_cases h0 : u.length < 1
  · rw [if_pos h0]
  · have hfirst : u.getD 0 0 = 0xaa := by
      rw [← getD_append u v 0 (by omega), ← hf, h.sync_first]
    rw [if_neg h0, if_neg (not_not.mpr hfirst)]
    by_cases h1 : u.length < 2
    · rw [if_pos h1]
    · have hsecond : u.getD 1 0 = 0xaa := by
        rw [← getD_append u v 1 (by omega), ← hf, h.sync_second]
      rw [if_neg h1, if_neg (not_not.mpr hsecond), if_pos]
      by_cases h8 : u.length < 8
      · exact Or.inl h8
      · have hword : word u 6 = word f 6 := by rw [hf, word_append u v 6 (by omega)]
        exact Or.inr (by omega)

/-- Nothing, or a proper beginning of a frame. -/
def Beginning (tail : List UInt8) : Prop :=
  tail = [] ∨ ∃ f v, IsFrame f ∧ f = tail ++ v ∧ v ≠ []

/-- Behind the frames at the front of `u` is nothing, or the beginning of the next one. -/
structure Front (u : List UInt8) (rest : List (List UInt8)) : Prop where
  frames_isPrefix : frames u <+: rest
  split_eq : u = (frames u).flatten ++ leftover u
  leftover_beginning : Beginning (leftover u)

theorem front_of_isPrefix (u : List UInt8) (rest : List (List UInt8))
    (hrest : ∀ f ∈ rest, IsFrame f) (h : u <+: rest.flatten) : Front u rest := by
  induction rest generalizing u with
  | nil =>
    obtain rfl : u = [] := List.prefix_nil.mp h
    have hscan : frameScanner.scan [] = ([], []) := frameScanner.scan_none rfl
    have hframes : frames [] = [] := congrArg Prod.fst hscan
    have hleft : leftover [] = [] := congrArg Prod.snd hscan
    exact ⟨hframes ▸ List.nil_prefix, by rw [hframes, hleft, List.flatten_nil, List.append_nil],
      Or.inl hleft⟩
  | cons f rest ih =>
    have hf := hrest f (List.mem_cons_self ..)
    rw [List.flatten_cons] at h
    by_cases hlen : f.length ≤ u.length
    · obtain ⟨u', rfl⟩ := List.prefix_of_prefix_length_le (List.prefix_append f _) h hlen
      have hscan := frameScanner.scan_some (frameHead_isFrame f u' hf)
      rw [List.drop_left] at hscan
      have hframes : frames (f ++ u') = f :: frames u' := by rw [frames, hscan]; rfl
      have hleft : leftover (f ++ u') = leftover u' := by rw [leftover, hscan]; rfl
      have hu' : u' <+: rest.flatten := (List.prefix_append_right_inj f).mp h
      obtain ⟨hpre, hsplit, hpart⟩ := ih u' (fun g hg => hrest g (List.mem_cons_of_mem _ hg)) hu'
      refine ⟨?_, ?_, ?_⟩
      · rw [hframes]
        exact List.cons_prefix_cons.mpr ⟨rfl, hpre⟩
      · rw [hframes, hleft, List.flatten_cons, List.append_assoc, ← hsplit]
      · rwa [hleft]
    · obtain ⟨v, hv⟩ :=
        List.prefix_of_prefix_length_le h (List.prefix_append f rest.flatten) (by omega)
      have hne : v ≠ [] := by
        rintro rfl
        rw [List.append_nil] at hv
        exact hlen (Nat.le_of_eq (congrArg List.length hv.symm))
      have hscan := frameScanner.scan_none (frameHead_incomplete u v f hf hv.symm hne)
      exact ⟨by rw [frames, hscan]; exact List.nil_prefix,
        by rw [frames, leftover, hscan]; rfl,
        Or.inr ⟨f, v, hf, by rw [leftover, hscan]; exact hv.symm, hne⟩⟩

/-- No frame that a call comes to fails the assertion on its time. -/
def Steady : TimeBase → (ℕ → Bool) → List (List UInt8) → Prop
  | _, _, [] => True
  | t, due, f :: fs => ∃ t', t.update (frameSecs f) (frameMsecs f) = some t' ∧
    (due 0 = true → Steady t' (fun n => due (n+1)) fs)

/-- Where in a frame a call leaves `cp` that comes to the end of the input behind `tail`. -/
def stopCp (tail : List UInt8) : ℕ := if tail.length < 8 then 2 else 8

namespace NEIngest

/-- A turn that starts at the sync bytes, or at the first one with nothing behind it. -/
theorem loopBody_sync (io : DasIO) (due : Bool) (s : NEIngest)
    (hfirst : s.ibuf.unread.head? = some 0xaa)
    (hsecond : 1 < s.ibuf.unread.length → s.ibuf.unread.getD 1 0 = 0xaa) :
    s.loopBody io due =
      if s.ibuf.unread.length < 8 then some (s.setIbuf ⟨s.ibuf.buf,s.ibuf.cp+2⟩, .giveUp)
      else if s.ibuf.unread.length < word s.ibuf.unread 6+9 then
        some (s.setIbuf ⟨s.ibuf.buf,s.ibuf.cp+8⟩, .giveUp)
      else (s.setIbuf ⟨s.ibuf.buf,s.ibuf.cp+8⟩).replayFrame due (word s.ibuf.unread 6) := by
  obtain ⟨post, hpost⟩ := List.head?_eq_some_iff.mp hfirst
  have hm := io.notFound_hit 0xaa s.ibuf [] post hpost List.not_mem_nil
  have hlen := s.ibuf.length_unread
  have hpos : 0 < s.ibuf.unread.length := by
    rw [hpost]
    exact Nat.succ_pos _
  simp only [loopBody, hm, InputBuffer.nc_mk, List.length_nil, Nat.zero_add, Nat.add_assoc,
    InputBuffer.getD_unread, word_unread, Nat.reduceAdd]
  change s.ibuf.unread.length = s.ibuf.buf.length-s.ibuf.cp at hlen
  rw [if_neg (fun h => h.2 (hsecond (by omega)))]
  by_cases hhdr : s.ibuf.unread.length < 8
  · rw [if_pos (by omega), if_pos hhdr]
  · rw [if_neg (by omega), if_neg hhdr]
    by_cases hdata : s.ibuf.unread.length < word s.ibuf.unread 6+9
    · rw [if_pos (by omega), if_pos hdata]
    · rw [if_neg (by omega), if_neg hdata]

/-- A turn that starts with a complete frame. -/
theorem loopBody_frame (io : DasIO) (due : Bool) (s : NEIngest) (f v : List UInt8)
    (hf : Replayable f) (hu : s.ibuf.unread = f ++ v) (hclient : s.client.isSome = true) :
    s.loopBody io due = (s.time.update (frameSecs f) (frameMsecs f)).map fun time =>
      if due then
        ({s with
          ibuf := ⟨s.ibuf.buf,s.ibuf.cp+f.length⟩
          time := time
          packetSn := u32 (s.packetSn+1)
          forwarded := s.forwarded ++ [f]}, .again)
      else ({s with time := time}, .leave) := by
  have hlen := hf.isFrame.length_eq
  have hle := hf.length_le
  have htime := hf.time_le
  have hlong : s.ibuf.unread.length = f.length+v.length := by rw [hu, List.length_append]
  have hget (i : ℕ) (hi : i < f.length) : s.ibuf.unread.getD i 0 = f.getD i 0 := by
    rw [hu, getD_append f v i hi]
  have hword (i : ℕ) (hi : i+1 < f.length) : word s.ibuf.unread i = word f i := by
    rw [hu, word_append f v i hi]
  have hfirst : s.ibuf.unread.head? = some 0xaa := by
    refine head?_of_getD (List.ne_nil_of_length_pos (by omega)) ?_
    rw [hget 0 (by omega), hf.isFrame.sync_first]
  have hsecond : s.ibuf.unread.getD 1 0 = 0xaa := by
    rw [hget 1 (by omega), hf.isFrame.sync_second]
  have hbytes : (s.ibuf.buf.drop s.ibuf.cp).take (u16 (word f 6+9)) = f := by
    rw [u16, Nat.mod_eq_of_lt (by omega), ← hlen]
    change s.ibuf.unread.take f.length = f
    rw [hu, List.take_left]
  rw [loopBody_sync io due s hfirst (fun _ => hsecond), hword 6 (by omega), if_neg (by omega),
    if_neg (by omega)]
  simp only [replayFrame, setIbuf, Nat.add_assoc, word_unread, hclient, and_true, Nat.reduceAdd,
    Nat.add_sub_cancel, hbytes]
  rw [hword 8 (by omega), hword 10 (by omega), hword 12 (by omega),
    show 8+(word f 6+1) = f.length by omega]
  rfl

/-- A turn that starts with the beginning of a frame gives up behind the part of the
header it has read. -/
theorem loopBody_incomplete (io : DasIO) (due : Bool) (s : NEIngest) (f v : List UInt8)
    (hf : IsFrame f) (hsplit : f = s.ibuf.unread ++ v) (hv : v ≠ []) (hne : s.ibuf.unread ≠ []) :
    s.loopBody io due = some (s.setIbuf
      ⟨s.ibuf.buf,s.ibuf.cp+if s.ibuf.unread.length < 8 then 2 else 8⟩, .giveUp) := by
  have hlen := hf.length_eq
  have hv := List.length_pos_of_ne_nil hv
  have hpos := List.length_pos_of_ne_nil hne
  have hsum := congrArg List.length hsplit
  rw [List.length_append] at hsum
  have hget (i : ℕ) (hi : i < s.ibuf.unread.length) : s.ibuf.unread.getD i 0 = f.getD i 0 := by
    rw [← getD_append s.ibuf.unread v i hi, ← hsplit]
  have hfirst : s.ibuf.unread.head? = some 0xaa := by
    refine head?_of_getD hne ?_
    rw [hget 0 hpos, hf.sync_first]
  have hsecond : 1 < s.ibuf.unread.length → s.ibuf.unread.getD 1 0 = 0xaa := by
    intro h
    rw [hget 1 h, hf.sync_second]
  rw [loopBody_sync io due s hfirst hsecond]
  by_cases hhdr : s.ibuf.unread.length < 8
  · rw [if_pos hhdr, if_pos hhdr]
  · have hword : word s.ibuf.unread 6 = word f 6 := by
      rw [← word_append s.ibuf.unread v 6 (by omega), ← hsplit]
    rw [if_neg hhdr, if_neg hhdr, hword, if_pos (by omega)]

/-- Without a sync byte the search takes everything. -/
theorem protocolInputLoop_no_sync (io : DasIO) (due : ℕ → Bool) (s : NEIngest)
    (h : 0xaa ∉ s.ibuf.unread) :
    s.protocolInputLoop io due = some (s.setIbuf InputBuffer.empty) := by
  by_cases hnil : s.ibuf.unread = []
  · exact protocolInputLoop_end io due s hnil
  · rw [protocolInputLoop_turn io due s hnil, loopBody, io.notFound_miss 0xaa s.ibuf h]
    rfl

/-- A call forwards the frames that are due and keeps the others. The last case is the
one that keeps nothing in order: all frames were due and another one had begun. -/
theorem protocolInputLoop_steady (io : DasIO) (due : ℕ → Bool) (s : NEIngest)
    (fs : List (List UInt8)) (tail : List UInt8) (hfs : ∀ f ∈ fs, Replayable f)
    (hu : s.ibuf.unread = fs.flatten ++ tail) (htail : Beginning tail)
    (hclient : s.client.isSome = true) (hsteady : Steady s.time due fs) :
    ∃ s' done kept, s.protocolInputLoop io due = some s' ∧ s'.client = s.client ∧
      fs = done ++ kept ∧ s'.forwarded = s.forwarded ++ done ∧
      ((kept ≠ [] ∧ due done.length = false ∧ s'.ibuf = ⟨kept.flatten ++ tail,0⟩) ∨
        (kept = [] ∧ tail = [] ∧ s'.ibuf = InputBuffer.empty) ∨
        (kept = [] ∧ (∀ n < fs.length, due n = true) ∧ tail ≠ [] ∧
          s'.ibuf = ⟨s.ibuf.buf,s.ibuf.cp+fs.flatten.length+stopCp tail⟩)) := by
  induction fs generalizing s due with
  | nil =>
    rw [List.flatten_nil, List.nil_append] at hu
    by_cases hnil : tail = []
    · rw [protocolInputLoop_end io due s (hu.trans hnil)]
      exact ⟨_, [], [], rfl, rfl, rfl, (List.append_nil _).symm, Or.inr (Or.inl ⟨rfl, hnil, rfl⟩)⟩
    · obtain ⟨f, v, hf, hsplit, hv⟩ := htail.resolve_left hnil
      rw [protocolInputLoop_turn io due s (by rwa [hu]),
        loopBody_incomplete io (due 0) s f v hf (by rw [hu, hsplit]) hv (by rwa [hu]), hu]
      exact ⟨_, [], [], rfl, rfl, rfl, (List.append_nil _).symm,
        Or.inr (Or.inr ⟨rfl, fun n hn => absurd hn (Nat.not_lt_zero n), hnil, rfl⟩)⟩
  | cons f fs ih =>
    obtain ⟨time, htime, hrest⟩ := hsteady
    have hf := hfs f (List.mem_cons_self ..)
    rw [List.flatten_cons, List.append_assoc] at hu
    rw [protocolInputLoop_turn io due s (hu ▸ hf.append_ne_nil _),
      loopBody_frame io (due 0) s f _ hf hu hclient, htime, Option.map_some, Option.bind_some]
    cases hdue : due 0 with
    | false =>
      -- The loop is left here, and `consume` keeps the frame and all behind it.
      refine ⟨_, [], f :: fs, rfl, rfl, rfl, (List.append_nil _).symm, Or.inl ⟨by simp, hdue, ?_⟩⟩
      rw [if_neg (by decide)]
      dsimp only [finish, setIbuf]
      rw [io.consume_parsed, hu, List.flatten_cons, List.append_assoc]
    | true =>
      rw [if_pos rfl]
      dsimp only
      obtain ⟨s', done, kept, hs', hcl, hsplit, hfwd, hcases⟩ := ih (fun n => due (n+1))
        {s with
          ibuf := ⟨s.ibuf.buf,s.ibuf.cp+f.length⟩
          time := time
          packetSn := u32 (s.packetSn+1)
          forwarded := s.forwarded ++ [f]}
        (fun g hg => hfs g (List.mem_cons_of_mem _ hg))
        (by rw [InputBuffer.unread_advance, hu, List.drop_left]) hclient (hrest hdue)
      refine ⟨s', f :: done, kept, hs', hcl, by rw [hsplit, List.cons_append], ?_, ?_⟩
      · rw [hfwd, List.append_assoc]
        rfl
      · rcases hcases with hkeep | hall | ⟨hk, hd, ht, hib⟩
        · exact Or.inl hkeep
        · exact Or.inr (Or.inl hall)
        · refine Or.inr (Or.inr ⟨hk, ?_, ht, ?_⟩)
          · intro n hn
            cases n with
            | zero => exact hdue
            | succ n => exact hd n (Nat.lt_of_succ_lt_succ hn)
          · rw [hib, List.flatten_cons, List.length_append]
            dsimp only
            rw [Nat.add_assoc s.ibuf.cp]

/-- The assertion fails in the first call that comes to an unsteady frame. -/
theorem protocolInputLoop_unsteady (io : DasIO) (due : ℕ → Bool) (s : NEIngest)
    (fs : List (List UInt8)) (tail : List UInt8) (hfs : ∀ f ∈ fs, Replayable f)
    (hu : s.ibuf.unread = fs.flatten ++ tail) (hclient : s.client.isSome = true)
    (hsteady : ¬Steady s.time due fs) : s.protocolInputLoop io due = none := by
  induction fs generalizing s due with
  | nil => exact absurd trivial hsteady
  | cons f fs ih =>
    have hf := hfs f (List.mem_cons_self ..)
    rw [List.flatten_cons, List.append_assoc] at hu
    rw [protocolInputLoop_turn io due s (hu ▸ hf.append_ne_nil _),
      loopBody_frame io (due 0) s f _ hf hu hclient]
    cases htime : s.time.update (frameSecs f) (frameMsecs f) with
    | none => rfl
    | some time =>
      have hrest : ¬(due 0 = true → Steady time (fun n => due (n+1)) fs) :=
        fun h => hsteady ⟨time, htime, h⟩
      obtain ⟨hdue, hrest⟩ := Classical.not_imp.mp hrest
      rw [Option.map_some, Option.bind_some, hdue]
      exact ih (fun n => due (n+1)) _ (fun g hg => hfs g (List.mem_cons_of_mem _ hg))
        (by
          rw [if_pos rfl]
          dsimp only
          rw [InputBuffer.unread_advance, hu, List.drop_left]) hclient hrest

/-- A call that forwards one frame and comes to the end of the input inside the next. -/
theorem protocolInputLoop_cut (io : DasIO) (s : NEIngest) (f g tail v : List UInt8) (time : TimeBase)
    (hf : Replayable f) (hg : IsFrame g) (hsplit : g = tail ++ v) (hv : v ≠ []) (htail : tail ≠ [])
    (hbuf : s.ibuf = ⟨f ++ tail,0⟩) (hclient : s.client.isSome = true)
    (htime : s.time.update (frameSecs f) (frameMsecs f) = some time) :
    s.protocolInputLoop io (fun _ => true) = some {s with
      ibuf := ⟨f ++ tail,f.length+stopCp tail⟩
      time := time
      packetSn := u32 (s.packetSn+1)
      forwarded := s.forwarded ++ [f]} := by
  have hu : s.ibuf.unread = f ++ tail := by
    rw [hbuf]
    rfl
  have hu' : InputBuffer.unread ⟨f ++ tail,f.length⟩ = tail := List.drop_left
  rw [protocolInputLoop_turn io _ s (by rw [hu]; exact List.append_ne_nil_of_right_ne_nil f htail),
    loopBody_frame io true s f tail hf hu hclient, htime, Option.map_some, Option.bind_some,
    if_pos rfl]
  dsimp only
  rw [hbuf, Nat.zero_add, protocolInputLoop_turn io _ _ (by dsimp only; rwa [hu']),
    loopBody_incomplete io true _ g v hg (by dsimp only; rw [hu', hsplit]) hv
      (by dsimp only; rwa [hu'])]
  dsimp only
  rw [hu']
  rfl

end NEIngest

/-- `NE_ingest` and what it has not read of its file. -/
structure Replay where
  ingest : NEIngest
  fileRest : List UInt8

/-- A call of `protocol_input`: how much is read for it, and when `TO` is expired. -/
structure IngestCall where
  count : ℕ
  due : ℕ → Bool

namespace Replay

def step (io : DasIO) (r : Replay) (c : IngestCall) : Option Replay :=
  (r.ingest.protocolInput io (r.fileRest.take c.count) c.due).map fun ingest =>
    ⟨ingest,r.fileRest.drop c.count⟩

/-- What the next call will look at, before it reads. -/
def waiting (io : DasIO) (r : Replay) : List UInt8 := (io.read r.ingest.ibuf []).unread

/-- The frames forwarded are the first of the file, and the others are still to come:
what the next call will look at, followed by the rest of the file, is made of them. A
call that finds the file read and every frame due leaves none. -/
structure Faithful (io : DasIO) (file : List (List UInt8)) (cs : List IngestCall) (r : Replay) :
    Prop where
  conserved : ∃ rest, file = r.ingest.forwarded ++ rest ∧ r.waiting io ++ r.fileRest = rest.flatten
  complete : r.fileRest = [] → (∀ c ∈ cs.getLast?, ∀ n, c.due n = true) →
    r.ingest.forwarded = file

/-- What is in the buffer during a call that starts at the front of it. -/
def input (r : Replay) (c : IngestCall) : List UInt8 :=
  r.ingest.ibuf.buf ++ r.fileRest.take c.count

/-- No frame is unsteady, and the call does not come to the end of the input inside a
frame; or if it does, it has forwarded nothing and the library restarts `cp`. -/
structure EndsWell (io : DasIO) (r : Replay) (c : IngestCall) : Prop where
  steady : Steady r.ingest.time c.due (frames (r.input c))
  whole : (∀ n < (frames (r.input c)).length, c.due n = true) →
    leftover (r.input c) = [] ∨
      (frames (r.input c) = [] ∧ io.resume (stopCp (leftover (r.input c))) = 0)

/-- The invariant: the next call starts with the next frame. -/
structure OnFrame (io : DasIO) (file : List (List UInt8)) (cs : List IngestCall) (r : Replay) :
    Prop where
  client_isSome : r.ingest.client.isSome = true
  resume_eq : io.resume r.ingest.ibuf.cp = 0
  faithful : r.Faithful io file cs

theorem waiting_of_resume (io : DasIO) (r : Replay) (h : io.resume r.ingest.ibuf.cp = 0) :
    r.waiting io = r.ingest.ibuf.buf := by
  rw [waiting, DasIO.read, h, List.append_nil]
  rfl

/-- What a call that starts with the next frame has in the buffer. -/
theorem OnFrame.front {io : DasIO} {file : List (List UInt8)} {cs : List IngestCall} {r : Replay}
    (h : r.OnFrame io file cs) (hfile : ∀ f ∈ file, Replayable f) (c : IngestCall) :
    ∃ rest, file = r.ingest.forwarded ++ rest ∧
      r.input c ++ r.fileRest.drop c.count = rest.flatten ∧ Front (r.input c) rest := by
  obtain ⟨rest, hsplit, hconserved⟩ := h.faithful.conserved
  have hrest : r.input c ++ r.fileRest.drop c.count = rest.flatten := by
    rw [← hconserved, r.waiting_of_resume io h.resume_eq, input, List.append_assoc,
      List.take_append_drop]
  refine ⟨rest, hsplit, hrest, front_of_isPrefix _ _ (fun f hf => ?_) ⟨_, hrest⟩⟩
  exact (hfile f (by rw [hsplit]; exact List.mem_append_right _ hf)).isFrame

/-- The frames of the call and what follows them are what is unread in it. -/
theorem OnFrame.unread {io : DasIO} {file : List (List UInt8)} {cs : List IngestCall}
    {r : Replay} (h : r.OnFrame io file cs) (c : IngestCall) {rest : List (List UInt8)}
    (hfront : Front (r.input c) rest) :
    (r.ingest.setIbuf (io.read r.ingest.ibuf (r.fileRest.take c.count))).ibuf.unread =
      (frames (r.input c)).flatten ++ leftover (r.input c) := by
  rw [← hfront.split_eq, NEIngest.setIbuf, DasIO.read, h.resume_eq]
  rfl

/-- One call on steady frames, from the front of the buffer. -/
theorem OnFrame.step_steady {io : DasIO} {file : List (List UInt8)} {cs : List IngestCall}
    {r : Replay} (h : r.OnFrame io file cs) (hfile : ∀ f ∈ file, Replayable f) (c : IngestCall)
    (hsteady : Steady r.ingest.time c.due (frames (r.input c))) :
    ∃ s' done kept, r.step io c = some ⟨s',r.fileRest.drop c.count⟩ ∧
      s'.client = r.ingest.client ∧ frames (r.input c) = done ++ kept ∧
      s'.forwarded = r.ingest.forwarded ++ done ∧
      ((kept ≠ [] ∧ c.due done.length = false ∧
          s'.ibuf = ⟨kept.flatten ++ leftover (r.input c),0⟩) ∨
        (kept = [] ∧ leftover (r.input c) = [] ∧ s'.ibuf = InputBuffer.empty) ∨
        (kept = [] ∧ (∀ n < (frames (r.input c)).length, c.due n = true) ∧
          leftover (r.input c) ≠ [] ∧ s'.ibuf =
            ⟨r.input c,(frames (r.input c)).flatten.length+stopCp (leftover (r.input c))⟩)) := by
  obtain ⟨rest, hsplit, -, hfront⟩ := h.front hfile c
  have hframes (f : List UInt8) (hf : f ∈ frames (r.input c)) : Replayable f :=
    hfile f (by rw [hsplit]; exact List.mem_append_right _ (hfront.frames_isPrefix.subset hf))
  have hib : (r.ingest.setIbuf (io.read r.ingest.ibuf (r.fileRest.take c.count))).ibuf =
      ⟨r.input c,0⟩ := by
    dsimp only [NEIngest.setIbuf, DasIO.read]
    rw [h.resume_eq]
    rfl
  obtain ⟨s', done, kept, hs', hcl, hdone, hfwd, hcases⟩ :=
    NEIngest.protocolInputLoop_steady io c.due _ _ _ hframes (h.unread c hfront)
      hfront.leftover_beginning h.client_isSome hsteady
  rw [hib, Nat.zero_add] at hcases
  exact ⟨s', done, kept, by rw [step, NEIngest.protocolInput, hs']; rfl, hcl, hdone, hfwd, hcases⟩

/-- The assertion holds in a call that does not abort the program. -/
theorem OnFrame.steady_of_step {io : DasIO} {file : List (List UInt8)} {cs : List IngestCall}
    {r r' : Replay} (h : r.OnFrame io file cs) (hfile : ∀ f ∈ file, Replayable f) (c : IngestCall)
    (hr' : r.step io c = some r') : Steady r.ingest.time c.due (frames (r.input c)) := by
  obtain ⟨rest, hsplit, -, hfront⟩ := h.front hfile c
  have hframes (f : List UInt8) (hf : f ∈ frames (r.input c)) : Replayable f :=
    hfile f (by rw [hsplit]; exact List.mem_append_right _ (hfront.frames_isPrefix.subset hf))
  by_contra hno
  rw [step, NEIngest.protocolInput, NEIngest.protocolInputLoop_unsteady io c.due _ _ _ hframes
    (h.unread c hfront) h.client_isSome hno] at hr'
  cases hr'

/-- What the good ways to end have in common: the frames kept and the incomplete one
wait at the front of the buffer. -/
theorem OnFrame.of_kept {io : DasIO} {file : List (List UInt8)} {cs : List IngestCall}
    {r : Replay} (h : r.OnFrame io file cs) (hfile : ∀ f ∈ file, Replayable f) (c : IngestCall)
    {s' : NEIngest} {done kept : List (List UInt8)} (hcl : s'.client = r.ingest.client)
    (hdone : frames (r.input c) = done ++ kept)
    (hfwd : s'.forwarded = r.ingest.forwarded ++ done) (hresume : io.resume s'.ibuf.cp = 0)
    (hbuf : s'.ibuf.buf = kept.flatten ++ leftover (r.input c))
    (hlast : (∀ n, c.due n = true) → kept = []) :
    OnFrame io file (cs ++ [c]) ⟨s',r.fileRest.drop c.count⟩ := by
  obtain ⟨rest, hsplit, hconserved, hfront⟩ := h.front hfile c
  obtain ⟨more, hmore⟩ := hfront.frames_isPrefix
  refine ⟨by dsimp only; rw [hcl]; exact h.client_isSome, hresume, ⟨kept ++ more, ?_, ?_⟩, ?_⟩
  · dsimp only
    rw [hfwd, hsplit, ← hmore, hdone, List.append_assoc, List.append_assoc]
  · rw [waiting_of_resume io _ hresume]
    dsimp only
    rw [hbuf, List.append_assoc]
    rw [hfront.split_eq, ← hmore, hdone, List.append_assoc done, List.flatten_append,
      List.flatten_append, List.append_assoc, List.append_assoc] at hconserved
    exact List.append_cancel_left hconserved
  · intro hall hdue
    have hrest (f : List UInt8) (hf : f ∈ rest) : IsFrame f :=
      (hfile f (by rw [hsplit]; exact List.mem_append_right _ hf)).isFrame
    have hdone' : done = frames (r.input c) := by
      rw [hdone, hlast (hdue c (by simp)), List.append_nil]
    dsimp only at hall ⊢
    rw [hall, List.append_nil] at hconserved
    rw [hfwd, hdone', hconserved, frames, scan_flatten_frames rest hrest, ← hsplit]

theorem step_keeps (io : DasIO) (file : List (List UInt8)) (hfile : ∀ f ∈ file, Replayable f)
    (cs : List IngestCall) (r : Replay) (c : IngestCall) (h : r.OnFrame io file cs)
    (hends : r.EndsWell io c) :
    ∃ r', r.step io c = some r' ∧ r'.OnFrame io file (cs ++ [c]) := by
  obtain ⟨rest, -, -, hfront⟩ := h.front hfile c
  obtain ⟨s', done, kept, hs', hcl, hdone, hfwd, hcases⟩ := h.step_steady hfile c hends.steady
  refine ⟨_, hs', ?_⟩
  rcases hcases with ⟨hne, hdue, hib⟩ | ⟨hk, ht, hib⟩ | ⟨hk, hdue, ht, hib⟩
  · refine h.of_kept hfile c hcl hdone hfwd ?_ ?_ ?_
    · rw [hib]
      exact io.resume_zero
    · rw [hib]
    · intro hall
      rw [hall] at hdue
      cases hdue
  · refine h.of_kept hfile c hcl hdone hfwd ?_ ?_ fun _ => hk
    · rw [hib]
      exact io.resume_zero
    · rw [hib, hk, ht]
      rfl
  · obtain ⟨hnone, hresume⟩ := (hends.whole hdue).resolve_left ht
    rw [hnone, List.flatten_nil, List.length_nil, Nat.zero_add] at hib
    refine h.of_kept hfile c hcl hdone hfwd ?_ ?_ fun _ => hk
    · rw [hib]
      exact hresume
    · rw [hib, hk]
      dsimp only
      rw [List.flatten_nil, List.nil_append]
      conv_lhs => rw [hfront.split_eq, hnone]
      rfl

/-- A call that ends badly: the bytes left for the next call are not those of the
frames left. -/
theorem step_breaks (io : DasIO) (file : List (List UInt8)) (hfile : ∀ f ∈ file, Replayable f)
    (cs : List IngestCall) (r r' : Replay) (c : IngestCall) (h : r.OnFrame io file cs)
    (hends : ¬r.EndsWell io c) (hr' : r.step io c = some r') :
    ¬r'.Faithful io file (cs ++ [c]) := by
  obtain ⟨rest, hsplit, hconserved, hfront⟩ := h.front hfile c
  have hsteady := h.steady_of_step hfile c hr'
  obtain ⟨t, done, kept, ht, hcl, hdone, hfwd, hcases⟩ := h.step_steady hfile c hsteady
  obtain rfl := Option.some.inj (ht.symm.trans hr')
  have hnot : ¬((∀ n < (frames (r.input c)).length, c.due n = true) →
      leftover (r.input c) = [] ∨
        (frames (r.input c) = [] ∧ io.resume (stopCp (leftover (r.input c))) = 0)) :=
    fun hwhole => hends ⟨hsteady, hwhole⟩
  obtain ⟨hdue, hbad⟩ := Classical.not_imp.mp hnot
  obtain ⟨hleft, hbad⟩ := not_or.mp hbad
  rcases hcases with ⟨hne, hno, -⟩ | ⟨-, hnil, -⟩ | ⟨hk, -, -, hib⟩
  · have hpos := List.length_pos_of_ne_nil hne
    rw [hdue done.length (by rw [hdone, List.length_append]; omega)] at hno
    cases hno
  · exact absurd hnil hleft
  rintro ⟨⟨rest', hrest', hcons⟩, -⟩
  have hwait : waiting io ⟨t,r.fileRest.drop c.count⟩ = (r.input c).drop (io.resume t.ibuf.cp) := by
    rw [waiting, DasIO.read, List.append_nil, InputBuffer.unread]
    dsimp only
    rw [hib]
  have hcut : rest = frames (r.input c) ++ rest' := by
    rw [hk, List.append_nil] at hdone
    apply List.append_cancel_left
    rw [← hsplit, hrest', hdone, ← List.append_assoc]
    exact congrArg (· ++ rest') hfwd
  -- By the lengths, the next call would have to start right behind the frames.
  have hlen := congrArg List.length hconserved
  have hlen' := congrArg List.length hcons
  have hu := congrArg List.length hfront.split_eq
  have hpos := List.length_pos_of_ne_nil hleft
  rw [hwait] at hlen'
  rw [hcut, List.flatten_append] at hlen
  simp only [List.length_append, List.length_drop] at hlen hlen' hu
  have hresume : io.resume t.ibuf.cp = (frames (r.input c)).flatten.length := by omega
  have hstop : 0 < stopCp (leftover (r.input c)) := by
    unfold stopCp
    split_ifs <;> omega
  rcases io.resume_cases t.ibuf.cp with hsame | hzero
  · rw [hib] at hsame hresume
    dsimp only at hsame hresume
    omega
  · have hnone : frames (r.input c) = [] := by
      cases hfs : frames (r.input c) with
      | nil => rfl
      | cons f fs =>
        have hmem : f ∈ rest := hfront.frames_isPrefix.subset (by simp [hfs])
        have htime := (hfile f (by rw [hsplit]; exact List.mem_append_right _ hmem)).time_le
        rw [hfs, List.flatten_cons, List.length_append] at hresume
        omega
    rw [hib, hnone] at hzero
    refine hbad ⟨hnone, ?_⟩
    rwa [List.flatten_nil, List.length_nil, Nat.zero_add] at hzero

/-- A call without a sync byte in what it looks at. -/
theorem step_no_sync (io : DasIO) (r : Replay) (count : ℕ) (due : ℕ → Bool)
    (h : 0xaa ∉ (io.read r.ingest.ibuf (r.fileRest.take count)).unread) :
    r.step io ⟨count,due⟩ =
      some ⟨r.ingest.setIbuf InputBuffer.empty,r.fileRest.drop count⟩ := by
  rw [step, NEIngest.protocolInput, NEIngest.protocolInputLoop_no_sync io due _ h]
  rfl

/-- The emulator with its first client, before it has read anything. -/
def start (lastSecs lastMsecs client : ℕ) (file : List (List UInt8)) : Replay :=
  ⟨((NEIngest.new lastSecs lastMsecs).setClient client).2,file.flatten⟩

theorem start_onFrame (io : DasIO) (lastSecs lastMsecs client : ℕ) (file : List (List UInt8))
    (hfile : ∀ f ∈ file, Replayable f) :
    (start lastSecs lastMsecs client file).OnFrame io file [] := by
  refine ⟨rfl, io.resume_zero, ⟨file, rfl, ?_⟩, ?_⟩
  · rw [waiting_of_resume io _ io.resume_zero]
    rfl
  · intro hnil _
    cases file with
    | nil => rfl
    | cons f fs =>
      have htime := (hfile f (List.mem_cons_self ..)).time_le
      have hlen := congrArg List.length hnil
      rw [start, List.flatten_cons, List.length_append, List.length_nil] at hlen
      omega

/-- The file is replayed faithfully throughout a run if and only if every call ends well. -/
theorem replay_iff (io : DasIO) (file : List (List UInt8)) (hfile : ∀ f ∈ file, Replayable f)
    (lastSecs lastMsecs client : ℕ) (cs : List IngestCall) :
    Run.Throughout (step io) (fun h r => r.Faithful io file h)
        (start lastSecs lastMsecs client file) cs ↔
      Run.Along (step io) (EndsWell io) (start lastSecs lastMsecs client file) cs :=
  Run.throughout_iff_along (step io) (fun _ _ => True) (EndsWell io)
    (fun h r => r.OnFrame io file h) (fun h r => r.Faithful io file h) (fun _ _ h => h.faithful)
    (fun h r c hr _ hends => step_keeps io file hfile h r c hr hends)
    (fun h r c r' hr _ hends hr' => step_breaks io file hfile h r r' c hr hends hr')
    _ cs (start_onFrame io lastSecs lastMsecs client file hfile) (Run.along_true _ _ cs)

/-- Six data bytes behind the header: seconds 0 and the milliseconds given. -/
def shortFrame (msecs : UInt8) : List UInt8 := [0xaa,0xaa,0,0,0,0,5,0,0,0,0,0,msecs,0]

theorem shortFrame_replayable (msecs : UInt8) : Replayable (shortFrame msecs) :=
  ⟨⟨rfl,rfl,rfl⟩,Nat.le_refl 14,show 14 ≤ 999 by decide⟩

/-- The second of two frames is not due yet, and is kept. -/
theorem replay_two :
    Run.Throughout (step .keeping) (fun h r => r.Faithful .keeping [shortFrame 0,shortFrame 1] h)
      (start 0 0 1 [shortFrame 0,shortFrame 1]) [⟨28,fun n => decide (n = 0)⟩] := by
  have hfile : ∀ f ∈ [shortFrame 0,shortFrame 1], Replayable f := by
    simp only [List.mem_cons, List.not_mem_nil, or_false]
    rintro f (rfl | rfl) <;> exact shortFrame_replayable _
  have hscan := scan_flatten_frames _ fun f hf => (hfile f hf).isFrame
  have hframes : frames [shortFrame 0,shortFrame 1].flatten = [shortFrame 0,shortFrame 1] := by
    rw [frames, hscan]
  have hleft : leftover [shortFrame 0,shortFrame 1].flatten = [] := by rw [leftover, hscan]
  refine (replay_iff .keeping _ hfile 0 0 1 _).mpr ⟨⟨?_, ?_⟩, fun _ _ => trivial⟩
  · change Steady _ _ (frames [shortFrame 0,shortFrame 1].flatten)
    rw [hframes]
    exact ⟨⟨true,0,0⟩, rfl, fun _ => ⟨⟨true,0,1⟩, rfl, fun h => by cases h⟩⟩
  · intro _
    exact Or.inl hleft

/-- A frame of 500 bytes, two of which do not go into the buffer. -/
def longFrame (msecs : UInt8) : List UInt8 :=
  [0xaa,0xaa,0,0,0,0,0xeb,1,0,0,0,0,msecs,0] ++ List.replicate 486 0

theorem length_longFrame (msecs : UInt8) : (longFrame msecs).length = 500 := by
  rw [longFrame, List.length_append, List.length_replicate]
  rfl

theorem longFrame_replayable (msecs : UInt8) : Replayable (longFrame msecs) := by
  refine ⟨⟨rfl,rfl,?_⟩,?_,?_⟩
  · rw [length_longFrame]
    rfl
  · rw [length_longFrame]
    decide
  · rw [length_longFrame]
    decide

theorem longFrame_no_sync (msecs : UInt8) (h : msecs ≠ 0xaa) : 0xaa ∉ (longFrame msecs).drop 8 := by
  have hdrop : (longFrame msecs).drop 8 = [0,0,0,0,msecs,0] ++ List.replicate 486 0 := rfl
  rw [hdrop, List.mem_append, List.mem_replicate]
  rintro (hmem | ⟨-, hmem⟩)
  · simp only [List.mem_cons, List.not_mem_nil, or_false] at hmem
    rcases hmem with hmem | hmem | hmem | hmem | hmem | hmem
    all_goals first | exact h hmem.symm | cases hmem
  · cases hmem

/-- The first read fills the buffer, the second finds no room, and everything is due. -/
def fillingCalls : List IngestCall := [⟨999,fun _ => true⟩,⟨0,fun _ => true⟩,⟨999,fun _ => true⟩]

/-- What the first call leaves: `cp` is in the second frame, behind its header. -/
def afterFilling : Replay :=
  ⟨⟨⟨longFrame 0 ++ (longFrame 1).take 499,508⟩,true,⟨true,0,0⟩,1,some 1,[longFrame 0]⟩,
    (longFrame 1).drop 499⟩

theorem take_longFrame_ne_nil : (longFrame 1).take 499 ≠ [] := by
  intro hnil
  have hlen := congrArg List.length hnil
  rw [List.length_take, length_longFrame] at hlen
  cases hlen

theorem drop_longFrame_ne_nil : (longFrame 1).drop 499 ≠ [] := by
  intro hnil
  have hlen := congrArg List.length hnil
  rw [List.length_drop, length_longFrame] at hlen
  cases hlen

/-- Where the first read cuts two frames of that size. -/
theorem cut_two (f g : List UInt8) (hf : f.length = 500) :
    [f,g].flatten.take 999 = f ++ g.take 499 ∧ [f,g].flatten.drop 999 = g.drop 499 := by
  have hfg : [f,g].flatten = f ++ g := by
    rw [List.flatten_cons, List.flatten_cons, List.flatten_nil, List.append_nil]
  have h999 : 999 = f.length+499 := by rw [hf]
  rw [hfg, h999]
  exact ⟨List.take_length_add_append 499, List.drop_length_add_append 499⟩

theorem filling_first_call (io : DasIO) :
    (start 0 0 1 [longFrame 0,longFrame 1]).step io ⟨999,fun _ => true⟩ = some afterFilling := by
  obtain ⟨htake, hdrop⟩ := cut_two (longFrame 0) (longFrame 1) (length_longFrame 0)
  have hstop : stopCp ((longFrame 1).take 499) = 8 := by
    rw [stopCp, List.length_take, length_longFrame]
    rfl
  have hcut := NEIngest.protocolInputLoop_cut io
    ⟨⟨longFrame 0 ++ (longFrame 1).take 499,0⟩,true,⟨false,0,0⟩,0,some 1,[]⟩ (longFrame 0)
    (longFrame 1) _ _ ⟨true,0,0⟩ (longFrame_replayable 0) (longFrame_replayable 1).isFrame
    (List.take_append_drop 499 _).symm drop_longFrame_ne_nil take_longFrame_ne_nil rfl rfl rfl
  rw [hstop, length_longFrame] at hcut
  have hread : io.read InputBuffer.empty (longFrame 0 ++ (longFrame 1).take 499) =
      ⟨longFrame 0 ++ (longFrame 1).take 499,0⟩ := io.read_zero [] _
  rw [step, NEIngest.protocolInput, start]
  dsimp only
  rw [htake, hdrop]
  change Option.map _ (NEIngest.protocolInputLoop io _ (NEIngest.setIbuf _ (io.read InputBuffer.empty
    (longFrame 0 ++ (longFrame 1).take 499)))) = _
  rw [hread]
  exact congrArg (Option.map _) hcut

/-- Where `cp` is kept, the second call starts behind the header and finds no sync bytes. -/
theorem filling_second_call_keeping :
    step .keeping afterFilling ⟨0,fun _ => true⟩ = some
      ⟨⟨InputBuffer.empty,true,⟨true,0,0⟩,1,some 1,[longFrame 0]⟩,(longFrame 1).drop 499⟩ := by
  have hunread : InputBuffer.unread ⟨longFrame 0 ++ (longFrame 1).take 499,508⟩ =
      ((longFrame 1).take 499).drop 8 := by
    rw [InputBuffer.unread]
    dsimp only
    rw [show 508 = (longFrame 0).length+8 by rw [length_longFrame], List.drop_length_add_append]
  have hno : 0xaa ∉ ((longFrame 1).take 499).drop 8 := by
    intro hmem
    have hsub := (List.take_sublist 499 (longFrame 1)).drop 8
    exact longFrame_no_sync 1 (by decide) (hsub.subset hmem)
  rw [afterFilling, step_no_sync .keeping _ 0 _ ?_, List.drop_zero]
  · simp only [NEIngest.setIbuf]
  · rw [List.take_zero, DasIO.read, List.append_nil, DasIO.keeping]
    dsimp only [id]
    rw [hunread]
    exact hno

theorem filling_third_call_keeping :
    step .keeping
      ⟨⟨InputBuffer.empty,true,⟨true,0,0⟩,1,some 1,[longFrame 0]⟩,(longFrame 1).drop 499⟩
      ⟨999,fun _ => true⟩ = some
      ⟨⟨InputBuffer.empty,true,⟨true,0,0⟩,1,some 1,[longFrame 0]⟩,[]⟩ := by
  have hlast : (longFrame 1).drop 499 = [0] := by
    rw [longFrame, List.drop_append, List.drop_replicate]
    rfl
  rw [hlast]
  exact step_no_sync .keeping _ 999 _ (by decide)

/-- Where `cp` is restarted, it forwards the first frame again. -/
theorem filling_second_call_restarting :
    step .restarting afterFilling ⟨0,fun _ => true⟩ = some
      {afterFilling with ingest := {afterFilling.ingest with
        packetSn := 2, forwarded := [longFrame 0,longFrame 0]}} := by
  have hstop : stopCp ((longFrame 1).take 499) = 8 := by
    rw [stopCp, List.length_take, length_longFrame]
    rfl
  have hcut := NEIngest.protocolInputLoop_cut .restarting
    {afterFilling.ingest with ibuf := ⟨longFrame 0 ++ (longFrame 1).take 499 ++ [],0⟩} (longFrame 0)
    (longFrame 1) _ _ ⟨true,0,0⟩ (longFrame_replayable 0) (longFrame_replayable 1).isFrame
    (List.take_append_drop 499 _).symm drop_longFrame_ne_nil take_longFrame_ne_nil
    (by dsimp only; rw [List.append_nil]) rfl rfl
  rw [hstop, length_longFrame] at hcut
  exact congrArg (Option.map _) hcut

/-- A frame that a read cuts is lost where `cp` is kept, and the frame before it is
forwarded again where `cp` is restarted. -/
theorem replay_lost :
    (∃ r, Run.run (step .keeping) (start 0 0 1 [longFrame 0,longFrame 1]) fillingCalls = some r ∧
      r.fileRest = [] ∧ r.ingest.forwarded = [longFrame 0]) ∧
    (∃ r, Run.run (step .restarting) (start 0 0 1 [longFrame 0,longFrame 1])
        (fillingCalls.take 2) = some r ∧ r.ingest.forwarded = [longFrame 0,longFrame 0]) ∧
    ¬Run.Throughout (step .keeping) (fun h r => r.Faithful .keeping [longFrame 0,longFrame 1] h)
      (start 0 0 1 [longFrame 0,longFrame 1]) fillingCalls ∧
    ¬Run.Throughout (step .restarting)
      (fun h r => r.Faithful .restarting [longFrame 0,longFrame 1] h)
      (start 0 0 1 [longFrame 0,longFrame 1]) fillingCalls := by
  have hkeep : Run.run (step .keeping) (start 0 0 1 [longFrame 0,longFrame 1]) fillingCalls = some
      ⟨⟨InputBuffer.empty,true,⟨true,0,0⟩,1,some 1,[longFrame 0]⟩,[]⟩ := by
    rw [fillingCalls, Run.run_cons_of_step _ (filling_first_call _),
      Run.run_cons_of_step _ filling_second_call_keeping,
      Run.run_cons_of_step _ filling_third_call_keeping, Run.run_nil]
  have hrestart : Run.run (step .restarting) (start 0 0 1 [longFrame 0,longFrame 1])
      (fillingCalls.take 2) = some {afterFilling with ingest := {afterFilling.ingest with
        packetSn := 2, forwarded := [longFrame 0,longFrame 0]}} := by
    have htwo : fillingCalls.take 2 = [⟨999,fun _ => true⟩,⟨0,fun _ => true⟩] := rfl
    rw [htwo, Run.run_cons_of_step _ (filling_first_call _),
      Run.run_cons_of_step _ filling_second_call_restarting, Run.run_nil]
  refine ⟨⟨_, hkeep, rfl, rfl⟩, ⟨_, hrestart, rfl⟩, ?_, ?_⟩
  · intro hall
    obtain ⟨t, ht, hfaith⟩ := hall fillingCalls List.prefix_rfl
    obtain rfl := Option.some.inj (hkeep.symm.trans ht)
    have hlen := congrArg List.length (hfaith.complete rfl (by simp [fillingCalls]))
    simp at hlen
  · intro hall
    obtain ⟨t, ht, hfaith⟩ := hall (fillingCalls.take 2) (List.take_prefix 2 fillingCalls)
    obtain rfl := Option.some.inj (hrestart.symm.trans ht)
    obtain ⟨rest, hfile, -⟩ := hfaith.conserved
    have hsame : longFrame 1 = longFrame 0 := (List.cons.inj (List.cons.inj hfile).2).1
    have hmsecs := congrArg (List.getD · 12 0) hsame
    cases hmsecs

end Replay
end Cosmid.Nephex
