import Cosmid.NephexRcvr
import Cosmid.Run
import Cosmid.Scan
import Mathlib.Data.List.GetD

/-! The frames in the stream of the instrument: what the receiver logs depends on
the bytes alone, and what it addresses on the packet types and lengths in them. -/
namespace Cosmid.Nephex

theorem getD_append (u v : List UInt8) (i : ℕ) (h : i < u.length) :
    (u ++ v).getD i 0 = u.getD i 0 := List.getD_append u v 0 i h

theorem word_append (u v : List UInt8) (i : ℕ) (h : i+1 < u.length) :
    word (u ++ v) i = word u i := by
  rw [word, word, getD_append u v _ h, getD_append u v _ (by omega)]

/-- Two sync bytes, six bytes of header, and one byte more than its length field
says. -/
structure IsFrame (f : List UInt8) : Prop where
  sync_first : f.getD 0 0 = 0xaa
  sync_second : f.getD 1 0 = 0xaa
  length_eq : f.length = word f 6+9

/-- The front of a stream: a byte to skip, a frame, or nothing complete. -/
def frameHead (u : List UInt8) : Option (Option (List UInt8) × ℕ) :=
  if u.length < 1 then none
  else if u.getD 0 0 ≠ 0xaa then some (none, 1)
  else if u.length < 2 then none
  else if u.getD 1 0 ≠ 0xaa then some (none, 1)
  else if u.length < 8 ∨ u.length < word u 6+9 then none
  else some (some (u.take (word u 6+9)), word u 6+9)

theorem frameHead_pos (u : List UInt8) (item : Option (List UInt8)) (n : ℕ)
    (h : frameHead u = some (item, n)) : 0 < n ∧ n ≤ u.length := by
  unfold frameHead at h
  split_ifs at h <;> obtain ⟨-, rfl⟩ := Prod.mk.inj (Option.some.inj h) <;> omega

theorem frameHead_append (u v : List UInt8) (r : Option (List UInt8) × ℕ)
    (h : frameHead u = some r) : frameHead (u ++ v) = some r := by
  unfold frameHead at h ⊢
  split_ifs at h with h0 h1 h2 h3 h4
  · rw [if_neg (by rw [List.length_append]; omega), getD_append u v 0 (by omega), if_pos h1, h]
  · rw [if_neg (by rw [List.length_append]; omega), getD_append u v 0 (by omega), if_neg h1,
      if_neg (by rw [List.length_append]; omega), getD_append u v 1 (by omega), if_pos h3, h]
  · obtain ⟨h8, hlen⟩ := not_or.mp h4
    rw [if_neg (by rw [List.length_append]; omega), getD_append u v 0 (by omega), if_neg h1,
      if_neg (by rw [List.length_append]; omega), getD_append u v 1 (by omega), if_neg h3,
      word_append u v 6 (by omega), if_neg (by rw [List.length_append]; omega),
      List.take_append_of_le_length (by omega), h]

/-- The frames of a stream. -/
def frameScanner : Scanner UInt8 (List UInt8) := ⟨frameHead,frameHead_pos,frameHead_append⟩

/-- `frames u`, and what `u` leaves for later. -/
def frames (u : List UInt8) : List (List UInt8) := (frameScanner.scan u).1
def leftover (u : List UInt8) : List UInt8 := (frameScanner.scan u).2

theorem frames_nil : frames [] = [] := by
  rw [frames, frameScanner.scan_none rfl]

theorem leftover_nil : leftover [] = [] := by
  rw [leftover, frameScanner.scan_none rfl]

theorem frames_append (u v : List UInt8) : frames (u ++ v) = frames u ++ frames (leftover u ++ v) := by
  rw [frames, frameScanner.scan_append]
  rfl

theorem leftover_append (u v : List UInt8) : leftover (u ++ v) = leftover (leftover u ++ v) := by
  rw [leftover, frameScanner.scan_append]
  rfl

theorem frameHead_isFrame (f v : List UInt8) (h : IsFrame f) :
    frameHead (f ++ v) = some (some f, f.length) := by
  refine frameHead_append f v _ ?_
  have hlen := h.length_eq
  rw [frameHead, if_neg (by omega), if_neg (not_not.mpr h.sync_first), if_neg (by omega),
    if_neg (not_not.mpr h.sync_second), if_neg (by omega), ← hlen, List.take_length]

/-- A stream of frames consists of these frames. -/
theorem scan_flatten_frames (fs : List (List UInt8)) (h : ∀ f ∈ fs, IsFrame f) :
    frameScanner.scan fs.flatten = (fs, []) := by
  have hscan := frameScanner.scan_flatten id fs (fun f hf v => frameHead_isFrame f v (h f hf)) rfl
  rwa [List.map_id] at hscan

theorem scan_skip (pre u : List UInt8) (h : 0xaa ∉ pre) :
    frameScanner.scan (pre ++ u) = frameScanner.scan u := by
  induction pre with
  | nil => rfl
  | cons b pre ih =>
    have hb : b ≠ 0xaa := fun hb => h (by simp [hb])
    have hhead : frameScanner.head (b :: (pre ++ u)) = some (none, 1) := by
      simp [frameScanner, frameHead, hb]
    rw [List.cons_append, frameScanner.scan_some hhead]
    exact ih (fun hp => h (by simp [hp]))

/-- A frame that the table knows how to address: its APID is in the table, or its
length is right for a packet that is not. -/
def Tabled (f : List UInt8) : Prop := word f 2%1024 ≤ maxApid ∨ word f 6 = 6

instance (f : List UInt8) : Decidable (Tabled f) := inferInstanceAs (Decidable (_ ∨ _))

namespace NephexSystem

variable {out : OutputSocket}

/-- What has been passed to `log_packet`. -/
def logged (s : NephexSystem out) : List (List UInt8) := s.rcvr.trace.filterMap NephexEvent.logged?

/-- The frames that have found the exporter clear to send. -/
def offered (s : NephexSystem out) : List (List UInt8) :=
  s.rcvr.trace.filterMap NephexEvent.offered?

/-- Every span passed on lies in the buffer. -/
def InBuffer (s : NephexSystem out) : Prop :=
  ∀ e ∈ s.rcvr.trace, ∀ span, e.span? = some span → span.InBuffer

theorem inBuffer_emit (s : NephexSystem out) (e : NephexEvent) :
    (s.emit e).InBuffer ↔ s.InBuffer ∧ ∀ span, e.span? = some span → span.InBuffer := by
  simp only [InBuffer, emit, List.forall_mem_append, List.forall_mem_singleton]

theorem logged_emit (s : NephexSystem out) (e : NephexEvent) :
    (s.emit e).logged = s.logged ++ e.logged?.toList := by
  cases h : e.logged? <;> simp [logged, emit, h]

theorem offered_emit (s : NephexSystem out) (e : NephexEvent) :
    (s.emit e).offered = s.offered ++ e.offered?.toList := by
  cases h : e.offered? <;> simp [offered, emit, h]

/-- The receiver has logged `fs`, and has left the table only for the frames among
them that are not `Tabled`. -/
structure Took (fs : List (List UInt8)) (s s' : NephexSystem out) : Prop where
  logged_eq : s'.logged = s.logged ++ fs
  inBuffer : s.InBuffer → s'.InBuffer
  inTable_iff : s'.apids.InTable ↔ s.apids.InTable ∧ ∀ f ∈ fs, Tabled f

namespace Took

theorem refl (s : NephexSystem out) (b : InputBuffer) : Took [] s (s.setIbuf b) :=
  ⟨(List.append_nil _).symm, id, by simp [setIbuf]⟩

theorem trans {fs gs : List (List UInt8)} {s t u : NephexSystem out} (h : Took fs s t)
    (h' : Took gs t u) : Took (fs ++ gs) s u := by
  refine ⟨?_, h'.inBuffer ∘ h.inBuffer, ?_⟩
  · rw [h'.logged_eq, h.logged_eq, List.append_assoc]
  · rw [h'.inTable_iff, h.inTable_iff, List.forall_mem_append, and_assoc]

end Took

theorem checkSize_spec (s : NephexSystem out) (APID len : ℕ) :
    (s.checkSize APID len).logged = s.logged ∧
    (s.InBuffer → (s.checkSize APID len).InBuffer) ∧
    (s.checkSize APID len).exp = s.exp ∧
    ((s.checkSize APID len).apids.InTable ↔
      s.apids.InTable ∧ (APID ≤ maxApid ∨ len = 6)) := by
  have hsize := s.apids.getSize_inTable APID
  have hreport := (s.apids.getSize APID).2.notReported_inTable APID
  rw [hsize] at hreport
  have hzero : APID > maxApid → (s.apids.getSize APID).1 = 0 := by
    intro h
    rw [APid.getSize, if_pos h]
  unfold checkSize
  dsimp only
  by_cases hlen : (s.apids.getSize APID).1+6 ≠ len
  · have hiff : APID ≤ maxApid ↔ APID ≤ maxApid ∨ len = 6 := by
      refine ⟨Or.inl, fun h => ?_⟩
      by_contra hgt
      have := hzero (by omega)
      omega
    rw [if_pos hlen]
    by_cases hr : ((s.apids.getSize APID).2.notReported APID).1 = true
    · rw [if_pos hr]
      refine ⟨?_, ?_, rfl, hreport.trans (and_congr_right fun _ => hiff)⟩
      · rw [logged_emit]
        exact List.append_nil _
      · intro h
        exact (inBuffer_emit _ _).mpr ⟨h, fun span hs => by cases hs⟩
    · rw [if_neg hr]
      exact ⟨rfl, id, rfl, hreport.trans (and_congr_right fun _ => hiff)⟩
  · rw [if_neg hlen]
    refine ⟨rfl, id, rfl, hsize.trans (and_iff_left ?_).symm⟩
    by_cases h : APID ≤ maxApid
    · exact Or.inl h
    · right
      have := hzero (by omega)
      omega

/-- The exporter's assertion holds, since the exporter has just been asked. -/
theorem forward_spec (serio : SerioLib) (s : NephexSystem out) (APID : ℕ) (span : Span)
    (hspan : span.InBuffer) : ∃ s', s.forward serio APID span = some s' ∧
      s'.logged = s.logged ∧ (s.InBuffer → s'.InBuffer) ∧
      (s'.apids.InTable ↔ s.apids.InTable) := by
  have htable := s.apids.okToTransmit_inTable APID
  have htlog : (s.asked APID span).logged = s.logged :=
    (logged_emit _ _).trans (List.append_nil _)
  have htbuf (h : s.InBuffer) : (s.asked APID span).InBuffer := by
    refine (inBuffer_emit _ _).mpr ⟨h, ?_⟩
    rintro _ ⟨⟩
    exact hspan
  by_cases hcts : s.exp.cts = true
  · by_cases hok : (s.apids.okToTransmit APID).1 = true
    · obtain ⟨exp, -, hs'⟩ := s.forward_sent serio APID span hcts hok
      refine ⟨_, hs', ?_, ?_, htable⟩
      · rw [logged_emit]
        exact (List.append_nil _).trans htlog
      · intro h
        refine (inBuffer_emit _ _).mpr ⟨htbuf h, ?_⟩
        rintro _ ⟨⟩
        exact hspan
    · exact ⟨_, s.forward_skipped serio APID span hcts hok, htlog, htbuf, htable⟩
  · exact ⟨s, s.forward_held serio APID span hcts, rfl, id, Iff.rfl⟩

/-- What the span of a frame at `q` is: all of it, since the buffer has less than 2^16 bytes. -/
theorem ofBuffer_frame (b : InputBuffer) (q : ℕ) (f rest : List UInt8) (hf : IsFrame f)
    (hdrop : b.buf.drop q = f ++ rest) (hcp : b.cp = q+8) (hfit : b.nc < rcvrBufsize) :
    b.cp-8+(word f 6+9) ≤ b.nc ∧ (Span.ofBuffer b (b.cp-8) (word f 6+9)).bytes = f := by
  have hlen := hf.length_eq
  have hnc := congrArg List.length hdrop
  rw [List.length_drop, List.length_append] at hnc
  have hq : b.cp-8 = q := by omega
  have hncdef : b.nc = b.buf.length := rfl
  unfold rcvrBufsize at hfit
  refine ⟨by omega, ?_⟩
  rw [Span.ofBuffer, hq, hdrop, u16, Nat.mod_eq_of_lt (by omega), ← hlen, List.take_left]

/-- A complete frame at `q`. -/
theorem takeFrame_spec (serio : SerioLib) (s : NephexSystem out) (q : ℕ) (f rest : List UInt8)
    (hf : IsFrame f) (hdrop : s.rcvr.ibuf.buf.drop q = f ++ rest) (hcp : s.rcvr.ibuf.cp = q+8)
    (hfit : s.rcvr.ibuf.nc < rcvrBufsize) :
    ∃ s', s.takeFrame serio (word f 2%1024) (word f 6) = some s' ∧ Took [f] s s' := by
  have hlen := hf.length_eq
  obtain ⟨hend, hbytes⟩ := ofBuffer_frame s.rcvr.ibuf q f rest hf hdrop hcp hfit
  have hspan : (Span.ofBuffer s.rcvr.ibuf (s.rcvr.ibuf.cp-8) (word f 6+9)).InBuffer := by
    unfold rcvrBufsize at hfit
    refine ⟨?_, ?_⟩ <;> dsimp only [Span.ofBuffer] <;> omega
  obtain ⟨hlog, hbuf, -, htable⟩ := s.checkSize_spec (word f 2%1024) (word f 6)
  unfold takeFrame
  dsimp only
  generalize Span.ofBuffer s.rcvr.ibuf (s.rcvr.ibuf.cp-8) (word f 6+9) = span at *
  obtain ⟨t, ht, htlog, htbuf, httable⟩ :=
    ((s.checkSize (word f 2%1024) (word f 6)).emit (.logPacket span)).forward_spec serio
      (word f 2%1024) span hspan
  rw [ht]
  refine ⟨_, rfl, ?_, ?_, ?_⟩
  · change t.logged = _
    rw [htlog, logged_emit, hlog, ← hbytes]
    rfl
  · intro h
    refine htbuf ((inBuffer_emit _ _).mpr ⟨hbuf h, ?_⟩)
    rintro _ ⟨⟩
    exact hspan
  · rw [List.forall_mem_singleton]
    exact httable.trans htable

/-- One turn of the loop takes the piece of the stream that the scan takes: it stops, skips
something, or takes the frame at `q`. -/
theorem loopBody_cases (io : DasIO) (serio : SerioLib) (s : NephexSystem out) :
    (∃ b, s.loopBody io serio = some (s.setIbuf b, false) ∧
      frameScanner.scan s.rcvr.ibuf.unread = ([], b.unread)) ∨
    (∃ b, s.loopBody io serio = some (s.setIbuf b, true) ∧ b.buf = s.rcvr.ibuf.buf ∧
      frameScanner.scan s.rcvr.ibuf.unread = frameScanner.scan b.unread) ∨
    ∃ q f rest, IsFrame f ∧ s.rcvr.ibuf.buf.drop q = f ++ rest ∧
      s.loopBody io serio = (takeFrame serio (s.setIbuf ⟨s.rcvr.ibuf.buf,q+8⟩) (word f 2%1024)
        (word f 6)).map (fun s => (s, true)) ∧
      frameScanner.scan s.rcvr.ibuf.unread = (f :: frames rest, leftover rest) := by
  rcases io.notFound_cases 0xaa s.rcvr.ibuf with ⟨hno, hm⟩ | ⟨pre, post, hsplit, hpre, -⟩
  · refine Or.inl ⟨InputBuffer.empty, by simp only [loopBody, hm], ?_⟩
    rw [← List.append_nil s.rcvr.ibuf.unread, scan_skip _ _ hno]
    exact frameScanner.scan_none rfl
  · rw [loopBody_hit io serio s pre _ hsplit hpre rfl, hsplit, scan_skip _ _ hpre]
    dsimp only
    have hsync : (0xaa :: post).getD 0 0 = 0xaa := rfl
    have hdrop : s.rcvr.ibuf.buf.drop (s.rcvr.ibuf.cp+pre.length) = 0xaa :: post := by
      rw [← List.drop_drop, show s.rcvr.ibuf.buf.drop _ = _ from hsplit, List.drop_left]
    have hpos : ¬(0xaa :: post).length < 1 := by simp
    generalize (0xaa :: post) = w at *
    generalize s.rcvr.ibuf.cp+pre.length = q at *
    by_cases hskip : 1 < w.length ∧ w.getD 1 0 ≠ 0xaa
    · -- A single sync byte: both go on behind it.
      have hhead : frameScanner.head w = some (none, 1) := by
        change frameHead w = _
        rw [frameHead, if_neg hpos, if_neg (not_not.mpr hsync), if_neg (by omega),
          if_pos hskip.2]
      rw [if_pos hskip]
      refine Or.inr (Or.inl ⟨_, rfl, rfl, ?_⟩)
      rw [frameScanner.scan_some hhead, InputBuffer.unread, ← List.drop_drop, hdrop]
      rfl
    · rw [if_neg hskip]
      have hsecond : ¬w.length < 2 → ¬w.getD 1 0 ≠ 0xaa := fun h hne => hskip ⟨by omega, hne⟩
      by_cases hwait : w.length < 8 ∨ w.length < word w 6+9
      · -- An incomplete frame: both stop in front of it.
        have hhead : frameScanner.head w = none := by
          change frameHead w = _
          rw [frameHead, if_neg hpos, if_neg (not_not.mpr hsync)]
          by_cases hone : w.length < 2
          · rw [if_pos hone]
          · rw [if_neg hone, if_neg (hsecond hone), if_pos hwait]
        rw [if_pos hwait]
        refine Or.inl ⟨_, rfl, ?_⟩
        rw [frameScanner.scan_none hhead, ← hdrop]
        rfl
      · obtain ⟨h8, hlen⟩ := not_or.mp hwait
        have hhead : frameScanner.head w =
            some (some (w.take (word w 6+9)), word w 6+9) := by
          change frameHead w = _
          rw [frameHead, if_neg hpos, if_neg (not_not.mpr hsync), if_neg (by omega),
            if_neg (hsecond (by omega)), if_neg hwait]
        have hword (i : ℕ) (hi : i+1 < word w 6+9) : word (w.take (word w 6+9)) i = word w i := by
          have h := word_append (w.take (word w 6+9)) (w.drop (word w 6+9)) i
            (by rw [List.length_take]; omega)
          rw [List.take_append_drop] at h
          exact h.symm
        have hget (i : ℕ) (hi : i < 2) : (w.take (word w 6+9)).getD i 0 = w.getD i 0 := by
          have h := getD_append (w.take (word w 6+9)) (w.drop (word w 6+9)) i
            (by rw [List.length_take]; omega)
          rw [List.take_append_drop] at h
          exact h.symm
        refine Or.inr (Or.inr ⟨q, w.take (word w 6+9), w.drop (word w 6+9), ⟨?_, ?_, ?_⟩, ?_, ?_, ?_⟩)
        · rw [hget 0 (by omega)]
          exact hsync
        · rw [hget 1 (by omega)]
          exact not_not.mp (hsecond (by omega))
        · rw [List.length_take_of_le (by omega), hword 6 (by omega)]
        · rw [hdrop, List.take_append_drop]
        · rw [if_neg hwait, hword 2 (by omega), hword 6 (by omega)]
        · rw [frameScanner.scan_some hhead]
          rfl

/-- The rule for the loop: it takes the frames of the unread bytes, one by one, and leaves
the rest. What holds from the state before to the state after one frame, and across the steps
that only move `cp`, then holds across the call. -/
theorem protocolInputLoop_rule (io : DasIO) (serio : SerioLib)
    {R : List (List UInt8) → NephexSystem out → NephexSystem out → Prop}
    (hrefl : ∀ s b, R [] s (s.setIbuf b))
    (htrans : ∀ fs gs s t u, R fs s t → R gs t u → R (fs ++ gs) s u)
    (hframe : ∀ s q f rest, IsFrame f → s.rcvr.ibuf.buf.drop q = f ++ rest →
      s.rcvr.ibuf.cp = q+8 → s.rcvr.ibuf.nc < rcvrBufsize →
        ∃ s', takeFrame serio s (word f 2%1024) (word f 6) = some s' ∧ R [f] s s')
    (s : NephexSystem out) (hfit : s.rcvr.ibuf.nc < rcvrBufsize) :
    ∃ s', s.protocolInputLoop io serio = some s' ∧
      s'.rcvr.ibuf = ⟨leftover s.rcvr.ibuf.unread,0⟩ ∧ R (frames s.rcvr.ibuf.unread) s s' := by
  have hfinish (s : NephexSystem out) : s.finish io = s.setIbuf ⟨s.rcvr.ibuf.unread,0⟩ := by
    rw [finish, io.reportOk_parsed]
  induction hn : s.rcvr.ibuf.unread.length using Nat.strongRecOn generalizing s with
  | _ n ih =>
    rw [protocolInputLoop]
    by_cases hlt : s.rcvr.ibuf.cp < s.rcvr.ibuf.nc
    · rw [if_pos hlt]
      rcases s.loopBody_cases io serio with
        ⟨b, hb, hscan⟩ | ⟨b, hb, hbuf, hscan⟩ | ⟨q, f, rest, hf, hdrop, hb, hscan⟩
      · refine ⟨(s.setIbuf b).finish io, ?_, ?_, ?_⟩
        · split <;> simp_all
        · rw [hfinish, leftover, hscan]
          rfl
        · rw [frames, hscan, hfinish]
          exact htrans [] [] _ _ _ (hrefl s b) (hrefl _ _)
      · have hless := loopBody_again io serio s _ hb
        obtain ⟨s', hs', hib, hR⟩ := ih _ (by omega) (s.setIbuf b)
          (by rw [InputBuffer.nc, setIbuf, hbuf]; exact hfit) rfl
        refine ⟨s', ?_, ?_, ?_⟩
        · split <;> simp_all
        · rw [leftover, hscan]
          exact hib
        · rw [frames, hscan]
          exact htrans [] _ _ _ _ (hrefl s b) hR
      · obtain ⟨t, ht, hRt⟩ := hframe (s.setIbuf ⟨s.rcvr.ibuf.buf,q+8⟩) q f rest hf hdrop rfl hfit
        rw [ht] at hb
        have hless := loopBody_again io serio s t hb
        have hib := takeFrame_ibuf serio _ t _ _ ht
        have hunread : t.rcvr.ibuf.unread = rest := by
          have hq : q+8+(word f 6+1) = q+f.length := by rw [hf.length_eq]; omega
          rw [hib, setIbuf, hq, InputBuffer.unread, ← List.drop_drop, hdrop, List.drop_left]
        obtain ⟨s', hs', hib', hR⟩ := ih _ (by omega) t
          (by rw [InputBuffer.nc, hib]; exact hfit) rfl
        rw [hunread] at hib' hR
        refine ⟨s', ?_, ?_, ?_⟩
        · split <;> simp_all
        · rw [leftover, hscan]
          exact hib'
        · rw [frames, hscan]
          exact htrans [] _ _ _ _ (hrefl s _) (htrans [f] _ _ _ _ hRt hR)
    · rw [if_neg hlt]
      have hnil : s.rcvr.ibuf.unread = [] := by
        rw [← List.length_eq_zero_iff, InputBuffer.length_unread]
        omega
      refine ⟨s.finish io, rfl, ?_, ?_⟩
      · rw [hfinish, hnil, leftover, frameScanner.scan_none rfl]
        rfl
      · rw [hnil, frames, frameScanner.scan_none rfl, hfinish]
        exact hrefl s _

/-- The loop takes the frames of the unread bytes and leaves the rest. -/
theorem protocolInputLoop_spec (io : DasIO) (serio : SerioLib) (s : NephexSystem out)
    (hfit : s.rcvr.ibuf.nc < rcvrBufsize) :
    ∃ s', s.protocolInputLoop io serio = some s' ∧
      s'.rcvr.ibuf = ⟨leftover s.rcvr.ibuf.unread,0⟩ ∧ Took (frames s.rcvr.ibuf.unread) s s' :=
  protocolInputLoop_rule io serio Took.refl (fun _ _ _ _ _ => Took.trans)
    (fun s q f rest hf hdrop hcp hfit => takeFrame_spec serio s q f rest hf hdrop hcp hfit) s hfit

/-- The bytes read in a run. -/
def inputOf (es : List (NephexInput out)) : List UInt8 :=
  es.flatMap fun | .read bytes => bytes | _ => []

/-- A read brings in no more than fits behind what is in the buffer. -/
def Fits (s : NephexSystem out) : NephexInput out → Prop
  | .read bytes => s.rcvr.ibuf.nc+bytes.length < rcvrBufsize
  | _ => True

/-- A read with the parse position at the front. -/
theorem read_spec (io : DasIO) (serio : SerioLib) (s : NephexSystem out) (d bytes : List UInt8)
    (hibuf : s.rcvr.ibuf = ⟨d,0⟩) (hfit : s.Fits (.read bytes)) :
    ∃ s', s.step io serio (.read bytes) = some s' ∧ s'.rcvr.ibuf = ⟨leftover (d ++ bytes),0⟩ ∧
      Took (frames (d ++ bytes)) s s' := by
  have hnc : (d ++ bytes).length < rcvrBufsize := by
    have hlen : s.rcvr.ibuf.nc = d.length := by rw [hibuf, InputBuffer.nc_mk]
    rw [List.length_append, ← hlen]
    exact hfit
  obtain ⟨s', hs', hib, htook⟩ := protocolInputLoop_spec io serio (s.setIbuf ⟨d ++ bytes,0⟩) hnc
  refine ⟨s', ?_, hib, htook.logged_eq, htook.inBuffer, htook.inTable_iff⟩
  rw [step, protocolInput, hibuf, io.read_zero, hs']

/-- The invariant of every run, whatever the reads: the receiver has taken the
frames of what has been read and holds the rest. -/
structure Scanned (s0 : NephexSystem out) (es : List (NephexInput out)) (s : NephexSystem out) :
    Prop where
  ibuf_eq : s.rcvr.ibuf = ⟨leftover (inputOf es),0⟩
  took : Took (frames (inputOf es)) s0 s

theorem scanned_new (s : NephexSystem out) (h : s.rcvr = .new) : Scanned s [] s := by
  have hnil : frameScanner.scan [] = ([], []) := frameScanner.scan_none rfl
  refine ⟨?_, ?_⟩
  · rw [h, leftover, inputOf, List.flatMap_nil, hnil]
    rfl
  · rw [frames, inputOf, List.flatMap_nil, hnil]
    exact .refl s s.rcvr.ibuf

theorem inputOf_append (es : List (NephexInput out)) (e : NephexInput out) :
    inputOf (es ++ [e]) = inputOf es ++ inputOf [e] := by
  simp only [inputOf, List.flatMap_append]

/-- What happens to the exporter is nothing to the receiver. -/
theorem Scanned.exporter {s0 s : NephexSystem out} {es : List (NephexInput out)}
    (h : Scanned s0 es s) (e : NephexInput out) (hnone : inputOf [e] = [])
    (exp : NephexTcpExport out) : Scanned s0 (es ++ [e]) {s with exp := exp} := by
  refine ⟨?_, ?_⟩
  · rw [inputOf_append, hnone, List.append_nil]
    exact h.ibuf_eq
  · rw [inputOf_append, hnone, List.append_nil]
    exact ⟨h.took.logged_eq, h.took.inBuffer, h.took.inTable_iff⟩

theorem step_scanned (io : DasIO) (serio : SerioLib) (s0 : NephexSystem out)
    (es : List (NephexInput out)) (s : NephexSystem out) (e : NephexInput out)
    (h : Scanned s0 es s) (hfit : s.Fits e) :
    ∃ s', s.step io serio e = some s' ∧ Scanned s0 (es ++ [e]) s' := by
  cases e with
  | read bytes =>
    obtain ⟨s', hs', hib, htook⟩ := s.read_spec io serio _ bytes h.ibuf_eq hfit
    have hinput : inputOf (es ++ [.read bytes]) = inputOf es ++ bytes := by
      rw [inputOf_append, show inputOf [(.read bytes : NephexInput out)] = bytes from
        List.append_nil bytes]
    refine ⟨s', hs', ?_, ?_⟩
    · rw [hinput, leftover_append]
      exact hib
    · rw [hinput, frames_append]
      exact h.took.trans htook
  | ack length => exact ⟨_, rfl, h.exporter _ rfl _⟩
  | exportSocket sock => exact ⟨_, rfl, h.exporter _ rfl _⟩

/-- Any run of reads that fit. -/
theorem run_scanned (io : DasIO) (serio : SerioLib) (s : NephexSystem out) (h : s.rcvr = .new)
    (es : List (NephexInput out)) (hfit : Run.Along (step io serio) Fits s es) :
    ∃ s', Run.run (step io serio) s es = some s' ∧ Scanned s es s' :=
  Run.run_history (step io serio) Fits (Scanned s)
    (fun es t e ht hfit => step_scanned io serio s es t e ht hfit) [] s es (scanned_new s h) hfit

theorem logged_new (s : NephexSystem out) (h : s.rcvr = .new) : s.logged = [] := by
  rw [logged, h]
  rfl

/-- Two runs that read the same bytes log the same frames and hold the same rest,
however the reads divide the bytes and whatever the exporters do meanwhile. -/
theorem framing_independent (io : DasIO) (serio : SerioLib) (s t : NephexSystem out)
    (hs : s.rcvr = .new) (ht : t.rcvr = .new) (es fs : List (NephexInput out))
    (hes : Run.Along (step io serio) Fits s es) (hfs : Run.Along (step io serio) Fits t fs)
    (hsame : inputOf es = inputOf fs) :
    ∃ s' t', Run.run (step io serio) s es = some s' ∧ Run.run (step io serio) t fs = some t' ∧
      s'.logged = t'.logged ∧ s'.rcvr.ibuf.unread = t'.rcvr.ibuf.unread ∧
      ∀ frs : List (List UInt8), (∀ f ∈ frs, IsFrame f) → inputOf es = frs.flatten →
        s'.logged = frs ∧ s'.rcvr.ibuf.unread = [] := by
  obtain ⟨s', hrs, his⟩ := run_scanned io serio s hs es hes
  obtain ⟨t', hrt, hit⟩ := run_scanned io serio t ht fs hfs
  have hlogs : s'.logged = frames (inputOf es) := by
    rw [his.took.logged_eq, logged_new s hs, List.nil_append]
  have hlogt : t'.logged = frames (inputOf fs) := by
    rw [hit.took.logged_eq, logged_new t ht, List.nil_append]
  refine ⟨s', t', hrs, hrt, ?_, ?_, ?_⟩
  · rw [hlogs, hlogt, hsame]
  · rw [his.ibuf_eq, hit.ibuf_eq, hsame]
  · intro frs hframes hinput
    have hscan := scan_flatten_frames frs hframes
    refine ⟨?_, ?_⟩
    · rw [hlogs, hinput, frames, hscan]
    · rw [his.ibuf_eq, InputBuffer.unread_mk_zero, hinput, leftover, hscan]

/-- A fresh receiver, with a table that knows no packet. -/
def bare : NephexSystem .direct := ⟨.new,⟨fun _ => ⟨0,0,0,0⟩,[]⟩,.new ()⟩

/-- A packet of APID 1 with one data byte, at once and with a read that ends after
its sync bytes. -/
theorem framing_independent_sync : ∃ s' t',
    Run.run (step DasIO.keeping SerioLib.packed) bare
      [.read [0xaa, 0xaa], .read [1, 0, 0, 0, 0, 0, 0x55]] = some s' ∧
    Run.run (step DasIO.keeping SerioLib.packed) bare
      [.read [0xaa, 0xaa, 1, 0, 0, 0, 0, 0, 0x55]] = some t' ∧
    s'.logged = t'.logged ∧ s'.logged = [[0xaa, 0xaa, 1, 0, 0, 0, 0, 0, 0x55]] := by
  have hframe : ∀ f ∈ [([0xaa, 0xaa, 1, 0, 0, 0, 0, 0, 0x55] : List UInt8)], IsFrame f := by
    intro f hf
    obtain rfl := List.mem_singleton.mp hf
    exact ⟨rfl, rfl, rfl⟩
  have hfit : Run.Along (step DasIO.keeping SerioLib.packed) Fits bare
      [.read [0xaa, 0xaa], .read [1, 0, 0, 0, 0, 0, 0x55]] := by
    refine ⟨by rw [Fits]; decide, fun t ht => ⟨?_, fun _ _ => trivial⟩⟩
    obtain ⟨t', ht', hi⟩ := step_scanned DasIO.keeping SerioLib.packed bare [] bare
      (.read [0xaa, 0xaa]) (scanned_new _ rfl) (by rw [Fits]; decide)
    obtain rfl := Option.some.inj (ht.symm.trans ht')
    have hrest : leftover [0xaa, 0xaa] = [0xaa, 0xaa] := by rw [leftover, frameScanner.scan_none rfl]
    have hib : t.rcvr.ibuf = ⟨leftover [0xaa, 0xaa],0⟩ := hi.ibuf_eq
    rw [Fits, hib, hrest]
    decide
  obtain ⟨s', t', hs, ht, hlog, -, hexact⟩ := framing_independent DasIO.keeping SerioLib.packed
    bare bare rfl rfl _ [.read [0xaa, 0xaa, 1, 0, 0, 0, 0, 0, 0x55]] hfit
    ⟨by rw [Fits]; decide, fun _ _ => trivial⟩ rfl
  exact ⟨s', t', hs, ht, hlog, (hexact _ hframe rfl).1⟩

/-- The table has been addressed inside its bounds, and every span passed on lies
in the buffer. -/
structure Safe (s : NephexSystem out) : Prop where
  inTable : s.apids.InTable
  inBuffer : s.InBuffer

theorem Scanned.safe_iff {s0 s : NephexSystem out} {es : List (NephexInput out)}
    (h : Scanned s0 es s) (h0 : s0.Started) : s.Safe ↔ ∀ f ∈ frames (inputOf es), Tabled f := by
  have htable : s0.apids.InTable := by
    obtain ⟨memory, hnew⟩ := h0.apids_new
    obtain ⟨t, ht, huses⟩ := APid.new_isSome memory
    obtain rfl := Option.some.inj (hnew.symm.trans ht)
    intro APID hmem
    rw [huses] at hmem
    cases hmem
  have hbuf : s0.InBuffer := by
    intro e he
    rw [h0.rcvr_eq] at he
    cases he
  constructor
  · exact fun hsafe => (h.took.inTable_iff.mp hsafe.inTable).2
  · exact fun htabled => ⟨h.took.inTable_iff.mpr ⟨htable, htabled⟩, h.took.inBuffer hbuf⟩

/-- The table and the buffer are never left if and only if every frame in the
stream is one that the table can address. -/
theorem tables_safe_iff (io : DasIO) (serio : SerioLib) (s : NephexSystem out) (h : s.Started)
    (es : List (NephexInput out)) (hfit : Run.Along (step io serio) Fits s es) :
    Run.Throughout (step io serio) (fun _ t => Safe t) s es ↔
      ∀ f ∈ frames (inputOf es), Tabled f := by
  constructor
  · intro hsafe
    obtain ⟨s', hr, hi⟩ := run_scanned io serio s h.rcvr_eq es hfit
    obtain ⟨t, ht, hst⟩ := hsafe es List.prefix_rfl
    obtain rfl := Option.some.inj (hr.symm.trans ht)
    exact (hi.safe_iff h).mp hst
  · rintro htabled fs ⟨gs, rfl⟩
    obtain ⟨s', hr, hi⟩ := run_scanned io serio s h.rcvr_eq fs
      (Run.along_of_isPrefix _ s fs _ (List.prefix_append fs gs) hfit)
    refine ⟨s', hr, (hi.safe_iff h).mpr ?_⟩
    intro f hf
    apply htabled
    rw [inputOf, List.flatMap_append, frames_append]
    exact List.mem_append_left _ hf

theorem started_exists : ∃ s : NephexSystem .direct, s.Started := by
  obtain ⟨apids, hnew, -⟩ := APid.new_isSome fun _ => ⟨0,0,0,0⟩
  exact ⟨⟨.new,apids,.new ()⟩, rfl, _, hnew⟩

theorem frames_single (f : List UInt8) (h : IsFrame f) : frames f = [f] := by
  have hscan := scan_flatten_frames [f] (by simpa using h)
  rw [List.flatten_cons, List.flatten_nil, List.append_nil] at hscan
  rw [frames, hscan]

/-- A packet of APID 1. -/
theorem tables_safe_accel : ∃ s : NephexSystem .direct, s.Started ∧
    Run.Throughout (step DasIO.keeping SerioLib.packed) (fun _ t => Safe t) s
      [.read [0xaa, 0xaa, 1, 0, 0, 0, 0, 0, 0x55]] := by
  obtain ⟨s, hs⟩ := started_exists
  refine ⟨s, hs, (tables_safe_iff DasIO.keeping SerioLib.packed s hs
    [.read [0xaa, 0xaa, 1, 0, 0, 0, 0, 0, 0x55]]
    ⟨by rw [Fits, hs.rcvr_eq]; decide, fun _ _ => trivial⟩).mpr ?_⟩
  rw [inputOf, List.flatMap_singleton, frames_single _ ⟨rfl, rfl, rfl⟩, List.forall_mem_singleton]
  decide

/-- The first APID behind the table, with a length that is not the one expected. -/
theorem stray_apid : ∃ s : NephexSystem .direct, s.Started ∧
    Run.Along (step DasIO.keeping SerioLib.packed) Fits s
      [.read [0xaa, 0xaa, 0x98, 0, 0, 0, 0, 0, 0]] ∧
    ¬Run.Throughout (step DasIO.keeping SerioLib.packed) (fun _ t => Safe t) s
      [.read [0xaa, 0xaa, 0x98, 0, 0, 0, 0, 0, 0]] := by
  obtain ⟨s, hs⟩ := started_exists
  have hfit : Run.Along (step DasIO.keeping SerioLib.packed) Fits s
      [.read [0xaa, 0xaa, 0x98, 0, 0, 0, 0, 0, 0]] :=
    ⟨by rw [Fits, hs.rcvr_eq]; decide, fun _ _ => trivial⟩
  refine ⟨s, hs, hfit, fun hsafe => ?_⟩
  obtain ⟨s', hr, hi⟩ := run_scanned _ _ s hs.rcvr_eq _ hfit
  obtain ⟨t, ht, hst⟩ := hsafe _ List.prefix_rfl
  obtain rfl := Option.some.inj (hr.symm.trans ht)
  have htabled := (hi.safe_iff hs).mp hst
  rw [inputOf, List.flatMap_singleton, frames_single _ ⟨rfl, rfl, rfl⟩,
    List.forall_mem_singleton] at htabled
  exact absurd htabled (by decide)

end NephexSystem
end Cosmid.Nephex
