import Cosmid.NephexFraming

/-! Whether the receiver gets on when its input buffer is full: a length field is
taken as it comes, so it can ask for more than the buffer holds. -/
namespace Cosmid.Nephex

/-- A sync word at the front, and a length field behind it that asks for a frame
which a full buffer does not hold. -/
structure Oversized (u : List UInt8) : Prop where
  sync_first : u.getD 0 0 = 0xaa
  sync_second : u.getD 1 0 = 0xaa
  length_gt : rcvrBufsize-1 < word u 6+9

/-- A complete frame at the front is not oversized. -/
theorem not_oversized_frame (f v : List UInt8) (hf : IsFrame f) (hlen : f.length < rcvrBufsize) :
    ¬Oversized (f ++ v) := by
  intro ho
  have hlong := ho.length_gt
  have hword := hf.length_eq
  rw [word_append f v 6 (by omega)] at hlong
  omega

/-- More input does not make an oversized frame smaller. -/
theorem Oversized.append {u : List UInt8} (h : Oversized u) (hlen : 8 ≤ u.length)
    (v : List UInt8) : Oversized (u ++ v) := by
  refine ⟨?_, ?_, ?_⟩
  · rw [getD_append u v 0 (by omega)]
    exact h.sync_first
  · rw [getD_append u v 1 (by omega)]
    exact h.sync_second
  · rw [word_append u v 6 (by omega)]
    exact h.length_gt

theorem frameHead_eq_none_iff (u : List UInt8) (hlen : 8 ≤ u.length) : frameHead u = none ↔
    u.getD 0 0 = 0xaa ∧ u.getD 1 0 = 0xaa ∧ u.length < word u 6+9 := by
  unfold frameHead
  rw [if_neg (by omega)]
  constructor
  · intro h
    split_ifs at h with h1 h2 h3 h4
    · omega
    · exact ⟨not_not.mp h1, not_not.mp h3, by omega⟩
  · rintro ⟨h1, h2, h3⟩
    rw [if_neg (not_not.mpr h1), if_neg (by omega), if_neg (not_not.mpr h2), if_pos (Or.inr h3)]

/-- The receiver leaves a full buffer as it is exactly with an oversized frame at
its front, false or not. -/
theorem leftover_lt_iff (u : List UInt8) (hfull : u.length = rcvrBufsize-1) :
    (leftover u).length < rcvrBufsize-1 ↔ ¬Oversized u := by
  have h8 : 8 ≤ u.length := by
    rw [hfull]
    decide
  rw [← hfull, leftover, frameScanner.length_rest_lt_iff]
  refine not_congr ((frameHead_eq_none_iff u h8).trans ?_)
  rw [hfull]
  exact ⟨fun h => ⟨h.1, h.2.1, h.2.2⟩, fun h => ⟨h.sync_first, h.sync_second, h.length_gt⟩⟩

namespace NephexSystem

variable {out : OutputSocket}

/-- One call of `protocol_input` with nothing but unparsed bytes in a full buffer. -/
theorem protocolInputLoop_full (io : DasIO) (serio : SerioLib) (s : NephexSystem out)
    (hcp : s.rcvr.ibuf.cp = 0) (hfull : s.rcvr.ibuf.nc = rcvrBufsize-1) :
    ∃ s', s.protocolInputLoop io serio = some s' ∧
      (s'.rcvr.ibuf.nc < s.rcvr.ibuf.nc ↔ ¬Oversized s.rcvr.ibuf.buf) := by
  have hroom : rcvrBufsize-1 < rcvrBufsize := by decide
  have hunread : s.rcvr.ibuf.unread = s.rcvr.ibuf.buf := by
    rw [InputBuffer.unread, hcp, List.drop_zero]
  obtain ⟨s', hs', hib, -⟩ := protocolInputLoop_spec io serio s (by omega)
  refine ⟨s', hs', ?_⟩
  rw [hib, InputBuffer.nc_mk, hunread, hfull]
  exact leftover_lt_iff _ hfull

/-- No read fills the buffer with an oversized frame at its front. -/
def KeepsGoing (s : NephexSystem out) (e : NephexInput out) : Prop :=
  ∀ bytes, e = .read bytes → s.rcvr.ibuf.nc+bytes.length = rcvrBufsize-1 →
    ¬Oversized (s.rcvr.ibuf.buf ++ bytes)

/-- Between two calls everything in the buffer is unparsed, and there is room. -/
structure Reading (s : NephexSystem out) : Prop where
  cp_eq : s.rcvr.ibuf.cp = 0
  room : s.rcvr.ibuf.nc < rcvrBufsize-1

theorem reading_new (s : NephexSystem out) (h : s.rcvr = .new) : s.Reading := by
  have hroom : 0 < rcvrBufsize-1 := by decide
  refine ⟨?_, ?_⟩
  · rw [h]
    rfl
  · rw [h]
    exact hroom

/-- One read, and what it leaves in the buffer. -/
theorem step_read (io : DasIO) (serio : SerioLib) (s : NephexSystem out) (bytes : List UInt8)
    (h : s.Reading) (hfit : s.Fits (.read bytes)) :
    ∃ s', s.step io serio (.read bytes) = some s' ∧ s'.rcvr.ibuf.cp = 0 ∧
      (s'.rcvr.ibuf.nc < rcvrBufsize-1 ↔ s.KeepsGoing (.read bytes)) := by
  have hnc : (s.rcvr.ibuf.buf ++ bytes).length = s.rcvr.ibuf.nc+bytes.length :=
    List.length_append
  have hib : s.rcvr.ibuf = ⟨s.rcvr.ibuf.buf,0⟩ := by rw [← h.cp_eq]
  obtain ⟨s', hs', hib', -⟩ := s.read_spec io serio _ bytes hib hfit
  rw [Fits] at hfit
  refine ⟨s', hs', by rw [hib'], ?_⟩
  have hkeeps : s.KeepsGoing (.read bytes) ↔ (s.rcvr.ibuf.nc+bytes.length = rcvrBufsize-1 →
      ¬Oversized (s.rcvr.ibuf.buf ++ bytes)) := by
    constructor
    · exact fun hg => hg bytes rfl
    · rintro hg _ ⟨⟩
      exact hg
  rw [hib', hkeeps, InputBuffer.nc_mk]
  by_cases hfull : s.rcvr.ibuf.nc+bytes.length = rcvrBufsize-1
  · rw [leftover_lt_iff _ (hnc.trans hfull)]
    exact ⟨fun hn _ => hn, fun hn => hn hfull⟩
  · have hle := frameScanner.length_rest_le (s.rcvr.ibuf.buf ++ bytes)
    refine iff_of_true ?_ fun hf => absurd hf hfull
    rw [leftover]
    omega

theorem step_other_ibuf (io : DasIO) (serio : SerioLib) (s : NephexSystem out)
    (e : NephexInput out) (hnot : ∀ bytes, e ≠ .read bytes) :
    ∃ s', s.step io serio e = some s' ∧ s'.rcvr = s.rcvr := by
  cases e with
  | read bytes => exact absurd rfl (hnot bytes)
  | ack length => exact ⟨_, rfl, rfl⟩
  | exportSocket sock => exact ⟨_, rfl, rfl⟩

theorem step_reading (io : DasIO) (serio : SerioLib) (s : NephexSystem out)
    (e : NephexInput out) (h : s.Reading) (hfit : s.Fits e) (hgood : s.KeepsGoing e) :
    ∃ s', s.step io serio e = some s' ∧ s'.Reading := by
  by_cases hread : ∃ bytes, e = .read bytes
  · obtain ⟨bytes, rfl⟩ := hread
    obtain ⟨s', hs', hcp, hiff⟩ := step_read io serio s bytes h hfit
    exact ⟨s', hs', hcp, hiff.mpr hgood⟩
  · obtain ⟨s', hs', hr⟩ := step_other_ibuf io serio s e fun bytes he => hread ⟨bytes, he⟩
    exact ⟨s', hs', by rw [hr]; exact h.cp_eq, by rw [hr]; exact h.room⟩

/-- Any run of reads that fit: the receiver always has room for the next read
exactly if no read fills the buffer behind an oversized frame. -/
theorem run_room_iff (io : DasIO) (serio : SerioLib) (s : NephexSystem out)
    (h : s.rcvr = .new) (es : List (NephexInput out))
    (hfit : Run.Along (step io serio) Fits s es) :
    Run.Throughout (step io serio) (fun _ t => t.rcvr.ibuf.nc < rcvrBufsize-1) s es ↔
      Run.Along (step io serio) KeepsGoing s es := by
  refine Run.throughout_iff_along (step io serio) Fits KeepsGoing (fun _ t => t.Reading)
    (fun _ t => t.rcvr.ibuf.nc < rcvrBufsize-1) (fun _ t ht => ht.room) ?_ ?_ s es
    (reading_new s h) hfit
  · intro _ t e ht hfits hgood
    exact step_reading io serio t e ht hfits hgood
  · intro _ t e t' ht hfits hbad hstep hroom
    apply hbad
    intro bytes he
    subst he
    obtain ⟨t'', ht'', -, hiff⟩ := step_read io serio t bytes ht hfits
    obtain rfl := Option.some.inj (hstep.symm.trans ht'')
    exact hiff.mp hroom bytes rfl

/-- A full buffer gets shorter with one call, unless a sync word at its front asks
for a frame that it cannot hold; and a stream takes the receiver's room away only
by filling the buffer behind such a front. -/
theorem full_buffer_progress_iff (io : DasIO) (serio : SerioLib) :
    (∀ s : NephexSystem out, s.rcvr.ibuf.cp = 0 → s.rcvr.ibuf.nc = rcvrBufsize-1 →
      ∃ s', s.protocolInputLoop io serio = some s' ∧
        (s'.rcvr.ibuf.nc < s.rcvr.ibuf.nc ↔ ¬Oversized s.rcvr.ibuf.buf)) ∧
    ∀ s : NephexSystem out, s.rcvr = .new → ∀ es, Run.Along (step io serio) Fits s es →
      (Run.Throughout (step io serio) (fun _ t => t.rcvr.ibuf.nc < rcvrBufsize-1) s es ↔
        Run.Along (step io serio) KeepsGoing s es) :=
  ⟨fun s hcp hfull => protocolInputLoop_full io serio s hcp hfull,
    fun s h es hfit => run_room_iff io serio s h es hfit⟩

/-- A packet with one data byte in front of zeros that fill the buffer: the call gets on,
and a read that brings it all leaves room. -/
theorem full_buffer_progress_packet :
    (∃ s', protocolInputLoop DasIO.keeping SerioLib.packed (bare.setIbuf
        ⟨[0xaa, 0xaa, 1, 0, 0, 0, 0, 0, 0x55] ++ List.replicate 49990 0,0⟩) = some s' ∧
      s'.rcvr.ibuf.nc < rcvrBufsize-1) ∧
    Run.Throughout (step DasIO.keeping SerioLib.packed)
      (fun _ t => t.rcvr.ibuf.nc < rcvrBufsize-1) bare
      [.read ([0xaa, 0xaa, 1, 0, 0, 0, 0, 0, 0x55] ++ List.replicate 49990 0)] := by
  have hlen : ([0xaa, 0xaa, 1, 0, 0, 0, 0, 0, 0x55] ++ List.replicate 49990 0 :
      List UInt8).length = rcvrBufsize-1 := by
    rw [List.length_append, List.length_replicate, rcvrBufsize]
    rfl
  have hnot := not_oversized_frame [0xaa, 0xaa, 1, 0, 0, 0, 0, 0, 0x55] (List.replicate 49990 0)
    ⟨rfl, rfl, rfl⟩ (by decide)
  generalize ([0xaa, 0xaa, 1, 0, 0, 0, 0, 0, 0x55] ++ List.replicate 49990 0 :
    List UInt8) = full at *
  obtain ⟨hcall, hrun⟩ := @full_buffer_progress_iff .direct DasIO.keeping SerioLib.packed
  refine ⟨?_, (hrun bare rfl [.read full] ⟨?_, fun _ _ => trivial⟩).mpr ⟨?_, fun _ _ => trivial⟩⟩
  · obtain ⟨s', hs', hiff⟩ := hcall (bare.setIbuf ⟨full,0⟩) rfl hlen
    refine ⟨s', hs', ?_⟩
    rw [← hlen]
    exact hiff.mpr hnot
  · have hroom : rcvrBufsize-1 < rcvrBufsize := by decide
    have hempty : (bare.rcvr.ibuf.nc) = 0 := rfl
    rw [Fits, hempty, hlen]
    omega
  · rintro bytes hb -
    obtain rfl := NephexInput.read.inj hb
    exact hnot

/-- A sync word with the greatest length field, in front of zeros that fill the
buffer: the call leaves every byte where it is. -/
theorem full_buffer_stuck : ∃ s', protocolInputLoop DasIO.keeping SerioLib.packed (bare.setIbuf
      ⟨[0xaa, 0xaa, 0, 0, 0, 0, 0xff, 0xff] ++ List.replicate 49991 0,0⟩) = some s' ∧
    (bare.setIbuf ⟨[0xaa, 0xaa, 0, 0, 0, 0, 0xff, 0xff] ++
      List.replicate 49991 0,0⟩).rcvr.ibuf.nc = rcvrBufsize-1 ∧
    ¬s'.rcvr.ibuf.nc < rcvrBufsize-1 := by
  have hlen : ([0xaa, 0xaa, 0, 0, 0, 0, 0xff, 0xff] ++ List.replicate 49991 0 :
      List UInt8).length = rcvrBufsize-1 := by
    rw [List.length_append, List.length_replicate, rcvrBufsize]
    rfl
  have hover : Oversized [0xaa, 0xaa, 0, 0, 0, 0, 0xff, 0xff] := ⟨rfl, rfl, by decide⟩
  have hfront := hover.append (Nat.le_refl 8) (List.replicate 49991 0)
  generalize ([0xaa, 0xaa, 0, 0, 0, 0, 0xff, 0xff] ++ List.replicate 49991 0 :
    List UInt8) = stuck at *
  obtain ⟨s', hs', hiff⟩ := protocolInputLoop_full DasIO.keeping SerioLib.packed
    (bare.setIbuf ⟨stuck,0⟩) rfl hlen
  refine ⟨s', hs', hlen, fun hlt => hiff.mp ?_ hfront⟩
  rw [show (bare.setIbuf ⟨stuck,0⟩).rcvr.ibuf.nc = rcvrBufsize-1 from hlen]
  exact hlt

end NephexSystem
end Cosmid.Nephex
