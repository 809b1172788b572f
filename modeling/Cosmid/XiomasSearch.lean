import Mathlib.Data.List.Infix
import Cosmid.XiomasPacket

/-! The search for the first packet of a stream: how far a call gets towards the
first header that passes the checks, and what it keeps in the buffer meanwhile. -/
namespace Cosmid.Xiomas

open RcvrEvent XiomasTcpRcvr

variable {out : OutputSocket} {ι : Type}

/-- At offset `i` starts the first header of the stream that passes the checks, for
a length of `size`. Headers whose sum wraps pass them as well, so none of these is
in front of it. -/
structure FirstHeader (stream : List UInt8) (i size : ℕ) : Prop where
  header_le : i+xioHarvardHeaderSize ≤ stream.length
  length_eq : xhgGetPacketLength ((stream.drop i).take xioHarvardHeaderSize) = size
  passes : PassesChecks ((stream.drop i).take xioHarvardHeaderSize)
  size_ge : 14 ≤ size
  least : ∀ j, j < i → ¬PassesChecks ((stream.drop j).take xioHarvardHeaderSize)

/-- Bytes of a packet that are there before it is accepted. -/
def acceptBytes (size : ℕ) : ℕ := max xioHarvardHeaderSize (min maxSpktDataPerSerioPkt size)

/-- A valid header that starts within `u` has its `$` there. -/
theorem start_mem_of_validateHeader {u v : List UInt8} {j n : ℕ} (hj : j < u.length)
    (h : xhgValidateHeader (((u ++ v).drop j).take xioHarvardHeaderSize) n = true) :
    0x24 ∈ u := by
  obtain ⟨q, hq⟩ := exists_cons_of_validateHeader _ _ h
  rw [List.drop_append_of_le_length (Nat.le_of_lt hj), List.drop_eq_getElem_cons hj,
    List.cons_append] at hq
  rw [← (List.cons.inj hq).1]
  exact List.getElem_mem hj

namespace FirstHeader

variable {stream : List UInt8} {i size : ℕ}

theorem size_le (h : FirstHeader stream i size) : size ≤ maxSpktLength+1000 := by
  rw [← h.length_eq]
  exact h.passes.2

theorem first_pos (h : FirstHeader stream i size) : 0 < min maxSpktDataPerSerioPkt size := by
  have := h.size_ge
  unfold maxSpktDataPerSerioPkt
  omega

/-- Dropping bytes in front of the header moves it forward. -/
theorem drop (h : FirstHeader stream i size) {n : ℕ} (hn : n ≤ i) :
    FirstHeader (stream.drop n) (i-n) size := by
  have hle := h.header_le
  have hdrop (j : ℕ) : (stream.drop n).drop j = stream.drop (n+j) := List.drop_drop
  refine ⟨by rw [List.length_drop]; omega, ?_, ?_, h.size_ge, ?_⟩
  · rw [hdrop, Nat.add_sub_cancel' hn]
    exact h.length_eq
  · rw [hdrop, Nat.add_sub_cancel' hn]
    exact h.passes
  · intro j hj
    rw [hdrop]
    exact h.least (n+j) (by omega)

/-- No search for `$` goes past the header. -/
theorem le_of_notMem (h : FirstHeader stream i size) {pre : List UInt8} (hpre : pre <+: stream)
    (hnot : 0x24 ∉ pre) : pre.length ≤ i := by
  by_contra hlt
  obtain ⟨rest, rfl⟩ := hpre
  exact hnot (start_mem_of_validateHeader (Nat.not_le.mp hlt) h.passes.1)

end FirstHeader

namespace XiomasTcpRcvr

/-- `s` is `r` after a call that has not accepted the header `k` bytes ahead: behind
an incomplete header the buffer is cut down to the last few bytes, and behind a
complete one it is left as it is. -/
structure Waiting (r s : XiomasTcpRcvr out) (k : ℕ) : Prop where
  state_ne : s.state ≠ .xtrMidPkt
  quiet : Quiet r s
  ibuf_cases :
    (r.ibuf.unread.length < k+xioHarvardHeaderSize ∧ ∃ n, n ≤ k ∧ n ≤ r.ibuf.unread.length ∧
      r.ibuf.unread.length < n+xioHarvardHeaderSize ∧ s.ibuf = ⟨r.ibuf.unread.drop n,0⟩) ∨
    (k+xioHarvardHeaderSize ≤ r.ibuf.unread.length ∧ s.ibuf = ⟨r.ibuf.buf,r.ibuf.cp+k⟩)

/-- The search goes on `n` bytes ahead. -/
theorem Waiting.of_again {r s t : XiomasTcpRcvr out} {n k : ℕ} (hq : Quiet r s)
    (hn : n ≤ r.ibuf.unread.length) (hk : n ≤ k) (hu : s.ibuf.unread = r.ibuf.unread.drop n)
    (hib : s.ibuf = ⟨r.ibuf.buf,r.ibuf.cp+n⟩ ∨ s.ibuf.unread = []) (h : Waiting s t (k-n)) :
    Waiting r t k := by
  have hlen : s.ibuf.unread.length = r.ibuf.unread.length-n := by rw [hu, List.length_drop]
  refine ⟨h.state_ne, hq.trans h.quiet, ?_⟩
  rcases h.ibuf_cases with ⟨hshort, m, hmk, hmu, hm, ht⟩ | ⟨hfull, ht⟩
  · left
    refine ⟨by omega, n+m, by omega, by omega, by omega, ?_⟩
    rw [ht, hu, List.drop_drop]
  · right
    rcases hib with hib | hnil
    · refine ⟨by omega, ?_⟩
      rw [ht, hib, Nat.add_assoc, Nat.add_sub_cancel' hk]
    · rw [hnil, List.length_nil] at hfull
      unfold xioHarvardHeaderSize at hfull
      omega

/-- How a case of the switch can end, with the first header `k` bytes ahead: the call
waits, the search gets closer to the header, or the header is accepted. -/
inductive FirstCase (r : XiomasTcpRcvr out) (circSpace k size : ℕ) :
    XiomasTcpRcvr out × Outcome → Prop
  | waits (s : XiomasTcpRcvr out) : Waiting r s k →
      r.ibuf.unread.length < k+acceptBytes size → FirstCase r circSpace k size (s, .ret)
  | closer (s : XiomasTcpRcvr out) (n : ℕ) : s.state ≠ .xtrMidPkt → Quiet r s → n ≤ k →
      n ≤ r.ibuf.unread.length → s.ibuf.unread = r.ibuf.unread.drop n →
      (s.ibuf = ⟨r.ibuf.buf,r.ibuf.cp+n⟩ ∨ s.ibuf.unread = []) →
      FirstCase r circSpace k size (s, .again)
  | accepts (r0 : XiomasTcpRcvr out) (mode : LogMode) : k = 0 →
      acceptBytes size ≤ r.ibuf.unread.length → mode ≠ .logCurfile →
      Accepted r circSpace r0 → r0.ibuf = r.ibuf → r0.bytesRemainingInPacket = size →
      FirstCase r circSpace k size
        (r0.emit (.logPacket (r0.ibuf.unread.take (min maxSpktDataPerSerioPkt
          r0.bytesRemainingInPacket)) mode),
          .txmit (min maxSpktDataPerSerioPkt r0.bytesRemainingInPacket))

theorem xtrLostCase_first (io : DasIO) (r : XiomasTcpRcvr out) (circSpace : ℕ)
    {stream : List UInt8} {k size : ℕ} (hfirst : FirstHeader stream k size)
    (hpre : r.ibuf.unread <+: stream) (hst : r.state = .xtrLost) :
    FirstCase r circSpace k size (r.xtrLostCase io, .again) := by
  obtain ⟨hcases, hst', hq⟩ := r.xtrLostCase_spec io hst
  rcases hcases with ⟨hnot, hib⟩ | ⟨pre, post, hsplit, hnot, hib⟩
  · refine .closer _ r.ibuf.unread.length hst' hq (hfirst.le_of_notMem hpre hnot)
      (Nat.le_refl _) ?_ (Or.inr ?_)
    · rw [hib, List.drop_length]
      rfl
    · rw [hib]
      rfl
  · have hpre' : pre <+: stream := (List.prefix_append _ _).trans (hsplit ▸ hpre)
    refine .closer _ pre.length hst' hq (hfirst.le_of_notMem hpre' hnot) ?_ ?_ (Or.inl hib)
    · rw [hsplit, List.length_append]
      exact Nat.le_add_right _ _
    · rw [hib, InputBuffer.unread_advance]

/-- With 16 bytes there, the header that case `xtr_idle` looks at is one of the stream. -/
theorem xtrIdleCase_first (io : DasIO) (r : XiomasTcpRcvr out) (circSpace : ℕ)
    {stream : List UInt8} {k size : ℕ} (hfirst : FirstHeader stream k size)
    (hpre : r.ibuf.unread <+: stream) (hst : r.state = .xtrIdle) :
    FirstCase r circSpace k size (r.xtrIdleCase io circSpace) := by
  have hstate : r.state ≠ .xtrMidPkt := by simp [hst]
  have haccept : acceptBytes size =
      max xioHarvardHeaderSize (min maxSpktDataPerSerioPkt size) := rfl
  by_cases hshort : r.ibuf.unread.length < xioHarvardHeaderSize
  · rw [xtrIdleCase, ← InputBuffer.length_unread, if_pos hshort]
    refine .waits _ ⟨hstate, .of_trace_eq rfl, ?_⟩ (by omega)
    refine Or.inl ⟨by omega, 0, by omega, by omega, by omega, ?_⟩
    rw [io.consume_parsed, List.drop_zero]
  · have hlen := Nat.not_lt.mp hshort
    have hhdr : r.ibuf.unread.take xioHarvardHeaderSize = stream.take xioHarvardHeaderSize := by
      obtain ⟨rest, hrest⟩ := hpre
      rw [← hrest, List.take_append_of_le_length hlen]
    rcases Nat.eq_zero_or_pos k with rfl | hk
    · -- The first header itself: it waits for its first chunk or is accepted.
      have hpass := hfirst.passes
      have hL := hfirst.length_eq
      have hpos := hfirst.first_pos
      rw [List.drop_zero] at hpass hL
      rcases xtrIdleCase_spec io r circSpace size _ hhdr hL hlen with
        ⟨hnot, -⟩ | ⟨-, hwait, hs⟩ | ⟨-, -, hfit, r0, mode, hmode, hacc, hib, hrem, hs⟩
      · exact absurd hpass hnot
      · rw [hs]
        exact .waits _ ⟨hstate, .of_trace_eq rfl, Or.inr ⟨by omega, rfl⟩⟩ (by omega)
      · rw [hs]
        exact .accepts r0 mode rfl (by omega) hmode hacc hib hrem
    · -- A `$` in front of the first header is skipped.
      have hnot : ¬PassesChecks (stream.take xioHarvardHeaderSize) := by
        have := hfirst.least 0 hk
        rwa [List.drop_zero] at this
      rcases xtrIdleCase_spec io r circSpace _ _ hhdr rfl hlen with
        ⟨-, s, hs, hib, hq⟩ | ⟨hpass, -⟩ | ⟨hpass, -⟩
      · rw [hs]
        refine .closer s.reject 1 (by simp [reject]) (hq.trans (.of_trace_eq rfl)) hk ?_ ?_
          (Or.inl ?_)
        · unfold xioHarvardHeaderSize at hlen
          omega
        · simp only [reject, hib, InputBuffer.unread_advance]
        · simp only [reject, hib]
      · exact absurd hpass hnot
      · exact absurd hpass hnot

theorem switchCase_first (io : DasIO) (r : XiomasTcpRcvr out) (circSpace : ℕ)
    {stream : List UInt8} {k size : ℕ} (hfirst : FirstHeader stream k size)
    (hpre : r.ibuf.unread <+: stream) (hstate : r.state ≠ .xtrMidPkt) :
    FirstCase r circSpace k size (r.switchCase io circSpace) := by
  cases hst : r.state with
  | xtrMidPkt => exact absurd hst hstate
  | xtrLost =>
    rw [r.switchCase_lost io circSpace hst]
    exact xtrLostCase_first io r circSpace hfirst hpre hst
  | xtrIdle =>
    rw [r.switchCase_idle io circSpace hst]
    exact xtrIdleCase_first io r circSpace hfirst hpre hst

/-- A call that starts in the search, with the first header `k` bytes ahead. -/
theorem protocolInputLoop_first (io : DasIO) (serio : SerioLib) (me : ι) (r : XiomasTcpRcvr out)
    (x : XiomasTcpExport out ι) {stream : List UInt8} {k size : ℕ}
    (hfirst : FirstHeader stream k size) (hpre : r.ibuf.unread <+: stream)
    (hstate : r.state ≠ .xtrMidPkt) :
    (∃ s, protocolInputLoop io serio me r x = some (s, x) ∧ Waiting r s k ∧
      r.ibuf.unread.length < k+acceptBytes size) ∨
    ∃ r0 mode, (k+acceptBytes size ≤ r.ibuf.unread.length ∧ mode ≠ .logCurfile ∧
      Accepted r x.circSpace r0 ∧ r0.ibuf.unread = r.ibuf.unread.drop k ∧
      r0.bytesRemainingInPacket = size) ∧ protocolInputLoop io serio me r x =
        (Run.run (exportStep serio) x (exportOps out me (r0.chunkEvents mode))).map
          fun y => (r0.afterChunks mode, y) := by
  refine protocolInputLoop_rule io serio me x
    (fun (a : List UInt8 × ℕ) r => r.state ≠ .xtrMidPkt ∧ FirstHeader a.1 a.2 size ∧
      r.ibuf.unread <+: a.1)
    (fun a r s => Waiting r s a.2 ∧ r.ibuf.unread.length < a.2+acceptBytes size)
    (fun a r r0 mode => a.2+acceptBytes size ≤ r.ibuf.unread.length ∧ mode ≠ .logCurfile ∧
      Accepted r x.circSpace r0 ∧ r0.ibuf.unread = r.ibuf.unread.drop a.2 ∧
      r0.bytesRemainingInPacket = size) ?_ ?_ (stream,k) r ⟨hstate, hfirst, hpre⟩
  · rintro ⟨stream, k⟩ r ⟨hstate, hfirst, hpre⟩
    have hcase := switchCase_first io r x.circSpace hfirst hpre hstate
    generalize r.switchCase io x.circSpace = c at hcase
    cases hcase with
    | waits s hw hshort => exact .ends s ⟨hw, hshort⟩
    | closer s n hst hq hk hn hu hib =>
      -- Behind the `n` bytes the first header is that much closer.
      have hpre' : s.ibuf.unread <+: stream.drop n := by
        rw [hu]
        exact hpre.drop n
      have hlen : s.ibuf.unread.length = r.ibuf.unread.length-n := by rw [hu, List.length_drop]
      refine .goesOn s (stream.drop n,k-n) ⟨hst, hfirst.drop hk, hpre'⟩ ?_ ?_
      · rintro t ⟨hw, hshort⟩
        dsimp only at hw hshort
        exact ⟨hw.of_again hq hn hk hu hib, by omega⟩
      · rintro r0 mode ⟨hlong, hmode, hacc, hu0, hrem⟩
        dsimp only at hlong hu0
        refine ⟨by omega, hmode, hacc.of_again hq ?_, ?_, hrem⟩
        · rw [hu]
          exact List.drop_suffix _ _
        · rw [hu0, hu, List.drop_drop, Nat.add_sub_cancel' hk]
    | accepts r0 mode hk hlong hmode hacc hib hrem =>
      subst hk
      exact .accepts r0 mode hacc ⟨by omega, hmode, hacc, by rw [hib, List.drop_zero], hrem⟩
  · rintro ⟨stream, k⟩ r ⟨hstate, -, -⟩ hnil
    have hlen : r.ibuf.unread.length = 0 := by rw [hnil, List.length_nil]
    refine ⟨⟨hstate, .of_trace_eq rfl, Or.inl ?_⟩, ?_⟩
    · unfold xioHarvardHeaderSize
      refine ⟨by omega, 0, by omega, by omega, by omega, ?_⟩
      rw [finish_eq, List.drop_zero]
    · unfold acceptBytes xioHarvardHeaderSize
      omega

/-- No packet has begun, and neither the bytes that have been dropped nor those
in front of `cp` reach past offset `i` of the input. -/
structure Seeking (i : ℕ) (r : XiomasTcpRcvr out) (input : List UInt8) : Prop where
  state_ne : r.state ≠ .xtrMidPkt
  packetTrace_eq : r.packetTrace = []
  cp_le : r.ibuf.cp ≤ r.ibuf.nc
  dropped : ∃ pre, input = pre ++ r.ibuf.buf ∧ pre.length+r.ibuf.cp ≤ i

theorem seeking_new (i : ℕ) (transmitting : Bool) (sock : out.State) :
    (new transmitting sock : XiomasTcpRcvr out).Seeking i [] :=
  ⟨by simp [new], rfl, Nat.le_refl _, [], rfl, Nat.zero_le _⟩

/-- A read moves `cp` at most back. -/
theorem Seeking.read {i : ℕ} {r : XiomasTcpRcvr out} {input : List UInt8} (h : Seeking i r input)
    (io : DasIO) (bytes : List UInt8) :
    Seeking i {r with ibuf := io.read r.ibuf bytes} (input ++ bytes) := by
  obtain ⟨pre, rfl, hle⟩ := h.dropped
  have hcp := h.cp_le
  have hres := io.resume_cases r.ibuf.cp
  refine ⟨h.state_ne, h.packetTrace_eq, ?_, pre, List.append_assoc _ _ _, ?_⟩
  · simp only [ DasIO.read, InputBuffer.nc_mk, List.length_append]
    unfold InputBuffer.nc at hcp
    omega
  · simp only [ DasIO.read]
    omega

/-- Waiting keeps all of that. -/
theorem Seeking.waiting {i k : ℕ} {pre : List UInt8} {r s : XiomasTcpRcvr out}
    (h : Seeking i r (pre ++ r.ibuf.buf)) (hk : pre.length+r.ibuf.cp+k = i)
    (hw : Waiting r s k) : Seeking i s (pre ++ r.ibuf.buf) := by
  have hlen := r.ibuf.length_unread
  have hcp := h.cp_le
  have hnc : r.ibuf.nc = r.ibuf.buf.length := rfl
  refine ⟨hw.state_ne, by rw [hw.quiet.packetTrace_eq, h.packetTrace_eq], ?_, ?_⟩
  · rcases hw.ibuf_cases with ⟨-, n, -, -, -, hib⟩ | ⟨hfull, hib⟩
    · rw [hib]
      exact Nat.zero_le _
    · rw [hib, InputBuffer.nc_mk]
      dsimp only
      omega
  · rcases hw.ibuf_cases with ⟨-, n, hnk, hnu, -, hib⟩ | ⟨-, hib⟩
    · refine ⟨pre ++ r.ibuf.buf.take (r.ibuf.cp+n), ?_, ?_⟩
      · rw [hib, InputBuffer.unread, List.drop_drop, List.append_assoc, List.take_append_drop]
      · rw [hib, List.length_append, List.length_take]
        dsimp only
        omega
    · exact ⟨pre, by rw [hib], by rw [hib]; dsimp only; omega⟩

/-- One more read before the first packet of the stream begins. -/
theorem protocolInput_seeking (io : DasIO) (serio : SerioLib) (me : ι) (r : XiomasTcpRcvr out)
    (x : XiomasTcpExport out ι) {stream input bytes : List UInt8} {i size : ℕ}
    (hfirst : FirstHeader stream i size) (hpre : input ++ bytes <+: stream)
    (h : Seeking i r input) :
    ∃ s evs, protocolInput io serio me r x bytes =
        (Run.run (exportStep serio) x (exportOps out me evs)).map (fun y => (s,y)) ∧
      (((input ++ bytes).length < i+acceptBytes size ∧ Seeking i s (input ++ bytes) ∧
          ((input ++ bytes).length < i+xioHarvardHeaderSize →
            s.ibuf.nc < xioHarvardHeaderSize) ∧
          (i+xioHarvardHeaderSize ≤ (input ++ bytes).length →
            s.ibuf.nc = r.ibuf.nc+bytes.length)) ∨
        (i+acceptBytes size ≤ (input ++ bytes).length ∧
          (∃ mode, MidPacket s mode size ((input ++ bytes).drop i)) ∧
          s.ibuf.nc < r.ibuf.nc+bytes.length)) := by
  have hread := h.read io bytes
  set r1 : XiomasTcpRcvr out := {r with ibuf := io.read r.ibuf bytes} with hr1
  have hnc : r1.ibuf.nc = r.ibuf.nc+bytes.length := by
    simp only [hr1, DasIO.read, InputBuffer.nc, List.length_append]
  obtain ⟨pre, hsplit, hle⟩ := hread.dropped
  rw [hsplit] at hpre hread ⊢
  have hlen : (pre ++ r1.ibuf.buf).length = pre.length+r1.ibuf.nc := List.length_append
  have hu := r1.ibuf.length_unread
  have hcp := hread.cp_le
  -- Seen from `cp`, the header is as far ahead as is left of the `i` bytes.
  obtain ⟨k, hk⟩ : ∃ k, pre.length+r1.ibuf.cp+k = i := ⟨i-(pre.length+r1.ibuf.cp), by omega⟩
  have hdrop : (pre ++ r1.ibuf.buf).drop (pre.length+r1.ibuf.cp) = r1.ibuf.unread := by
    rw [← List.drop_drop, List.drop_left]
    rfl
  have hfirst' : FirstHeader (stream.drop (pre.length+r1.ibuf.cp)) k size := by
    have := hfirst.drop hle
    rwa [show i-(pre.length+r1.ibuf.cp) = k by omega] at this
  have hpre' : r1.ibuf.unread <+: stream.drop (pre.length+r1.ibuf.cp) := by
    rw [← hdrop]
    exact hpre.drop _
  rcases protocolInputLoop_first io serio me r1 x hfirst' hpre' hread.state_ne with
    ⟨s, hs, hw, hshort⟩ | ⟨r0, mode, ⟨hlong, hmode, hacc, hu0, hrem⟩, hs⟩
  · refine ⟨s, [], hs, Or.inl ⟨by omega, hread.waiting hk hw, ?_, ?_⟩⟩
    · intro hi
      rcases hw.ibuf_cases with ⟨-, n, -, -, hn, hib⟩ | ⟨hfull, -⟩
      · rw [hib, InputBuffer.nc_mk, List.length_drop]
        unfold xioHarvardHeaderSize at *
        omega
      · omega
    · intro hi
      rcases hw.ibuf_cases with ⟨hpart, -⟩ | ⟨-, hib⟩
      · omega
      · rw [hib, ← hnc]
        rfl
  · have hbody : r0.ibuf.unread = (pre ++ r1.ibuf.buf).drop i := by
      rw [hu0, ← hdrop, List.drop_drop, hk]
    have htrace : (r0.afterChunks mode).packetTrace = r0.chunkEvents mode := by
      rw [packetTrace_afterChunks, hacc.quiet.packetTrace_eq, hread.packetTrace_eq,
        List.nil_append]
    refine ⟨r0.afterChunks mode, r0.chunkEvents mode, hs, Or.inr ⟨by omega, ⟨mode, ?_⟩, ?_⟩⟩
    · rw [← hbody, ← hrem]
      exact ⟨hacc.state_eq, hmode, hacc.header_le, hacc.valid, hacc.size_le, hacc.first_pos,
        hacc.first_le, htrace, rfl, rfl⟩
    · have htaken : 0 < r0.chunkBytes := by
        rw [chunkBytes, Chunks.taken_step _ _ _ hacc.first_pos hacc.first_le]
        exact Nat.add_pos_left hacc.first_pos _
      have hpos := hacc.first_pos
      have hle0 := hacc.first_le
      have hlen0 : r0.ibuf.unread.length = r1.ibuf.unread.length-k := by
        rw [hu0, List.length_drop]
      simp only [afterChunks, InputBuffer.nc_mk, List.length_drop]
      omega

end XiomasTcpRcvr
end Cosmid.Xiomas
