import Cosmid.XiomasRecovery

/-! The count of discarded bytes: what the search adds to `bytes_discarding` on its way
to the first packet, and what is reported when it gets there. -/
namespace Cosmid.Xiomas

open RcvrEvent XiomasTcpRcvr SysEvent XioSystem

variable {out : OutputSocket} {ι : Type}

/-- How many of the bytes are no `$`. -/
def unmarked (u : List UInt8) : ℕ := u.countP (· != 0x24)

theorem unmarked_append (u v : List UInt8) : unmarked (u ++ v) = unmarked u+unmarked v :=
  List.countP_append

theorem unmarked_mark (u : List UInt8) : unmarked (0x24 :: u) = unmarked u :=
  List.countP_cons_of_neg (by simp)

theorem unmarked_of_notMem {u : List UInt8} (h : 0x24 ∉ u) : unmarked u = u.length := by
  refine List.countP_eq_length.mpr fun b hb => bne_iff_ne.mpr ?_
  rintro rfl
  exact h hb

theorem count_add_unmarked (u : List UInt8) : u.count 0x24+unmarked u = u.length := by
  rw [List.length_eq_countP_add_countP (· == 0x24)]
  simp only [List.count, unmarked, bne, Bool.not_eq_true, Bool.decide_eq_false]

/-- A `$` at the front is not counted. -/
theorem unmarked_drop_one (q : List UInt8) (k : ℕ) :
    unmarked (((0x24 :: q).take k).drop 1) = unmarked ((0x24 :: q).take k) := by
  cases k with
  | zero => rfl
  | succ k => rw [List.take_succ_cons, List.drop_one, List.tail_cons, unmarked_mark]

/-- The number in a report of discarded bytes. -/
def RcvrEvent.discardedBytes : RcvrEvent → Option ℕ
  | discarded n => some n
  | _ => none

/-- What is reported for a count of `n`. -/
def report (n : ℕ) : List ℕ := if n = 0 then [] else [n]

theorem discardedBytes_of_aboutPacket (e : RcvrEvent) (h : e.aboutPacket = true) :
    e.discardedBytes = none := by
  cases e <;> first | rfl | cases h

/-- No header that passes the checks starts at one of the first `k` offsets, whatever
comes behind `u`. -/
def NoStart (u : List UInt8) (k : ℕ) : Prop :=
  ∀ j, j < k → ∀ rest, ¬PassesChecks (((u ++ rest).drop j).take xioHarvardHeaderSize)

namespace NoStart

theorem zero (u : List UInt8) : NoStart u 0 := fun _ hj => absurd hj (Nat.not_lt_zero _)

theorem mono {u : List UInt8} {n k : ℕ} (h : NoStart u k) (hn : n ≤ k) : NoStart u n :=
  fun j hj => h j (Nat.lt_of_lt_of_le hj hn)

theorem append {u : List UInt8} {k : ℕ} (h : NoStart u k) (v : List UInt8) :
    NoStart (u ++ v) k := by
  intro j hj rest
  rw [List.append_assoc]
  exact h j hj _

/-- The search goes on behind `n` bytes. -/
theorem add {u : List UInt8} {n k : ℕ} (h : NoStart u n) (hn : n ≤ u.length)
    (hk : NoStart (u.drop n) k) : NoStart u (n+k) := by
  intro j hj rest
  rcases Nat.lt_or_ge j n with hlt | hge
  · exact h j hlt rest
  · obtain ⟨l, rfl⟩ := Nat.exists_eq_add_of_le hge
    rw [← List.drop_drop, List.drop_append_of_le_length hn]
    exact hk l (by omega) rest

theorem of_notMem {pre : List UInt8} (h : 0x24 ∉ pre) (post : List UInt8) :
    NoStart (pre ++ post) pre.length := by
  intro j hj rest hpass
  rw [List.append_assoc] at hpass
  exact h (start_mem_of_validateHeader hj hpass.1)

theorem one {u : List UInt8} (hlen : xioHarvardHeaderSize ≤ u.length)
    (h : ¬PassesChecks (u.take xioHarvardHeaderSize)) : NoStart u 1 := by
  intro j hj rest
  obtain rfl := Nat.lt_one_iff.mp hj
  rwa [List.drop_zero, List.take_append_of_le_length hlen]

/-- No header that is complete and passes the checks is skipped. -/
theorem le_of_passes {u : List UInt8} {k i : ℕ} (h : NoStart u k)
    (hpass : PassesChecks ((u.drop i).take xioHarvardHeaderSize)) : k ≤ i := by
  by_contra hlt
  refine h i (Nat.not_le.mp hlt) [] ?_
  rwa [List.append_nil]

end NoStart

/-- At offset `i` starts the first header that passes the checks. -/
structure FirstPass (input : List UInt8) (i : ℕ) : Prop where
  header_le : i+xioHarvardHeaderSize ≤ input.length
  passes : PassesChecks ((input.drop i).take xioHarvardHeaderSize)
  noStart : NoStart input i

theorem FirstPass.append {input : List UInt8} {i : ℕ} (h : FirstPass input i)
    (bytes : List UInt8) : FirstPass (input ++ bytes) i := by
  have hle := h.header_le
  refine ⟨?_, ?_, h.noStart.append bytes⟩
  · rw [List.length_append]
    omega
  · rw [List.drop_append_of_le_length (by omega), List.take_append_of_le_length]
    · exact h.passes
    · rw [List.length_drop]
      omega

theorem FirstPass.unique {input : List UInt8} {i j : ℕ} (h : FirstPass input i)
    (h' : FirstPass input j) : i = j :=
  Nat.le_antisymm (h.noStart.le_of_passes h'.passes) (h'.noStart.le_of_passes h.passes)

/-- The first header of a stream is the first one that passes the checks. -/
theorem FirstHeader.firstPass {stream : List UInt8} {i size : ℕ}
    (h : FirstHeader stream i size) : FirstPass stream i := by
  have hle := h.header_le
  refine ⟨hle, h.passes, fun j hj rest => ?_⟩
  rw [List.drop_append_of_le_length (by omega), List.take_append_of_le_length]
  · exact h.least j hj
  · rw [List.length_drop]
    omega

namespace XiomasTcpRcvr

/-- The numbers reported so far. -/
def reports (r : XiomasTcpRcvr out) : List ℕ := r.trace.filterMap discardedBytes

/-- Of the next `k` bytes, those that count when they are skipped: `xtr_idle` steps over
the byte at `cp` by itself. -/
def skipped (r : XiomasTcpRcvr out) (k : ℕ) : List UInt8 :=
  (r.ibuf.unread.take k).drop (if r.state = .xtrIdle then 1 else 0)

theorem reports_of_trace_append {r s : XiomasTcpRcvr out} {evs : List RcvrEvent}
    (h : s.trace = r.trace ++ evs) (hevs : ∀ e ∈ evs, e.discardedBytes = none) :
    s.reports = r.reports := by
  rw [reports, h, List.filterMap_append, List.filterMap_eq_nil_iff.mpr hevs, List.append_nil,
    reports]

theorem reports_afterChunks (r : XiomasTcpRcvr out) (mode : LogMode) :
    (r.afterChunks mode).reports = r.reports := by
  refine reports_of_trace_append rfl fun e he => discardedBytes_of_aboutPacket e ?_
  rw [chunkEvents, ← filter_packetEvents] at he
  exact (List.mem_filter.mp he).2

/-- The count is reported when the header is accepted. -/
theorem reports_acceptHeader (r : XiomasTcpRcvr out) (hdr : List UInt8) (circSpace : ℕ) :
    (r.acceptHeader hdr circSpace).reports = r.reports ++ report r.bytesDiscarding := by
  unfold acceptHeader reports report emit sendFlag
  dsimp only
  split_ifs <;> simp [emit, discardedBytes]

/-- Only the end of the search reports or resets the count. -/
theorem xtrIdleCase_reports (io : DasIO) (r s : XiomasTcpRcvr out) (circSpace : ℕ) (o : Outcome)
    (h : r.xtrIdleCase io circSpace = (s,o)) :
    (∀ n, o = .txmit n → s.reports = r.reports ++ report r.bytesDiscarding) ∧
      ((∀ n, o ≠ .txmit n) → s.reports = r.reports ∧ s.bytesDiscarding = r.bytesDiscarding) := by
  unfold xtrIdleCase at h
  dsimp only at h
  split_ifs at h <;> obtain ⟨rfl, rfl⟩ := Prod.mk.inj h
  · exact ⟨by simp, fun _ => ⟨rfl, rfl⟩⟩
  · exact ⟨by simp, fun _ => ⟨rfl, rfl⟩⟩
  · refine ⟨by simp, fun _ => ⟨?_, rfl⟩⟩
    have hnone : ∀ e ∈ [oversized], e.discardedBytes = none := by simp [discardedBytes]
    exact reports_of_trace_append rfl hnone
  · exact ⟨by simp, fun _ => ⟨rfl, rfl⟩⟩
  · refine ⟨fun _ _ => ?_, fun hno => absurd rfl (hno _)⟩
    rw [beginPacket, emit, reports, List.filterMap_append]
    exact (List.append_nil _).trans (reports_acceptHeader _ _ circSpace)

theorem skipped_lost {r : XiomasTcpRcvr out} (h : r.state = .xtrLost) (k : ℕ) :
    r.skipped k = r.ibuf.unread.take k := by
  simp [skipped, h]

theorem skipped_idle {r : XiomasTcpRcvr out} (h : r.state = .xtrIdle) (k : ℕ) :
    r.skipped k = (r.ibuf.unread.take k).drop 1 := by
  simp [skipped, h]

theorem skipped_nil {r : XiomasTcpRcvr out} (h : r.ibuf.unread = []) (k : ℕ) :
    r.skipped k = [] := by
  simp [skipped, h]

theorem skipped_zero (r : XiomasTcpRcvr out) : r.skipped 0 = [] := by simp [skipped]

/-- `s` is `r` with `k` more bytes skipped and counted, and no packet among them. -/
structure Passed (r s : XiomasTcpRcvr out) (k : ℕ) : Prop where
  state_ne : s.state ≠ .xtrMidPkt
  quiet : Quiet r s
  reports_eq : s.reports = r.reports
  le : k ≤ r.ibuf.unread.length
  noStart : NoStart r.ibuf.unread k
  count : ∀ n, r.bytesDiscarding = u32 n →
    s.bytesDiscarding = u32 (n+unmarked (r.skipped k))

/-- One turn of the loop has skipped `n` bytes. -/
structure Moved (r s : XiomasTcpRcvr out) (n : ℕ) : Prop extends Passed r s n where
  unread_eq : s.ibuf.unread = r.ibuf.unread.drop n
  ibuf_cases : s.ibuf = ⟨r.ibuf.buf,r.ibuf.cp+n⟩ ∨ s.ibuf.unread = []
  front : s.state = .xtrIdle → ∃ q, s.ibuf.unread = 0x24 :: q
  add : ∀ k, unmarked (r.skipped n)+unmarked (s.skipped k) = unmarked (r.skipped (n+k))

theorem Moved.passed {r s t : XiomasTcpRcvr out} {n k : ℕ} (h : Moved r s n)
    (h' : Passed s t k) : Passed r t (n+k) := by
  have hle := h'.le
  have hn := h.le
  rw [h.unread_eq, List.length_drop] at hle
  refine ⟨h'.state_ne, h.quiet.trans h'.quiet, h'.reports_eq.trans h.reports_eq, by omega,
    h.noStart.add hn (h.unread_eq ▸ h'.noStart), ?_⟩
  intro m hm
  calc t.bytesDiscarding
      = u32 (m+unmarked (r.skipped n)+unmarked (s.skipped k)) := h'.count _ (h.count m hm)
    _ = u32 (m+unmarked (r.skipped (n+k))) := by rw [Nat.add_assoc, h.add]

/-- Case `xtr_lost` counts what it skips. -/
theorem xtrLostCase_moved (io : DasIO) (r : XiomasTcpRcvr out) (hst : r.state = .xtrLost) :
    ∃ n, Moved r (r.xtrLostCase io) n := by
  have hsum (n m : ℕ) : u32 (u32 n+m) = u32 (n+m) := Nat.mod_add_mod _ _ _
  rcases io.notFound_cases 0x24 r.ibuf with ⟨hnot, hm⟩ | ⟨pre, post, hsplit, hnot, hm⟩
  · have hlen := r.ibuf.length_unread
    have hall : r.skipped r.ibuf.unread.length = r.ibuf.unread := by
      rw [skipped_lost hst, List.take_length]
    simp only [xtrLostCase, hm]
    refine ⟨r.ibuf.unread.length, ⟨by simp [hst], .of_trace_eq rfl, rfl, Nat.le_refl _, ?_, ?_⟩,
      ?_, Or.inr rfl, ?_, ?_⟩
    · simpa only [List.append_nil] using NoStart.of_notMem hnot []
    · intro n hn
      rw [hall, unmarked_of_notMem hnot, hlen, hn, hsum]
    · rw [List.drop_length]
      rfl
    · intro hidle
      exact absurd (hst.symm.trans hidle) (by simp)
    · intro k
      rw [hall, skipped_nil rfl, skipped_lost hst, List.take_of_length_le (Nat.le_add_right _ _)]
      rfl
  · -- The `$` stays in front of `cp`, so that only `pre` is counted.
    have hcp : r.ibuf.cp+(pre.length+1)-1 = r.ibuf.cp+pre.length := by omega
    have hdrop : r.ibuf.unread.drop pre.length = 0x24 :: post := by rw [hsplit, List.drop_left]
    have hpre : r.skipped pre.length = pre := by rw [skipped_lost hst, hsplit, List.take_left]
    simp only [xtrLostCase, hm, hcp]
    refine ⟨pre.length, ⟨by simp, .of_trace_eq rfl, rfl, ?_, ?_, ?_⟩,
      InputBuffer.unread_advance _ _, Or.inl rfl, ?_, ?_⟩
    · rw [hsplit, List.length_append]
      exact Nat.le_add_right _ _
    · rw [hsplit]
      exact .of_notMem hnot _
    · intro n hn
      rw [hpre, unmarked_of_notMem hnot, Nat.add_sub_cancel_left, hn, hsum]
    · intro _
      exact ⟨post, (InputBuffer.unread_advance _ _).trans hdrop⟩
    · intro k
      rw [hpre, skipped_idle rfl, InputBuffer.unread_advance, hdrop, unmarked_drop_one,
        skipped_lost hst, hsplit, List.take_length_add_append, unmarked_append]

/-- A rejected header costs the byte it starts with, which is not counted. -/
theorem reject_moved {r s : XiomasTcpRcvr out} (hidle : r.state = .xtrIdle)
    (hlen : xioHarvardHeaderSize ≤ r.ibuf.unread.length)
    (hnot : ¬PassesChecks (r.ibuf.unread.take xioHarvardHeaderSize)) (hib : s.ibuf = r.ibuf)
    (hq : Quiet r s) (hreports : s.reports = r.reports)
    (hcount : s.bytesDiscarding = r.bytesDiscarding) : Moved r s.reject 1 := by
  have hadv : s.reject.ibuf.unread = r.ibuf.unread.drop 1 := by
    rw [reject, hib, InputBuffer.unread_advance]
  have hone : r.skipped 1 = [] := by
    rw [skipped_idle hidle, List.drop_take]
    rfl
  refine ⟨⟨by simp [reject], hq.trans (.of_trace_eq rfl), hreports, ?_, .one hlen hnot, ?_⟩,
    hadv, Or.inl (by rw [reject, hib]), by simp [reject], ?_⟩
  · exact Nat.le_trans (by decide) hlen
  · intro n hn
    rw [hone]
    exact hcount.trans hn
  · intro k
    rw [hone, skipped_lost rfl, hadv, skipped_idle hidle, List.drop_take, Nat.add_sub_cancel_left]
    exact Nat.zero_add _

/-- How a call without a packet ends: with an incomplete header at the front of the
buffer, or at a header that passes the checks and whose first chunk is missing. -/
structure Waits (r s : XiomasTcpRcvr out) (k : ℕ) : Prop extends Passed r s k where
  ibuf_cases :
    (r.ibuf.unread.length < k+xioHarvardHeaderSize ∧ s.ibuf = ⟨r.ibuf.unread.drop k,0⟩ ∧
      (s.state = .xtrIdle → (r.state = .xtrIdle ∧ k = 0) ∨
        ∃ q, r.ibuf.unread.drop k = 0x24 :: q)) ∨
    (k+xioHarvardHeaderSize ≤ r.ibuf.unread.length ∧
      PassesChecks ((r.ibuf.unread.drop k).take xioHarvardHeaderSize) ∧
      s.ibuf = ⟨r.ibuf.buf,r.ibuf.cp+k⟩ ∧ s.state = .xtrIdle)

/-- The header `k` bytes ahead is accepted, and the count up to it is reported. -/
structure Reaches (r r0 : XiomasTcpRcvr out) (circSpace k : ℕ) : Prop where
  accepted : Accepted r circSpace r0
  unread_eq : r0.ibuf.unread = r.ibuf.unread.drop k
  le : k ≤ r.ibuf.unread.length
  noStart : NoStart r.ibuf.unread k
  reports_eq : ∀ n, r.bytesDiscarding = u32 n →
    r0.reports = r.reports ++ report (u32 (n+unmarked (r.skipped k)))

theorem Moved.waits {r s t : XiomasTcpRcvr out} {n k : ℕ} (h : Moved r s n)
    (h' : Waits s t k) : Waits r t (n+k) := by
  have hn := h.le
  have hlen : s.ibuf.unread.length = r.ibuf.unread.length-n := by
    rw [h.unread_eq, List.length_drop]
  have hdrop : s.ibuf.unread.drop k = r.ibuf.unread.drop (n+k) := by
    rw [h.unread_eq, List.drop_drop]
  refine ⟨h.passed h'.toPassed, ?_⟩
  rcases h'.ibuf_cases with ⟨hshort, hib, hfront⟩ | ⟨hfull, hpass, hib, hst⟩
  · rw [hdrop] at hib hfront
    refine Or.inl ⟨by omega, hib, fun hidle => Or.inr ?_⟩
    rcases hfront hidle with ⟨hs, rfl⟩ | hq
    · rw [Nat.add_zero, ← h.unread_eq]
      exact h.front hs
    · exact hq
  · rw [hdrop] at hpass
    rcases h.ibuf_cases with hsib | hnil
    · exact Or.inr ⟨by omega, hpass, by rw [hib, hsib, Nat.add_assoc], hst⟩
    · rw [hnil, List.length_nil] at hfull
      unfold xioHarvardHeaderSize at hfull
      omega

theorem Moved.reaches {r s r0 : XiomasTcpRcvr out} {circSpace n k : ℕ} (h : Moved r s n)
    (h' : Reaches s r0 circSpace k) : Reaches r r0 circSpace (n+k) := by
  have hn := h.le
  have hle := h'.le
  rw [h.unread_eq, List.length_drop] at hle
  refine ⟨h'.accepted.of_again h.quiet ?_, ?_, by omega, ?_, ?_⟩
  · rw [h.unread_eq]
    exact List.drop_suffix _ _
  · rw [h'.unread_eq, h.unread_eq, List.drop_drop]
  · exact h.noStart.add hn (h.unread_eq ▸ h'.noStart)
  · intro m hm
    calc r0.reports
        = s.reports ++ report (u32 (m+unmarked (r.skipped n)+unmarked (s.skipped k))) :=
          h'.reports_eq _ (h.count m hm)
      _ = r.reports ++ report (u32 (m+unmarked (r.skipped (n+k)))) := by
          rw [h.reports_eq, Nat.add_assoc, h.add]

/-- A turn that skips bytes, as one of the search. -/
theorem Moved.keeps {r s : XiomasTcpRcvr out} {n : ℕ} (h : Moved r s n) (circSpace : ℕ) :
    KeepsEnd (fun (_ : Unit) r => r.state ≠ .xtrMidPkt) (fun _ r s => ∃ k, Waits r s k)
      (fun _ r r0 mode => mode ≠ .logCurfile ∧ ∃ k, Reaches r r0 circSpace k) () r circSpace
      (s, .again) :=
  .goesOn s () h.state_ne (fun _ ⟨k, hk⟩ => ⟨n+k, h.waits hk⟩)
    fun _ _ ⟨hmode, k, hk⟩ => ⟨hmode, n+k, h.reaches hk⟩

/-- Nothing is skipped and the count stays as it is. -/
theorem passed_zero {r s : XiomasTcpRcvr out} (hst : s.state ≠ .xtrMidPkt)
    (htrace : s.trace = r.trace) (hcount : s.bytesDiscarding = r.bytesDiscarding) :
    Passed r s 0 := by
  refine ⟨hst, .of_trace_eq htrace, by rw [reports, htrace, reports], Nat.zero_le _, .zero _, ?_⟩
  intro n hn
  rw [skipped_zero, hcount]
  exact hn

theorem xtrIdleCase_keeps (io : DasIO) (r : XiomasTcpRcvr out) (circSpace : ℕ)
    (hidle : r.state = .xtrIdle) :
    KeepsEnd (fun (_ : Unit) r => r.state ≠ .xtrMidPkt) (fun _ r s => ∃ k, Waits r s k)
      (fun _ r r0 mode => mode ≠ .logCurfile ∧ ∃ k, Reaches r r0 circSpace k) () r circSpace
      (r.xtrIdleCase io circSpace) := by
  have hst : r.state ≠ .xtrMidPkt := by simp [hidle]
  by_cases hshort : r.ibuf.unread.length < xioHarvardHeaderSize
  · rw [xtrIdleCase, ← InputBuffer.length_unread, if_pos hshort]
    refine .ends _ ⟨0, passed_zero hst rfl rfl, Or.inl ⟨by omega, ?_, ?_⟩⟩
    · exact io.consume_parsed _
    · exact fun _ => Or.inl ⟨hidle, rfl⟩
  · have hlen := Nat.not_lt.mp hshort
    rcases xtrIdleCase_spec io r circSpace _ _ rfl rfl hlen with
      ⟨hnot, s, hs, hib, hq⟩ | ⟨hpass, -, hs⟩ | ⟨hpass, -, -, r0, mode, hmode, hacc, hib, -, hs⟩
    · obtain ⟨hreports, hcount⟩ := (xtrIdleCase_reports io r _ circSpace _ hs).2 (by simp)
      rw [hs]
      exact (reject_moved hidle hlen hnot hib hq hreports hcount).keeps circSpace
    · rw [hs]
      exact .ends _ ⟨0, passed_zero hst rfl rfl, Or.inr ⟨by omega, hpass, rfl, hidle⟩⟩
    · have hreports := (xtrIdleCase_reports io r _ circSpace _ hs).1 _ rfl
      rw [reports_of_trace_append rfl (by simp [discardedBytes])] at hreports
      rw [hs]
      refine .accepts r0 mode hacc ⟨hmode, 0, hacc, by rw [hib]; rfl, Nat.zero_le _, .zero _, ?_⟩
      intro n hn
      rw [hreports, skipped_zero, hn]
      rfl

/-- A whole call that starts in the search: the turns add up. -/
theorem protocolInputLoop_counts (io : DasIO) (serio : SerioLib) (me : ι) (r : XiomasTcpRcvr out)
    (x : XiomasTcpExport out ι) (hst : r.state ≠ .xtrMidPkt) :
    (∃ s, protocolInputLoop io serio me r x = some (s, x) ∧ ∃ k, Waits r s k) ∨
    ∃ r0 mode, (mode ≠ .logCurfile ∧ ∃ k, Reaches r r0 x.circSpace k) ∧
      protocolInputLoop io serio me r x =
        (Run.run (exportStep serio) x (exportOps out me (r0.chunkEvents mode))).map
          fun y => (r0.afterChunks mode, y) := by
  refine protocolInputLoop_rule io serio me x (fun (_ : Unit) r => r.state ≠ .xtrMidPkt)
    (fun _ r s => ∃ k, Waits r s k)
    (fun _ r r0 mode => mode ≠ .logCurfile ∧ ∃ k, Reaches r r0 x.circSpace k) ?_ ?_ () r hst
  · intro _ r hst
    cases hs : r.state with
    | xtrMidPkt => exact absurd hs hst
    | xtrLost =>
      obtain ⟨n, hn⟩ := xtrLostCase_moved io r hs
      rw [r.switchCase_lost io x.circSpace hs]
      exact hn.keeps x.circSpace
    | xtrIdle =>
      rw [r.switchCase_idle io x.circSpace hs]
      exact xtrIdleCase_keeps io r x.circSpace hs
  · intro _ r hst hnil
    refine ⟨0, passed_zero hst rfl rfl, Or.inl ⟨?_, ?_, ?_⟩⟩
    · rw [hnil, List.length_nil]
      decide
    · rw [finish_eq, List.drop_zero]
    · exact fun hidle => Or.inl ⟨hidle, rfl⟩

/-- What the next call counts once more. A call that waits for a first chunk keeps what
is in front of it, and a library that restarts `cp` has the next one search that again. -/
def recount (io : DasIO) (r : XiomasTcpRcvr out) : ℕ :=
  if r.state = .xtrIdle ∧ io.resume r.ibuf.cp = 0 then
    unmarked ((r.ibuf.buf.take r.ibuf.cp).drop 1)
  else 0

/-- No packet has begun, and `again` bytes have been counted once more than the others. -/
structure Counting (r : XiomasTcpRcvr out) (input : List UInt8) (again : ℕ) : Prop where
  state_ne : r.state ≠ .xtrMidPkt
  packetTrace_eq : r.packetTrace = []
  reports_eq : r.reports = []
  front : r.state = .xtrIdle → ∃ q, r.ibuf.unread = 0x24 :: q
  cp_cases : r.ibuf.cp = 0 ∨ (r.state = .xtrIdle ∧
    xioHarvardHeaderSize ≤ r.ibuf.unread.length ∧
    PassesChecks (r.ibuf.unread.take xioHarvardHeaderSize))
  dropped : ∃ pre, input = pre ++ r.ibuf.buf ∧ NoStart input (pre.length+r.ibuf.cp) ∧
    r.bytesDiscarding = u32 (unmarked (pre ++ r.ibuf.buf.take r.ibuf.cp)+again)

/-- The packet at offset `i` has begun, and the count up to it was reported. -/
structure Counted (r : XiomasTcpRcvr out) (input : List UInt8) (again i : ℕ) : Prop where
  first : FirstPass input i
  midPacket : ∃ mode size, MidPacket r mode size (input.drop i)
  reports_eq : r.reports = report (u32 (unmarked (input.take i)+again))

theorem counting_new (transmitting : Bool) (sock : out.State) :
    (new transmitting sock : XiomasTcpRcvr out).Counting [] 0 :=
  ⟨by simp [new], rfl, rfl, by simp [new], Or.inl rfl, [], rfl, .zero _, rfl⟩

/-- The offsets at which a call can end: the last ones of `u`, or the one of a header that
passes the checks. -/
def MayEnd (u : List UInt8) (k : ℕ) : Prop :=
  u.length < k+xioHarvardHeaderSize ∨ PassesChecks ((u.drop k).take xioHarvardHeaderSize)

/-- What a call finds: `r` with the bytes read, `pre` in front of its buffer, and a count
that comes out right wherever the call ends. -/
structure Entry (r : XiomasTcpRcvr out) (input pre : List UInt8) (n again : ℕ) : Prop where
  input_eq : input = pre ++ r.ibuf.buf
  cp_le : r.ibuf.cp ≤ r.ibuf.nc
  front : r.state = .xtrIdle →
    xioHarvardHeaderSize ≤ r.ibuf.unread.length ∨ ∃ q, r.ibuf.unread = 0x24 :: q
  noStart : NoStart input (pre.length+r.ibuf.cp)
  discarding_eq : r.bytesDiscarding = u32 n
  count : ∀ k, NoStart r.ibuf.unread k → MayEnd r.ibuf.unread k →
    n+unmarked (r.skipped k) = unmarked (pre ++ r.ibuf.buf.take (r.ibuf.cp+k))+again

/-- Unless `cp` is restarted, nothing is counted twice. -/
theorem unmarked_skipped {r : XiomasTcpRcvr out} (hst : r.state ≠ .xtrMidPkt)
    (hfront : r.state = .xtrIdle → ∃ q, r.ibuf.unread = 0x24 :: q) (k : ℕ) :
    unmarked (r.skipped k) = unmarked (r.ibuf.unread.take k) := by
  cases hs : r.state with
  | xtrMidPkt => exact absurd hs hst
  | xtrLost => rw [skipped_lost hs]
  | xtrIdle =>
    obtain ⟨q, hq⟩ := hfront hs
    rw [skipped_idle hs, hq, unmarked_drop_one]

theorem Counting.cp_le {r : XiomasTcpRcvr out} {input : List UInt8} {again : ℕ}
    (h : Counting r input again) : r.ibuf.cp ≤ r.ibuf.nc := by
  have hlen := r.ibuf.length_unread
  have hcases := h.cp_cases
  unfold xioHarvardHeaderSize at hcases
  omega

theorem Counting.unread_append {r : XiomasTcpRcvr out} {input : List UInt8} {again : ℕ}
    (h : Counting r input again) (bytes : List UInt8) :
    (r.ibuf.buf ++ bytes).take r.ibuf.cp = r.ibuf.buf.take r.ibuf.cp ∧
      (r.ibuf.buf ++ bytes).drop r.ibuf.cp = r.ibuf.unread ++ bytes :=
  ⟨List.take_append_of_le_length h.cp_le, List.drop_append_of_le_length h.cp_le⟩

/-- A read that leaves `cp` where it is. -/
theorem Counting.entry_kept {r : XiomasTcpRcvr out} {pre : List UInt8} {again : ℕ}
    (h : Counting r (pre ++ r.ibuf.buf) again)
    (hno : NoStart (pre ++ r.ibuf.buf) (pre.length+r.ibuf.cp)) (n : ℕ)
    (hn : n = unmarked (pre ++ r.ibuf.buf.take r.ibuf.cp)+again)
    (hcount : r.bytesDiscarding = u32 n) (bytes : List UInt8) :
    Entry {r with ibuf := ⟨r.ibuf.buf ++ bytes,r.ibuf.cp⟩} (pre ++ r.ibuf.buf ++ bytes) pre n
      again := by
  obtain ⟨htake, hdrop⟩ := h.unread_append bytes
  have hfront : r.state = .xtrIdle → ∃ q, r.ibuf.unread ++ bytes = 0x24 :: q := by
    intro hidle
    obtain ⟨q, hq⟩ := h.front hidle
    exact ⟨q ++ bytes, by rw [hq, List.cons_append]⟩
  rw [← hdrop] at hfront
  refine ⟨List.append_assoc _ _ _, ?_, fun hidle => Or.inr (hfront hidle), hno.append bytes,
    hcount, ?_⟩
  · rw [InputBuffer.nc_mk, List.length_append]
    exact Nat.le_add_right_of_le h.cp_le
  · intro k _ _
    set r1 : XiomasTcpRcvr out := {r with ibuf := ⟨r.ibuf.buf ++ bytes,r.ibuf.cp⟩}
    have hskipped : unmarked (r1.skipped k) =
        unmarked (((r.ibuf.buf ++ bytes).drop r.ibuf.cp).take k) :=
      unmarked_skipped (r := r1) h.state_ne hfront k
    calc n+unmarked (r1.skipped k)
        = unmarked (pre ++ r.ibuf.buf.take r.ibuf.cp)+
            unmarked (((r.ibuf.buf ++ bytes).drop r.ibuf.cp).take k)+again := by
          rw [hn, hskipped, Nat.add_right_comm]
      _ = unmarked (pre ++ (r.ibuf.buf ++ bytes).take (r.ibuf.cp+k))+again := by
          rw [← unmarked_append, List.append_assoc, ← htake, ← List.take_add]

/-- A read that restarts `cp` in front of a header that waits: the call gets to this
header again and not past it. -/
theorem Counting.entry_restarted {r : XiomasTcpRcvr out} {pre : List UInt8} {again : ℕ}
    (h : Counting r (pre ++ r.ibuf.buf) again)
    (hno : NoStart (pre ++ r.ibuf.buf) (pre.length+r.ibuf.cp)) (n : ℕ)
    (hn : n = unmarked (pre ++ r.ibuf.buf.take r.ibuf.cp)+again)
    (hcount : r.bytesDiscarding = u32 n) (hpos : r.ibuf.cp ≠ 0) (bytes : List UInt8) :
    Entry {r with ibuf := ⟨r.ibuf.buf ++ bytes,0⟩} (pre ++ r.ibuf.buf ++ bytes) pre n
      (again+unmarked ((r.ibuf.buf.take r.ibuf.cp).drop 1)) := by
  obtain ⟨hidle, hfull, hpass⟩ := h.cp_cases.resolve_left hpos
  obtain ⟨htake, hdrop⟩ := h.unread_append bytes
  have hcp := h.cp_le
  have hlen := r.ibuf.length_unread
  have hall : (r.ibuf.buf ++ bytes).length = r.ibuf.nc+bytes.length := List.length_append
  have hpass' : PassesChecks
      (((r.ibuf.buf ++ bytes).drop r.ibuf.cp).take xioHarvardHeaderSize) := by
    rwa [hdrop, List.take_append_of_le_length hfull]
  refine ⟨List.append_assoc _ _ _, Nat.zero_le _, ?_, ?_, hcount, ?_⟩
  · intro _
    left
    rw [InputBuffer.unread_mk_zero, hall]
    omega
  · exact (hno.append bytes).mono (Nat.le_add_right _ _)
  · intro k hk hend
    rw [InputBuffer.unread_mk_zero] at hk hend
    have hle : k ≤ r.ibuf.cp := hk.le_of_passes hpass'
    -- In front of that header nothing passes the checks, and the header itself is complete.
    have hge : r.ibuf.cp ≤ k := by
      rcases hend with hshort | hkpass
      · rw [hall] at hshort
        omega
      · have hinput : (pre ++ r.ibuf.buf ++ bytes).drop (pre.length+k) =
            (r.ibuf.buf ++ bytes).drop k := by
          rw [← List.drop_drop, List.append_assoc, List.drop_left]
        have := (hno.append bytes).le_of_passes (by rwa [hinput])
        omega
    obtain rfl := Nat.le_antisymm hle hge
    set r1 : XiomasTcpRcvr out := {r with ibuf := ⟨r.ibuf.buf ++ bytes,0⟩}
    have hskipped : r1.skipped r.ibuf.cp = (r.ibuf.buf.take r.ibuf.cp).drop 1 := by
      rw [skipped_idle (r := r1) hidle, ← htake]
      rfl
    calc n+unmarked (r1.skipped r.ibuf.cp)
        = unmarked (pre ++ r.ibuf.buf.take r.ibuf.cp)+again+
            unmarked ((r.ibuf.buf.take r.ibuf.cp).drop 1) := by rw [hn, hskipped]
      _ = unmarked (pre ++ (r.ibuf.buf ++ bytes).take (0+r.ibuf.cp))+
            (again+unmarked ((r.ibuf.buf.take r.ibuf.cp).drop 1)) := by
          rw [Nat.zero_add, htake, Nat.add_assoc]

theorem Counting.entry {r : XiomasTcpRcvr out} {input : List UInt8} {again : ℕ}
    (h : Counting r input again) (io : DasIO) (bytes : List UInt8) :
    ∃ pre n, Entry {r with ibuf := io.read r.ibuf bytes} (input ++ bytes) pre n
      (again+recount io r) := by
  obtain ⟨pre, rfl, hno, hcount⟩ := h.dropped
  refine ⟨pre, unmarked (pre ++ r.ibuf.buf.take r.ibuf.cp)+again, ?_⟩
  by_cases hres : io.resume r.ibuf.cp = r.ibuf.cp
  · have hzero : recount io r = 0 := by
      unfold recount
      split_ifs with hr
      · rw [← hres, hr.2]
        rfl
      · rfl
    rw [ DasIO.read, hres, hzero]
    exact h.entry_kept hno _ rfl hcount bytes
  · have hzero : io.resume r.ibuf.cp = 0 := (io.resume_cases r.ibuf.cp).resolve_left hres
    have hpos : r.ibuf.cp ≠ 0 := fun h0 => hres (by rw [h0, io.resume_zero])
    have hidle := (h.cp_cases.resolve_left hpos).1
    rw [ DasIO.read, hzero, recount, if_pos ⟨hidle, hzero⟩]
    exact h.entry_restarted hno _ rfl hcount hpos bytes

/-- Wherever the call ends, the count is that of the bytes up to there. -/
theorem Entry.count_at {r : XiomasTcpRcvr out} {input pre : List UInt8} {n again k : ℕ}
    (h : Entry r input pre n again) (hk : k ≤ r.ibuf.unread.length)
    (hno : NoStart r.ibuf.unread k) (hend : MayEnd r.ibuf.unread k) :
    ∃ dropped, dropped = pre ++ r.ibuf.buf.take (r.ibuf.cp+k) ∧
      input = dropped ++ r.ibuf.unread.drop k ∧ dropped.length = pre.length+(r.ibuf.cp+k) ∧
      NoStart input dropped.length ∧ n+unmarked (r.skipped k) = unmarked dropped+again := by
  have hcp := h.cp_le
  have hnc : r.ibuf.nc = r.ibuf.buf.length := rfl
  have hlen := r.ibuf.length_unread
  have hdropped : (pre ++ r.ibuf.buf.take (r.ibuf.cp+k)).length = pre.length+(r.ibuf.cp+k) := by
    rw [List.length_append, List.length_take_of_le (by omega)]
  refine ⟨_, rfl, ?_, hdropped, ?_, h.count k hno hend⟩
  · rw [h.input_eq, InputBuffer.unread, List.drop_drop, List.append_assoc, List.take_append_drop]
  · have hdrop : input.drop (pre.length+r.ibuf.cp) = r.ibuf.unread := by
      rw [h.input_eq, ← List.drop_drop, List.drop_left]
      rfl
    rw [hdropped, ← Nat.add_assoc]
    refine h.noStart.add ?_ (by rwa [hdrop])
    rw [h.input_eq, List.length_append]
    omega

/-- The call ends without a packet. -/
theorem Waits.counting {r s : XiomasTcpRcvr out} {input pre : List UInt8} {n again k : ℕ}
    (hw : Waits r s k) (h : Entry r input pre n again) (htrace : r.packetTrace = [])
    (hreports : r.reports = []) : Counting s input again := by
  have hend : MayEnd r.ibuf.unread k := hw.ibuf_cases.imp (fun h => h.1) (fun h => h.2.1)
  obtain ⟨dropped, rfl, hinput, hlen, hno, hcount⟩ := h.count_at hw.le hw.noStart hend
  have hn := hw.count n h.discarding_eq
  rw [hcount] at hn
  have htrace' : s.packetTrace = [] := by rw [hw.quiet.packetTrace_eq, htrace]
  have hreports' : s.reports = [] := by rw [hw.reports_eq, hreports]
  rcases hw.ibuf_cases with ⟨hshort, hib, hfront⟩ | ⟨hfull, hpass, hib, hidle⟩
  · -- Everything up to the end of the search has been dropped.
    refine ⟨hw.state_ne, htrace', hreports', ?_, Or.inl (by rw [hib]), ?_⟩
    · intro hs
      rw [hib, InputBuffer.unread_mk_zero]
      rcases hfront hs with ⟨hr, rfl⟩ | hq
      · rw [List.drop_zero]
        exact (h.front hr).resolve_left (by omega)
      · exact hq
    · refine ⟨_, by rw [hib]; exact hinput, ?_, ?_⟩
      · rw [hib]
        exact hno
      · rw [hib, List.take_zero, List.append_nil]
        exact hn
  · -- The buffer still begins where it did, with `cp` at the header.
    have hadv : s.ibuf.unread = r.ibuf.unread.drop k := by
      rw [hib, InputBuffer.unread_advance]
    refine ⟨hw.state_ne, htrace', hreports', ?_, Or.inr ⟨hidle, ?_, ?_⟩, ?_⟩
    · intro _
      rw [hadv]
      exact exists_cons_of_validateHeader _ _ hpass.1
    · rw [hadv, List.length_drop]
      omega
    · rwa [hadv]
    · refine ⟨pre, by rw [hib]; exact h.input_eq, ?_, ?_⟩
      · rw [hib]
        rwa [hlen] at hno
      · rw [hib]
        exact hn

/-- The call ends in a packet. -/
theorem Reaches.counted {r r0 : XiomasTcpRcvr out} {input pre : List UInt8}
    {circSpace n again k : ℕ} (hr : Reaches r r0 circSpace k) (h : Entry r input pre n again)
    (htrace : r.packetTrace = []) (hreports : r.reports = []) {mode : LogMode}
    (hmode : mode ≠ .logCurfile) : ∃ i, Counted (r0.afterChunks mode) input again i := by
  have hacc := hr.accepted
  have hhdr := hacc.header_le
  have hpass : PassesChecks (r0.ibuf.unread.take xioHarvardHeaderSize) := by
    rw [PassesChecks, xhgValidateHeader_length _ _ hacc.valid]
    exact ⟨hacc.valid, hacc.size_le⟩
  have hend : MayEnd r.ibuf.unread k := Or.inr (by rwa [← hr.unread_eq])
  obtain ⟨dropped, -, rfl, -, hno, hcount⟩ := h.count_at hr.le hr.noStart hend
  rw [← hr.unread_eq] at hno
  have hbody : (dropped ++ r.ibuf.unread.drop k).drop dropped.length = r0.ibuf.unread := by
    rw [List.drop_left, hr.unread_eq]
  refine ⟨dropped.length, ⟨?_, by rwa [hbody], hr.unread_eq ▸ hno⟩, ?_, ?_⟩
  · rw [List.length_append, ← hr.unread_eq]
    omega
  · have htrace' : (r0.afterChunks mode).packetTrace = r0.chunkEvents mode := by
      rw [packetTrace_afterChunks, hacc.quiet.packetTrace_eq, htrace, List.nil_append]
    rw [hbody]
    exact ⟨mode, _, hacc.state_eq, hmode, hacc.header_le, hacc.valid, hacc.size_le,
      hacc.first_pos, hacc.first_le, htrace', rfl, rfl⟩
  · rw [reports_afterChunks, hr.reports_eq n h.discarding_eq, hreports, hcount, List.take_left,
      List.nil_append]

/-- The receiver counts, or it has reported its count. -/
def Discards (r : XiomasTcpRcvr out) (input : List UInt8) (again : ℕ) : Prop :=
  Counting r input again ∨ ∃ i, Counted r input again i

/-- The count is exact: `i` is reported, unless it is zero. -/
def ReportsExactly (r : XiomasTcpRcvr out) (i : ℕ) : Prop :=
  r.reports = if i = 0 then [] else [u32 i]

/-- The report is right exactly when the missing bytes and those counted twice
balance, and the count does not wrap to zero. -/
theorem Counted.reportsExactly_iff {r : XiomasTcpRcvr out} {input : List UInt8} {again i : ℕ}
    (h : Counted r input again i) : ReportsExactly r i ↔
      ((input.take i).count 0x24)%4294967296 = again%4294967296 ∧ (u32 i = 0 → i = 0) := by
  have hle := h.first.header_le
  have hsum := count_add_unmarked (input.take i)
  rw [List.length_take_of_le (by omega)] at hsum
  rw [ReportsExactly, h.reports_eq, report]
  unfold u32
  split_ifs with hreport hi hi
  · simp only [true_iff]
    omega
  · simp only [false_iff]
    omega
  · simp only [false_iff]
    omega
  · simp only [List.cons.injEq, and_true]
    omega

/-- Reading on in mid-packet reports nothing. -/
theorem protocolInput_mid_reports (io : DasIO) (serio : SerioLib) (me : ι) (r : XiomasTcpRcvr out)
    (x : XiomasTcpExport out ι) (bytes : List UInt8) (hmid : r.state = .xtrMidPkt)
    (hlt : r.bytesRemainingInPacket < 4294967296) :
    ∃ s evs, s.reports = r.reports ∧ protocolInput io serio me r x bytes =
      (Run.run (exportStep serio) x (exportOps out me evs)).map fun y => (s,y) :=
  ⟨_, _, reports_afterChunks {r with ibuf := io.read r.ibuf bytes} .logCurfile,
    protocolInputLoop_mid io serio me _ x hmid hlt⟩

/-- One more read in the search. -/
theorem protocolInput_counting (io : DasIO) (serio : SerioLib) (me : ι) (r : XiomasTcpRcvr out)
    (x : XiomasTcpExport out ι) {input : List UInt8} {again : ℕ} (bytes : List UInt8)
    (h : Counting r input again) :
    ∃ s evs, Discards s (input ++ bytes) (again+recount io r) ∧
      protocolInput io serio me r x bytes =
        (Run.run (exportStep serio) x (exportOps out me evs)).map fun y => (s,y) := by
  obtain ⟨pre, n, hentry⟩ := h.entry io bytes
  rcases protocolInputLoop_counts io serio me {r with ibuf := io.read r.ibuf bytes} x
    h.state_ne with ⟨s, hs, k, hw⟩ | ⟨r0, mode, ⟨hmode, k, hr0⟩, heq⟩
  · exact ⟨s, [], Or.inl (hw.counting hentry h.packetTrace_eq h.reports_eq), hs⟩
  · exact ⟨r0.afterChunks mode, r0.chunkEvents mode,
      Or.inr (hr0.counted hentry h.packetTrace_eq h.reports_eq hmode), heq⟩

end XiomasTcpRcvr

/-- What the event's call counts once more on connection `me`. -/
def recountBy (io : DasIO) [DecidableEq ι] (me : ι) (s : XioSystem out ι) :
    SysEvent out ι → ℕ
  | .read i _ => if i = me then recount io (s.rcvr me) else 0
  | _ => 0

/-- Nothing that matters for the count has happened to a receiver. -/
structure Untouched (r s : XiomasTcpRcvr out) : Prop extends Kept r s where
  discarding_eq : s.bytesDiscarding = r.bytesDiscarding
  reports_eq : s.reports = r.reports

theorem Untouched.refl (r : XiomasTcpRcvr out) : Untouched r r := ⟨.refl r, rfl, rfl⟩

theorem Untouched.protocolTimeout (r : XiomasTcpRcvr out) : Untouched r r.protocolTimeout := by
  refine ⟨.protocolTimeout r, rfl, ?_⟩
  exact reports_of_trace_append rfl (by simp [discardedBytes])

theorem Untouched.discards {r s : XiomasTcpRcvr out} {input : List UInt8} {again : ℕ}
    (h : Untouched r s) (hr : Discards r input again) : Discards s input again := by
  rcases hr with hc | ⟨i, hc⟩
  · left
    constructor
    · rw [h.state_eq]
      exact hc.state_ne
    · rw [h.packetTrace_eq, hc.packetTrace_eq]
    · rw [h.reports_eq, hc.reports_eq]
    · rw [h.state_eq, h.ibuf_eq]
      exact hc.front
    · rw [h.state_eq, h.ibuf_eq]
      exact hc.cp_cases
    · rw [h.ibuf_eq, h.discarding_eq]
      exact hc.dropped
  · obtain ⟨mode, size, hmid⟩ := hc.midPacket
    refine Or.inr ⟨i, hc.first, ⟨mode, size, h.toKept.midPacket hmid⟩, ?_⟩
    rw [h.reports_eq, hc.reports_eq]

/-- An event that is no read of the connection does not touch its count. -/
theorem sysStep_untouched (io : DasIO) (serio : SerioLib) [DecidableEq ι] (me : ι)
    (s s' : XioSystem out ι) (e : SysEvent out ι) (hs : sysStep io serio s e = some s')
    (hnot : ∀ bytes, e ≠ .read me bytes) : Untouched (s.rcvr me) (s'.rcvr me) := by
  cases e with
  | read i bytes =>
    have hi : me ≠ i := by
      rintro rfl
      exact hnot bytes rfl
    obtain ⟨p, -, rfl⟩ := Option.map_eq_some_iff.mp hs
    dsimp only
    rw [Function.update_of_ne hi]
    exact .refl _
  | ack length =>
    obtain ⟨x, -, rfl⟩ := Option.map_eq_some_iff.mp hs
    exact .refl _
  | timeout i =>
    obtain rfl := Option.some.inj hs
    exact update_rel Untouched .refl s.rcvr i (.protocolTimeout _) me
  | exportSocket sock =>
    obtain rfl := Option.some.inj hs
    exact .refl _
  | rcvrSocket i sock =>
    obtain rfl := Option.some.inj hs
    have hsock : Untouched (s.rcvr i) {s.rcvr i with sock := sock} :=
      ⟨⟨rfl, rfl, rfl, rfl, rfl⟩, rfl, rfl⟩
    exact update_rel Untouched .refl s.rcvr i hsock me

theorem sysStep_read_discards (io : DasIO) (serio : SerioLib) [DecidableEq ι] (me : ι)
    (s s' : XioSystem out ι) (bytes : List UInt8) {input : List UInt8} {again : ℕ}
    (hs : sysStep io serio s (.read me bytes) = some s')
    (h : Discards (s.rcvr me) input again) :
    Discards (s'.rcvr me) (input ++ bytes) (again+recount io (s.rcvr me)) := by
  rcases h with hc | ⟨i, hc⟩
  · obtain ⟨r, evs, hr, heq⟩ := protocolInput_counting io serio me (s.rcvr me) s.exp bytes hc
    rwa [sysStep_read_rcvr io serio heq hs]
  · obtain ⟨mode, size, hmid⟩ := hc.midPacket
    have hhdr := hc.first.header_le
    have hrem : (s.rcvr me).bytesRemainingInPacket < 4294967296 := by
      have hsize := hmid.size_le
      have hrem := hmid.remaining_eq
      unfold maxSpktLength at hsize
      omega
    have hzero : recount io (s.rcvr me) = 0 := by
      rw [recount, if_neg]
      simp [hmid.state_eq]
    obtain ⟨r, hmid', -, -, heq⟩ :=
      protocolInput_midPacket io serio me (s.rcvr me) s.exp mode size _ bytes hmid
    obtain ⟨t, evs, hreports, heq'⟩ :=
      protocolInput_mid_reports io serio me (s.rcvr me) s.exp bytes hmid.state_eq hrem
    refine Or.inr ⟨i, hc.first.append bytes, ⟨mode, size, ?_⟩, ?_⟩
    · rw [sysStep_read_rcvr io serio heq hs, List.drop_append_of_le_length (by omega)]
      exact hmid'
    · rw [sysStep_read_rcvr io serio heq' hs, hreports, hc.reports_eq, hzero,
        List.take_append_of_le_length (by omega)]
      rfl

theorem sysStep_discards (io : DasIO) (serio : SerioLib) [DecidableEq ι] (me : ι)
    (es : List (SysEvent out ι)) (s s' : XioSystem out ι) (e : SysEvent out ι) {again : ℕ}
    (hs : sysStep io serio s e = some s') (h : Discards (s.rcvr me) (inputOf me es) again) :
    Discards (s'.rcvr me) (inputOf me (es ++ [e])) (again+recountBy io me s e) := by
  by_cases hread : ∃ bytes, e = .read me bytes
  · obtain ⟨bytes, rfl⟩ := hread
    rw [inputOf_read, recountBy, if_pos rfl]
    exact sysStep_read_discards io serio me s s' bytes hs h
  · have hnot : ∀ bytes, e ≠ .read me bytes := fun bytes he => hread ⟨bytes, he⟩
    have hzero : recountBy io me s e = 0 := by
      cases e with
      | read i bytes =>
        refine if_neg ?_
        rintro rfl
        exact hnot bytes rfl
      | _ => rfl
    rw [inputOf_append, bytesOf_eq_nil me e hnot, List.append_nil, hzero]
    exact (sysStep_untouched io serio me s s' e hs hnot).discards h

/-- A whole run: the count is that of the bytes in front of the packet, and of those
that have been counted twice. -/
theorem run_discards (io : DasIO) (serio : SerioLib) [DecidableEq ι] (me : ι)
    (s : XioSystem out ι) (hs : s.Started) (es : List (SysEvent out ι)) :
    ∃ s', Run.run (sysStep io serio) s es = some s' ∧
      Discards (s'.rcvr me) (inputOf me es)
        (Run.total (sysStep io serio) (recountBy io me) s es) := by
  have hnew : Discards (s.rcvr me) [] 0 := by
    obtain ⟨transmitting, sock, hi⟩ := hs.fresh me
    rw [hi]
    exact Or.inl (counting_new transmitting sock)
  obtain ⟨s', hr, -, -, hd⟩ := Run.run_history (sysStep io serio) (fun _ _ => True)
    (fun fs t => Run.run (sysStep io serio) s fs = some t ∧ SysInv fs t ∧
      Discards (t.rcvr me) (inputOf me fs) (Run.total (sysStep io serio) (recountBy io me) s fs))
    (fun fs t e ⟨hr, hinv, hd⟩ _ => by
      obtain ⟨t', ops, ht, -, -, hinv', -⟩ := sysStep_sysInv io serio fs t hinv e
      refine ⟨t', ht, (Run.run_concat _ hr e).trans ht, hinv', ?_⟩
      rw [Run.total_concat _ _ hr]
      exact sysStep_discards io serio me fs t t' e ht hd)
    [] s es ⟨rfl, sysInv_started s hs, hnew⟩ (Run.along_true _ s es)
  exact ⟨s', hr, hd⟩

theorem firstHeader_byte_packet (c : UInt8)
    (hc : ¬PassesChecks ((c :: barePacket).take xioHarvardHeaderSize)) :
    FirstHeader (c :: barePacket) 1 16 := by
  have hdrop : (c :: barePacket).drop 1 = barePacket := rfl
  refine ⟨Nat.le_refl 17, ?_, ?_, by decide, ?_⟩
  · rw [hdrop]
    decide
  · rw [hdrop]
    decide
  · intro j hj
    obtain rfl := Nat.lt_one_iff.mp hj
    exact hc

/-- A fresh receiver has nothing to count twice. -/
theorem total_read_new (bytes : List UInt8) :
    Run.total (sysStep DasIO.keeping SerioLib.packed) (recountBy DasIO.keeping ())
      (.new (fun _ => false) (fun _ => ()) (fun _ => 0) () : XioSystem .direct Unit)
      [.read () bytes] = 0 :=
  Run.total_concat _ _ (Run.run_nil _ _) _

/-- One read of a packet with one byte in front of it. -/
theorem counted_byte_packet (c : UInt8) (hfirst : FirstHeader (c :: barePacket) 1 16) :
    ∃ s' : XioSystem .direct Unit, Run.run (sysStep DasIO.keeping SerioLib.packed)
      (.new (fun _ => false) (fun _ => ()) (fun _ => 0) ())
      [.read () (c :: barePacket)] = some s' ∧ (s'.rcvr ()).state = .xtrMidPkt ∧
      Counted (s'.rcvr ()) (c :: barePacket) 0 1 := by
  set s0 : XioSystem .direct Unit := .new (fun _ => false) (fun _ => ()) (fun _ => 0) ()
  have hstart : s0.Started := started_new _ _ _ _
  obtain ⟨s', hr, hd⟩ := run_discards DasIO.keeping SerioLib.packed () s0 hstart
    [.read () (c :: barePacket)]
  have hs : sysStep DasIO.keeping SerioLib.packed s0 (.read () (c :: barePacket)) = some s' :=
    (Run.run_concat _ (Run.run_nil _ s0) _).symm.trans hr
  have htotal := total_read_new (c :: barePacket)
  have hlen : (c :: barePacket).length = 17 := rfl
  have hmid : (s'.rcvr ()).state = .xtrMidPkt := by
    have hnew : Seeking 1 (s0.rcvr ()) [] := by
      obtain ⟨transmitting, sock, hi⟩ := hstart.fresh ()
      rw [hi]
      exact seeking_new 1 transmitting sock
    obtain ⟨r, evs, heq, hcases⟩ := protocolInput_seeking DasIO.keeping SerioLib.packed ()
      (s0.rcvr ()) s0.exp hfirst (List.prefix_refl _) hnew
    rw [sysStep_read_rcvr DasIO.keeping SerioLib.packed heq hs]
    rcases hcases with ⟨hshort, -⟩ | ⟨-, ⟨mode, hmid⟩, -⟩
    · rw [List.nil_append, hlen] at hshort
      exact absurd hshort (by decide)
    · exact hmid.state_eq
  rw [htotal] at hd
  rcases hd with hc | ⟨i, hc⟩
  · exact absurd hmid hc.state_ne
  · rw [inputOf, List.flatMap_singleton] at hc
    obtain rfl := hc.first.unique hfirst.firstPass
    exact ⟨s', hr, hmid, hc⟩

/-- Once a connection is in its first packet, which starts with the first header that
passes the checks, at offset `i`: the report of discarded bytes is exact if and only if,
modulo 2^32, as many bytes were counted twice as there are `$` in front of the packet, and
`i` is zero or no multiple of 2^32. -/
theorem discarded_exact_iff (io : DasIO) (serio : SerioLib) [DecidableEq ι] (me : ι)
    (s : XioSystem out ι) (hs : s.Started) (es : List (SysEvent out ι)) :
    ∃ s', Run.run (sysStep io serio) s es = some s' ∧
      ((s'.rcvr me).state = .xtrMidPkt → ∃ i, FirstPass (inputOf me es) i ∧
        (∃ mode size, MidPacket (s'.rcvr me) mode size ((inputOf me es).drop i)) ∧
        (ReportsExactly (s'.rcvr me) i ↔
          (((inputOf me es).take i).count 0x24)%4294967296 =
            (Run.total (sysStep io serio) (recountBy io me) s es)%4294967296 ∧
          (u32 i = 0 → i = 0))) := by
  obtain ⟨s', hr, hd⟩ := run_discards io serio me s hs es
  refine ⟨s', hr, fun hmid => ?_⟩
  rcases hd with hc | ⟨i, hc⟩
  · exact absurd hmid hc.state_ne
  · exact ⟨i, hc.first, hc.midPacket, hc.reportsExactly_iff⟩

theorem discarded_exact_garbage : ∃ s' : XioSystem .direct Unit,
    Run.run (sysStep DasIO.keeping SerioLib.packed)
      (.new (fun _ => false) (fun _ => ()) (fun _ => 0) ())
      [.read () (0 :: barePacket)] = some s' ∧
    (s'.rcvr ()).state = .xtrMidPkt ∧ ReportsExactly (s'.rcvr ()) 1 := by
  set s0 : XioSystem .direct Unit := .new (fun _ => false) (fun _ => ()) (fun _ => 0) ()
  have hfirst := firstHeader_byte_packet 0 (by decide)
  obtain ⟨s', hr, himp⟩ := discarded_exact_iff DasIO.keeping SerioLib.packed () s0
    (started_new _ _ _ _) [.read () (0 :: barePacket)]
  obtain ⟨t, ht, hmid, -⟩ := counted_byte_packet 0 hfirst
  obtain rfl := Option.some.inj (ht.symm.trans hr)
  obtain ⟨i, hi, -, hiff⟩ := himp hmid
  rw [inputOf, List.flatMap_singleton] at hi hiff
  obtain rfl := hi.unique hfirst.firstPass
  refine ⟨t, hr, hmid, hiff.mpr ⟨?_, by decide⟩⟩
  rw [total_read_new]
  decide

/-- With a `$` in front of the packet, one byte is discarded and none is reported. -/
theorem discarded_mark_missed :
    FirstPass (0x24 :: barePacket) 1 ∧ ∃ s' : XioSystem .direct Unit,
      Run.run (sysStep DasIO.keeping SerioLib.packed)
        (.new (fun _ => false) (fun _ => ()) (fun _ => 0) ())
        [.read () (0x24 :: barePacket)] = some s' ∧
      (∃ mode size, MidPacket (s'.rcvr ()) mode size ((0x24 :: barePacket).drop 1)) ∧
      (s'.rcvr ()).reports = [] ∧ ¬ReportsExactly (s'.rcvr ()) 1 := by
  have hfirst := firstHeader_byte_packet 0x24 (by decide)
  obtain ⟨s', hr, -, hc⟩ := counted_byte_packet 0x24 hfirst
  have hreports : (s'.rcvr ()).reports = [] := hc.reports_eq
  refine ⟨hfirst.firstPass, s', hr, hc.midPacket, hreports, ?_⟩
  rw [ReportsExactly, hreports]
  simp

end Cosmid.Xiomas
