import Cosmid.NephexWindow
import Cosmid.Thin

/-! What of the nephelometer's packets goes out to tm_ip_export: of every APID the packets
that find the exporter clear to send are thinned out at the rate of the table. -/
namespace Cosmid.Nephex

namespace APid

/-- The rate at which packets of the APID are transmitted, 0 if none is. -/
def rateOf (a : ℕ) : ℕ :=
  match entries.find? (fun e => e.1 = a) with
  | some (_, size, dec) => if size = 0 then 0 else dec
  | none => 0

theorem rateOf_of_mem {a size dec : ℕ} (h : (a, size, dec) ∈ entries) :
    rateOf a = if size = 0 then 0 else dec := by
  unfold rateOf
  split
  · rename_i b size' dec' hfind
    have hb := List.find?_some hfind
    obtain rfl := of_decide_eq_true hb
    obtain ⟨rfl, rfl⟩ := entry_unique h (List.mem_of_find?_eq_some hfind)
    rfl
  · rename_i hnone
    have hne := List.find?_eq_none.mp hnone _ h
    exact absurd (decide_eq_true rfl) hne

theorem rateOf_of_notMem {a : ℕ} (h : a ∉ entries.map Prod.fst) : rateOf a = 0 := by
  unfold rateOf
  split
  · rename_i b size dec hfind
    have hb := List.find?_some hfind
    obtain rfl := of_decide_eq_true hb
    exact absurd (List.mem_map.mpr ⟨_, List.mem_of_find?_eq_some hfind, rfl⟩) h
  · rfl

/-- Only APIDs of the table have a rate, and it fits the field. -/
theorem rateOf_lt (a : ℕ) : rateOf a < 65536 ∧ (rateOf a ≠ 0 → a ≤ maxApid) := by
  by_cases hmem : a ∈ entries.map Prod.fst
  · obtain ⟨⟨b, size, dec⟩, he, rfl⟩ := List.mem_map.mp hmem
    obtain ⟨hle, hlt⟩ := entries_lt _ he
    rw [rateOf_of_mem he]
    refine ⟨?_, fun _ => hle⟩
    split <;> omega
  · rw [rateOf_of_notMem hmem]
    exact ⟨by omega, fun h => absurd rfl h⟩

/-- For every APID that is transmitted the table counts the calls of `OK_to_transmit`, of
which there have been `seen a`; the others are refused. -/
def Counted (t : APid) (seen : ℕ → ℕ) : Prop :=
  ∀ a ≤ maxApid, (rateOf a = 0 ∧ ((t.defs a).size = 0 ∨ (t.defs a).decimationRate = 0)) ∨
    ∃ size, size ≠ 0 ∧ 0 < rateOf a ∧ Decimating (t.defs a) size (rateOf a) (seen a)

theorem counted_new {memory : ℕ → ApidDef} {t : APid} (h : new memory = some t) :
    t.Counted fun _ => 0 := by
  intro a ha
  rcases new_defs h a ha with ⟨size, dec, hmem, hdef⟩ | ⟨hmem, hdef⟩
  · rw [rateOf_of_mem hmem, hdef]
    by_cases hzero : size = 0 ∨ dec = 0
    · refine Or.inl ⟨?_, hzero⟩
      split <;> omega
    · obtain ⟨hsize, hdec⟩ := not_or.mp hzero
      rw [if_neg hsize]
      refine Or.inr ⟨size, hsize, by omega, rfl, rfl, ?_⟩
      rw [skipAfter_zero, defined, if_pos (by omega)]
  · rw [rateOf_of_notMem hmem, hdef]
    exact Or.inl ⟨rfl, Or.inl rfl⟩

/-- The answer for an APID goes by the calls for it so far, and the call is counted. -/
theorem Counted.okToTransmit {t : APid} {seen : ℕ → ℕ} (h : t.Counted seen) (a : ℕ) :
    ((t.okToTransmit a).1 = true ↔ rateOf a ≠ 0 ∧ rateOf a ∣ seen a) ∧
      (t.okToTransmit a).2.Counted fun b => seen b+if a = b then 1 else 0 := by
  have hothers (b : ℕ) (hb : b ≤ maxApid) (hba : b ≠ a) :
      (rateOf b = 0 ∧ (((t.okToTransmit a).2.defs b).size = 0 ∨
        ((t.okToTransmit a).2.defs b).decimationRate = 0)) ∨
      ∃ size, size ≠ 0 ∧ 0 < rateOf b ∧
        Decimating ((t.okToTransmit a).2.defs b) size (rateOf b)
          (seen b+if a = b then 1 else 0) := by
    rw [okToTransmit_other t b a hba, if_neg (Ne.symm hba), Nat.add_zero]
    exact h b hb
  by_cases ha : a ≤ maxApid
  · rcases h a ha with ⟨hrate, hnone⟩ | ⟨size, hsize, hrate, hdec⟩
    · obtain ⟨hans, hkeep⟩ := okToTransmit_refused t a fun _ => hnone
      refine ⟨?_, fun b hb => ?_⟩
      · rw [hans]
        exact iff_of_false Bool.false_ne_true fun h => h.1 hrate
      · by_cases hba : b = a
        · subst hba
          rw [hkeep b]
          exact Or.inl ⟨hrate, hnone⟩
        · exact hothers b hb hba
    · obtain ⟨hans, hnext⟩ :=
        okToTransmit_decimating t a size (rateOf a) (seen a) ha hsize hrate (rateOf_lt a).1 hdec
      refine ⟨hans.trans ⟨fun hd => ⟨by omega, hd⟩, fun h => h.2⟩, fun b hb => ?_⟩
      by_cases hba : b = a
      · subst hba
        refine Or.inr ⟨size, hsize, hrate, ?_⟩
        dsimp only
        rw [if_pos rfl]
        exact hnext
      · exact hothers b hb hba
  · obtain ⟨hans, hkeep⟩ := okToTransmit_refused t a fun hle => absurd hle ha
    refine ⟨?_, fun b hb => hothers b hb ?_⟩
    · rw [hans]
      exact iff_of_false Bool.false_ne_true fun h => ha ((rateOf_lt a).2 h.1)
    · rintro rfl
      exact ha hb

/-- The size check leaves the counts alone. -/
theorem Counted.checked {t : APid} {seen : ℕ → ℕ} (h : t.Counted seen) (a len : ℕ) :
    (t.checked a len).Counted seen := by
  have hdefs := t.getSize_defs a
  have hsame (b : ℕ) : ((t.checked a len).defs b).size = (t.defs b).size ∧
      ((t.checked a len).defs b).decimationRate = (t.defs b).decimationRate ∧
      ((t.checked a len).defs b).nToSkip = (t.defs b).nToSkip := by
    unfold APid.checked notReported
    dsimp only
    by_cases hba : b = a
    · subst hba
      split_ifs <;> simp [use, hdefs]
    · split_ifs <;> simp [use, hdefs, Function.update_of_ne hba]
  intro b hb
  obtain ⟨h1, h2, h3⟩ := hsame b
  simp only [Decimating, h1, h2, h3]
  exact h b hb

end APid

/-- The packets by APID, with the rates of the table. -/
def byApid : Thinner (List UInt8) ℕ := ⟨fun f => word f 2%1024,APid.rateOf⟩

/-- A frame as it is sent to tm_ip_export. -/
def nphPacket (serio : SerioLib) (f : List UInt8) : List UInt8 :=
  serio.mkHdr serio.pktTypeNPH f ++ f

namespace NephexSystem

variable {out : OutputSocket}

/-- Of the frames that have found the exporter clear to send, it has sent those that are
due. -/
structure Thinned (serio : SerioLib) (s : NephexSystem out) : Prop where
  counted : s.apids.Counted (byApid.seen s.offered)
  iwrites_eq : s.exp.iwrites = (byApid.kept s.offered).map (nphPacket serio)

theorem offered_new (s : NephexSystem out) (h : s.rcvr = .new) : s.offered = [] := by
  rw [offered, h]
  rfl

theorem thinned_started (serio : SerioLib) (s : NephexSystem out) (h : s.Started)
    (hexp : s.exp.iwrites = []) : Thinned serio s := by
  obtain ⟨memory, hnew⟩ := h.apids_new
  have hnil := offered_new s h.rcvr_eq
  refine ⟨?_, ?_⟩
  · rw [hnil]
    exact APid.counted_new hnew
  · rw [hnil]
    exact hexp

/-- One frame: it is offered if the exporter is clear to send. -/
theorem frameStep_thinned (serio : SerioLib) {s s' : NephexSystem out} {f : List UInt8}
    (h : Thinned serio s) (hf : Buffered f) (hs : s.frameStep serio f = some s') :
    Thinned serio s' := by
  obtain ⟨u, hu, hapids, hexp, -, hoff⟩ := frameStep_due serio s f hf
  obtain rfl := Option.some.inj (hs.symm.trans hu)
  obtain ⟨hans, -⟩ := h.counted.okToTransmit (word f 2%1024)
  obtain ⟨-, hcount⟩ := (h.counted.checked (word f 2%1024) (word f 6)).okToTransmit (word f 2%1024)
  have hdue : s.Due f ↔ s.exp.cts = true ∧ byApid.Due s.offered f := and_congr_right fun _ => hans
  -- A frame that finds the exporter busy is not counted for the decimation.
  by_cases hcts : s.exp.cts = true
  · rw [if_pos hcts] at hoff
    refine ⟨?_, ?_⟩
    · rw [hapids, tableAfter, if_pos hcts, hoff]
      have hseen : byApid.seen (s.offered ++ [f]) = fun b =>
          byApid.seen s.offered b+if word f 2%1024 = b then 1 else 0 := by
        funext b
        rw [byApid.seen_append, byApid.seen_singleton]
        rfl
      rw [hseen]
      exact hcount
    · rw [hexp, expAfter, hoff, byApid.kept_concat, List.map_append, ← h.iwrites_eq]
      by_cases hd : byApid.Due s.offered f
      · rw [if_pos (hdue.mpr ⟨hcts, hd⟩), if_pos hd]
        rfl
      · rw [if_neg fun hD => hd (hdue.mp hD).2, if_neg hd, List.map_nil, List.append_nil]
  · rw [if_neg hcts, List.append_nil] at hoff
    refine ⟨?_, ?_⟩
    · rw [hapids, tableAfter, if_neg hcts, hoff]
      exact h.counted.checked _ _
    · rw [hexp, expAfter, if_neg fun hD => hcts (hdue.mp hD).1, hoff]
      exact h.iwrites_eq

/-- From `s` to `s'` the frames `fs` have been logged and `more` of them have been offered to
the exporter. -/
structure Passing (serio : SerioLib) (more fs : List (List UInt8)) (s s' : NephexSystem out) :
    Prop where
  logged_eq : s'.logged = s.logged ++ fs
  offered_eq : s'.offered = s.offered ++ more
  more_sublist : more.Sublist fs
  thinned : Thinned serio s'

theorem run_frameStep_thinned (serio : SerioLib) (fs : List (List UInt8))
    (hfs : ∀ f ∈ fs, Buffered f) {s s' : NephexSystem out} (h : Thinned serio s)
    (hs : Run.run (frameStep serio) s fs = some s') :
    ∃ more, more.Sublist fs ∧ s'.offered = s.offered ++ more ∧ Thinned serio s' := by
  induction fs generalizing s with
  | nil =>
    obtain rfl := Option.some.inj hs
    exact ⟨[], List.Sublist.slnil, (List.append_nil _).symm, h⟩
  | cons f fs ih =>
    rw [List.forall_mem_cons] at hfs
    obtain ⟨t, ht, hs⟩ := (Run.run_cons_eq_some_iff _).mp hs
    obtain ⟨more, hmore, hoff, hthin⟩ := ih hfs.2 (frameStep_thinned serio h hfs.1 ht) hs
    obtain ⟨u, hu, htaken⟩ := frameStep_due serio s f hfs.1
    obtain rfl := Option.some.inj (ht.symm.trans hu)
    -- The frame is one of `more` if it has been offered.
    rw [htaken.offered_eq, List.append_assoc] at hoff
    refine ⟨_, ?_, hoff, hthin⟩
    by_cases hcts : s.exp.cts = true
    · rw [if_pos hcts]
      exact hmore.cons_cons f
    · rw [if_neg hcts]
      exact hmore.cons f

/-- One read of `bytes` with the parse position at the front. -/
theorem protocolInput_passing (io : DasIO) (serio : SerioLib) (s : NephexSystem out)
    (bytes : List UInt8) (hcp : s.rcvr.ibuf.cp = 0) (hthin : Thinned serio s)
    (hfit : s.Fits (.read bytes)) :
    ∃ s' more, s.protocolInput io serio bytes = some s' ∧
      s'.rcvr.ibuf = ⟨leftover (s.rcvr.ibuf.buf ++ bytes),0⟩ ∧
      Passing serio more (frames (s.rcvr.ibuf.buf ++ bytes)) s s' := by
  have hread : io.read s.rcvr.ibuf bytes = ⟨s.rcvr.ibuf.buf ++ bytes,0⟩ := by
    have hib : s.rcvr.ibuf = ⟨s.rcvr.ibuf.buf,0⟩ := by rw [← hcp]
    rw [hib, io.read_zero]
  have hnc : (s.rcvr.ibuf.buf ++ bytes).length < rcvrBufsize := by
    rw [List.length_append]
    exact hfit
  -- The loop treats the frames of the buffer one by one, as `frameStep` does.
  obtain ⟨s', hs', hib, hbuf, u, hu, halike⟩ :=
    protocolInputLoop_passed io serio (s.setIbuf ⟨s.rcvr.ibuf.buf ++ bytes,0⟩) hnc
  obtain ⟨t, ht, -, htook⟩ :=
    protocolInputLoop_spec io serio (s.setIbuf ⟨s.rcvr.ibuf.buf ++ bytes,0⟩) hnc
  obtain rfl := Option.some.inj (hs'.symm.trans ht)
  obtain ⟨more, hmore, hoff, hthin'⟩ := run_frameStep_thinned serio _ hbuf
    (⟨hthin.counted, hthin.iwrites_eq⟩ :
      Thinned serio (s.setIbuf ⟨s.rcvr.ibuf.buf ++ bytes,0⟩)) hu
  refine ⟨s', more, ?_, hib, htook.logged_eq, halike.offered_eq.trans hoff, hmore, ?_, ?_⟩
  · rw [protocolInput, hread, hs']
  · rw [halike.apids_eq, halike.offered_eq]
    exact hthin'.counted
  · rw [halike.exp_eq, halike.offered_eq]
    exact hthin'.iwrites_eq

/-- What happens to the exporter by itself is no matter of packets. -/
theorem Thinned.passing {serio : SerioLib} {s s' : NephexSystem out} (h : Thinned serio s)
    (hrcvr : s'.rcvr = s.rcvr) (hapids : s'.apids = s.apids)
    (hexp : s'.exp.iwrites = s.exp.iwrites) : Passing serio [] [] s s' := by
  have hoff : s'.offered = s.offered := by
    rw [offered, hrcvr]
    rfl
  refine ⟨?_, ?_, List.Sublist.slnil, ?_, ?_⟩
  · rw [List.append_nil, logged, hrcvr]
    rfl
  · rw [List.append_nil, hoff]
  · rw [hapids, hoff]
    exact h.counted
  · rw [hexp, hoff]
    exact h.iwrites_eq

theorem step_passing (io : DasIO) (serio : SerioLib) (s : NephexSystem out) (e : NephexInput out)
    (hcp : s.rcvr.ibuf.cp = 0) (hthin : Thinned serio s) (hfit : s.Fits e) :
    ∃ s' more fs, s.step io serio e = some s' ∧ s'.rcvr.ibuf.cp = 0 ∧
      Passing serio more fs s s' := by
  cases e with
  | read bytes =>
    obtain ⟨s', more, hs', hib, hpass⟩ := protocolInput_passing io serio s bytes hcp hthin hfit
    exact ⟨s', more, _, hs', by rw [hib], hpass⟩
  | ack length => exact ⟨_, [], [], rfl, hcp, hthin.passing rfl rfl rfl⟩
  | exportSocket sock => exact ⟨_, [], [], rfl, hcp, hthin.passing rfl rfl rfl⟩

theorem run_passing (io : DasIO) (serio : SerioLib) (s : NephexSystem out)
    (es : List (NephexInput out)) (hcp : s.rcvr.ibuf.cp = 0) (hthin : Thinned serio s)
    (hfit : Run.Along (step io serio) Fits s es) :
    ∃ s' more fs, Run.run (step io serio) s es = some s' ∧ s'.rcvr.ibuf.cp = 0 ∧
      Passing serio more fs s s' := by
  induction es generalizing s with
  | nil => exact ⟨s, [], [], rfl, hcp, hthin.passing rfl rfl rfl⟩
  | cons e es ih =>
    obtain ⟨t, more, fs, ht, htcp, hpass⟩ := step_passing io serio s e hcp hthin hfit.1
    obtain ⟨s', more', fs', hs', hcp', hpass'⟩ := ih t htcp hpass.thinned (hfit.2 t ht)
    refine ⟨s', more ++ more', fs ++ fs', ?_, hcp', ?_, ?_, ?_, hpass'.thinned⟩
    · rw [Run.run_cons_of_step _ ht, hs']
    · rw [hpass'.logged_eq, hpass.logged_eq, List.append_assoc]
    · rw [hpass'.offered_eq, hpass.offered_eq, List.append_assoc]
    · exact hpass.more_sublist.append hpass'.more_sublist

/-- In every stretch of every run the exporter sends exactly what the thinning at the rates of
the table keeps of the frames that have found it clear to send. So of an APID with rate `r`
one packet in `r` frames logged goes out and at most one more, and of the others none. -/
theorem exported_thinned (io : DasIO) (serio : SerioLib) (s : NephexSystem out) (h : s.Started)
    (hexp : s.exp.iwrites = []) (es fs : List (NephexInput out))
    (hfit : Run.Along (step io serio) Fits s (es ++ fs)) :
    ∃ s1 s2 more logs, Run.run (step io serio) s es = some s1 ∧
      Run.run (step io serio) s1 fs = some s2 ∧
      s1.offered.Sublist s1.logged ∧ s2.logged = s1.logged ++ logs ∧
      s2.offered = s1.offered ++ more ∧ more.Sublist logs ∧
      s1.exp.iwrites = (byApid.kept s1.offered).map (nphPacket serio) ∧
      s2.exp.iwrites = s1.exp.iwrites ++
        (byApid.keptAfter s1.offered more).map (nphPacket serio) ∧
      ∀ a, (APid.rateOf a = 0 → byApid.seen (byApid.keptAfter s1.offered more) a = 0) ∧
        (0 < APid.rateOf a → APid.rateOf a*byApid.seen (byApid.keptAfter s1.offered more) a <
          byApid.seen logs a+APid.rateOf a) := by
  have hfirst :=
    Run.along_of_isPrefix (step io serio) s es (es ++ fs) (List.prefix_append es fs) hfit
  obtain ⟨s1, more1, logs1, hs1, hcp1, hpass1⟩ := run_passing io serio s es
    (by rw [h.rcvr_eq]; rfl) (thinned_started serio s h hexp) hfirst
  have hsecond := ((Run.along_append (step io serio) hs1 fs).mp hfit).2
  have hthin1 := hpass1.thinned
  obtain ⟨s2, more, logs, hs2, -, hpass2⟩ := run_passing io serio s1 fs hcp1 hthin1 hsecond
  refine ⟨s1, s2, more, logs, hs1, hs2, ?_, hpass2.logged_eq, hpass2.offered_eq,
    hpass2.more_sublist, hthin1.iwrites_eq, ?_, fun a => ⟨?_, fun ha => ?_⟩⟩
  · rw [hpass1.logged_eq, logged_new s h.rcvr_eq, hpass1.offered_eq, offered_new s h.rcvr_eq,
      List.nil_append, List.nil_append]
    exact hpass1.more_sublist
  · rw [hpass2.thinned.iwrites_eq, hpass2.offered_eq, byApid.kept_append, List.map_append,
      hthin1.iwrites_eq]
  · exact byApid.seen_keptAfter_zero s1.offered more a
  · -- The bound is one on the frames offered, of which there are at most as many.
    have hle : byApid.seen more a ≤ byApid.seen logs a := hpass2.more_sublist.countP_le
    have hlt := byApid.seen_keptAfter_le s1.offered more a ha
    exact Nat.lt_of_lt_of_le hlt (Nat.add_le_add_right hle _)

/-- An ACCEL packet with one data byte. -/
def accelFrame : List UInt8 := [0xaa,0xaa,1,0,0,0,0,0,0x55]

/-- A frame that is read alone is offered if the exporter is clear to send. -/
theorem protocolInput_single (io : DasIO) (serio : SerioLib) (s s' : NephexSystem out)
    (f : List UInt8) (hibuf : s.rcvr.ibuf = InputBuffer.empty) (hf : Buffered f)
    (hs : s.protocolInput io serio f = some s') :
    s'.offered = s.offered ++ if s.exp.cts then [f] else [] := by
  have hread : io.read s.rcvr.ibuf f = ⟨f,0⟩ := by
    rw [hibuf]
    exact io.read_zero [] f
  rw [protocolInput, hread] at hs
  obtain ⟨t, ht, -, -, u, hu, halike⟩ :=
    protocolInputLoop_passed io serio (s.setIbuf ⟨f,0⟩) hf.length_lt
  obtain rfl := Option.some.inj (hs.symm.trans ht)
  have hframes : frames (s.setIbuf ⟨f,0⟩).rcvr.ibuf.unread = [f] := frames_single f hf.isFrame
  rw [hframes] at hu
  obtain ⟨v, hv, htaken⟩ := frameStep_due serio (s.setIbuf ⟨f,0⟩) f hf
  rw [Run.run_cons_of_step _ hv] at hu
  obtain rfl := Option.some.inj hu
  exact halike.offered_eq.trans htaken.offered_eq

/-- The first packet of all: the exporter is clear to send, and it goes out. -/
theorem exported_thinned_accel : ∃ s s' : NephexSystem .direct, s.Started ∧
    Run.run (step DasIO.keeping SerioLib.packed) s [.read accelFrame] = some s' ∧
    s'.offered = [accelFrame] ∧ s'.exp.iwrites = [nphPacket SerioLib.packed accelFrame] := by
  obtain ⟨t, ht, -⟩ := APid.new_isSome fun _ => ⟨0,0,0,0⟩
  have hstart : Started (⟨.new,t,.new ()⟩ : NephexSystem .direct) := ⟨rfl, _, ht⟩
  have hfit : Run.Along (step DasIO.keeping SerioLib.packed) Fits
      (⟨.new,t,.new ()⟩ : NephexSystem .direct) [.read accelFrame] :=
    ⟨(by decide : InputBuffer.empty.nc+accelFrame.length < rcvrBufsize), fun _ _ => trivial⟩
  obtain ⟨s1, s2, more, logs, hs1, hs2, -, -, hoff, -, -, hsent, -⟩ :=
    exported_thinned DasIO.keeping SerioLib.packed _ hstart rfl [] [.read accelFrame] hfit
  obtain rfl := Option.some.inj hs1
  have hnil := offered_new (⟨.new,t,.new ()⟩ : NephexSystem .direct) rfl
  have hcall : protocolInput DasIO.keeping SerioLib.packed
      (⟨.new,t,.new ()⟩ : NephexSystem .direct) accelFrame = some s2 := by
    obtain ⟨s', hs', hrest⟩ := (Run.run_cons_eq_some_iff _).mp hs2
    exact hs'.trans hrest
  have hone : s2.offered = [accelFrame] :=
    protocolInput_single DasIO.keeping SerioLib.packed _ s2 accelFrame rfl
      ⟨⟨rfl, rfl, rfl⟩, by decide⟩ hcall
  rw [hnil, List.nil_append, hone] at hoff
  have hkept : byApid.keptAfter [] [accelFrame] = [accelFrame] := by decide
  rw [hnil, ← hoff, hkept] at hsent
  exact ⟨_, s2, hstart, hs2, hone, hsent⟩

end NephexSystem
end Cosmid.Nephex
