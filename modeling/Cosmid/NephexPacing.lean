import Cosmid.NephexTurns
import Mathlib.Algebra.Order.Ring.Int

/-! The pacing of the emulator: what `protocol_input` adds to `TO` in the course of a session,
against the time stamps it has examined. -/
namespace Cosmid.Nephex

/-- `d_secs` and `d_msecs` of the call of `TO.Add`, in the arithmetic of `α`, or `none` where
there is no call. -/
def TimeBase.added {α : Type*} [Add α] [Sub α] (cast : ℕ → α) (t : TimeBase)
    (pktSecs pktMsecs : ℕ) : Option (α × α) :=
  let t := if t.toSet then t else ⟨true,pktSecs,pktMsecs⟩
  if pktSecs > t.lastSecs ∨ (pktSecs = t.lastSecs ∧ pktMsecs > t.lastMsecs) then
    if pktMsecs < t.lastMsecs then
      if ¬pktMsecs+1000 > t.lastMsecs then none
      else some (cast pktSecs-cast t.lastSecs-cast 1,cast pktMsecs+cast 1000-cast t.lastMsecs)
    else some (cast pktSecs-cast t.lastSecs,cast pktMsecs-cast t.lastMsecs)
  else none

namespace Look

/-- The time stamp in milliseconds. -/
def millis (l : Look) : ℕ := 1000*l.pktSecs+l.pktMsecs

/-- The arguments of `TO.Add` as the code computes them. -/
def added (l : Look) : Option (UInt32 × UInt32) :=
  l.base.added UInt32.ofNat l.pktSecs l.pktMsecs

/-- The same differences of integers. -/
def difference (l : Look) : Option (ℤ × ℤ) := l.base.added (fun n => (n : ℤ)) l.pktSecs l.pktMsecs

/-- What the look adds to `TO`, in milliseconds. -/
def addedMillis (l : Look) : ℕ := (l.added.map fun d => 1000*d.1.toNat+d.2.toNat).getD 0

end Look

def firstMillis (looks : List Look) : ℕ := (looks.map Look.millis).headD 0
def latestMillis (looks : List Look) : ℕ := (looks.map Look.millis).foldl max 0
def totalMillis (looks : List Look) : ℕ := (looks.map Look.addedMillis).sum

/-- The calls of `TO.Add` follow the time stamps: each is computed without an underflow, and
all those so far add up to the way from the first stamp to the latest. -/
structure Paced (looks : List Look) : Prop where
  exact : ∀ l ∈ looks,
    l.added.map (fun d => ((d.1.toNat : ℤ),(d.2.toNat : ℤ))) = l.difference
  msecs_lt : ∀ l ∈ looks, ∀ d, l.added = some d → d.2.toNat < 1000
  total_eq : ∀ pre, pre <+: looks → firstMillis pre+totalMillis pre = latestMillis pre
  older : ∀ pre l, pre ++ [l] <+: looks → (∃ k ∈ pre, l.millis ≤ k.millis) → l.added = none

@[simp] theorem latestMillis_concat (looks : List Look) (l : Look) :
    latestMillis (looks ++ [l]) = max (latestMillis looks) l.millis := by
  simp [latestMillis]

@[simp] theorem totalMillis_concat (looks : List Look) (l : Look) :
    totalMillis (looks ++ [l]) = totalMillis looks+l.addedMillis := by
  simp [totalMillis]

theorem firstMillis_concat (looks : List Look) (l : Look) (h : looks ≠ []) :
    firstMillis (looks ++ [l]) = firstMillis looks := by
  obtain ⟨k, ks, rfl⟩ := List.exists_cons_of_ne_nil h
  rfl

theorem millis_le_latest (looks : List Look) (k : Look) (h : k ∈ looks) :
    k.millis ≤ latestMillis looks := by
  induction looks using List.reverseRecOn with
  | nil => cases h
  | append_singleton looks l ih =>
    rw [latestMillis_concat]
    rcases List.mem_append.mp h with h | h
    · exact le_max_of_le_left (ih h)
    · rw [List.mem_singleton.mp h]
      exact le_max_right ..

/-- The time base holds the latest time stamp, in the ranges of the code's own types. -/
structure TimeBase.At (t : TimeBase) (millis : ℕ) : Prop where
  toSet_eq : t.toSet = true
  lastSecs_lt : t.lastSecs < 2^32
  lastMsecs_lt : t.lastMsecs < 1000
  millis_eq : 1000*t.lastSecs+t.lastMsecs = millis

/-- A stamp not later than the time base adds nothing and leaves it where it is. -/
theorem TimeBase.At.older {t : TimeBase} {m : ℕ} (ht : t.At m) {secs msecs : ℕ}
    (hms : msecs < 1000) (hle : 1000*secs+msecs ≤ m) {α : Type*} [Add α] [Sub α]
    (cast : ℕ → α) : t.update secs msecs = some t ∧ t.added cast secs msecs = none := by
  obtain ⟨htoSet, -, hlast, hm⟩ := ht
  have hnot : ¬(secs > t.lastSecs ∨ (secs = t.lastSecs ∧ msecs > t.lastMsecs)) := by omega
  rw [TimeBase.update, TimeBase.added, if_pos htoSet, if_neg hnot, if_neg hnot]
  exact ⟨rfl, rfl⟩

/-- The stamp that starts a session adds nothing either. -/
theorem TimeBase.update_first {t : TimeBase} (ht : t.toSet = false) (secs msecs : ℕ)
    {α : Type*} [Add α] [Sub α] (cast : ℕ → α) :
    t.update secs msecs = some ⟨true,secs,msecs⟩ ∧ t.added cast secs msecs = none := by
  have hnot : ¬(secs > secs ∨ (secs = secs ∧ msecs > msecs)) := by omega
  rw [TimeBase.update, TimeBase.added, ht]
  exact ⟨if_neg hnot, if_neg hnot⟩

/-- A later stamp adds its distance from the time base, borrowing a second if need be. -/
theorem TimeBase.At.later {t : TimeBase} {m : ℕ} (ht : t.At m) {secs msecs : ℕ}
    (hms : msecs < 1000) (hlt : m < 1000*secs+msecs) :
    t.update secs msecs = some ⟨true,secs,msecs⟩ ∧
    ∃ dSecs dMsecs : ℕ, dSecs ≤ secs ∧ dMsecs < 1000 ∧
      m+(1000*dSecs+dMsecs) = 1000*secs+msecs ∧
      t.added UInt32.ofNat secs msecs = some (UInt32.ofNat dSecs,UInt32.ofNat dMsecs) ∧
      t.added (fun n => (n : ℤ)) secs msecs = some ((dSecs : ℤ),(dMsecs : ℤ)) := by
  obtain ⟨htoSet, -, hlast, hm⟩ := ht
  have hlater : secs > t.lastSecs ∨ (secs = t.lastSecs ∧ msecs > t.lastMsecs) := by omega
  have hsecs : t.lastSecs ≤ secs := by omega
  have hassert : ¬¬msecs+1000 > t.lastMsecs := by omega
  have hupdate : t.update secs msecs = some {t with lastSecs := secs, lastMsecs := msecs} := by
    rw [TimeBase.update, if_pos htoSet, if_pos hlater, if_neg fun h => hassert h.2]
  rw [htoSet] at hupdate
  refine ⟨hupdate, ?_⟩
  unfold TimeBase.added
  rw [if_pos htoSet, if_pos hlater, if_pos hlater, if_neg hassert, if_neg hassert]
  -- None of the differences is negative, so it is the same in ℕ, in ℤ and modulo 2^32.
  by_cases hborrow : msecs < t.lastMsecs
  · rw [if_pos hborrow, if_pos hborrow]
    refine ⟨secs-t.lastSecs-1, msecs+1000-t.lastMsecs, by omega, by omega, by omega, ?_, ?_⟩
    · rw [UInt32.ofNat_sub (by omega), UInt32.ofNat_sub hsecs, UInt32.ofNat_sub (by omega),
        UInt32.ofNat_add]
    · congr 2 <;> push_cast <;> omega
  · rw [if_neg hborrow, if_neg hborrow]
    refine ⟨secs-t.lastSecs, msecs-t.lastMsecs, by omega, by omega, by omega, ?_, ?_⟩
    · rw [UInt32.ofNat_sub hsecs, UInt32.ofNat_sub (by omega)]
    · congr 2 <;> push_cast <;> omega

theorem Paced.nil : Paced [] where
  exact := nofun
  msecs_lt := nofun
  total_eq pre hpre := by
    rw [List.prefix_nil.mp hpre]
    rfl
  older pre l hpre := by
    have hlen := hpre.length_le
    rw [List.length_append] at hlen
    cases hlen

/-- What is to be shown of one more look. -/
theorem Paced.concat {looks : List Look} {l : Look} (h : Paced looks)
    (hexact : l.added.map (fun d => ((d.1.toNat : ℤ),(d.2.toNat : ℤ))) = l.difference)
    (hlt : ∀ d, l.added = some d → d.2.toNat < 1000)
    (htotal : firstMillis (looks ++ [l])+totalMillis (looks ++ [l]) = latestMillis (looks ++ [l]))
    (holder : (∃ k ∈ looks, l.millis ≤ k.millis) → l.added = none) : Paced (looks ++ [l]) where
  exact k hk := by
    rcases List.mem_append.mp hk with hk | hk
    · exact h.exact k hk
    · rwa [List.mem_singleton.mp hk]
  msecs_lt k hk := by
    rcases List.mem_append.mp hk with hk | hk
    · exact h.msecs_lt k hk
    · rwa [List.mem_singleton.mp hk]
  total_eq pre hpre := by
    rcases List.prefix_concat_iff.mp hpre with rfl | hpre
    · exact htotal
    · exact h.total_eq pre hpre
  older pre k hpre := by
    rcases List.prefix_concat_iff.mp hpre with heq | hpre
    · obtain ⟨rfl, hk⟩ := List.append_inj' heq rfl
      rwa [List.singleton_inj.mp hk]
    · exact h.older pre k hpre

/-- A look that adds nothing. -/
theorem Paced.concat_none {looks : List Look} {l : Look} (h : Paced looks)
    (hadded : l.added = none) (hdifference : l.difference = none)
    (hlatest : firstMillis (looks ++ [l])+totalMillis looks = latestMillis (looks ++ [l])) :
    Paced (looks ++ [l]) := by
  refine h.concat (by rw [hadded, hdifference]; rfl) ?_ ?_ (fun _ => hadded)
  · intro d hd
    rw [hadded] at hd
    cases hd
  · rw [totalMillis_concat, Look.addedMillis, hadded]
    exact hlatest

/-- The looks of a session so far, and the time base behind them. -/
structure InStep (looks : List Look) (t : TimeBase) : Prop where
  paced : Paced looks
  time : (looks = [] ∧ t.toSet = false) ∨ (looks ≠ [] ∧ t.At (latestMillis looks))

theorem InStep.first {l : Look} (h : l.base.toSet = false) (hsecs : l.pktSecs < 2^32)
    (hms : l.pktMsecs < 1000) :
    ∃ t, l.updated = some t ∧ InStep [l] t := by
  obtain ⟨hupdate, hadded⟩ := TimeBase.update_first h l.pktSecs l.pktMsecs UInt32.ofNat
  have hdifference := (TimeBase.update_first h l.pktSecs l.pktMsecs fun n => (n : ℤ)).2
  have hlatest : latestMillis [l] = l.millis := Nat.zero_max _
  refine ⟨_, hupdate, ?_, ?_⟩
  · refine Paced.nil.concat_none hadded hdifference ?_
    exact hlatest.symm
  · exact Or.inr ⟨List.cons_ne_nil l [], rfl, hsecs, hms, hlatest.symm⟩

theorem InStep.older {looks : List Look} {l : Look} (h : Paced looks) (hne : looks ≠ [])
    (ht : l.base.At (latestMillis looks)) (hms : l.pktMsecs < 1000)
    (hle : l.millis ≤ latestMillis looks) :
    ∃ t, l.updated = some t ∧ InStep (looks ++ [l]) t := by
  obtain ⟨hupdate, hadded⟩ := ht.older hms hle UInt32.ofNat
  have hdifference := (ht.older hms hle fun n => (n : ℤ)).2
  have hlatest : latestMillis (looks ++ [l]) = latestMillis looks := by
    rw [latestMillis_concat, max_eq_left hle]
  refine ⟨l.base, hupdate, ?_, ?_⟩
  · refine h.concat_none hadded hdifference ?_
    rw [firstMillis_concat looks l hne, hlatest]
    exact h.total_eq looks (List.prefix_refl looks)
  · rw [hlatest]
    exact Or.inr ⟨by simp, ht⟩

theorem InStep.later {looks : List Look} {l : Look} (h : Paced looks) (hne : looks ≠ [])
    (ht : l.base.At (latestMillis looks)) (hsecs : l.pktSecs < 2^32) (hms : l.pktMsecs < 1000)
    (hlt : latestMillis looks < l.millis) :
    ∃ t, l.updated = some t ∧ InStep (looks ++ [l]) t := by
  obtain ⟨hupdate, dSecs, dMsecs, hdSecs, hdMsecs, hsum, hadded, hdifference⟩ := ht.later hms hlt
  have hadded : l.added = some (UInt32.ofNat dSecs,UInt32.ofNat dMsecs) := hadded
  have hsecsNat : (UInt32.ofNat dSecs).toNat = dSecs :=
    UInt32.toNat_ofNat_of_lt' (hdSecs.trans_lt hsecs)
  have hmsecsNat : (UInt32.ofNat dMsecs).toNat = dMsecs :=
    UInt32.toNat_ofNat_of_lt' (hdMsecs.trans (by decide))
  have hlatest : latestMillis (looks ++ [l]) = l.millis := by
    rw [latestMillis_concat, max_eq_right (Nat.le_of_lt hlt)]
  refine ⟨_, hupdate, h.concat ?_ ?_ ?_ ?_, ?_⟩
  · rw [hadded, Option.map_some, hsecsNat, hmsecsNat]
    exact hdifference.symm
  · intro d hd
    rw [hadded] at hd
    cases hd
    rwa [hmsecsNat]
  · have hprev := h.total_eq looks (List.prefix_refl looks)
    have hmillis : l.addedMillis = 1000*dSecs+dMsecs := by
      rw [Look.addedMillis, hadded, Option.map_some, hsecsNat, hmsecsNat]
      rfl
    calc firstMillis (looks ++ [l])+totalMillis (looks ++ [l])
        = firstMillis looks+totalMillis looks+l.addedMillis := by
          rw [firstMillis_concat looks l hne, totalMillis_concat, Nat.add_assoc]
      _ = latestMillis looks+(1000*dSecs+dMsecs) := by rw [hprev, hmillis]
      _ = l.millis := hsum
      _ = latestMillis (looks ++ [l]) := hlatest.symm
  · -- Nothing examined so far is as late as this stamp.
    intro hearlier
    obtain ⟨k, hk, hle⟩ := hearlier
    exact absurd (hle.trans (millis_le_latest looks k hk)) (Nat.not_le.mpr hlt)
  · rw [hlatest]
    exact Or.inr ⟨by simp, rfl, hsecs, hms, rfl⟩

/-- One more look keeps the session in step. -/
theorem InStep.look {looks : List Look} {l : Look} (h : InStep looks l.base)
    (hsecs : l.pktSecs < 2^32) (hms : l.pktMsecs < 1000) :
    ∃ t, l.updated = some t ∧ InStep (looks ++ [l]) t := by
  obtain ⟨hpaced, ⟨rfl, hunset⟩ | ⟨hne, ht⟩⟩ := h
  · exact InStep.first hunset hsecs hms
  · rcases Nat.lt_or_ge (latestMillis looks) l.millis with hlt | hle
    · exact InStep.later hpaced hne ht hsecs hms hlt
    · exact InStep.older hpaced hne ht hms hle

namespace NEIngest

theorem turnLook_spec (io : DasIO) (s : NEIngest) (l : Look) (h : s.turnLook io = some l) :
    l.base = s.time ∧ l.pktSecs < 2^32 := by
  obtain ⟨cp, -, rfl⟩ := Option.map_eq_some_iff.mp h
  have h1 := word_lt s.ibuf.buf cp
  have h2 := word_lt s.ibuf.buf (cp+2)
  exact ⟨rfl, by dsimp only [stampAt]; omega⟩

/-- A turn keeps the session in step, and the assertion holds in it. -/
theorem turn_inStep (io : DasIO) (due : Bool) (s : NEIngest) (looks : List Look)
    (h : InStep looks s.time) (hms : ∀ l, s.turnLook io = some l → l.pktMsecs < 1000) :
    ∃ s' turn, s.loopBody io due = some (s', turn) ∧
      InStep (looks ++ (s.turnLook io).toList) s'.time := by
  rcases s.loopBody_turn io due with ⟨hpos, b, turn, hbody, -⟩ | ⟨cp, hpos, -, -, hbody⟩
  · have hlook : s.turnLook io = none := by rw [turnLook, hpos, Option.map_none]
    refine ⟨s.setIbuf b, turn, hbody, ?_⟩
    rw [hlook, Option.toList_none, List.append_nil]
    exact h
  · have hlook : s.turnLook io = some (s.stampAt cp) := by rw [turnLook, hpos, Option.map_some]
    obtain ⟨-, hsecs⟩ := s.turnLook_spec io _ hlook
    obtain ⟨t, hupdate, ht⟩ := h.look (l := s.stampAt cp) hsecs (hms _ hlook)
    rw [← s.replayFrame_time due cp (word s.ibuf.buf (cp-2))] at hupdate
    obtain ⟨⟨s', turn⟩, hframe, rfl⟩ := Option.map_eq_some_iff.mp hupdate
    rw [hlook]
    exact ⟨s', turn, hbody.trans hframe, ht⟩

/-- The looks of a call keep the session in step, and the assertion holds in each. -/
theorem call_inStep (io : DasIO) (due : ℕ → Bool) (s : NEIngest) (looks : List Look)
    (h : InStep looks s.time) (hms : ∀ l ∈ s.callLooks io due, l.pktMsecs < 1000) :
    ∃ s', s.protocolInputLoop io due = some s' ∧
      InStep (looks ++ s.callLooks io due) s'.time := by
  induction due, s using call_induction io generalizing looks with
  | hend due s hnil =>
    rw [protocolInputLoop_end io due s hnil, callLooks_end io due s hnil, List.append_nil]
    exact ⟨_, rfl, h⟩
  | hturn due s hne ih =>
    -- The turn appends its look, and the turns behind it start from the longer list.
    rw [callLooks_turn io due s hne] at hms ⊢
    obtain ⟨s', turn, hbody, hs'⟩ := s.turn_inStep io (due 0) looks h
      (fun l hl => hms l (List.mem_append_left _ (by rw [hl]; exact List.mem_cons_self ..)))
    rw [protocolInputLoop_turn io due s hne]
    rw [hbody] at hms ⊢
    cases turn with
    | again =>
      rw [← List.append_assoc]
      exact ih s' hbody _ hs' (fun l hl => hms l (List.mem_append_right _ hl))
    | leave =>
      rw [List.append_nil]
      exact ⟨_, rfl, hs'⟩
    | giveUp =>
      rw [List.append_nil]
      exact ⟨_, rfl, hs'⟩

end NEIngest

/-- The emulator, and the looks it has taken. -/
structure Watched where
  emu : Emulator
  looks : List Look

namespace Watched

/-- The looks that a step takes. -/
def eventLooks (io : DasIO) (s : Emulator) (e : EmulatorEvent) : List Look :=
  ((s.callOf io e).map fun c => c.1.callLooks io c.2).getD []

def step (io : DasIO) (w : Watched) (e : EmulatorEvent) : Option Watched :=
  (w.emu.step io e).map fun emu => ⟨emu,w.looks ++ eventLooks io w.emu e⟩

/-- The session goes on, with milliseconds below 1000. -/
def InSession (io : DasIO) (w : Watched) (e : EmulatorEvent) : Prop :=
  (∀ client, e ≠ .destroyed client) ∧ ∀ l ∈ eventLooks io w.emu e, l.pktMsecs < 1000

theorem step_inStep (io : DasIO) (w : Watched) (e : EmulatorEvent)
    (h : InStep w.looks w.emu.ingest.time) (he : InSession io w e) :
    ∃ w', w.step io e = some w' ∧ InStep w'.looks w'.emu.ingest.time := by
  obtain ⟨halive, hms⟩ := he
  unfold step eventLooks at *
  rcases w.emu.step_callOf io e with ⟨t, due, hcall, htime, hs⟩ | ⟨hcall, s', hs, htime⟩
  · rw [hcall, Option.map_some, Option.getD_some] at hms ⊢
    obtain ⟨s', hs', hstep⟩ := t.call_inStep io due w.looks (htime ▸ h) hms
    rw [hs, hs']
    exact ⟨_, rfl, hstep⟩
  · rw [hcall, hs]
    refine ⟨_, rfl, ?_⟩
    rw [Option.map_none, Option.getD_none, List.append_nil]
    exact (htime halive).symm ▸ h

/-- In every session, however its reads and its clock divide it into calls, the calls of
`TO.Add` follow the time stamps. -/
theorem pacing_telescopes (io : DasIO) (s0 : Emulator) (h0 : s0.ingest.time.toSet = false)
    (es : List EmulatorEvent)
    (hes : Run.Along (step io) (InSession io) ⟨s0,[]⟩ es) :
    Run.Throughout (step io) (fun _ w => Paced w.looks) ⟨s0,[]⟩ es := by
  intro fs hfs
  have hnil : InStep [] s0.ingest.time := ⟨Paced.nil, Or.inl ⟨rfl, h0⟩⟩
  obtain ⟨w, hw, hstep⟩ := Run.run_invariant (step io) (InSession io)
    (fun w => InStep w.looks w.emu.ingest.time) (step_inStep io) ⟨s0,[]⟩ fs hnil
    (Run.along_of_isPrefix (step io) _ fs es hfs hes)
  exact ⟨w, hw, hstep.paced⟩

/-- Six data bytes behind the header, which hold the time stamp. -/
def stampedFrame (secs msecs : UInt8) : List UInt8 :=
  [0xaa,0xaa,0,0,0,0,5,0,secs,0,0,0,msecs,0]

/-- A session that looks at 1.005 s and 2.003 s, and borrows a second in between. -/
theorem pacing_borrows :
    Run.Throughout (step .keeping) (fun _ w => Paced w.looks) ⟨.new 0 0,[]⟩
      [.connected 7,.input (stampedFrame 1 5 ++ stampedFrame 2 3) fun n => n == 0] := by
  refine pacing_telescopes .keeping (.new 0 0) rfl _ ⟨⟨nofun, nofun⟩, ?_⟩
  rintro w ⟨⟩
  refine ⟨⟨nofun, ?_⟩, fun _ _ => trivial⟩
  have hlooks : NEIngest.callLooks .keeping (fun n => n == 0)
      ⟨⟨stampedFrame 1 5 ++ stampedFrame 2 3,0⟩,true,⟨false,0,0⟩,0,some 7,[]⟩ =
      [⟨⟨false,0,0⟩,1,5⟩,⟨⟨true,1,5⟩,2,3⟩] := by
    rw [NEIngest.callLooks_turn _ _ _ (by decide)]
    change [(⟨⟨false,0,0⟩,1,5⟩ : Look)] ++ NEIngest.callLooks .keeping (fun n => n+1 == 0)
      ⟨⟨stampedFrame 1 5 ++ stampedFrame 2 3,14⟩,true,⟨true,1,5⟩,1,some 7,[stampedFrame 1 5]⟩ = _
    rw [NEIngest.callLooks_turn _ _ _ (by decide)]
    rfl
  intro l hl
  have hl : l ∈ [(⟨⟨false,0,0⟩,1,5⟩ : Look),⟨⟨true,1,5⟩,2,3⟩] := hlooks ▸ hl
  simp only [List.mem_cons, List.not_mem_nil, or_false] at hl
  rcases hl with rfl | rfl <;> decide

end Watched
end Cosmid.Nephex
