import Cosmid.PopsStow

/-! The data of many flights: between two recordings `POPSstow` runs, to its end or until the
power goes off. -/
namespace Cosmid.Pops

open Shell

/-- The instrument's software records a run, and the script moves the first `done` of those
that it has listed. -/
inductive CardEvent (δ : Type)
  | record (name : Word) (d : δ)
  | stow (fuel done : ℕ)

namespace DataCard

variable {δ : Type}

def step (h : Host δ) (c : DataCard δ) : CardEvent δ → Option (DataCard δ)
  | .record name d => some {c with data := c.data ++ [(name,d)]}
  | .stow fuel done => Run.run (stowRun h fuel) c ((c.runs h).take done)

/-- Runs are recorded under new names that the shell leaves alone. -/
def Fits (c : DataCard δ) : CardEvent δ → Prop
  | .record name _ => name ∉ c.runNames ∧ (isRun name = true → Plain name)
  | .stow fuel _ => c.oldData.length+c.data.length < fuel

/-- What has been recorded. -/
def recorded (es : List (CardEvent δ)) : List (Word × δ) :=
  es.filterMap fun e => match e with
    | .record name d => some (name,d)
    | .stow _ _ => none

theorem recorded_concat (es : List (CardEvent δ)) (e : CardEvent δ) :
    recorded (es ++ [e]) = recorded es ++ recorded [e] := List.filterMap_append

theorem findDest_eq_candidate (h : Host δ) (c : DataCard δ) (run : Word) (fuel k : ℕ)
    (dest : Word) (hd : c.findDest h run fuel (k+1) (candidate run k) = some dest) :
    ∃ j, dest = candidate run j := by
  induction fuel generalizing k with
  | zero => cases hd
  | succ fuel ih =>
    -- The suffix that is tried next makes the next candidate.
    rw [findDest] at hd
    split at hd
    · exact ih (k+1) hd
    · exact ⟨k, (Option.some.inj hd).symm⟩

theorem rename_echoed (c : DataCard δ) (src dst : Path) : (c.rename src dst).echoed = c.echoed := by
  unfold rename
  split
  · cases src <;> cases dst <;> rfl
  · rfl

theorem moveInto_echoed (h : Host δ) (dst : Path) (c : DataCard δ) (src : Path) :
    (c.moveInto h dst src).echoed = c.echoed := by
  unfold moveInto
  split
  · rfl
  · split
    · split
      · cases src <;> cases dst <;> rfl
      · rfl
    · rfl

theorem mv_echoed (h : Host δ) (c : DataCard δ) (args : List Path) :
    (c.mv h args).echoed = c.echoed := by
  unfold mv
  split
  · rfl
  · split
    · exact List.foldlRecOn (motive := fun c' : DataCard δ => c'.echoed = c.echoed) _ _ rfl
        fun c' hc' src _ => (moveInto_echoed h _ c' src).trans hc'
    · split
      · exact c.rename_echoed _ _
      · rfl

/-- What the script announces is a name with a suffix or without one. -/
theorem stowRun_echoed (h : Host δ) (fuel : ℕ) (c c' : DataCard δ) (run : Word)
    (hc : stowRun h fuel c run = some c') :
    ∃ k, c'.echoed = c.echoed ++ [(run,candidate run k)] := by
  obtain ⟨dest, hd, rfl⟩ := Option.map_eq_some_iff.mp hc
  obtain ⟨k, rfl⟩ := findDest_eq_candidate h c run fuel 0 dest hd
  exact ⟨k, mv_echoed h _ _⟩

theorem run_echoed (h : Host δ) (fuel : ℕ) (c c' : DataCard δ) (rs : List Word)
    (hc : Run.run (stowRun h fuel) c rs = some c') :
    ∃ l, c'.echoed = c.echoed ++ l ∧ ∀ e ∈ l, ∃ k, e.2 = candidate e.1 k := by
  refine Run.run_keeps (stowRun h fuel) (fun _ _ => True)
    (fun _ s => ∃ l, s.echoed = c.echoed ++ l ∧ ∀ e ∈ l, ∃ k, e.2 = candidate e.1 k)
    ?_ [] c c' rs ⟨[], (List.append_nil _).symm, by simp⟩ (Run.along_true _ _ _) hc
  rintro _ s run s' ⟨l, hl, hall⟩ - hs
  obtain ⟨k, hk⟩ := stowRun_echoed h fuel s s' run hs
  refine ⟨l ++ [(run,candidate run k)], by rw [hk, hl, List.append_assoc], ?_⟩
  rw [List.forall_mem_append]
  exact ⟨hall, fun e he => ⟨k, by rw [List.mem_singleton.mp he]⟩⟩

/-- Names are unique and the shell leaves those of the runs alone. -/
structure Tidy (c : DataCard δ) : Prop extends c.Valid where
  plain : ∀ name ∈ c.runNames, isRun name = true → Plain name

/-- The script, as far as it gets: what it has moved is in `oldData` behind what was there,
under names that are new, and the rest is where it was. -/
theorem stow_moves (h : Host δ) (c : DataCard δ) (hc : c.Tidy) (fuel done : ℕ)
    (hfuel : c.oldData.length+c.data.length < fuel) :
    ∃ (moves : List ((Word × δ) × Word)) (c' : DataCard δ),
      c.step h (.stow fuel done) = some c' ∧ c'.Tidy ∧
      c'.oldData = c.oldData ++ moves.map (fun m => (m.2,m.1.2)) ∧
      (c'.data ++ moves.map Prod.fst).Perm c.data ∧
      (∀ m ∈ moves, ∃ k, m.2 = candidate m.1.1 k) ∧
      ((c.runs h).length ≤ done → ∀ e ∈ c'.data, isRun e.1 = false) := by
  obtain ⟨hperm, hruns⟩ := runs_perm h c hc.plain
  have hnodup : (c.runs h).Nodup := hperm.nodup_iff.mpr (hc.runs.filter _)
  have hsub := List.take_sublist done (c.runs h)
  have hle := hperm.length_eq ▸ List.length_filter_le isRun c.runNames
  rw [runNames, List.length_map] at hle
  have hlen := hsub.length_le
  obtain ⟨moves, c', hmoves, hst, hrun⟩ := run_stowRun h ((c.runs h).take done) c hc.old
    (hnodup.sublist hsub) (fun run hr => hruns run (hsub.subset hr))
    (fun run hr => List.mem_of_mem_filter (hperm.mem_iff.mp (hsub.subset hr)))
  have hstep := hrun fuel (by omega)
  have hnames : (moves.map Prod.fst).map Prod.fst = (c.runs h).take done := by
    rw [List.map_map]
    exact hmoves
  have hdata : c'.data = c.data.filter fun e => e.1 ∉ (moves.map Prod.fst).map Prod.fst := by
    rw [hst.data, hmoves, hnames]
  have hrest : c'.data.Sublist c.data := hdata ▸ List.filter_sublist
  refine ⟨moves, c', hstep, ?_, hst.oldData, ?_, ?_, ?_⟩
  · refine ⟨⟨hc.runs.sublist (hrest.map _), hst.fresh⟩, ?_⟩
    exact fun name hname => hc.plain name ((hrest.map _).subset hname)
  · rw [hdata]
    refine Tables.filter_append_perm c.data _ hc.runs ?_ ?_
    · rw [hnames]
      exact hnodup.sublist hsub
    · intro m hm
      obtain ⟨e, he, rfl⟩ := List.mem_map.mp hm
      exact hst.moved e he
  · -- What has been announced is what has been moved.
    obtain ⟨l, hl, hall⟩ := run_echoed h fuel c c' _ hstep
    obtain rfl := List.append_cancel_left (hst.echoed.symm.trans hl)
    exact fun m hm => hall _ (List.mem_map_of_mem hm)
  · intro hdone e he
    rw [hdata, hnames, List.take_of_length_le hdone] at he
    obtain ⟨hmem, hout⟩ := List.mem_filter.mp he
    by_contra hF
    rw [Bool.not_eq_false] at hF
    refine of_decide_eq_true hout (hperm.mem_iff.mpr (List.mem_filter.mpr ⟨?_, hF⟩))
    exact List.mem_map_of_mem hmem

/-- Of what was on the card at first and has been recorded since, the runs in `moves` are in
`oldData`, each under its own name or with a suffix, and the others are in `Data`. -/
structure Kept (c : DataCard δ) (rs : List (Word × δ)) (moves : List ((Word × δ) × Word))
    (c' : DataCard δ) : Prop where
  oldData_eq : c'.oldData = c.oldData ++ moves.map fun m => (m.2,m.1.2)
  perm : (c'.data ++ moves.map Prod.fst).Perm (c.data ++ rs)
  candidates : ∀ m ∈ moves, ∃ k, m.2 = candidate m.1.1 k

theorem step_kept (h : Host δ) (c c' : DataCard δ) (es : List (CardEvent δ))
    (moves : List ((Word × δ) × Word)) (hk : Kept c (recorded es) moves c') (hc' : c'.Tidy)
    (e : CardEvent δ) (he : c'.Fits e) :
    ∃ c'', c'.step h e = some c'' ∧ c''.Tidy ∧
      ∃ more, Kept c (recorded (es ++ [e])) (moves ++ more) c'' := by
  rw [recorded_concat]
  cases e with
  | record name d =>
    have hnew : recorded [CardEvent.record name d] = [(name,d)] := rfl
    refine ⟨_, rfl, ⟨⟨?_, hc'.old⟩, ?_⟩, [], ?_, ?_, ?_⟩
    · have hnodup := List.Nodup.concat he.1 hc'.runs
      rw [List.concat_eq_append] at hnodup
      rw [runNames, List.map_append]
      exact hnodup
    · intro n hn
      rw [runNames, List.map_append, List.mem_append] at hn
      rcases hn with hn | hn
      · exact hc'.plain n hn
      · obtain rfl := List.mem_singleton.mp hn
        exact he.2
    · rw [List.append_nil]
      exact hk.oldData_eq
    · rw [List.append_nil, hnew, ← List.append_assoc]
      have hswap : ((c'.data ++ [(name,d)]) ++ moves.map Prod.fst).Perm
          ((c'.data ++ moves.map Prod.fst) ++ [(name,d)]) := by
        rw [List.append_assoc, List.append_assoc]
        exact List.perm_append_comm.append_left _
      exact hswap.trans (hk.perm.append_right _)
    · rw [List.append_nil]
      exact hk.candidates
  | stow fuel done =>
    have hnone : recorded [(CardEvent.stow fuel done : CardEvent δ)] = [] := rfl
    obtain ⟨more, c'', hstep, htidy, hold, hperm, hcand, -⟩ := stow_moves h c' hc' fuel done he
    refine ⟨c'', hstep, htidy, more, ?_, ?_, ?_⟩
    · rw [hold, hk.oldData_eq, List.map_append, List.append_assoc]
    · rw [hnone, List.append_nil, List.map_append]
      have hswap : (c''.data ++ (moves.map Prod.fst ++ more.map Prod.fst)).Perm
          ((c''.data ++ more.map Prod.fst) ++ moves.map Prod.fst) := by
        rw [List.append_assoc]
        exact List.perm_append_comm.append_left _
      exact (hswap.trans (hperm.append_right _)).trans hk.perm
    · rw [List.forall_mem_append]
      exact ⟨hk.candidates, hcand⟩

/-- Over any number of flights, and wherever the power has gone off: every run that was ever
recorded is there once with its contents, in `Data` or behind what `oldData` held before; and
the next time the script gets to its end, none is left in `Data`. -/
theorem flights_kept (h : Host δ) (c : DataCard δ) (hc : c.Tidy) (es : List (CardEvent δ))
    (hes : Run.Along (step h) Fits c es) :
    Run.Throughout (step h) (fun fs c' =>
      c'.Tidy ∧ (∃ moves, Kept c (recorded fs) moves c') ∧
      ∀ fuel, c'.oldData.length+c'.data.length < fuel →
        ∃ c'', popsStow h fuel c' = some c'' ∧ ∀ e ∈ c''.data, isRun e.1 = false) c es := by
  intro fs hfs
  obtain ⟨c', hrun, htidy, moves, hk⟩ := Run.run_history (step h) Fits
    (fun es c' => c'.Tidy ∧ ∃ moves, Kept c (recorded es) moves c')
    (fun es c' e hi he => by
      obtain ⟨htidy, moves, hk⟩ := hi
      obtain ⟨c'', hstep, htidy', more, hk'⟩ := step_kept h c c' es moves hk htidy e he
      exact ⟨c'', hstep, htidy', _, hk'⟩)
    [] c fs ⟨hc, [], by simp, by simp [recorded], by simp⟩ (Run.along_of_isPrefix _ _ fs es hfs hes)
  refine ⟨c', hrun, htidy, ⟨moves, hk⟩, fun fuel hfuel => ?_⟩
  obtain ⟨-, c'', hstep, -, -, -, -, hall⟩ :=
    stow_moves h c' htidy fuel (c'.runs h).length hfuel
  rw [step, List.take_length] at hstep
  exact ⟨c'', hstep, hall (Nat.le_refl _)⟩

/-- Two runs of the same name, and a script that is cut off before it moves the first. -/
theorem flights_kept_again : ∃ c' : DataCard (List Word),
    Run.run (step starHost) ⟨[],[],[]⟩
      [.record ['F','1'] [],.stow 2 0,.stow 2 1,.record ['F','1'] [['x']],.stow 3 1] = some c' ∧
    c'.Tidy ∧ ∃ moves, Kept ⟨[],[],[]⟩ [(['F','1'],[]),(['F','1'],[['x']])] moves c' := by
  have hplain : Plain ['F','1'] := ⟨by decide, by simp [isBlank], by simp [isSpecial]⟩
  obtain ⟨c', hrun, htidy, hkept, -⟩ := flights_kept starHost ⟨[],[],[]⟩
    ⟨⟨List.nodup_nil, List.nodup_nil⟩, by simp [runNames]⟩
    [.record ['F','1'] [],.stow 2 0,.stow 2 1,.record ['F','1'] [['x']],.stow 3 1] (by
      refine ⟨⟨by decide, fun _ => hplain⟩, fun c1 h1 => ⟨?_, fun c2 h2 => ⟨?_, fun c3 h3 => ?_⟩⟩⟩
      · obtain rfl := Option.some.inj h1
        exact Nat.lt_succ_self 1
      · obtain rfl := Option.some.inj h1
        obtain rfl := Option.some.inj h2
        exact Nat.lt_succ_self 1
      · obtain rfl := Option.some.inj h1
        obtain rfl := Option.some.inj h2
        obtain rfl := Option.some.inj h3
        refine ⟨⟨by decide, fun _ => hplain⟩, fun c4 h4 => ⟨?_, fun _ _ => trivial⟩⟩
        obtain rfl := Option.some.inj h4
        exact Nat.lt_succ_self 2) _ List.prefix_rfl
  exact ⟨c', hrun, htidy, hkept⟩

end DataCard
end Cosmid.Pops
