import Cosmid.NephexEmulator
import Cosmid.Run

/-! The clients of the emulator: one is registered, and the others should not matter. -/
namespace Cosmid.Nephex

/-- The client that is registered when only its own destructor takes it away. -/
def holder (es : List EmulatorEvent) : Option ℕ :=
  es.foldl (fun held e =>
    match e with
    | .connected client => if held.isSome then held else some client
    | .destroyed client => if held = some client then none else held
    | .input _ _ => held) none

theorem holder_concat (es : List EmulatorEvent) (e : EmulatorEvent) :
    holder (es ++ [e]) = match e with
      | .connected client => if (holder es).isSome then holder es else some client
      | .destroyed client => if holder es = some client then none else holder es
      | .input _ _ => holder es := by
  rw [holder, List.foldl_append]
  rfl

/-- A connection or a destructor that is not the registered client's. -/
def EmulatorEvent.IsOther (held : Option ℕ) : EmulatorEvent → Prop
  | .connected _ => held.isSome
  | .destroyed client => held ≠ some client
  | .input _ _ => False

namespace Emulator

/-- The registered client is the one accepted first and is not destroyed; `Fl_Read` is
set as long as it is; and the other clients have not touched the timeout. -/
structure Undisturbed (io : DasIO) (s0 : Emulator) (es : List EmulatorEvent) (s : Emulator) :
    Prop where
  client_eq : s.ingest.client = holder es
  flRead_eq : s.ingest.flRead = (holder es).isSome
  live : ∀ client, s.ingest.client = some client → client ∈ s.live
  time_eq : ∀ fs e t, es = fs ++ [e] → e.IsOther (holder fs) →
    Run.run (step io) s0 fs = some t → s.ingest.time = t.ingest.time

/-- Objects are destroyed after they have been made, and the program goes on. -/
def Proper (io : DasIO) (s : Emulator) : EmulatorEvent → Prop
  | .connected client => client ∉ s.live
  | .destroyed client => client ∈ s.live
  | .input bytes due => (s.step io (.input bytes due)).isSome

/-- No client but the registered one is destroyed while there is one. -/
def KeepsHolder (s : Emulator) : EmulatorEvent → Prop
  | .destroyed client => s.ingest.client = none ∨ s.ingest.client = some client
  | _ => True

/-- The invariant: without a client the timeout is not set. -/
structure Held (io : DasIO) (s0 : Emulator) (es : List EmulatorEvent) (s : Emulator) : Prop where
  run_eq : Run.run (step io) s0 es = some s
  undisturbed : Undisturbed io s0 es s
  toSet_eq : s.ingest.client = none → s.ingest.time.toSet = false

theorem run_concat (io : DasIO) {s0 s s' : Emulator} {es : List EmulatorEvent} {e : EmulatorEvent}
    (h : Run.run (step io) s0 es = some s) (he : s.step io e = some s') :
    Run.run (step io) s0 (es ++ [e]) = some s' := by
  rw [Run.run_append, h, Option.bind_some, Run.run_cons_of_step _ he, Run.run_nil]

/-- Only the last event of a history is new. -/
theorem Held.time_of_last {io : DasIO} {s0 s : Emulator} {es : List EmulatorEvent}
    (h : Held io s0 es s) (s' : Emulator) (e : EmulatorEvent)
    (hlast : e.IsOther (holder es) → s'.ingest.time = s.ingest.time) :
    ∀ fs f t, es ++ [e] = fs ++ [f] → f.IsOther (holder fs) →
      Run.run (step io) s0 fs = some t → s'.ingest.time = t.ingest.time := by
  intro fs f t hes hother ht
  obtain ⟨rfl, hef⟩ := List.append_inj' hes rfl
  obtain rfl := (List.cons.inj hef).1
  obtain rfl := Option.some.inj (h.run_eq.symm.trans ht)
  exact hlast hother

/-- A new client is accepted if there is none, and nothing changes if there is one. -/
theorem connected_held (io : DasIO) (s0 : Emulator) (es : List EmulatorEvent) (s : Emulator)
    (client : ℕ) (h : Held io s0 es s) :
    Held io s0 (es ++ [.connected client]) (s.connected client) := by
  have hu := h.undisturbed
  have hclient := hu.client_eq
  have hset : s.ingest.setClient client = if (holder es).isSome then (true, s.ingest)
      else (false, {s.ingest with client := some client, flRead := true}) := by
    rw [NEIngest.setClient, hclient]
  have hholder : holder (es ++ [.connected client]) =
      if (holder es).isSome then holder es else some client := holder_concat es _
  unfold connected
  rw [hset]
  cases hh : holder es with
  | none =>
    rw [hh] at hclient hholder
    refine ⟨?_, ⟨?_, ?_, ?_, ?_⟩, ?_⟩
    · refine run_concat io h.run_eq ?_
      rw [step, connected, hset, hh]
    · exact hholder.symm
    · rw [hholder]
      rfl
    · rintro c ⟨⟩
      exact List.mem_cons_self ..
    · exact h.time_of_last _ _ fun _ => rfl
    · rintro ⟨⟩
  | some d =>
    -- The rejected client is only added to the objects that exist.
    rw [hh] at hclient hholder
    refine ⟨?_, ⟨?_, ?_, ?_, ?_⟩, ?_⟩
    · refine run_concat io h.run_eq ?_
      rw [step, connected, hset, hh]
    · exact hclient.trans hholder.symm
    · rw [hholder]
      exact hu.flRead_eq.trans (by rw [hh]; rfl)
    · intro c hc
      exact List.mem_cons_of_mem _ (hu.live c hc)
    · exact h.time_of_last _ _ fun _ => rfl
    · intro hnone
      cases hclient.symm.trans hnone

theorem destroyed_held (io : DasIO) (s0 : Emulator) (es : List EmulatorEvent) (s : Emulator)
    (client : ℕ) (h : Held io s0 es s) (hkeeps : s.KeepsHolder (.destroyed client)) :
    Held io s0 (es ++ [.destroyed client]) (s.destroyed client) := by
  have hu := h.undisturbed
  have hclient := hu.client_eq
  have hholder : holder (es ++ [.destroyed client]) = none := by
    rw [holder_concat]
    dsimp only
    rw [← hclient]
    rcases hkeeps with hnone | hsome
    · rw [hnone]
      rfl
    · rw [hsome, if_pos rfl]
  refine ⟨run_concat io h.run_eq rfl, ⟨hholder.symm, ?_, ?_, ?_⟩, fun _ => rfl⟩
  · rw [hholder]
    rfl
  · rintro c ⟨⟩
  · refine h.time_of_last _ _ fun hother => ?_
    have hnone : s.ingest.client = none := hkeeps.resolve_right fun hsome =>
      hother (hclient.symm.trans hsome)
    have hunset := h.toSet_eq hnone
    change {s.ingest.time with toSet := false} = s.ingest.time
    rw [← hunset]

theorem input_held (io : DasIO) (s0 : Emulator) (es : List EmulatorEvent) (s s' : Emulator)
    (bytes : List UInt8) (due : ℕ → Bool) (h : Held io s0 es s)
    (hs' : s.step io (.input bytes due) = some s') : Held io s0 (es ++ [.input bytes due]) s' := by
  have hu := h.undisturbed
  have hholder : holder (es ++ [.input bytes due]) = holder es := holder_concat es _
  have hrun := run_concat io h.run_eq hs'
  have hkeep : s'.ingest.client = s.ingest.client ∧ s'.ingest.flRead = s.ingest.flRead ∧
      s'.live = s.live ∧ (s.ingest.client = none → s'.ingest.time = s.ingest.time) := by
    rw [step] at hs'
    split_ifs at hs' with hread
    · obtain ⟨t, ht, rfl⟩ := Option.map_eq_some_iff.mp hs'
      obtain ⟨hclient, hflRead⟩ := NEIngest.protocolInputLoop_client io due _ t ht
      refine ⟨hclient, hflRead, rfl, fun hnone => ?_⟩
      rw [hu.flRead_eq, ← hu.client_eq, hnone] at hread
      cases hread
    · obtain rfl := Option.some.inj hs'
      exact ⟨rfl, rfl, rfl, fun _ => rfl⟩
  obtain ⟨hclient, hflRead, hlive, htime⟩ := hkeep
  refine ⟨hrun, ⟨?_, ?_, ?_, ?_⟩, ?_⟩
  · rw [hclient, hholder, hu.client_eq]
  · rw [hflRead, hholder, hu.flRead_eq]
  · rw [hclient, hlive]
    exact hu.live
  · exact h.time_of_last _ _ fun hother => absurd hother id
  · intro hnone
    rw [hclient] at hnone
    rw [htime hnone]
    exact h.toSet_eq hnone

theorem step_held (io : DasIO) (s0 : Emulator) (es : List EmulatorEvent) (s : Emulator)
    (e : EmulatorEvent) (h : Held io s0 es s) (hproper : s.Proper io e) (hkeeps : s.KeepsHolder e) :
    ∃ s', s.step io e = some s' ∧ Held io s0 (es ++ [e]) s' := by
  cases e with
  | connected client => exact ⟨_, rfl, connected_held io s0 es s client h⟩
  | destroyed client => exact ⟨_, rfl, destroyed_held io s0 es s client h hkeeps⟩
  | input bytes due =>
    obtain ⟨s', hs'⟩ := Option.isSome_iff_exists.mp hproper
    exact ⟨s', hs', input_held io s0 es s s' bytes due h hs'⟩

/-- Any destructor takes the registered client away. -/
theorem step_disturbs (io : DasIO) (s0 : Emulator) (es : List EmulatorEvent) (s s' : Emulator)
    (e : EmulatorEvent) (h : Held io s0 es s) (hkeeps : ¬s.KeepsHolder e)
    (hs' : s.step io e = some s') : ¬Undisturbed io s0 (es ++ [e]) s' := by
  cases e with
  | connected client => exact absurd trivial hkeeps
  | input bytes due => exact absurd trivial hkeeps
  | destroyed client =>
    obtain rfl := Option.some.inj hs'
    obtain ⟨hsome, hother⟩ := not_or.mp hkeeps
    rw [h.undisturbed.client_eq] at hsome hother
    intro hbad
    have hclient : none = holder (es ++ [.destroyed client]) := hbad.client_eq
    rw [holder_concat] at hclient
    dsimp only at hclient
    rw [if_neg hother] at hclient
    exact hsome hclient.symm

theorem new_held (io : DasIO) (lastSecs lastMsecs : ℕ) :
    Held io (.new lastSecs lastMsecs) [] (.new lastSecs lastMsecs) := by
  refine ⟨rfl, ⟨rfl, rfl, ?_, ?_⟩, fun _ => rfl⟩
  · rintro c ⟨⟩
  · intro fs e t hes
    exact absurd hes.symm (List.concat_ne_nil e fs)

/-- The registered client is undisturbed throughout a run if and only if no other client
is destroyed while there is one. -/
theorem clients_iff (io : DasIO) (lastSecs lastMsecs : ℕ) (es : List EmulatorEvent)
    (hes : Run.Along (step io) (Proper io) (.new lastSecs lastMsecs) es) :
    Run.Throughout (step io) (Undisturbed io (.new lastSecs lastMsecs)) (.new lastSecs lastMsecs) es ↔
      Run.Along (step io) KeepsHolder (.new lastSecs lastMsecs) es :=
  Run.throughout_iff_along (step io) (Proper io) KeepsHolder (Held io (.new lastSecs lastMsecs))
    (Undisturbed io (.new lastSecs lastMsecs)) (fun _ _ h => h.undisturbed)
    (fun h s e hi hp hk => step_held io _ h s e hi hp hk)
    (fun h s e s' hi _ hk hs' => step_disturbs io _ h s s' e hi hk hs') _ es
    (new_held io lastSecs lastMsecs) hes

/-- One client after the other. -/
theorem clients_in_turn :
    Run.Throughout (step .keeping) (Undisturbed .keeping (.new 0 0)) (.new 0 0)
      [.connected 1, .destroyed 1, .connected 2, .destroyed 2] := by
  have hone : (new 0 0).step .keeping (.connected 1) = some ((new 0 0).connected 1) := rfl
  refine (clients_iff .keeping 0 0 _ ?_).mpr ?_
  · rw [Run.along_cons_of_step _ hone, Run.along_cons_of_step _ rfl, Run.along_cons_of_step _ rfl,
      Run.along_cons_of_step _ rfl]
    exact ⟨List.not_mem_nil, List.mem_cons_self .., List.not_mem_nil, List.mem_cons_self .., trivial⟩
  · rw [Run.along_cons_of_step _ hone, Run.along_cons_of_step _ rfl, Run.along_cons_of_step _ rfl,
      Run.along_cons_of_step _ rfl]
    exact ⟨trivial, Or.inr rfl, trivial, Or.inr rfl, trivial⟩

/-- The second client is rejected and destroyed, and the first is no longer registered. -/
theorem clients_disturbed :
    Run.Along (step .keeping) (Proper .keeping) (.new 0 0)
      [.connected 1, .connected 2, .destroyed 2] ∧
    ¬Run.Throughout (step .keeping) (Undisturbed .keeping (.new 0 0)) (.new 0 0)
      [.connected 1, .connected 2, .destroyed 2] := by
  have hone : (new 0 0).step .keeping (.connected 1) = some ((new 0 0).connected 1) := rfl
  refine ⟨?_, ?_⟩
  · rw [Run.along_cons_of_step _ hone, Run.along_cons_of_step _ rfl, Run.along_cons_of_step _ rfl]
    exact ⟨List.not_mem_nil, show (2 : ℕ) ∉ [1] by decide, List.mem_cons_self .., trivial⟩
  · intro hall
    obtain ⟨s, hs, hbad⟩ := hall _ List.prefix_rfl
    rw [Run.run_cons_of_step _ hone, Run.run_cons_of_step _ rfl, Run.run_cons_of_step _ rfl,
      Run.run_nil] at hs
    obtain rfl := Option.some.inj hs
    cases hbad.client_eq

end Emulator
end Cosmid.Nephex
