import Cosmid.PopsServer
import Cosmid.Scan

/-! The commands that the server takes from a stream, and why it does not matter how the stream
is divided into reads. -/
namespace Cosmid.Pops

/-- What a command does apart from the status reply: an action on the system, or the reply
`"Error: Invalid command\n"`. -/
inductive ServerEffect
  | act (action : ServerAction)
  | invalidReply
deriving DecidableEq

/-- A command is a byte with a newline behind it; any other byte is skipped. -/
def commandScanner : Scanner UInt8 UInt8 where
  head
    | cmd :: nl :: _ => if nl ≠ 0x0a then some (none, 1) else some (some cmd, 2)
    | _ => none
  head_pos u item n h := by
    match u with
    | [] => cases h
    | [_] => cases h
    | cmd :: nl :: u =>
      dsimp only at h
      split_ifs at h <;> cases h <;> simp
  head_append u v r h := by
    match u with
    | [] => cases h
    | [_] => cases h
    | cmd :: nl :: u => exact h

/-- The reference: the effects so far, and the status. -/
structure Reference where
  effects : List ServerEffect
  status : PopsStatus
deriving DecidableEq

namespace Reference

def perform (r : Reference) (cmd : UInt8) : Reference :=
  if cmd = 0x56 then r
  else if cmd = 0x42 then ⟨r.effects ++ [.act .startPops],.popsActive⟩
  else if cmd = 0x45 then
    ⟨r.effects ++ [.act (if r.status = .popsActive then .sendShutdown else .shutdownNow)],
      .popsShutdown⟩
  else if cmd = 0x46 then ⟨r.effects ++ [.act .shutdownNow],.popsShutdown⟩
  else ⟨r.effects ++ [.invalidReply],r.status⟩

/-- The whole stream, from left to right. -/
def run (status : PopsStatus) (stream : List UInt8) : Reference :=
  (commandScanner.scan stream).1.foldl perform ⟨[],status⟩

/-- What has been done stays done. -/
theorem effects_prefix (cmds : List UInt8) (r : Reference) :
    r.effects <+: (cmds.foldl perform r).effects := by
  induction cmds generalizing r with
  | nil => exact List.prefix_rfl
  | cons cmd cmds ih =>
    refine List.IsPrefix.trans ?_ (ih (r.perform cmd))
    unfold perform
    split_ifs
    · exact List.prefix_rfl
    all_goals exact List.prefix_append _ _

end Reference

/-- A status reply is no effect. -/
def ServerOutput.effect? : ServerOutput → Option ServerEffect
  | system action => some (.act action)
  | iwrite bytes => if bytes = PopsSocket.invalidCommand then some .invalidReply else none

def ServerOutput.action? : ServerOutput → Option ServerAction
  | system action => some action
  | iwrite _ => none

def ServerOutput.bytes : ServerOutput → List UInt8
  | system _ => []
  | iwrite bytes => bytes

namespace PopsSocket

/-- The effects in the order in which the server has them. -/
def effects (s : PopsSocket) : List ServerEffect := s.outputs.filterMap ServerOutput.effect?

theorem effects_system (s : PopsSocket) (action : ServerAction) :
    (s.system action).effects = s.effects ++ [.act action] := by
  rw [effects, system, List.filterMap_append]
  rfl

theorem effects_iwrite (s : PopsSocket) (bytes : List UInt8) :
    (s.iwrite bytes).effects =
      s.effects ++ if bytes = invalidCommand then [.invalidReply] else [] := by
  rw [effects, iwrite, List.filterMap_append]
  split_ifs with h <;> simp [effects, ServerOutput.effect?, h]

theorem execute_ibuf (s : PopsSocket) (cmd : UInt8) : (s.execute cmd).ibuf = s.ibuf := by
  unfold execute
  split_ifs <;> rfl

/-- The server does what the reference does. -/
theorem execute_perform (s : PopsSocket) (cmd : UInt8) :
    Reference.perform ⟨s.effects,s.popsStatus⟩ cmd =
      ⟨(s.execute cmd).effects,(s.execute cmd).popsStatus⟩ := by
  unfold Reference.perform execute
  split_ifs with hV hB hE hactive hF
  · rfl
  · exact congrArg (fun e => Reference.mk e _) (s.effects_system _).symm
  · rw [effects_system]
    rfl
  · rw [effects_system]
    rfl
  · rw [effects_system]
    rfl
  · rw [effects_iwrite, if_pos rfl]
    rfl

theorem effects_sendStatus (s : PopsSocket) : s.sendStatus.effects = s.effects := by
  have hshort : [0x30+s.popsStatus.code, 0x0a] ≠ invalidCommand := by
    intro h
    exact absurd (congrArg List.length h) (by decide : 2 ≠ 23)
  rw [sendStatus, effects_iwrite, if_neg hshort, List.append_nil]

/-- The loop takes the commands of `u`, and leaves the start of the next one. -/
theorem commandLoop_scan (s : PopsSocket) (u : List UInt8) (hu : s.ibuf.unread = u)
    (hD : 0x44 ∉ (commandScanner.scan u).1) :
    ∃ s', s.commandLoop u = (s', false) ∧ s'.ibuf.unread = (commandScanner.scan u).2 ∧
      (commandScanner.scan u).1.foldl Reference.perform ⟨s.effects,s.popsStatus⟩ =
        ⟨s'.effects,s'.popsStatus⟩ := by
  induction u using commandScanner.scan_induction generalizing s with
  | hwait u h =>
    -- At most one byte is left.
    have hshort : s.commandLoop u = (s, false) := by
      match u with
      | [] => rfl
      | [_] => rfl
      | cmd :: nl :: u =>
        dsimp only [commandScanner] at h
        split_ifs at h
    rw [commandScanner.scan_none h, hshort]
    exact ⟨s, rfl, hu, rfl⟩
  | hpiece u item n h ih =>
    have hscan := commandScanner.scan_some h
    rw [hscan] at hD ⊢
    match u with
    | [] => cases h
    | [_] => cases h
    | cmd :: nl :: u =>
      unfold commandLoop
      dsimp only [commandScanner] at h
      by_cases hnl : nl ≠ 0x0a
      · -- A byte that is skipped moves `cp` only.
        rw [if_pos hnl] at h
        cases h
        rw [if_pos hnl]
        refine ih {s with ibuf := ⟨s.ibuf.buf,s.ibuf.cp+1⟩} ?_ hD
        rw [InputBuffer.unread_advance, hu]
      · rw [if_neg hnl] at h
        cases h
        simp only [List.drop_succ_cons, List.drop_zero] at ih hD ⊢
        have hcmd : cmd ≠ 0x44 := fun hcmd => hD (by simp [hcmd])
        rw [if_neg hnl, if_neg hcmd]
        set t : PopsSocket := {s with ibuf := ⟨s.ibuf.buf,s.ibuf.cp+2⟩} with ht
        have hunread : (t.execute cmd).ibuf.unread = u := by
          rw [execute_ibuf, ht, InputBuffer.unread_advance, hu]
          rfl
        obtain ⟨s', hloop, hrest, heffects⟩ := ih (t.execute cmd) hunread
          (fun hmem => hD (List.mem_append_right _ hmem))
        refine ⟨s', hloop, hrest, ?_⟩
        calc (cmd :: (commandScanner.scan u).1).foldl Reference.perform ⟨s.effects,s.popsStatus⟩
            = (commandScanner.scan u).1.foldl Reference.perform
                (Reference.perform ⟨t.effects,t.popsStatus⟩ cmd) := by
              rw [List.foldl_cons]
              rfl
          _ = ⟨s'.effects,s'.popsStatus⟩ := by rw [execute_perform, heffects]

/-- A command that is taken from a stream stands in it with its newline. -/
theorem infix_of_mem_scan (cmd : UInt8) (u : List UInt8) (h : cmd ∈ (commandScanner.scan u).1) :
    [cmd, 0x0a] <:+: u := by
  induction u using commandScanner.scan_induction with
  | hwait u hu =>
    rw [commandScanner.scan_none hu] at h
    cases h
  | hpiece u item n hu ih =>
    rw [commandScanner.scan_some hu] at h
    rcases List.mem_append.mp h with hmem | hmem
    · match u with
      | [] => cases hu
      | [_] => cases hu
      | c :: nl :: u =>
        dsimp only [commandScanner] at hu
        split_ifs at hu with hnl
        · cases hu
          cases hmem
        · cases hu
          obtain rfl := List.mem_singleton.mp hmem
          rw [not_not.mp hnl]
          exact ⟨[], u, rfl⟩
    · exact (ih hmem).trans (List.drop_suffix n u).isInfix

/-- A command at the end of a stream is taken, whatever stands before it. -/
theorem scan_concat_command (u : List UInt8) (cmd : UInt8) (hcmd : cmd ≠ 0x0a) :
    commandScanner.scan (u ++ [cmd, 0x0a]) = ((commandScanner.scan u).1 ++ [cmd], []) := by
  have hlast : commandScanner.scan [cmd, 0x0a] = ([cmd], []) :=
    commandScanner.scan_flatten (fun c => [c, 0x0a]) [cmd] (fun _ _ _ => rfl) rfl
  induction u using commandScanner.scan_induction with
  | hwait u h =>
    rw [commandScanner.scan_none h]
    match u with
    | [] => exact hlast
    | [c] =>
      have hhead : commandScanner.head ([c] ++ [cmd, 0x0a]) = some (none, 1) := if_pos hcmd
      rw [commandScanner.scan_some hhead]
      exact hlast
    | c :: nl :: u =>
      dsimp only [commandScanner] at h
      split_ifs at h
  | hpiece u item n h ih =>
    have hn := commandScanner.head_pos u item n h
    rw [commandScanner.scan_some h, commandScanner.scan_some (commandScanner.head_append u _ _ h),
      List.drop_append_of_le_length hn.2, ih, List.append_assoc]

/-- Behind the reads of `stream`: what of it is left in the buffer, and what the reference says
of the rest. -/
structure UpTo (status : PopsStatus) (stream : List UInt8) (s : PopsSocket) : Prop where
  ibuf_eq : s.ibuf = ⟨(commandScanner.scan stream).2,0⟩
  reference_eq : Reference.run status stream = ⟨s.effects,s.popsStatus⟩

/-- A read goes on with the byte that was left. -/
theorem protocolInput_upTo (io : DasIO) (status : PopsStatus) (stream bytes : List UInt8)
    (s : PopsSocket) (h : UpTo status stream s)
    (hD : 0x44 ∉ (commandScanner.scan (stream ++ bytes)).1) :
    UpTo status (stream ++ bytes) (s.protocolInput io bytes) := by
  obtain ⟨hib, href⟩ := h
  -- What the last call left in the buffer is what the scan of the stream has left over.
  have hscan := commandScanner.scan_append stream bytes
  have hread : io.read s.ibuf bytes = ⟨(commandScanner.scan stream).2 ++ bytes,0⟩ := by
    rw [hib, io.read_zero]
  rw [hscan] at hD
  generalize hrest : (commandScanner.scan stream).2 = rest at hscan hread hD
  obtain ⟨s', hloop, hleft, heffects⟩ := commandLoop_scan
    {s with ibuf := ⟨rest ++ bytes,0⟩, written := []} (rest ++ bytes) rfl
    (fun hmem => hD (List.mem_append_right _ hmem))
  have hcall : s.protocolInput io bytes =
      sendStatus {s' with ibuf := io.consume s'.ibuf.cp s'.ibuf} := by
    simp only [protocolInput, hread, InputBuffer.unread_mk_zero, hloop, Bool.false_eq_true,
      if_false]
  refine ⟨?_, ?_⟩
  · rw [hcall, hscan, ← hleft]
    exact io.consume_parsed s'.ibuf
  · calc Reference.run status (stream ++ bytes)
        = (commandScanner.scan (rest ++ bytes)).1.foldl Reference.perform
            (Reference.run status stream) := by
          rw [Reference.run, hscan, List.foldl_append, Reference.run]
      _ = ⟨s'.effects,s'.popsStatus⟩ := by
          rw [href]
          exact heffects
      _ = ⟨(s.protocolInput io bytes).effects,(s.protocolInput io bytes).popsStatus⟩ := by
          rw [hcall, effects_sendStatus]
          rfl

/-- A whole sequence of reads. -/
theorem reads_upTo (io : DasIO) (status : PopsStatus) (stream : List UInt8)
    (reads : List (List UInt8)) (s : PopsSocket) (h : UpTo status stream s)
    (hD : 0x44 ∉ (commandScanner.scan (stream ++ reads.flatten)).1) :
    UpTo status (stream ++ reads.flatten) (reads.foldl (protocolInput io) s) := by
  induction reads generalizing stream s with
  | nil =>
    rw [List.flatten_nil, List.append_nil]
    exact h
  | cons bytes reads ih =>
    rw [List.flatten_cons, ← List.append_assoc] at hD ⊢
    have hfirst : 0x44 ∉ (commandScanner.scan (stream ++ bytes)).1 := by
      rw [commandScanner.scan_append (stream ++ bytes)] at hD
      exact fun hmem => hD (List.mem_append_left _ hmem)
    exact ih _ _ (protocolInput_upTo io status stream bytes s h hfirst) hD

theorem new_upTo (status : PopsStatus) (actions : List ServerAction) :
    UpTo status [] (.new status actions) := by
  have hscan : commandScanner.scan [] = ([], []) := commandScanner.scan_none rfl
  exact ⟨by rw [hscan]; rfl, by rw [Reference.run, hscan]; rfl⟩

/-- Between `s` and `t` the server has made the calls `done`. -/
structure Did (done : List ServerOutput) (s t : PopsSocket) : Prop where
  outputs_eq : t.outputs = s.outputs ++ done
  actions_eq : t.actions = s.actions ++ done.filterMap ServerOutput.action?
  written_eq : t.written = s.written ++ done.flatMap ServerOutput.bytes

theorem Did.trans {done more : List ServerOutput} {s t u : PopsSocket} (h : Did done s t)
    (h' : Did more t u) : Did (done ++ more) s u := by
  refine ⟨?_, ?_, ?_⟩
  · rw [h'.outputs_eq, h.outputs_eq, List.append_assoc]
  · rw [h'.actions_eq, h.actions_eq, List.filterMap_append, List.append_assoc]
  · rw [h'.written_eq, h.written_eq, List.flatMap_append, List.append_assoc]

theorem execute_did (s : PopsSocket) (cmd : UInt8) : ∃ done, Did done s (s.execute cmd) := by
  have hnone : Did [] s s := ⟨by simp, by simp, by simp⟩
  have hsystem (status : PopsStatus) (action : ServerAction) :
      Did [.system action] s {s.system action with popsStatus := status} :=
    ⟨rfl, rfl, (List.append_nil _).symm⟩
  unfold execute
  split_ifs
  · exact ⟨_, hnone⟩
  · exact ⟨_, hsystem _ _⟩
  · exact ⟨_, hsystem _ _⟩
  · exact ⟨_, hsystem _ _⟩
  · exact ⟨_, hsystem _ _⟩
  · exact ⟨[.iwrite invalidCommand], rfl, (List.append_nil _).symm, rfl⟩

theorem commandLoop_did (s : PopsSocket) (u : List UInt8) :
    ∃ done, Did done s (s.commandLoop u).1 := by
  fun_induction commandLoop s u with
  | case1 s cmd nl u hnl ih =>
    obtain ⟨done, h⟩ := ih
    exact ⟨done, h.outputs_eq, h.actions_eq, h.written_eq⟩
  | case2 s nl u hnl s' => exact ⟨[], by simp [s'], by simp [s'], by simp [s']⟩
  | case3 s cmd nl u hnl s' hD ih =>
    obtain ⟨done, h⟩ := s'.execute_did cmd
    obtain ⟨more, h'⟩ := ih
    exact ⟨done ++ more, (h.trans h').outputs_eq, (h.trans h').actions_eq, (h.trans h').written_eq⟩
  | case4 u s hshort => exact ⟨[], by simp, by simp, by simp⟩

/-- The record of the calls is what a call of `protocol_input` does to the system and writes. -/
theorem protocolInput_did (io : DasIO) (s : PopsSocket) (bytes : List UInt8) :
    ∃ done, Did done {s with written := []} (s.protocolInput io bytes) := by
  unfold protocolInput
  dsimp only
  obtain ⟨done, h⟩ := commandLoop_did {s with ibuf := io.read s.ibuf bytes, written := []}
    (io.read s.ibuf bytes).unread
  generalize commandLoop {s with ibuf := io.read s.ibuf bytes, written := []}
    (io.read s.ibuf bytes).unread = r at h
  have hdone : Did done {s with written := []}
      {r.1 with ibuf := io.consume r.1.ibuf.cp r.1.ibuf} :=
    ⟨h.outputs_eq, h.actions_eq, h.written_eq⟩
  split_ifs
  · exact ⟨done, hdone⟩
  · exact ⟨done ++ [.iwrite [0x30+r.1.popsStatus.code, 0x0a]],
      hdone.trans ⟨rfl, (List.append_nil _).symm, rfl⟩⟩

/-- The division of a stream without `"D\n"` into reads has no influence on what the server does.
Every `"E\n"` in it is executed: it halts the machine only while the software is not active, and
the status behind it is shutdown. -/
theorem reads_irrelevant (io : DasIO) (status : PopsStatus) (actions : List ServerAction)
    (reads : List (List UInt8)) (hD : ¬[0x44, 0x0a] <:+: reads.flatten) :
    (reads.foldl (protocolInput io) (.new status actions)).effects =
        (Reference.run status reads.flatten).effects ∧
      (reads.foldl (protocolInput io) (.new status actions)).popsStatus =
        (Reference.run status reads.flatten).status ∧
      (∀ (us : List (List UInt8)) (v : List UInt8),
        reads.flatten = us.flatten ++ [0x45, 0x0a] ++ v →
        ∃ s t action, s = us.foldl (protocolInput io) (.new status actions) ∧
          t = s.protocolInput io [0x45, 0x0a] ∧ t.effects = s.effects ++ [.act action] ∧
          (action = .shutdownNow → s.popsStatus ≠ .popsActive) ∧ t.popsStatus = .popsShutdown ∧
          t.effects <+: (reads.foldl (protocolInput io) (.new status actions)).effects) ∧
      ∀ (s : PopsSocket) (bytes : List UInt8),
        ∃ done, Did done {s with written := []} (s.protocolInput io bytes) := by
  have hscan (u : List UInt8) (hu : u <+: reads.flatten) :
      0x44 ∉ (commandScanner.scan u).1 := fun hmem =>
    hD ((infix_of_mem_scan 0x44 u hmem).trans hu.isInfix)
  have hend := reads_upTo io status [] reads _ (new_upTo status actions)
    (hscan _ (List.prefix_rfl))
  rw [List.nil_append] at hend
  refine ⟨?_, ?_, ?_, protocolInput_did io⟩
  · rw [hend.reference_eq]
  · rw [hend.reference_eq]
  · intro us v hsplit
    have hE : us.flatten ++ [0x45, 0x0a] <+: reads.flatten := ⟨v, hsplit.symm⟩
    have hs := reads_upTo io status [] us _ (new_upTo status actions)
      (hscan _ ((List.prefix_append _ _).trans hE))
    rw [List.nil_append] at hs
    -- In the reference, too, the `E` comes behind all that is executed of `us`.
    have ht := protocolInput_upTo io status us.flatten [0x45, 0x0a] _ hs (hscan _ hE)
    generalize us.foldl (protocolInput io) (.new status actions) = s at hs ht
    have hrun : Reference.run status (us.flatten ++ [0x45, 0x0a]) =
        Reference.perform ⟨s.effects,s.popsStatus⟩ 0x45 := by
      rw [← hs.reference_eq, Reference.run, scan_concat_command _ _ (by decide), List.foldl_append]
      rfl
    obtain ⟨heffects, hstatus⟩ := Reference.mk.inj (ht.reference_eq.symm.trans hrun)
    refine ⟨s, _, _, rfl, rfl, heffects, ?_, hstatus, ?_⟩
    · intro hhalt hactive
      rw [if_pos hactive] at hhalt
      cases hhalt
    · have hmore := ht.reference_eq
      have hall := hend.reference_eq
      rw [hsplit, Reference.run, commandScanner.scan_append, List.foldl_append] at hall
      rw [Reference.run] at hmore
      rw [hmore] at hall
      have hgrown := Reference.effects_prefix
        (commandScanner.scan ((commandScanner.scan (us.flatten ++ [0x45, 0x0a])).2 ++ v)).1
        ⟨(s.protocolInput io [0x45, 0x0a]).effects,(s.protocolInput io [0x45, 0x0a]).popsStatus⟩
      rw [hall] at hgrown
      exact hgrown

/-- `"B\nE\n"`, cut behind the `B` and in front of the last newline. -/
theorem reads_irrelevant_cut :
    (([[0x42], [0x0a, 0x45], [0x0a]] : List (List UInt8)).foldl (protocolInput .keeping)
        (.new .popsIdle [])).effects = [.act .startPops, .act .sendShutdown] ∧
      (([[0x42], [0x0a, 0x45], [0x0a]] : List (List UInt8)).foldl (protocolInput .keeping)
        (.new .popsIdle [])).popsStatus = .popsShutdown ∧
      ∃ t, t = (protocolInput .keeping (.new .popsIdle []) [0x42, 0x0a]).protocolInput .keeping
          [0x45, 0x0a] ∧
        t.popsStatus = .popsShutdown ∧ t.effects <+: [.act .startPops, .act .sendShutdown] := by
  have hscan : commandScanner.scan [0x42, 0x0a, 0x45, 0x0a] = ([0x42, 0x45], []) :=
    commandScanner.scan_flatten (fun cmd => [cmd, 0x0a]) [0x42, 0x45] (fun _ _ _ => rfl) rfl
  have hrun : Reference.run .popsIdle [0x42, 0x0a, 0x45, 0x0a] =
      ⟨[.act .startPops, .act .sendShutdown],.popsShutdown⟩ := by
    rw [Reference.run, hscan]
    rfl
  obtain ⟨heffects, hstatus, hE, -⟩ := reads_irrelevant .keeping .popsIdle []
    [[0x42], [0x0a, 0x45], [0x0a]] (by decide)
  obtain ⟨s, t, -, rfl, rfl, -, -, hshut, hprefix⟩ := hE [[0x42, 0x0a]] [] rfl
  have hflatten : ([[0x42], [0x0a, 0x45], [0x0a]] : List (List UInt8)).flatten =
      [0x42, 0x0a, 0x45, 0x0a] := rfl
  rw [hflatten, hrun] at heffects hstatus
  rw [heffects] at hprefix
  exact ⟨heffects, hstatus, _, rfl, hshut, hprefix⟩

end PopsSocket
end Cosmid.Pops
