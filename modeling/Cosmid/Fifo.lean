import Cosmid.Run

/-! An unbounded first-in first-out queue, the abstract meaning of a buffer: what
was pushed is what came out followed by what is still inside. -/
namespace Cosmid

variable {α : Type*}

inductive FifoOp (α : Type*)
  | push (xs : List α)
  | pop (n : ℕ)

structure Fifo (α : Type*) where
  output : List α
  contents : List α

namespace Fifo

def empty : Fifo α := ⟨[], []⟩

def step (f : Fifo α) : FifoOp α → Option (Fifo α)
  | .push xs => some ⟨f.output, f.contents ++ xs⟩
  | .pop n => if n ≤ f.contents.length then
      some ⟨f.output ++ f.contents.take n, f.contents.drop n⟩ else none

def pushed (ops : List (FifoOp α)) : List α :=
  ops.flatMap fun | .push xs => xs | .pop _ => []

def popped (ops : List (FifoOp α)) : ℕ :=
  ops.foldr (fun op total => (match op with | .push _ => 0 | .pop n => n)+total) 0

theorem step_conserves (f g : Fifo α) (op : FifoOp α) (h : f.step op = some g) :
    g.output ++ g.contents = f.output ++ f.contents ++ pushed [op] ∧
      g.output.length = f.output.length+popped [op] := by
  cases op with
  | push xs =>
    obtain rfl := Option.some.inj h
    simp [pushed, popped]
  | pop n =>
    simp only [step, Option.ite_none_right_eq_some, Option.some.injEq] at h
    obtain ⟨hn, rfl⟩ := h
    simp [pushed, popped, hn]

/-- Nothing is lost, duplicated or reordered by any run of the queue. -/
theorem run_conserves (f g : Fifo α) (ops : List (FifoOp α))
    (h : Run.run step f ops = some g) :
    g.output ++ g.contents = f.output ++ f.contents ++ pushed ops ∧
      g.output.length = f.output.length+popped ops := by
  induction ops generalizing f with
  | nil =>
    obtain rfl := Option.some.inj h
    simp [pushed, popped]
  | cons op ops ih =>
    obtain ⟨f', hstep, hrest⟩ := Option.bind_eq_some_iff.mp h
    obtain ⟨hc, hl⟩ := step_conserves f f' op hstep
    obtain ⟨hc', hl'⟩ := ih f' hrest
    have hp : pushed (op :: ops) = pushed [op] ++ pushed ops := by simp [pushed]
    have hq : popped (op :: ops) = popped [op]+popped ops := by simp [popped]
    constructor
    · rw [hc', hc, hp, List.append_assoc _ (pushed [op])]
    · rw [hl', hl, hq, Nat.add_assoc]

/-- From the empty queue the output is a prefix of the input, and the lengths
tell which one. -/
theorem run_empty (g : Fifo α) (ops : List (FifoOp α)) (h : Run.run step empty ops = some g) :
    g.output = (pushed ops).take (popped ops) ∧
      g.contents.length+popped ops = (pushed ops).length := by
  obtain ⟨hc, hl⟩ := run_conserves empty g ops h
  simp only [empty, List.nil_append, List.length_nil, Nat.zero_add] at hc hl
  constructor
  · rw [← hc, ← hl, List.take_left]
  · rw [← hc, ← hl, List.length_append, Nat.add_comm]

end Fifo
end Cosmid
