/-!
# Runs with a checkpoint

A machine answers actions and changes its state. A run also keeps one copy of the state: `save`
stores the present state and `restore` brings the stored one back. At the start the stored state
is the first one.
-/

namespace PayloadStream

/-- A state and the copy that is kept of it. -/
structure Checkpointed (σ : Type) where
  live : σ
  kept : σ

inductive RunStep (α : Type) where
  | act (action : α)
  | save
  | restore

namespace Checkpointed

variable {σ α ρ : Type}

def start (s : σ) : Checkpointed σ := ⟨s, s⟩

def step (answer : σ → α → ρ × σ) (m : Checkpointed σ) : RunStep α → Option ρ × Checkpointed σ
  | .act a => (some (answer m.live a).1, { m with live := (answer m.live a).2 })
  | .save => (none, { m with kept := m.live })
  | .restore => (none, { m with live := m.kept })

def run (answer : σ → α → ρ × σ) : Checkpointed σ → List (RunStep α) → Checkpointed σ
  | m, [] => m
  | m, s :: rest => run answer (m.step answer s).2 rest

/-- The reply and the state after each step. -/
def trace (answer : σ → α → ρ × σ) : Checkpointed σ → List (RunStep α) → List (Option ρ × σ)
  | _, [] => []
  | m, s :: rest =>
    ((m.step answer s).1, (m.step answer s).2.live) :: trace answer (m.step answer s).2 rest

theorem run_append (answer : σ → α → ρ × σ) (m : Checkpointed σ) (xs ys : List (RunStep α)) :
    m.run answer (xs ++ ys) = (m.run answer xs).run answer ys := by
  induction xs generalizing m with
  | nil => rfl
  | cons s rest ih => exact ih _

theorem trace_append (answer : σ → α → ρ × σ) (m : Checkpointed σ) (xs ys : List (RunStep α)) :
    m.trace answer (xs ++ ys) = m.trace answer xs ++ (m.run answer xs).trace answer ys := by
  induction xs generalizing m with
  | nil => rfl
  | cons s rest ih => simp only [List.cons_append, trace, run, ih]

@[simp] theorem length_trace (answer : σ → α → ρ × σ) (m : Checkpointed σ)
    (xs : List (RunStep α)) : (m.trace answer xs).length = xs.length := by
  induction xs generalizing m with
  | nil => rfl
  | cons s rest ih => simp [trace, ih]

end Checkpointed

end PayloadStream
