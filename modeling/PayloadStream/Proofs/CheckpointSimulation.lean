import Mathlib.Data.List.Forall2
import PayloadStream.Checkpoint

/-!
# Two machines run side by side

A simulation is a relation between the states of two machines that every pair of corresponding
actions preserves, with replies that correspond too. It then holds between the live and between the
kept states all along two runs, since saving and restoring only move states about. One machine may
be a ledger that records the history of the other.
-/

namespace PayloadStream

variable {α β ρ π σ τ : Type} {A : α → β → Prop} {Q : ρ → π → Prop} {S : σ → τ → Prop}

/-- Steps of one kind, with corresponding actions. -/
inductive RunStep.Rel (A : α → β → Prop) : RunStep α → RunStep β → Prop
  | act {a : α} {b : β} (h : A a b) : Rel A (.act a) (.act b)
  | save : Rel A .save .save
  | restore : Rel A .restore .restore

theorem RunStep.forall₂_rel_eq (steps : List (RunStep α)) :
    List.Forall₂ (Rel (· = ·)) steps steps := by
  apply List.forall₂_same.mpr
  intro s _
  cases s with
  | act a => exact .act rfl
  | save => exact .save
  | restore => exact .restore

namespace Checkpointed

/-- Corresponding actions in related states give corresponding replies and related states. -/
def Simulates (answer : σ → α → ρ × σ) (answer' : τ → β → π × τ) (A : α → β → Prop)
    (Q : ρ → π → Prop) (S : σ → τ → Prop) : Prop :=
  ∀ ⦃s t a b⦄, S s t → A a b → Q (answer s a).1 (answer' t b).1 ∧ S (answer s a).2 (answer' t b).2

/-- Both the live and the kept states are related. -/
structure Related (S : σ → τ → Prop) (m : Checkpointed σ) (n : Checkpointed τ) : Prop where
  live : S m.live n.live
  kept : S m.kept n.kept

variable {answer : σ → α → ρ × σ} {answer' : τ → β → π × τ} {m : Checkpointed σ}
  {n : Checkpointed τ}

theorem related_start {s : σ} {t : τ} (h : S s t) : Related S (start s) (start t) := ⟨h, h⟩

namespace Simulates

variable (sim : Simulates answer answer' A Q S)

include sim

theorem step (h : Related S m n) {x : RunStep α} {y : RunStep β} (hxy : x.Rel A y) :
    Option.Rel Q (m.step answer x).1 (n.step answer' y).1 ∧
      Related S (m.step answer x).2 (n.step answer' y).2 := by
  cases hxy with
  | act hab =>
    obtain ⟨hreply, hstate⟩ := sim h.live hab
    exact ⟨.some hreply, hstate, h.kept⟩
  | save => exact ⟨.none, h.live, h.live⟩
  | restore => exact ⟨.none, h.kept, h.kept⟩

theorem run (h : Related S m n) {xs : List (RunStep α)} {ys : List (RunStep β)}
    (hxy : List.Forall₂ (RunStep.Rel A) xs ys) :
    Related S (m.run answer xs) (n.run answer' ys) := by
  induction hxy generalizing m n with
  | nil => exact h
  | cons hstep _ ih => exact ih (sim.step h hstep).2

theorem trace (h : Related S m n) {xs : List (RunStep α)} {ys : List (RunStep β)}
    (hxy : List.Forall₂ (RunStep.Rel A) xs ys) :
    List.Forall₂ (fun p q => Option.Rel Q p.1 q.1 ∧ S p.2 q.2)
      (m.trace answer xs) (n.trace answer' ys) := by
  induction hxy generalizing m n with
  | nil => exact .nil
  | cons hstep _ ih =>
    obtain ⟨hreply, hnext⟩ := sim.step h hstep
    exact .cons ⟨hreply, hnext.live⟩ (ih hnext)

end Simulates

end Checkpointed

end PayloadStream
