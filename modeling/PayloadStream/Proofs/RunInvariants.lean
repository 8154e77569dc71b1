import PayloadStream.Checkpoint

/-!
# What a run keeps

A property that every call keeps holds of the live and of the kept state all along a run, since
saving and restoring only move states about. In a part of a run that does not restore, the live
state is enough, and only the calls that occur have to keep the property. And a run that restores
nothing but what it saved itself does not depend on the copy that it found.
-/

namespace PayloadStream

variable {α ρ σ : Type} {A : α → Prop} {P : σ → Prop}

/-- A step that restores nothing, and whose call is of some kind. -/
inductive RunStep.Onward (A : α → Prop) : RunStep α → Prop
  | act {a : α} (h : A a) : Onward A (.act a)
  | save : Onward A .save

/-- Steps that save before they restore. -/
inductive SavesFirst : List (RunStep α) → Prop
  | nil : SavesFirst []
  | act (a : α) {rest : List (RunStep α)} (h : SavesFirst rest) : SavesFirst (.act a :: rest)
  | save (rest : List (RunStep α)) : SavesFirst (.save :: rest)

namespace Checkpointed

variable {answer : σ → α → ρ × σ} {m n : Checkpointed σ}

/-- Every call keeps the property. -/
def Preserves (answer : σ → α → ρ × σ) (P : σ → Prop) : Prop :=
  ∀ ⦃s⦄ a, P s → P (answer s a).2

/-- Both the live and the kept state have the property. -/
structure Throughout (P : σ → Prop) (m : Checkpointed σ) : Prop where
  live : P m.live
  kept : P m.kept

theorem throughout_start {s : σ} (h : P s) : Throughout P (start s) := ⟨h, h⟩

namespace Throughout

variable (hkeep : Preserves answer P)

include hkeep

theorem step (h : Throughout P m) (s : RunStep α) : Throughout P (m.step answer s).2 := by
  cases s with
  | act a => exact ⟨hkeep a h.live, h.kept⟩
  | save => exact ⟨h.live, h.live⟩
  | restore => exact ⟨h.kept, h.kept⟩

theorem run (h : Throughout P m) (steps : List (RunStep α)) :
    Throughout P (m.run answer steps) := by
  induction steps generalizing m with
  | nil => exact h
  | cons s rest ih => exact ih (h.step hkeep s)

end Throughout

/-- Without restoring, a property of the live state is kept if the calls that occur keep it. -/
theorem live_run_of_onward (hkeep : ∀ ⦃s⦄ a, A a → P s → P (answer s a).2) (h : P m.live)
    {steps : List (RunStep α)} (hsteps : ∀ s ∈ steps, s.Onward A) :
    P (m.run answer steps).live := by
  induction steps generalizing m with
  | nil => exact h
  | cons s rest ih =>
    obtain ⟨hs, hrest⟩ := List.forall_mem_cons.mp hsteps
    apply ih _ hrest
    cases hs with
    | act ha => exact hkeep _ ha h
    | save => exact h

/-- What was kept before does not show in a run that saves before it restores. -/
theorem trace_eq_of_savesFirst (h : m.live = n.live) {steps : List (RunStep α)}
    (hsteps : SavesFirst steps) : m.trace answer steps = n.trace answer steps := by
  induction hsteps generalizing m n with
  | nil => rfl
  | act a _ ih =>
    have hnext : (m.step answer (.act a)).2.live = (n.step answer (.act a)).2.live := by
      simp only [step, h]
    have hreply : (m.step answer (.act a)).1 = (n.step answer (.act a)).1 := by
      simp only [step, h]
    rw [trace, trace, hreply, hnext, ih hnext]
  | save rest =>
    have hnext : (m.step answer .save).2 = (n.step answer .save).2 := by
      simp only [step, h]
    rw [trace, trace, hnext]
    rfl

end Checkpointed

end PayloadStream
