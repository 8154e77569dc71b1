import PayloadStream.MaskTier
import PayloadStream.ScanTier

/-!
# Selection of tiers

In both families the codes follow the vector levels: a processor runs exactly the tiers up to its
fastest one. So whatever is asked for, the tier that is selected runs, and a selected tier is
selected again when it is asked for by name. Among all tiers that run and are not above the request
it is the greatest, so a request that allows more never selects a lower tier.
-/

namespace PayloadStream

namespace ExecutionTier

/-- A complete family in which a processor runs exactly the tiers up to its fastest one. -/
class LawfulTiers (τ : Type) [ExecutionTier τ] : Prop where
  mem_all (t : τ) : t ∈ (all : List τ)
  available_iff (level : VectorLevel) (t : τ) : Available level t ↔ code t ≤ code (best level : τ)

variable {τ : Type} [ExecutionTier τ]

/-- The tier is not above the request. An open choice allows every tier. -/
def Within (request : Option τ) (t : τ) : Prop := ∀ r ∈ request, code t ≤ code r

/-- The greatest of all tiers that the processor runs and the request allows. -/
structure Greatest (level : VectorLevel) (request : Option τ) (t : τ) : Prop where
  mem_all : t ∈ all
  available : Available level t
  within : Within request t
  le_of_allowed : ∀ s ∈ all, Available level s → Within request s → code s ≤ code t

theorem Greatest.le_of_within {level : VectorLevel} {r r' : Option τ} {t t' : τ}
    (h : Greatest level r t) (h' : Greatest level r' t') (hr : Within r t → Within r' t) :
    code t ≤ code t' :=
  h'.le_of_allowed t h.mem_all h.available (hr h.within)

variable [LawfulTiers τ]

theorem available_best (level : VectorLevel) : Available level (best level : τ) :=
  (LawfulTiers.available_iff level _).mpr (UInt8.le_refl _)

theorem best_le_of_not_available {level : VectorLevel} {t : τ} (h : ¬ Available level t) :
    code (best level : τ) ≤ code t := by
  rw [LawfulTiers.available_iff] at h
  exact UInt8.le_of_lt (UInt8.not_le.mp h)

theorem select_of_not_available {level : VectorLevel} {t : τ} (h : ¬ Available level t) :
    select level (some t) = best level := by
  rw [select, if_neg h, lower, if_pos (best_le_of_not_available h)]

/-- What is selected is the greatest tier that the request allows. -/
theorem greatest_select (level : VectorLevel) (r : Option τ) :
    Greatest level r (select level r) := by
  have hbest : ∀ s : τ, Available level s → code s ≤ code (best level : τ) :=
    fun s hs => (LawfulTiers.available_iff level s).mp hs
  cases r with
  | none =>
    refine ⟨LawfulTiers.mem_all _, available_best level, ?_, fun s _ hs _ => hbest s hs⟩
    rintro _ ⟨⟩
  | some t =>
    by_cases h : Available level t
    · rw [select_of_available h]
      refine ⟨LawfulTiers.mem_all t, h, ?_, fun s _ _ hs => hs t rfl⟩
      rintro _ ⟨⟩
      exact UInt8.le_refl _
    · rw [select_of_not_available h]
      refine ⟨LawfulTiers.mem_all _, available_best level, ?_, fun s _ hs _ => hbest s hs⟩
      rintro _ ⟨⟩
      exact best_le_of_not_available h

/-- What is selected runs on the processor. -/
theorem available_select (level : VectorLevel) (r : Option τ) :
    Available level (select level r) :=
  (greatest_select level r).available

end ExecutionTier

instance : ExecutionTier.LawfulTiers ScanTier where
  mem_all t := by cases t <;> decide
  available_iff level t := by cases level <;> cases t <;> decide

instance : ExecutionTier.LawfulTiers MaskTier where
  mem_all t := by cases t <;> decide
  available_iff level t := by cases level <;> cases t <;> decide

end PayloadStream
