import PayloadStream.VectorLevel

/-!
# Execution tiers and their selection

A tier is one of several interchangeable ways to do the same work; each needs a vector level
and has a stable wire code. A caller may ask for a tier or leave the choice open. What is
selected is never above the request and always within what the processor can run.

`ScanTier` and `MaskTier` are the two families of tiers.
-/

namespace PayloadStream

/-- A family of tiers, slowest first in `all`. Codes are at least one: code zero on the wire
leaves the choice open. -/
class ExecutionTier (τ : Type) where
  all : List τ
  code : τ → UInt8
  name : τ → String
  required : τ → VectorLevel
  /-- The fastest tier of a processor. -/
  best : VectorLevel → τ

/-- A wire code that names no tier. -/
structure UnknownTier where
  code : UInt8
deriving DecidableEq

def UnknownTier.message (e : UnknownTier) : String :=
  s!"unknown tier code {e.code.toNat}"

namespace ExecutionTier

variable {τ : Type} [ExecutionTier τ]

def Available (level : VectorLevel) (t : τ) : Prop := required t ≤ level

instance (level : VectorLevel) (t : τ) : Decidable (Available level t) :=
  inferInstanceAs (Decidable (required t ≤ level))

def lower (a b : τ) : τ := if code a ≤ code b then a else b

def notAbove (t : τ) : List τ := all.filter fun s => code s ≤ code t

/-- The tier that answers a request: the fastest one if the choice is open, the requested one
where the processor runs it, and otherwise the fastest one below it. -/
def select (level : VectorLevel) : Option τ → τ
  | none => best level
  | some t => if Available level t then t else lower (best level) t

def ofCode (c : UInt8) : Except UnknownTier τ :=
  match all.find? (fun t : τ => code t == c) with
  | some t => .ok t
  | none => .error ⟨c⟩

/-- The request that a wire code stands for; code zero leaves the choice open. -/
def request (c : UInt8) : Except UnknownTier (Option τ) :=
  if c = 0 then .ok none else (ofCode c).map some

@[simp] theorem select_none (level : VectorLevel) : select level (none : Option τ) = best level :=
  rfl

theorem select_of_available {level : VectorLevel} {t : τ} (h : Available level t) :
    select level (some t) = t := by
  simp [select, h]

@[simp] theorem request_zero : request 0 = (.ok none : Except UnknownTier (Option τ)) := rfl

theorem ofCode_eq_error_iff {c : UInt8} {e : UnknownTier} :
    (ofCode c : Except UnknownTier τ) = .error e ↔ e = ⟨c⟩ ∧ ∀ t ∈ (all : List τ), code t ≠ c := by
  unfold ofCode
  split
  next t h =>
    have hmem := List.mem_of_find?_eq_some h
    have hcode : code t = c := by simpa using List.find?_some h
    simp only [reduceCtorEq, false_iff, not_and]
    exact fun _ hall => hall t hmem hcode
  next h =>
    simp only [List.find?_eq_none, beq_iff_eq] at h
    simp only [Except.error.injEq]
    exact ⟨fun he => ⟨he.symm, h⟩, fun he => he.1.symm⟩

end ExecutionTier

end PayloadStream
