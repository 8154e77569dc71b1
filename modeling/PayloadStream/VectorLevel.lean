/-!
# Vector capability of the processor

The vector instruction sets that scanning and masking can use, in order of capability. A
processor has exactly one level and can run whatever asks for that level or a lower one.
-/

namespace PayloadStream

/-- What the processor offers beyond plain instructions. -/
inductive VectorLevel where
  | scalar
  | sse2
  | sse41
deriving DecidableEq

namespace VectorLevel

def rank : VectorLevel → Nat
  | scalar => 0
  | sse2 => 1
  | sse41 => 2

def name : VectorLevel → String
  | scalar => "Scalar"
  | sse2 => "Sse2"
  | sse41 => "Sse41"

instance : LE VectorLevel where
  le a b := a.rank ≤ b.rank

instance (a b : VectorLevel) : Decidable (a ≤ b) :=
  inferInstanceAs (Decidable (a.rank ≤ b.rank))

theorem le_def {a b : VectorLevel} : a ≤ b ↔ a.rank ≤ b.rank := .rfl

@[simp] theorem scalar_le (a : VectorLevel) : scalar ≤ a := Nat.zero_le _

theorem le_refl (a : VectorLevel) : a ≤ a := Nat.le_refl _

theorem le_trans {a b c : VectorLevel} (h : a ≤ b) (h' : b ≤ c) : a ≤ c :=
  Nat.le_trans (le_def.1 h) (le_def.1 h')

end VectorLevel

end PayloadStream
