/-!
# Verdicts on streamed text

What is known of a message after some of its bytes. A rejection names the offending byte twice:
by its place in the bytes of the call, and by its place in the message.
-/

namespace PayloadStream

inductive Verdict where
  /-- Well-formed so far, up to a code point boundary. -/
  | valid
  /-- Well-formed so far, but the last code point needs more bytes. -/
  | incomplete
  /-- No continuation is well-formed. -/
  | invalid (offset total : UInt64)
deriving DecidableEq

namespace Verdict

def isInvalid : Verdict → Bool
  | invalid _ _ => true
  | _ => false

/-- A text that may still turn out well-formed counts as valid. -/
def isValid (v : Verdict) : Bool := !v.isInvalid

def endsOnCodePoint : Verdict → Bool
  | valid => true
  | _ => false

theorem isValid_eq_false_iff {v : Verdict} : v.isValid = false ↔ ∃ o t, v = invalid o t := by
  cases v <;> simp [isValid, isInvalid]

end Verdict

end PayloadStream
