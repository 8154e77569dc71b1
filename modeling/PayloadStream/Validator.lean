import PayloadStream.ScanTier
import PayloadStream.Verdict

/-!
# Streaming UTF-8 validation

A validator reads one message in chunks, cut anywhere. It carries the automaton's state and two
counters from chunk to chunk and never the bytes. `validate` takes a chunk that others may follow;
`complete` takes the last one, where a truncated code point becomes a rejection. A rejection
stays until `reset`.
-/

namespace PayloadStream

/-- How a validator is made. Without a tier the fastest one is taken. -/
structure ScanOptions where
  tier : Option ScanTier := none
deriving DecidableEq

structure Validator where
  state : ScanState
  /-- The bytes taken by the last call; where it rejected, the index of the offending byte. -/
  current : UInt64
  /-- The bytes taken since the last reset; once rejected, the place of the offending byte. -/
  total : UInt64
  tier : ScanTier
deriving DecidableEq

namespace Validator

def ofOptions (level : VectorLevel) (options : ScanOptions) : Validator where
  state := .accept
  current := 0
  total := 0
  tier := ExecutionTier.select level options.tier

def automatic (level : VectorLevel) : Validator := ofOptions level {}

/-- Back to the start of a message. The tier stays. -/
def reset (v : Validator) : Validator := { v with state := .accept, current := 0, total := 0 }

def selectTier (level : VectorLevel) (v : Validator) (request : Option ScanTier) : Validator :=
  { v with tier := ExecutionTier.select level request }

def rejected (v : Validator) : Bool := v.state == .reject

/-- What the last call amounts to. -/
def verdict (v : Validator) : Verdict :=
  match v.state with
  | .accept => .valid
  | .reject => .invalid v.current v.total
  | _ => .incomplete

/-- The validator after one more chunk. A rejected one takes no byte. -/
def feed (level : VectorLevel) (v : Validator) (b : Buffer) : Validator :=
  if v.rejected then { v with current := 0 }
  else
    let scan := v.tier.scan level v.state b
    { v with
      state := scan.state
      current := scan.stop.toUInt64
      total := v.total + scan.stop.toUInt64 }

/-- The validator at the end of a message: a code point that lacks bytes is a rejection. -/
def finish (v : Validator) : Validator :=
  if v.verdict = .incomplete then { v with state := .reject } else v

/-- Reads a chunk that others may follow. -/
def validate (level : VectorLevel) (v : Validator) (b : Buffer) : Verdict × Validator :=
  ((v.feed level b).verdict, v.feed level b)

/-- Reads the last chunk of a message. -/
def complete (level : VectorLevel) (v : Validator) (b : Buffer) : Verdict × Validator :=
  ((v.feed level b).finish.verdict, (v.feed level b).finish)

@[simp] theorem verdict_eq_valid_iff {v : Validator} : v.verdict = .valid ↔ v.state = .accept := by
  unfold verdict
  cases v.state <;> simp

@[simp] theorem isInvalid_verdict {v : Validator} : v.verdict.isInvalid = v.rejected := by
  unfold verdict rejected
  cases v.state <;> rfl

@[simp] theorem tier_feed (level : VectorLevel) (v : Validator) (b : Buffer) :
    (v.feed level b).tier = v.tier := by
  unfold feed
  split <;> rfl

@[simp] theorem tier_finish (v : Validator) : v.finish.tier = v.tier := by
  unfold finish
  split <;> rfl

@[simp] theorem tier_reset (v : Validator) : v.reset.tier = v.tier := rfl

@[simp] theorem tier_selectTier (level : VectorLevel) (v : Validator) (r : Option ScanTier) :
    (v.selectTier level r).tier = ExecutionTier.select level r := rfl

@[simp] theorem selectTier_reset (level : VectorLevel) (v : Validator) (r : Option ScanTier) :
    v.reset.selectTier level r = ofOptions level ⟨r⟩ := rfl

end Validator

end PayloadStream
