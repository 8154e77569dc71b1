import PayloadStream.Checkpoint
import PayloadStream.Validator

/-!
# Runs of a validator

The calls that a validator answers, as data, so that whole runs can be spoken of. A tier is asked
for by its wire code; an unknown code changes nothing.
-/

namespace PayloadStream

inductive ValidatorCall where
  | validate (chunk : Buffer)
  | complete (chunk : Buffer)
  | reset
  | selectTier (code : UInt8)

inductive ValidatorReply where
  | silent
  | verdict (v : Verdict)
  | tier (selected : ScanTier)
  | unknownTier (e : UnknownTier)

namespace Validator

def answer (level : VectorLevel) (v : Validator) : ValidatorCall → ValidatorReply × Validator
  | .validate chunk => (.verdict (v.validate level chunk).1, (v.validate level chunk).2)
  | .complete chunk => (.verdict (v.complete level chunk).1, (v.complete level chunk).2)
  | .reset => (.silent, v.reset)
  | .selectTier code =>
    match ExecutionTier.request code with
    | .ok request => (.tier (v.selectTier level request).tier, v.selectTier level request)
    | .error e => (.unknownTier e, v)

def trace (level : VectorLevel) (v : Validator) (steps : List (RunStep ValidatorCall)) :
    List (Option ValidatorReply × Validator) :=
  (Checkpointed.start v).trace (answer level) steps

end Validator

end PayloadStream
