import PayloadStream.Checkpoint
import PayloadStream.Masker

/-!
# Runs of a masker

The ways to make a masker and the calls that it answers, as data, so that whole runs can be spoken
of. A tier is asked for by its wire code; an unknown code changes nothing.
-/

namespace PayloadStream

inductive MaskerSetup where
  | bytes (key : List UInt8)
  | key (key : MaskKey)
  | null
  | options (key : Option MaskKey) (options : MaskOptions)
  | payload (key : Option MaskKey) (length : Option UInt64)
  | payloadWith (key : Option MaskKey) (length : Option UInt64) (options : MaskOptions)

def MaskerSetup.build (level : VectorLevel) : MaskerSetup → Except InvalidKey Masker
  | bytes k => Masker.ofBytes level k
  | key k => .ok (Masker.ofKey level k)
  | null => .ok (Masker.null level)
  | options k o => .ok (Masker.ofOptions level k o)
  | payload k n => .ok (Masker.forPayload level k n {})
  | payloadWith k n o => .ok (Masker.forPayload level k n o)

inductive MaskerCall where
  | process (window : Window)
  /-- Masks a copy of the bytes, which lies `place` bytes behind a block boundary. -/
  | copy (bytes : List UInt8) (place : Fin 16)
  /-- Masks that many zero bytes and drops the result. -/
  | skip (n : UInt64)
  | reset
  | selectTier (code : UInt8)

inductive MaskerReply where
  | silent
  /-- The whole buffer after a window of it was masked. -/
  | buffer (bytes : List UInt8)
  /-- The masked copy and the bytes that it was taken from. -/
  | copy (out source : List UInt8)
  | tier (selected : MaskTier)
  | unknownTier (e : UnknownTier)

namespace Masker

def answer (level : VectorLevel) (m : Masker) : MaskerCall → MaskerReply × Masker
  | .process w => (.buffer (m.processWindow level w).1, (m.processWindow level w).2)
  | .copy bytes place =>
    (.copy (m.processCopy level bytes place).1 bytes, (m.processCopy level bytes place).2)
  | .skip n => (.silent, m.advance n)
  | .reset => (.silent, m.reset)
  | .selectTier code =>
    match ExecutionTier.request code with
    | .ok request => (.tier (m.selectTier level request).tier, m.selectTier level request)
    | .error e => (.unknownTier e, m)

def trace (level : VectorLevel) (m : Masker) (steps : List (RunStep MaskerCall)) :
    List (Option MaskerReply × Masker) :=
  (Checkpointed.start m).trace (answer level) steps

/-- Skipping `n` bytes leaves the masker as masking a copy of `n` zero bytes does. -/
theorem snd_answer_skip (level : VectorLevel) (m : Masker) (n : UInt64) (place : Fin 16) :
    (m.answer level (.skip n)).2 =
      (m.answer level (.copy (List.replicate n.toNat 0) place)).2 := by
  change m.advance n = m.advance (List.replicate n.toNat (0 : UInt8)).length.toUInt64
  rw [List.length_replicate, Nat.toUInt64_eq, UInt64.ofNat_toNat]

end Masker

end PayloadStream
