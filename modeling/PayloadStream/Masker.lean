import PayloadStream.MaskTier
import PayloadStream.Window

/-!
# Streaming masking

A masker masks one payload in pieces, cut anywhere: it carries the position in the repeated key
from piece to piece. A masker without a key leaves bytes as they are and only counts them. Masking
is its own inverse.
-/

namespace PayloadStream

/-- How a masker is made. Without a tier the fastest one is taken. -/
structure MaskOptions where
  tier : Option MaskTier := none
  /-- The payload length from which blocks are worth their setup. -/
  threshold : UInt64 := 128
deriving DecidableEq

structure Masker where
  key : Option MaskKey
  /-- The bytes masked since the last reset. -/
  position : UInt64
  tier : MaskTier
deriving DecidableEq

namespace Masker

def ofOptions (level : VectorLevel) (key : Option MaskKey) (options : MaskOptions) : Masker where
  key := key
  position := 0
  tier := ExecutionTier.select level options.tier

def ofKey (level : VectorLevel) (key : MaskKey) : Masker := ofOptions level (some key) {}

def ofBytes (level : VectorLevel) (bytes : List UInt8) : Except InvalidKey Masker :=
  (MaskKey.ofBytes bytes).map (ofKey level)

def null (level : VectorLevel) : Masker := ofOptions level none {}

/-- The tier that is asked for when a payload of some length is expected: the one that the options
name; else byte by byte, unless the length is known and reaches the threshold. -/
def payloadRequest (length : Option UInt64) (options : MaskOptions) : Option MaskTier :=
  options.tier.or <|
    match length with
    | some n => if options.threshold ≤ n then none else some .simple
    | none => some .simple

/-- A fresh masker for a payload of about this length. -/
def forPayload (level : VectorLevel) (key : Option MaskKey) (length : Option UInt64)
    (options : MaskOptions) : Masker :=
  ofOptions level key { options with tier := payloadRequest length options }

def isNull (m : Masker) : Bool := m.key.isNone

/-- Back to the first byte of the key. Key and tier stay. -/
def reset (m : Masker) : Masker := { m with position := 0 }

def selectTier (level : VectorLevel) (m : Masker) (request : Option MaskTier) : Masker :=
  { m with tier := ExecutionTier.select level request }

def advance (m : Masker) (n : UInt64) : Masker := { m with position := m.position + n }

/-- What a buffer becomes at the present position. -/
def cover (level : VectorLevel) (m : Masker) (b : Buffer) : List UInt8 :=
  match m.key with
  | some key => m.tier.mask level key m.position b
  | none => b.bytes

def process (level : VectorLevel) (m : Masker) (b : Buffer) : List UInt8 × Masker :=
  (m.cover level b, m.advance b.bytes.length.toUInt64)

/-- Masks a window in place: the whole buffer afterwards, and the masker. -/
def processWindow (level : VectorLevel) (m : Masker) (w : Window) : List UInt8 × Masker :=
  (w.write (m.process level w.inner).1, (m.process level w.inner).2)

/-- Masks a copy, which lies `place` bytes behind a block boundary. -/
def processCopy (level : VectorLevel) (m : Masker) (bytes : List UInt8) (place : Fin 16) :
    List UInt8 × Masker :=
  m.process level ⟨bytes, place⟩

@[simp] theorem isNull_eq_true_iff {m : Masker} : m.isNull = true ↔ m.key = none := by
  simp [isNull]

@[simp] theorem position_process (level : VectorLevel) (m : Masker) (b : Buffer) :
    (m.process level b).2.position = m.position + b.bytes.length.toUInt64 := rfl

@[simp] theorem key_process (level : VectorLevel) (m : Masker) (b : Buffer) :
    (m.process level b).2.key = m.key := rfl

@[simp] theorem tier_process (level : VectorLevel) (m : Masker) (b : Buffer) :
    (m.process level b).2.tier = m.tier := rfl

theorem process_of_null {m : Masker} (h : m.key = none) (level : VectorLevel) (b : Buffer) :
    (m.process level b).1 = b.bytes := by
  simp [process, cover, h]

theorem selectTier_reset (level : VectorLevel) (m : Masker) (r : Option MaskTier) :
    m.reset.selectTier level r = ofOptions level m.key { tier := r } := rfl

end Masker

end PayloadStream
