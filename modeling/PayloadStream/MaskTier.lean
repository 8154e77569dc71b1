import PayloadStream.BlockMask
import PayloadStream.ExecutionTier

/-!
# Tiers of masking

Two ways to mask, which give the same bytes. The block tier needs a vector level; where the
processor lacks it, the bytes are masked one by one.
-/

namespace PayloadStream

/-- How the exclusive or is run. -/
inductive MaskTier where
  /-- One byte at a time. -/
  | simple
  /-- Sixteen bytes at a time. -/
  | sse2
deriving DecidableEq

namespace MaskTier

instance : ExecutionTier MaskTier where
  all := [simple, sse2]
  code
    | simple => 1
    | sse2 => 2
  name
    | simple => "Simple"
    | sse2 => "Sse2"
  required
    | simple => .scalar
    | sse2 => .sse2
  best level := if .sse2 ≤ level then sse2 else simple

def mask (level : VectorLevel) (tier : MaskTier) (key : MaskKey) (position : UInt64) (b : Buffer) :
    List UInt8 :=
  match tier with
  | simple => key.mask position b.bytes
  | sse2 =>
    if .sse2 ≤ level then key.maskBlocks position b.split else key.mask position b.bytes

end MaskTier

end PayloadStream
