import Mathlib.Algebra.Group.Nat.Defs

/-!
# Decoding one scalar value at a time

This decoder collects the bits of a sequence in a number. After each byte it asks whether the bits
so far can still become a scalar value that needs this many bytes; that rules out overlong forms,
surrogates and values above `U+10FFFF` by number. On failure it reports how much was decoded, and
the length of the part that no text can hold, if there is one.
-/

namespace PayloadStream

/-- Whether the bits `p`, with `k` groups of six bits to follow, can be a scalar value from `least`
up. -/
def Completable (least p k : Nat) : Prop :=
  least ≤ p * 64 ^ k + (64 ^ k - 1) ∧ p * 64 ^ k ≤ 0x10FFFF ∧
    ¬ (0xD800 ≤ p * 64 ^ k ∧ p * 64 ^ k + (64 ^ k - 1) ≤ 0xDFFF)

instance (least p k : Nat) : Decidable (Completable least p k) :=
  inferInstanceAs (Decidable (_ ∧ _ ∧ ¬ _))

/-- What some bytes start with. -/
inductive FirstScalar where
  /-- A scalar value, and the number of bytes it takes after the first. -/
  | scalar (value extra : Nat)
  /-- A sequence that ends too early. -/
  | unfinished
  /-- Bytes that no text holds, by their number. -/
  | malformed (length : Nat)
deriving DecidableEq

/-- Reads `k` more bytes of a sequence that has `n` bytes with the bits `p` so far. -/
def readContinuations (least : Nat) : Nat → Nat → Nat → List UInt8 → FirstScalar
  | 0, n, p, _ => .scalar p (n - 1)
  | _ + 1, _, _, [] => .unfinished
  | k + 1, n, p, b :: rest =>
    if 0x80 ≤ b ∧ b < 0xC0 ∧ Completable least (p * 64 + (b.toNat - 0x80)) k then
      readContinuations least k (n + 1) (p * 64 + (b.toNat - 0x80)) rest
    else .malformed n

/-- Reads a sequence of `k` bytes after the first, whose bits are `p`. -/
def readSequence (least k p : Nat) (rest : List UInt8) : FirstScalar :=
  if Completable least p k then readContinuations least k 1 p rest else .malformed 1

/-- Reads the scalar value that starts with a byte. -/
def readScalar (b : UInt8) (rest : List UInt8) : FirstScalar :=
  if b < 0x80 then .scalar b.toNat 0
  else if b < 0xC0 then .malformed 1
  else if b < 0xE0 then readSequence 0x80 1 (b.toNat - 0xC0) rest
  else if b < 0xF0 then readSequence 0x800 2 (b.toNat - 0xE0) rest
  else if b < 0xF8 then readSequence 0x10000 3 (b.toNat - 0xF0) rest
  else .malformed 1

structure DecodeError where
  /-- The length of the longest well-formed front. -/
  validUpTo : Nat
  /-- The number of bytes after it that no text holds; none if the bytes only end too early. -/
  errorLength : Option Nat
deriving DecidableEq

/-- Decodes bytes that start `start` bytes into the text. -/
def decodeFrom (start : Nat) : List UInt8 → Except DecodeError (List Char)
  | [] => .ok []
  | b :: rest =>
    match readScalar b rest with
    | .scalar value extra =>
      (decodeFrom (start + 1 + extra) (rest.drop extra)).map (Char.ofNat value :: ·)
    | .unfinished => .error ⟨start, none⟩
    | .malformed n => .error ⟨start, some n⟩
termination_by bytes => bytes.length
decreasing_by
  simp only [List.length_drop, List.length_cons]
  omega

def decode (bytes : List UInt8) : Except DecodeError (List Char) := decodeFrom 0 bytes

@[simp] theorem decodeFrom_nil (start : Nat) : decodeFrom start [] = .ok [] := by
  simp [decodeFrom]

@[simp] theorem decode_nil : decode [] = .ok [] := decodeFrom_nil 0

end PayloadStream
