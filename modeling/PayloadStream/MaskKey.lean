/-!
# Masking keys

A key has four bytes and is repeated along the payload, so that only a position modulo four
matters. Masking is the exclusive or with the repeated key.
-/

namespace PayloadStream

/-- The four bytes that a payload is masked with. -/
structure MaskKey where
  bytes : Vector UInt8 4
deriving DecidableEq

/-- Bytes that are no key, by their number. -/
structure InvalidKey where
  length : Nat
deriving DecidableEq

def InvalidKey.message (e : InvalidKey) : String :=
  s!"masking key must be exactly 4 bytes, got {e.length}"

namespace MaskKey

def ofBytes : List UInt8 → Except InvalidKey MaskKey
  | [a, b, c, d] => .ok ⟨#v[a, b, c, d]⟩
  | bytes => .error ⟨bytes.length⟩

/-- The byte of the repeated key at a position. -/
def byteAt (key : MaskKey) (position : UInt64) : UInt8 :=
  key.bytes.get ⟨position.toNat % 4, Nat.mod_lt _ (by decide)⟩

def mask (key : MaskKey) (position : UInt64) (bytes : List UInt8) : List UInt8 :=
  bytes.mapIdx fun i b => b ^^^ key.byteAt (position + i.toUInt64)

/-- Sixteen bytes of the repeated key from a position on. -/
def pattern (key : MaskKey) (position : UInt64) : List UInt8 :=
  (List.range 16).map fun i => key.byteAt (position + i.toUInt64)

theorem ofBytes_eq_error_iff {bytes : List UInt8} {e : InvalidKey} :
    ofBytes bytes = .error e ↔ bytes.length ≠ 4 ∧ e = ⟨bytes.length⟩ := by
  unfold ofBytes
  split
  · simp
  next h =>
    have hlen : bytes.length ≠ 4 := by
      intro hlen
      match bytes, hlen with
      | [a, b, c, d], _ => exact h a b c d rfl
    simp [hlen, eq_comm]

@[simp] theorem length_mask (key : MaskKey) (position : UInt64) (bytes : List UInt8) :
    (key.mask position bytes).length = bytes.length := by simp [mask]

@[simp] theorem mask_nil (key : MaskKey) (position : UInt64) : key.mask position [] = [] := by
  simp [mask]

theorem getElem?_mask (key : MaskKey) (position : UInt64) (bytes : List UInt8) (i : Nat) :
    (key.mask position bytes)[i]? =
      bytes[i]?.map fun b => b ^^^ key.byteAt (position + i.toUInt64) := by
  simp [mask]

/-- The second of two parts is masked from the position after the first. -/
theorem mask_append (key : MaskKey) (position : UInt64) (xs ys : List UInt8) :
    key.mask position (xs ++ ys) =
      key.mask position xs ++ key.mask (position + xs.length.toUInt64) ys := by
  simp only [mask, List.mapIdx_append, List.append_cancel_left_eq]
  congr 1
  funext i b
  rw [Nat.toUInt64_eq, UInt64.ofNat_add, UInt64.add_comm (UInt64.ofNat i), ← UInt64.add_assoc]

/-- Masking twice from one position changes nothing. -/
@[simp] theorem mask_mask (key : MaskKey) (position : UInt64) (bytes : List UInt8) :
    key.mask position (key.mask position bytes) = bytes := by
  apply List.ext_getElem?
  intro i
  simp only [getElem?_mask, Option.map_map, Function.comp_def, UInt8.xor_assoc, UInt8.xor_self,
    UInt8.xor_zero, Option.map_id_fun', id]

@[simp] theorem length_pattern (key : MaskKey) (position : UInt64) :
    (key.pattern position).length = 16 := by simp [pattern]

end MaskKey

end PayloadStream
