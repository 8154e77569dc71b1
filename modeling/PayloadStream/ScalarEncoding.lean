import Mathlib.Algebra.Group.Nat.Defs

/-!
# UTF-8 by arithmetic

A Unicode scalar value is written in one to four bytes, as few as its code point needs: the first
byte tells the number of bytes and has the leading bits, and every later byte has six more. Text is
well-formed if it is the encoding of some scalar values, and viable if well-formed text starts
with it.

Nothing here knows of the automaton.
-/

namespace PayloadStream

/-- A later byte of a sequence, which has the low six bits of a number. -/
def continuation (n : Nat) : UInt8 := (0x80 + n % 64).toUInt8

def encodeScalar (c : Char) : List UInt8 :=
  let n := c.toNat
  if n < 0x80 then [n.toUInt8]
  else if n < 0x800 then [(0xC0 + n / 64).toUInt8, continuation n]
  else if n < 0x10000 then
    [(0xE0 + n / 64 ^ 2).toUInt8, continuation (n / 64), continuation n]
  else
    [(0xF0 + n / 64 ^ 3).toUInt8, continuation (n / 64 ^ 2), continuation (n / 64), continuation n]

def encodeText (cs : List Char) : List UInt8 := cs.flatMap encodeScalar

/-- Bytes that are the encoding of some scalar values. -/
def WellFormed (bytes : List UInt8) : Prop := ∃ cs, encodeText cs = bytes

/-- Bytes that some well-formed text starts with. -/
def Viable (bytes : List UInt8) : Prop := ∃ rest, WellFormed (bytes ++ rest)

@[simp] theorem encodeText_nil : encodeText [] = [] := rfl

@[simp] theorem encodeText_cons (c : Char) (cs : List Char) :
    encodeText (c :: cs) = encodeScalar c ++ encodeText cs := rfl

@[simp] theorem encodeText_append (cs ds : List Char) :
    encodeText (cs ++ ds) = encodeText cs ++ encodeText ds := by
  simp [encodeText]

theorem length_encodeScalar_pos (c : Char) : 0 < (encodeScalar c).length := by
  simp only [encodeScalar]
  repeat' split
  all_goals simp

theorem length_encodeScalar_le (c : Char) : (encodeScalar c).length ≤ 4 := by
  simp only [encodeScalar]
  repeat' split
  all_goals simp

namespace WellFormed

theorem nil : WellFormed [] := ⟨[], rfl⟩

theorem append {s t : List UInt8} (hs : WellFormed s) (ht : WellFormed t) :
    WellFormed (s ++ t) := by
  obtain ⟨cs, rfl⟩ := hs
  obtain ⟨ds, rfl⟩ := ht
  exact ⟨cs ++ ds, encodeText_append cs ds⟩

theorem viable {s : List UInt8} (h : WellFormed s) : Viable s := ⟨[], by simpa using h⟩

end WellFormed

theorem Viable.of_append {s t : List UInt8} (h : Viable (s ++ t)) : Viable s := by
  obtain ⟨rest, h⟩ := h
  exact ⟨t ++ rest, by simpa using h⟩

end PayloadStream
