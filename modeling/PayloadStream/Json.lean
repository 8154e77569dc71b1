/-!
# JSON values

A JSON document as a tree. A number keeps the way it was written: a number with a fraction or an
exponent is a `decimal` even where its value is whole, and so is a negative zero.
-/

namespace PayloadStream

inductive Json where
  | null
  | bool (b : Bool)
  | integer (n : Int)
  /-- The number `mantissa * 10 ^ exponent`. -/
  | decimal (mantissa exponent : Int)
  | string (s : String)
  | array (items : List Json)
  | object (fields : List (String × Json))

namespace Json

def field? (key : String) : List (String × Json) → Option Json
  | [] => none
  | (k, v) :: rest => if k = key then some v else field? key rest

def ofSize (n : UInt64) : Json := integer n.toNat

/-- Reads an integer from zero up to `2 ^ 64 - 1`. -/
def size? : Json → Option UInt64
  | integer (.ofNat n) => if n < UInt64.size then some (UInt64.ofNat n) else none
  | _ => none

@[simp] theorem size?_ofSize (n : UInt64) : (ofSize n).size? = some n := by
  have h : n.toNat < UInt64.size := n.toNat_lt
  simp [ofSize, size?, h]

@[simp] theorem field?_cons_self (key : String) (v : Json) (rest : List (String × Json)) :
    field? key ((key, v) :: rest) = some v := by simp [field?]

theorem field?_cons_ne {k key : String} (h : k ≠ key) (v : Json) (rest : List (String × Json)) :
    field? key ((k, v) :: rest) = field? key rest := by simp [field?, h]

end Json

end PayloadStream
