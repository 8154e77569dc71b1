/-!
# Cutting a payload into even chunks

A payload is cut into a given number of parts of nearly one size: the least size with which that
many parts cover the payload, and at least one byte. All chunks have that size but the last, which
may be shorter. Cuts may fall inside a code point. Asking for no parts is an error.
-/

namespace PayloadStream

/-- A payload was to be cut into no parts. -/
structure NoParts where
deriving DecidableEq

def NoParts.message (_ : NoParts) : String := "assertion failed: parts > 0"

/-- Cuts after every `size` bytes. Size zero is read as one. -/
def chunksOf (size : Nat) : List UInt8 → List (List UInt8)
  | [] => []
  | b :: rest => (b :: rest.take (size - 1)) :: chunksOf size (rest.drop (size - 1))
termination_by bytes => bytes.length
decreasing_by
  simp only [List.length_drop, List.length_cons]
  omega

/-- The size of the chunks: the length divided by the number of parts, rounded up. -/
def chunkSize (length parts : UInt64) : UInt64 :=
  max (length / parts + if length % parts = 0 then 0 else 1) 1

/-- Cuts a payload into at most that many chunks. -/
def evenChunks (payload : List UInt8) (parts : UInt64) : Except NoParts (List (List UInt8)) :=
  if parts = 0 then .error {}
  else .ok (chunksOf (chunkSize payload.length.toUInt64 parts).toNat payload)

@[simp] theorem chunksOf_nil (size : Nat) : chunksOf size [] = [] := by simp [chunksOf]

theorem chunksOf_cons {size : Nat} (h : 0 < size) (b : UInt8) (rest : List UInt8) :
    chunksOf size (b :: rest) =
      (b :: rest).take size :: chunksOf size ((b :: rest).drop size) := by
  obtain ⟨n, rfl⟩ := Nat.exists_eq_succ_of_ne_zero (Nat.ne_of_gt h)
  rw [chunksOf]
  simp

theorem flatten_chunksOf (size : Nat) (bytes : List UInt8) :
    (chunksOf size bytes).flatten = bytes := by
  fun_induction chunksOf size bytes with
  | case1 => rfl
  | case2 b rest ih =>
    rw [List.flatten_cons, ih, List.cons_append, List.take_append_drop]

theorem evenChunks_eq_error_iff {payload : List UInt8} {parts : UInt64} {e : NoParts} :
    evenChunks payload parts = .error e ↔ parts = 0 := by
  unfold evenChunks
  split <;> simp_all

end PayloadStream
