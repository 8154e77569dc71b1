/-!
# Cutting bytes into sixteen-byte blocks

Vector code works on whole blocks of sixteen bytes. A split takes an unaligned head, then some
blocks, and leaves the rest as a tail. Nothing is lost: head, blocks and tail in order are the
bytes again.

A buffer carries its distance from the last block boundary, which decides where its first block
starts. No result depends on it.
-/

namespace PayloadStream

/-- A head of some bytes and a number of blocks after it. -/
structure BlockSplit (bytes : List UInt8) where
  head : Nat
  blocks : Nat
  fits : head + 16 * blocks ≤ bytes.length

def takeBlocks : Nat → List UInt8 → List (List UInt8)
  | 0, _ => []
  | n + 1, bytes => bytes.take 16 :: takeBlocks n (bytes.drop 16)

theorem length_takeBlocks (n : Nat) (bytes : List UInt8) : (takeBlocks n bytes).length = n := by
  induction n generalizing bytes with
  | zero => rfl
  | succ n ih => simp [takeBlocks, ih]

theorem flatten_takeBlocks (n : Nat) (bytes : List UInt8) :
    (takeBlocks n bytes).flatten = bytes.take (16 * n) := by
  induction n generalizing bytes with
  | zero => simp [takeBlocks]
  | succ n ih =>
    rw [takeBlocks, List.flatten_cons, ih, Nat.mul_succ, Nat.add_comm, List.take_add]

theorem length_of_mem_takeBlocks {n : Nat} {bytes block : List UInt8} (h : 16 * n ≤ bytes.length)
    (hb : block ∈ takeBlocks n bytes) : block.length = 16 := by
  induction n generalizing bytes with
  | zero => simp [takeBlocks] at hb
  | succ n ih =>
    rcases List.mem_cons.mp hb with rfl | hb
    · simp only [List.length_take]
      omega
    · exact ih (by simp only [List.length_drop]; omega) hb

namespace BlockSplit

variable {bytes : List UInt8}

def headBytes (split : BlockSplit bytes) : List UInt8 := bytes.take split.head

def blockList (split : BlockSplit bytes) : List (List UInt8) :=
  takeBlocks split.blocks (bytes.drop split.head)

def tailBytes (split : BlockSplit bytes) : List UInt8 :=
  bytes.drop (split.head + 16 * split.blocks)

@[simp] theorem length_headBytes (split : BlockSplit bytes) :
    split.headBytes.length = split.head := by
  have := split.fits
  simp only [headBytes, List.length_take]
  omega

/-- A split conserves the bytes. -/
theorem headBytes_append (split : BlockSplit bytes) :
    split.headBytes ++ (split.blockList.flatten ++ split.tailBytes) = bytes := by
  rw [headBytes, blockList, tailBytes, flatten_takeBlocks, ← List.drop_drop,
    List.take_append_drop, List.take_append_drop]

theorem length_of_mem_blockList (split : BlockSplit bytes) {block : List UInt8}
    (h : block ∈ split.blockList) : block.length = 16 := by
  have := split.fits
  exact length_of_mem_takeBlocks (by simp only [List.length_drop]; omega) h

end BlockSplit

/-- The distance of a place from the block boundary before it, where place zero is on one. -/
def blockOffset (place : Nat) : Fin 16 := Fin.ofNat 16 place

/-- Bytes in memory. -/
structure Buffer where
  bytes : List UInt8
  /-- The distance of the first byte from the block boundary before it. -/
  offset : Fin 16 := blockOffset 0

namespace Buffer

/-- The split at block boundaries: a head up to the first one, then every whole block. -/
def split (b : Buffer) : BlockSplit b.bytes where
  head := min ((16 - b.offset.val) % 16) b.bytes.length
  blocks := (b.bytes.length - min ((16 - b.offset.val) % 16) b.bytes.length) / 16
  fits := by omega

end Buffer

end PayloadStream
