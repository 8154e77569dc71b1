import PayloadStream.BlockSplit
import PayloadStream.ByteScan

/-!
# Scanning block by block

The head and the tail are scanned byte by byte. A block of ASCII bytes that starts on a code
point boundary cannot change the state and is skipped; any other block is scanned byte by byte.

The two vector levels differ in how they test a block: one collects the top bits of the bytes
into a mask, the other asks whether every top bit is clear.
-/

namespace PayloadStream

/-- The top bits of the bytes as one number, the first byte lowest. -/
def signMask (block : List UInt8) : Nat :=
  block.foldr (fun (b : UInt8) mask => (b >>> 7).toNat + 2 * mask) 0

/-- Whether no byte has its top bit set. -/
def topBitsClear (block : List UInt8) : Bool :=
  block.all (· &&& 0x80 == 0)

/-- Scans the blocks and then the tail. The count `base` is the index of the next byte. -/
def scanBlocks (quiet : List UInt8 → Bool) (tail : List UInt8) :
    Nat → ScanState → List (List UInt8) → Scan
  | base, s, [] => (branchScan s tail).shift base
  | base, s, block :: rest =>
    if s = .accept ∧ quiet block = true then
      scanBlocks quiet tail (base + 16) s rest
    else
      let scan := branchScan s block
      if scan.rejected then scan.shift base
      else scanBlocks quiet tail (base + 16) scan.state rest

/-- The scan over a split, with a test for blocks that hold ASCII only. -/
def blockScan (quiet : List UInt8 → Bool) (s : ScanState) {bytes : List UInt8}
    (split : BlockSplit bytes) : Scan :=
  let scan := branchScan s split.headBytes
  if scan.rejected then scan
  else scanBlocks quiet split.tailBytes split.head scan.state split.blockList

@[simp] theorem signMask_nil : signMask [] = 0 := rfl

theorem signMask_cons (b : UInt8) (block : List UInt8) :
    signMask (b :: block) = (b >>> 7).toNat + 2 * signMask block := rfl

end PayloadStream
