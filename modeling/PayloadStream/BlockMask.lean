import PayloadStream.BlockSplit
import PayloadStream.MaskKey

/-!
# Masking block by block

The head is masked byte by byte. The key is then turned to the position after the head and
repeated over sixteen bytes; since sixteen is a multiple of four, the same pattern serves every
block. The tail is masked byte by byte again.
-/

namespace PayloadStream

def maskBlock (pattern block : List UInt8) : List UInt8 :=
  List.zipWith (· ^^^ ·) block pattern

/-- Masks the bytes of a split that starts at a position. -/
def MaskKey.maskBlocks (key : MaskKey) (position : UInt64) {bytes : List UInt8}
    (split : BlockSplit bytes) : List UInt8 :=
  let afterHead := position + split.head.toUInt64
  let pattern := key.pattern afterHead
  let afterBlocks := afterHead + (split.blocks * 16).toUInt64
  key.mask position split.headBytes ++
    (split.blockList.flatMap (maskBlock pattern) ++ key.mask afterBlocks split.tailBytes)

end PayloadStream
