import PayloadStream.Masker

/-!
# Masking as one stream

The byte that comes after `n` others meets byte `n mod 4` of the key, whatever computes it. The
position of a masker is a word, but `2 ^ 64` is a multiple of four, so the word names the right
byte of the key also for a count that it cannot hold. One pattern serves all blocks, as sixteen is
a multiple of four too. So a masker is known by its key and by how many bytes came before, and
neither the tier nor the processor nor the alignment is.
-/

namespace PayloadStream

/-- A byte that comes after `n` others, masked. Without a key it stays. -/
def maskByte (key : Option MaskKey) (n : Nat) (b : UInt8) : UInt8 :=
  match key with
  | some key => b ^^^ key.bytes.get ⟨n % 4, Nat.mod_lt _ (by decide)⟩
  | none => b

/-- Bytes that come after `n` others, masked. -/
def maskFrom (key : Option MaskKey) (n : Nat) (bytes : List UInt8) : List UInt8 :=
  bytes.mapIdx fun i b => maskByte key (n + i) b

@[simp] theorem maskByte_maskByte (key : Option MaskKey) (n : Nat) (b : UInt8) :
    maskByte key n (maskByte key n b) = b := by
  cases key with
  | none => rfl
  | some key => simp only [maskByte, UInt8.xor_assoc, UInt8.xor_self, UInt8.xor_zero]

@[simp] theorem length_maskFrom (key : Option MaskKey) (n : Nat) (bytes : List UInt8) :
    (maskFrom key n bytes).length = bytes.length := by simp [maskFrom]

@[simp] theorem maskFrom_nil (key : Option MaskKey) (n : Nat) : maskFrom key n [] = [] := rfl

theorem getElem?_maskFrom (key : Option MaskKey) (n : Nat) (bytes : List UInt8) (i : Nat) :
    (maskFrom key n bytes)[i]? = bytes[i]?.map (maskByte key (n + i)) := by
  simp [maskFrom]

theorem maskFrom_none (n : Nat) (bytes : List UInt8) : maskFrom none n bytes = bytes := by
  apply List.ext_getElem?
  intro i
  rw [getElem?_maskFrom]
  cases bytes[i]? <;> rfl

theorem maskFrom_append (key : Option MaskKey) (n : Nat) (xs ys : List UInt8) :
    maskFrom key n (xs ++ ys) = maskFrom key n xs ++ maskFrom key (n + xs.length) ys := by
  rw [maskFrom, List.mapIdx_append]
  congr 1
  apply List.mapIdx_eq_mapIdx_iff.mpr
  intro i hi
  rw [Nat.add_assoc, Nat.add_comm i]

/-- Masking twice after one count changes nothing. -/
theorem maskFrom_maskFrom (key : Option MaskKey) (n : Nat) (bytes : List UInt8) :
    maskFrom key n (maskFrom key n bytes) = bytes := by
  apply List.ext_getElem?
  intro i
  rw [getElem?_maskFrom, getElem?_maskFrom, Option.map_map]
  cases bytes[i]? with
  | none => rfl
  | some b => exact congrArg some (maskByte_maskByte key (n + i) b)

namespace MaskKey

variable (key : MaskKey)

theorem byteAt_congr {p q : UInt64} (h : p.toNat % 4 = q.toNat % 4) :
    key.byteAt p = key.byteAt q := by
  simp only [byteAt, h]

/-- Positions may wrap: the byte is still that of the sum in numbers. -/
theorem byteAt_add (p : UInt64) (i : Nat) :
    key.byteAt (p + i.toUInt64) =
      key.bytes.get ⟨(p.toNat + i) % 4, Nat.mod_lt _ (by decide)⟩ := by
  have h : (p + i.toUInt64).toNat % 4 = (p.toNat + i) % 4 := by
    rw [UInt64.toNat_add, Nat.toUInt64_eq, UInt64.toNat_ofNat', Nat.mod_mod_of_dvd _ (by decide)]
    omega
  simp only [byteAt, h]

theorem byteAt_toUInt64 (n : Nat) :
    key.byteAt n.toUInt64 = key.bytes.get ⟨n % 4, Nat.mod_lt _ (by decide)⟩ := by
  have h := key.byteAt_add 0 n
  simp only [UInt64.zero_add, UInt64.toNat_zero, Nat.zero_add] at h
  exact h

theorem byteAt_add_sixteen (p : UInt64) : key.byteAt (p + 16) = key.byteAt p := by
  apply byteAt_congr
  rw [UInt64.toNat_add, Nat.mod_mod_of_dvd _ (by decide)]
  exact Nat.add_mul_mod_self_left p.toNat 4 4

theorem mask_toUInt64 (n : Nat) (bytes : List UInt8) :
    key.mask n.toUInt64 bytes = maskFrom (some key) n bytes := by
  apply List.ext_getElem?
  intro i
  have hpos : n.toUInt64 + i.toUInt64 = (n + i).toUInt64 := (UInt64.ofNat_add n i).symm
  rw [getElem?_mask, getElem?_maskFrom, hpos, byteAt_toUInt64]
  rfl

theorem pattern_add_sixteen (p : UInt64) : key.pattern (p + 16) = key.pattern p := by
  apply List.map_congr_left
  intro i hi
  rw [UInt64.add_assoc, UInt64.add_comm 16, ← UInt64.add_assoc, byteAt_add_sixteen]

theorem maskBlock_pattern (p : UInt64) {block : List UInt8} (h : block.length = 16) :
    maskBlock (key.pattern p) block = key.mask p block := by
  apply List.ext_getElem (by simp [maskBlock, h])
  intro i hi hi'
  simp [maskBlock, pattern, mask]

/-- The pattern at the first block serves all of them. -/
theorem flatMap_maskBlock (p : UInt64) (blocks : List (List UInt8))
    (h : ∀ block ∈ blocks, block.length = 16) :
    blocks.flatMap (maskBlock (key.pattern p)) = key.mask p blocks.flatten := by
  induction blocks generalizing p with
  | nil => rfl
  | cons block rest ih =>
    obtain ⟨hblock, hrest⟩ := List.forall_mem_cons.mp h
    have hih := ih (p + 16) hrest
    rw [pattern_add_sixteen] at hih
    rw [List.flatMap_cons, List.flatten_cons, mask_append, maskBlock_pattern key p hblock, hih,
      hblock]
    rfl

/-- Head, blocks and tail are masked as one, however the bytes are split. -/
theorem maskBlocks_eq_mask (p : UInt64) {bytes : List UInt8} (split : BlockSplit bytes) :
    key.maskBlocks p split = key.mask p bytes := by
  have hlength : split.blockList.flatten.length = split.blocks * 16 := by
    rw [BlockSplit.blockList, flatten_takeBlocks, List.length_take, List.length_drop]
    have hfits := split.fits
    omega
  calc key.maskBlocks p split
      = key.mask p split.headBytes ++
          (key.mask (p + split.head.toUInt64) split.blockList.flatten ++
            key.mask (p + split.head.toUInt64 + (split.blocks * 16).toUInt64) split.tailBytes) := by
        rw [maskBlocks, flatMap_maskBlock key _ _ fun block h => split.length_of_mem_blockList h]
    _ = key.mask p (split.headBytes ++ (split.blockList.flatten ++ split.tailBytes)) := by
        rw [mask_append, mask_append, split.length_headBytes, hlength]
    _ = key.mask p bytes := by rw [split.headBytes_append]

/-- However the bytes are split, the head, the blocks under one pattern and the tail leave what
masking byte by byte leaves: each byte met once by the key byte of its position. -/
theorem maskBlocks_masks_each_byte (p : UInt64) {bytes : List UInt8} (split : BlockSplit bytes) :
    key.maskBlocks p split = key.mask p bytes ∧
      (key.maskBlocks p split).length = bytes.length ∧
      ∀ i, (key.maskBlocks p split)[i]? =
        bytes[i]?.map (· ^^^ key.bytes.get ⟨(p.toNat + i) % 4, Nat.mod_lt _ (by decide)⟩) := by
  refine ⟨key.maskBlocks_eq_mask p split, ?_, ?_⟩
  · rw [maskBlocks_eq_mask, length_mask]
  · intro i
    rw [maskBlocks_eq_mask, getElem?_mask, byteAt_add]

/-- The position wraps after the first byte, and the pattern starts after a head of three. -/
example :
    maskBlocks ⟨#v[1, 2, 3, 4]⟩ 0xFFFFFFFFFFFFFFFF
        (⟨3, 1, by decide⟩ : BlockSplit (List.replicate 21 0)) =
      [4, 1, 2, 3, 4, 1, 2, 3, 4, 1, 2, 3, 4, 1, 2, 3, 4, 1, 2, 3, 4] := by
  decide

end MaskKey

/-- Both tiers mask byte by byte, whatever the processor and the alignment. -/
theorem MaskTier.mask_eq_mask (level : VectorLevel) (tier : MaskTier) (key : MaskKey)
    (p : UInt64) (b : Buffer) : tier.mask level key p b = key.mask p b.bytes := by
  cases tier with
  | simple => rfl
  | sse2 =>
    rw [mask]
    split
    · exact key.maskBlocks_eq_mask p b.split
    · rfl

namespace Masker

/-- The masker has this key and has masked `n` bytes since the last reset. -/
structure Holds (key : Option MaskKey) (m : Masker) (n : Nat) : Prop where
  key_eq : m.key = key
  position_eq : m.position = n.toUInt64

namespace Holds

variable {key : Option MaskKey} {m : Masker} {n : Nat}

theorem ofOptions (level : VectorLevel) (key : Option MaskKey) (options : MaskOptions) :
    Holds key (ofOptions level key options) 0 := ⟨rfl, rfl⟩

/-- Every masker holds its own key at its own position. -/
theorem self (m : Masker) : Holds m.key m m.position.toNat := by
  refine ⟨rfl, ?_⟩
  rw [Nat.toUInt64_eq, UInt64.ofNat_toNat]

theorem fst_process (h : Holds key m n) (level : VectorLevel) (b : Buffer) :
    (m.process level b).1 = maskFrom key n b.bytes := by
  change m.cover level b = maskFrom key n b.bytes
  rw [cover, h.key_eq, h.position_eq]
  cases key with
  | none => exact (maskFrom_none n b.bytes).symm
  | some key => exact (MaskTier.mask_eq_mask level m.tier key _ b).trans (key.mask_toUInt64 n _)

theorem process (h : Holds key m n) (level : VectorLevel) (b : Buffer) :
    Holds key (m.process level b).2 (n + b.bytes.length) := by
  refine ⟨h.key_eq, ?_⟩
  rw [position_process, h.position_eq]
  exact (UInt64.ofNat_add n b.bytes.length).symm

end Holds

/-- Where a copy lies shows neither in the masked bytes nor in the masker. -/
theorem processCopy_place_irrel (level : VectorLevel) (m : Masker) (bytes : List UInt8)
    (place place' : Fin 16) :
    m.processCopy level bytes place = m.processCopy level bytes place' := by
  have hself := Holds.self m
  have hbytes : (m.process level ⟨bytes, place⟩).1 = (m.process level ⟨bytes, place'⟩).1 := by
    rw [hself.fst_process, hself.fst_process]
  exact Prod.ext hbytes rfl

end Masker

end PayloadStream
