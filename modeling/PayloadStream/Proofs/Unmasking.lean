import PayloadStream.Proofs.MaskerHistories

/-!
# Unmasking

What one masker masks, another one with the same key unmasks, if their positions agree modulo four.
Neither has to know how the other was cut: both streams are masked as one piece, by the bytes of the
repeated key from the position on, and of a position only its place in the key counts.
-/

namespace PayloadStream

theorem maskByte_congr (key : Option MaskKey) {n n' : Nat} (h : n % 4 = n' % 4) :
    maskByte key n = maskByte key n' := by
  funext b
  cases key with
  | none => rfl
  | some key => simp only [maskByte, h]

/-- Of the number of bytes before, only the place in the key counts. -/
theorem maskFrom_congr (key : Option MaskKey) {n n' : Nat} (h : n % 4 = n' % 4)
    (bytes : List UInt8) : maskFrom key n bytes = maskFrom key n' bytes := by
  apply List.mapIdx_eq_mapIdx_iff.mpr
  intro i hi
  have hplace : (n + i) % 4 = (n' + i) % 4 := by omega
  rw [maskByte_congr key hplace]

/-- The bytes that the parts of a stream are to mask, in order. -/
def MaskPiece.sources (pieces : List MaskPiece) : List UInt8 :=
  pieces.flatMap fun p => p.call.source

namespace Masker

variable {key : Option MaskKey} {m m' : Masker} {n : Nat}

/-- The masker after a stream. -/
def afterPieces (level : VectorLevel) (m : Masker) (pieces : List MaskPiece) : Masker :=
  pieces.foldl (fun m p => (m.answer level p.call).2) m

namespace Holds

theorem afterPieces (h : Holds key m n) (level : VectorLevel) (pieces : List MaskPiece) :
    Holds key (m.afterPieces level pieces) (n + (MaskPiece.sources pieces).length) := by
  induction pieces generalizing m n with
  | nil => exact h
  | cons p rest ih =>
    have hrest := ih (h.piece level p)
    rw [Nat.add_assoc, ← List.length_append] at hrest
    exact hrest

end Holds

theorem position_afterPieces (level : VectorLevel) (m : Masker) (pieces : List MaskPiece) :
    (m.afterPieces level pieces).position =
      m.position + (MaskPiece.sources pieces).length.toUInt64 := by
  rw [((Holds.self m).afterPieces level pieces).position_eq, Nat.toUInt64_eq, Nat.toUInt64_eq,
    UInt64.ofNat_add, UInt64.ofNat_toNat]

/-- A masker unmasks what another one with its key has masked, from any position that agrees with
the other's modulo four: whatever came before, however data and masked bytes are cut, in place or
copied, and with any tiers on both sides. Both advance by the number of bytes. -/
theorem unmask_maskPieces (hkey : m'.key = m.key)
    (hplace : m'.position.toNat % 4 = m.position.toNat % 4) (level level' : VectorLevel)
    {data : List UInt8} {pieces pieces' : List MaskPiece} (hdata : MaskPiece.sources pieces = data)
    (hmasked : MaskPiece.sources pieces' = m.maskPieces level pieces) :
    m'.maskPieces level' pieces' = data ∧
      (m.afterPieces level pieces).position = m.position + data.length.toUInt64 ∧
      (m'.afterPieces level' pieces').position = m'.position + data.length.toUInt64 := by
  have hmask : m.maskPieces level pieces = maskFrom m.key m.position.toNat data := by
    rw [← hdata]
    exact (Holds.self m).maskPieces level pieces
  have hlength : (MaskPiece.sources pieces').length = data.length := by
    rw [hmasked, hmask, length_maskFrom]
  refine ⟨?_, ?_, ?_⟩
  · calc m'.maskPieces level' pieces'
        = maskFrom m'.key m'.position.toNat (MaskPiece.sources pieces') :=
          (Holds.self m').maskPieces level' pieces'
      _ = maskFrom m.key m.position.toNat (maskFrom m.key m.position.toNat data) := by
          rw [hkey, maskFrom_congr m.key hplace, hmasked, hmask]
      _ = data := maskFrom_maskFrom m.key m.position.toNat data
  · rw [position_afterPieces, hdata]
  · rw [position_afterPieces, hlength]

/-- Three bytes before on one side and seven on the other, where the tier asked for is missing. -/
theorem unmask_in_other_cuts :
    let key : MaskKey := ⟨#v[0x37, 0xFA, 0x21, 0x3D]⟩
    let m := ((Checkpointed.start (ofKey .sse2 key)).run (answer .sse2) [.act (.skip 3)]).live
    let m' := ((Checkpointed.start (ofOptions .scalar (some key) ⟨some .sse2, 0⟩)).run
      (answer .scalar) [.act (.copy [0] 9), .act .reset, .act (.skip 7)]).live
    let pieces := [.copy [0x48, 0x65] 15, .tier 1, .window ⟨⟨[0, 0x6C, 0x6C, 0x6F], 5⟩, 1, 4,
      by decide, by decide⟩]
    let pieces' := [.tier 9, .copy [0x75, 0x52, 0x96, 0x4D] 3, .copy [] 0, .copy [0x52] 14]
    m'.key = m.key ∧ m'.position.toNat % 4 = m.position.toNat % 4 ∧
    MaskPiece.sources pieces = [0x48, 0x65, 0x6C, 0x6C, 0x6F] ∧
    MaskPiece.sources pieces' = m.maskPieces .sse2 pieces ∧
    m'.maskPieces .scalar pieces' = [0x48, 0x65, 0x6C, 0x6C, 0x6F] := by
  intro key m m' pieces pieces'
  have hkey : m'.key = m.key := rfl
  have hplace : m'.position.toNat % 4 = m.position.toNat % 4 := by decide
  have hdata : MaskPiece.sources pieces = [0x48, 0x65, 0x6C, 0x6C, 0x6F] := by decide
  have hmasked : MaskPiece.sources pieces' = m.maskPieces .sse2 pieces := by decide
  exact ⟨hkey, hplace, hdata, hmasked,
    (unmask_maskPieces hkey hplace .sse2 .scalar hdata hmasked).1⟩

end Masker

end PayloadStream
