import PayloadStream.ScalarEncoding
import PayloadStream.Proofs.AutomatonRuns

/-!
# The byte sequences of single scalar values

`ScalarBytes n` relates a number to its shortest sequence by plain equations on byte values. The
encoder writes that sequence and nothing else, and the automaton goes from a code point boundary
to the next one exactly along the sequences of scalar values. The narrowed second bytes after
`E0`, `ED`, `F0` and `F4` are where shortness, the surrogates and the upper bound come in.
-/

namespace PayloadStream

/-- The bytes of a number, with one constructor for each length. -/
inductive ScalarBytes (n : Nat) : List UInt8 → Prop
  | one (b : UInt8) (high : n < 0x80) (hb : b.toNat = n) : ScalarBytes n [b]
  | two (b c : UInt8) (low : 0x80 ≤ n) (high : n < 0x800)
      (hb : b.toNat = 0xC0 + n / 64) (hc : c.toNat = 0x80 + n % 64) : ScalarBytes n [b, c]
  | three (b c d : UInt8) (low : 0x800 ≤ n) (high : n < 0x10000)
      (hb : b.toNat = 0xE0 + n / 4096) (hc : c.toNat = 0x80 + n / 64 % 64)
      (hd : d.toNat = 0x80 + n % 64) : ScalarBytes n [b, c, d]
  | four (b c d e : UInt8) (low : 0x10000 ≤ n)
      (hb : b.toNat = 0xF0 + n / 262144) (hc : c.toNat = 0x80 + n / 4096 % 64)
      (hd : d.toNat = 0x80 + n / 64 % 64) (he : e.toNat = 0x80 + n % 64) :
      ScalarBytes n [b, c, d, e]

theorem toNat_continuation (n : Nat) : (continuation n).toNat = 0x80 + n % 64 := by
  have h : 0x80 + n % 64 < 256 := by omega
  exact UInt8.toNat_ofNat_of_lt h

theorem scalarBytes_encodeScalar (c : Char) : ScalarBytes c.toNat (encodeScalar c) := by
  have hvalid : c.toNat < 0xD800 ∨ 0xDFFF < c.toNat ∧ c.toNat < 0x110000 := c.valid
  generalize hn : c.toNat = n at hvalid
  simp only [encodeScalar, hn, Nat.reducePow]
  split
  next h =>
    have hb : n < 256 := by omega
    exact .one _ h (UInt8.toNat_ofNat_of_lt hb)
  split
  next h =>
    have hb : 0xC0 + n / 64 < 256 := by omega
    exact .two _ _ (by omega) h (UInt8.toNat_ofNat_of_lt hb) (toNat_continuation n)
  split
  next h =>
    have hb : 0xE0 + n / 4096 < 256 := by omega
    exact .three _ _ _ (by omega) h (UInt8.toNat_ofNat_of_lt hb) (toNat_continuation _)
      (toNat_continuation n)
  next =>
    have hb : 0xF0 + n / 262144 < 256 := by omega
    exact .four _ _ _ _ (by omega) (UInt8.toNat_ofNat_of_lt hb) (toNat_continuation _)
      (toNat_continuation _) (toNat_continuation n)

/-- A number has one sequence. -/
theorem ScalarBytes.unique {n : Nat} {xs ys : List UInt8} (hx : ScalarBytes n xs)
    (hy : ScalarBytes n ys) : xs = ys := by
  have byteEq {b c : UInt8} {k : Nat} (hb : b.toNat = k) (hc : c.toNat = k) : b = c :=
    UInt8.toNat_inj.mp (hb.trans hc.symm)
  cases hx with
  | one b high hb =>
    cases hy with
    | one b' _ hb' => rw [byteEq hb hb']
    | _ => omega
  | two b c low high hb hc =>
    cases hy with
    | two b' c' _ _ hb' hc' => rw [byteEq hb hb', byteEq hc hc']
    | _ => omega
  | three b c d low high hb hc hd =>
    cases hy with
    | three b' c' d' _ _ hb' hc' hd' => rw [byteEq hb hb', byteEq hc hc', byteEq hd hd']
    | _ => omega
  | four b c d e low hb hc hd he =>
    cases hy with
    | four b' c' d' e' _ hb' hc' hd' he' =>
      rw [byteEq hb hb', byteEq hc hc', byteEq hd hd', byteEq he he']
    | _ => omega

/-- The sequence of a valid number is what the encoder writes for it. -/
theorem ScalarBytes.encodeScalar_ofNat {n : Nat} {bytes : List UInt8} (h : ScalarBytes n bytes)
    (hvalid : n.isValidChar) : encodeScalar (Char.ofNat n) = bytes := by
  have hc : (Char.ofNat n).toNat = n := by
    rw [Char.ofNat, dif_pos hvalid]
    rfl
  have henc := scalarBytes_encodeScalar (Char.ofNat n)
  rw [hc] at henc
  exact henc.unique h

namespace ScanState

/-- The sequence of a valid number leads back to a code point boundary. -/
theorem after_scalarBytes {n : Nat} {bytes : List UInt8} (h : ScalarBytes n bytes)
    (hvalid : n.isValidChar) : accept.after bytes = accept := by
  simp only [Nat.isValidChar] at hvalid
  cases h with
  | one b high hb =>
    have hlead := leadRange_ofLead b
    change ofLead b = accept
    generalize ofLead b = s at hlead ⊢
    cases hlead with
    | ascii _ => rfl
    | _ => omega
  | two b c low high hb hc =>
    have hlead := leadRange_ofLead b
    change (ofLead b).next c = accept
    generalize ofLead b = s at hlead ⊢
    cases hlead with
    | two _ _ => exact Expects.one.next_of_mem (by omega)
    | _ => omega
  | three b c d low high hb hc hd =>
    have hlead := leadRange_ofLead b
    have hlast : needOne.next d = accept := Expects.one.next_of_mem (by omega)
    change ((ofLead b).next c).next d = accept
    generalize ofLead b = s at hlead ⊢
    cases hlead with
    | threeE0 _ => rw [Expects.twoAfterE0.next_of_mem (by omega), hlast]
    | threeEd _ => rw [Expects.twoAfterEd.next_of_mem (by omega), hlast]
    | three _ _ _ => rw [Expects.two.next_of_mem (by omega), hlast]
    | _ => omega
  | four b c d e low hb hc hd he =>
    have hlead := leadRange_ofLead b
    have hlast : (needTwo.next d).next e = accept := by
      rw [Expects.two.next_of_mem (by omega)]
      exact Expects.one.next_of_mem (by omega)
    change (((ofLead b).next c).next d).next e = accept
    generalize ofLead b = s at hlead ⊢
    cases hlead with
    | fourF0 _ => rw [Expects.threeAfterF0.next_of_mem (by omega), hlast]
    | four _ _ => rw [Expects.three.next_of_mem (by omega), hlast]
    | fourF4 _ => rw [Expects.threeAfterF4.next_of_mem (by omega), hlast]
    | _ => omega

theorem after_encodeScalar (c : Char) : accept.after (encodeScalar c) = accept :=
  after_scalarBytes (scalarBytes_encodeScalar c) c.valid

/-- The bytes open with a scalar value's sequence and go on from boundary to boundary. -/
def OpensWithScalar (bytes : List UInt8) : Prop :=
  ∃ c rest, bytes = encodeScalar c ++ rest ∧ accept.after rest = accept

theorem OpensWithScalar.of_scalarBytes {n : Nat} {front rest : List UInt8}
    (hfront : ScalarBytes n front) (hvalid : n.isValidChar) (hrest : accept.after rest = accept) :
    OpensWithScalar (front ++ rest) := by
  exact ⟨Char.ofNat n, rest, by rw [hfront.encodeScalar_ofNat hvalid], hrest⟩

/-- A sequence of three bytes, of which the last is still to come. -/
theorem opensWithScalar_of_needOne {b c : UInt8} {rest : List UInt8}
    (hb : 0xE0 ≤ b.toNat ∧ b.toNat ≤ 0xEF) (hc : 0x80 ≤ c.toNat ∧ c.toNat ≤ 0xBF)
    (hshort : b.toNat = 0xE0 → 0xA0 ≤ c.toNat) (hsurrogate : b.toNat = 0xED → c.toNat ≤ 0x9F)
    (h : needOne.after rest = accept) : OpensWithScalar (b :: c :: rest) := by
  obtain ⟨d, rest, rfl, hd, h⟩ := Expects.one.exists_cons_of_after h
  let n := (b.toNat - 0xE0) * 4096 + (c.toNat - 0x80) * 64 + (d.toNat - 0x80)
  have hn : ScalarBytes n [b, c, d] :=
    .three b c d (by omega) (by omega) (by omega) (by omega) (by omega)
  have hvalid : n < 0xD800 ∨ 0xDFFF < n ∧ n < 0x110000 := by omega
  exact .of_scalarBytes hn hvalid h

/-- A sequence of four bytes, of which the last two are still to come. -/
theorem opensWithScalar_of_needTwo {b c : UInt8} {rest : List UInt8}
    (hb : 0xF0 ≤ b.toNat ∧ b.toNat ≤ 0xF4) (hc : 0x80 ≤ c.toNat ∧ c.toNat ≤ 0xBF)
    (hshort : b.toNat = 0xF0 → 0x90 ≤ c.toNat) (hbound : b.toNat = 0xF4 → c.toNat ≤ 0x8F)
    (h : needTwo.after rest = accept) : OpensWithScalar (b :: c :: rest) := by
  obtain ⟨d, rest, rfl, hd, h⟩ := Expects.two.exists_cons_of_after h
  obtain ⟨e, rest, rfl, he, h⟩ := Expects.one.exists_cons_of_after h
  let n := (b.toNat - 0xF0) * 262144 + (c.toNat - 0x80) * 4096 + (d.toNat - 0x80) * 64 +
    (e.toNat - 0x80)
  have hn : ScalarBytes n [b, c, d, e] :=
    .four b c d e (by omega) (by omega) (by omega) (by omega) (by omega)
  have hvalid : n < 0xD800 ∨ 0xDFFF < n ∧ n < 0x110000 := by omega
  exact .of_scalarBytes hn hvalid h

/-- Bytes that lead from a boundary to a boundary open with a scalar value's sequence. -/
theorem opensWithScalar_of_after {b : UInt8} {rest : List UInt8}
    (h : accept.after (b :: rest) = accept) : OpensWithScalar (b :: rest) := by
  have hlead := leadRange_ofLead b
  change (ofLead b).after rest = accept at h
  generalize ofLead b = s at hlead h
  cases hlead with
  | ascii high =>
    have hn : ScalarBytes b.toNat [b] := .one b (by omega) rfl
    exact .of_scalarBytes hn (.inl (by omega)) h
  | refused _ => simp at h
  | two low high =>
    obtain ⟨c, rest, rfl, hc, h⟩ := Expects.one.exists_cons_of_after h
    have hn : ScalarBytes ((b.toNat - 0xC0) * 64 + (c.toNat - 0x80)) [b, c] :=
      .two b c (by omega) (by omega) (by omega) (by omega)
    exact .of_scalarBytes hn (.inl (by omega)) h
  | threeE0 hb =>
    obtain ⟨c, rest, rfl, hc, h⟩ := Expects.twoAfterE0.exists_cons_of_after h
    exact opensWithScalar_of_needOne (by omega) (by omega) (by omega) (by omega) h
  | threeEd hb =>
    obtain ⟨c, rest, rfl, hc, h⟩ := Expects.twoAfterEd.exists_cons_of_after h
    exact opensWithScalar_of_needOne (by omega) (by omega) (by omega) (by omega) h
  | three low high hb =>
    obtain ⟨c, rest, rfl, hc, h⟩ := Expects.two.exists_cons_of_after h
    exact opensWithScalar_of_needOne (by omega) (by omega) (by omega) (by omega) h
  | fourF0 hb =>
    obtain ⟨c, rest, rfl, hc, h⟩ := Expects.threeAfterF0.exists_cons_of_after h
    exact opensWithScalar_of_needTwo (by omega) (by omega) (by omega) (by omega) h
  | four low high =>
    obtain ⟨c, rest, rfl, hc, h⟩ := Expects.three.exists_cons_of_after h
    exact opensWithScalar_of_needTwo (by omega) (by omega) (by omega) (by omega) h
  | fourF4 hb =>
    obtain ⟨c, rest, rfl, hc, h⟩ := Expects.threeAfterF4.exists_cons_of_after h
    exact opensWithScalar_of_needTwo (by omega) (by omega) (by omega) (by omega) h

end ScanState
end PayloadStream
