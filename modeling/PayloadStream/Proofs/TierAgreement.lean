import PayloadStream.ScanTier
import PayloadStream.Proofs.AutomatonRuns

/-!
# All scan tiers scan alike

The table is the automaton: a byte's class is decided by its range, and the cells hold the states
that the ranges give. A block that is skipped holds ASCII bytes only, which keep the automaton on
a code point boundary, so a scan over any split finds the state and the stop of the scan byte by
byte. The proofs use of a split only that its parts are the bytes again.
-/

namespace PayloadStream

namespace TransitionTable

/-- The class of a byte by its range. -/
def rangeClass (n : Nat) : Nat :=
  if n < 0xC0 then
    if n < 0x80 then 0 else if n < 0x90 then 1 else if n < 0xA0 then 9 else 7
  else if n < 0xF0 then
    if n < 0xC2 then 8 else if n < 0xE0 then 2 else if n = 0xE0 then 10 else if n = 0xED then 4
    else 3
  else
    if n = 0xF0 then 11 else if n < 0xF4 then 6 else if n = 0xF4 then 5 else 8

/-- The state after a byte of a class. -/
def onClass (s : ScanState) (c : Nat) : ScanState :=
  match s with
  | .accept =>
    if c = 0 then .accept
    else if c = 2 then .needOne
    else if c = 3 then .needTwo
    else if c = 4 then .needTwoAfterEd
    else if c = 5 then .needThreeAfterF4
    else if c = 6 then .needThree
    else if c = 10 then .needTwoAfterE0
    else if c = 11 then .needThreeAfterF0
    else .reject
  | .reject => .reject
  | .needOne => if c = 1 ∨ c = 7 ∨ c = 9 then .accept else .reject
  | .needTwo => if c = 1 ∨ c = 7 ∨ c = 9 then .needOne else .reject
  | .needTwoAfterE0 => if c = 7 then .needOne else .reject
  | .needTwoAfterEd => if c = 1 ∨ c = 9 then .needOne else .reject
  | .needThreeAfterF0 => if c = 7 ∨ c = 9 then .needTwo else .reject
  | .needThree => if c = 1 ∨ c = 7 ∨ c = 9 then .needTwo else .reject
  | .needThreeAfterF4 => if c = 1 then .needTwo else .reject

theorem byteClasses_toList :
    byteClasses.toList = (List.range 256).map (fun n => (rangeClass n).toUInt8) := by
  decide +kernel

theorem rangeClass_lt (n : Nat) : rangeClass n < 12 := by grind [rangeClass]

theorem toNat_classOf (b : UInt8) : (classOf b).toNat = rangeClass b.toNat := by
  have hget : byteClasses[b.toNat]? = some (rangeClass b.toNat).toUInt8 := by
    rw [← Array.getElem?_toList, byteClasses_toList, List.getElem?_map,
      List.getElem?_range b.toNat_lt]
    rfl
  have hlt : rangeClass b.toNat < 256 := Nat.lt_trans (rangeClass_lt b.toNat) (by decide)
  rw [classOf, Array.getD_eq_getD_getElem?, hget]
  exact UInt8.toNat_ofNat_of_lt hlt

theorem cell_eq_onClass (s : ScanState) :
    ∀ c < 12, cells.getD (s.code.toNat * 16 + c) rejectRow = (onClass s c).code := by
  cases s <;> decide +kernel

theorem ofLead_eq_onClass (b : UInt8) :
    ScanState.ofLead b = onClass .accept (rangeClass b.toNat) := by
  have hlead := ScanState.leadRange_ofLead b
  generalize ScanState.ofLead b = s at hlead
  cases hlead with
  | ascii high => simp [onClass, show rangeClass b.toNat = 0 by grind [rangeClass]]
  | refused h =>
    have hc : rangeClass b.toNat = 1 ∨ rangeClass b.toNat = 9 ∨ rangeClass b.toNat = 7 ∨
        rangeClass b.toNat = 8 := by
      grind [rangeClass]
    rcases hc with hc | hc | hc | hc <;> simp [onClass, hc]
  | two low high => simp [onClass, show rangeClass b.toNat = 2 by grind [rangeClass]]
  | threeE0 h => rw [h]; rfl
  | threeEd h => rw [h]; rfl
  | three low high h => simp [onClass, show rangeClass b.toNat = 3 by grind [rangeClass]]
  | fourF0 h => rw [h]; rfl
  | four low high => simp [onClass, show rangeClass b.toNat = 6 by grind [rangeClass]]
  | fourF4 h => rw [h]; rfl

theorem next_eq_onClass (s : ScanState) (b : UInt8) :
    s.next b = onClass s (rangeClass b.toNat) := by
  cases s with
  | accept => exact ofLead_eq_onClass b
  | reject => rfl
  | _ =>
    simp only [ScanState.next, ScanState.within_eq, UInt8.reduceToNat, onClass]
    grind [rangeClass]

/-- A look-up steps as the ranges do. -/
theorem step_code (s : ScanState) (b : UInt8) : step s.code b = (s.next b).code := by
  rw [step, index, toNat_classOf, cell_eq_onClass s _ (rangeClass_lt _), next_eq_onClass]

end TransitionTable

/-- Scans whose states correspond under `f` go through corresponding states. -/
theorem scanWith_comp {σ τ : Type} {step : σ → UInt8 → σ} {step' : τ → UInt8 → τ}
    (refuses : σ → Bool) (refuses' : τ → Bool) (f : σ → τ)
    (hstep : ∀ s b, step' (f s) b = f (step s b)) (hrefuses : ∀ s, refuses' (f s) = refuses s)
    (n : Nat) (s : σ) (bytes : List UInt8) :
    scanWith step' refuses' n (f s) bytes =
      (f (scanWith step refuses n s bytes).1, (scanWith step refuses n s bytes).2) := by
  induction bytes generalizing n s with
  | nil => rfl
  | cons b rest ih =>
    rw [scanWith, scanWith, hstep, hrefuses]
    split
    · rfl
    · exact ih (n + 1) (step s b)

theorem ScanState.code_beq_rejectRow (s : ScanState) :
    (s.code == TransitionTable.rejectRow) = (s == reject) := by
  cases s <;> rfl

theorem tableScan_eq_branchScan (s : ScanState) (bytes : List UInt8) :
    tableScan s bytes = branchScan s bytes := by
  have h := scanWith_comp (· == .reject) (· == TransitionTable.rejectRow) ScanState.code
    TransitionTable.step_code ScanState.code_beq_rejectRow 0 s bytes
  simp only [tableScan, branchScan, h, ScanState.ofCode_code]

theorem shiftRight_seven_eq_zero_iff (b : UInt8) : (b >>> 7).toNat = 0 ↔ b ≤ 0x7F := by
  have hshift : (b >>> 7).toNat = b.toNat / 128 := by
    rw [UInt8.toNat_shiftRight]
    exact Nat.shiftRight_eq_div_pow _ _
  rw [hshift, UInt8.le_iff_toNat_le]
  change b.toNat / 128 = 0 ↔ b.toNat ≤ 127
  omega

theorem and_high_bit_eq_zero_iff (b : UInt8) : b &&& 0x80 = 0 ↔ b ≤ 0x7F := by
  have h : ∀ n < 256, n.toUInt8 &&& 0x80 = 0 ↔ n.toUInt8 ≤ 0x7F := by decide +kernel
  simpa using h b.toNat b.toNat_lt

/-- The mask is zero for blocks of ASCII bytes and no others. -/
theorem signMask_eq_zero_iff (block : List UInt8) :
    signMask block = 0 ↔ ∀ b ∈ block, b ≤ 0x7F := by
  induction block with
  | nil => simp
  | cons b rest ih =>
    rw [signMask_cons, Nat.add_eq_zero_iff, shiftRight_seven_eq_zero_iff, List.forall_mem_cons,
      Nat.mul_eq_zero, ih, or_iff_right (by decide)]

theorem topBitsClear_eq_true_iff (block : List UInt8) :
    topBitsClear block = true ↔ ∀ b ∈ block, b ≤ 0x7F := by
  simp only [topBitsClear, List.all_eq_true, beq_iff_eq, and_high_bit_eq_zero_iff]

theorem ScanState.after_accept_of_ascii {bytes : List UInt8} (h : ∀ b ∈ bytes, b ≤ 0x7F) :
    accept.after bytes = accept := by
  induction bytes with
  | nil => rfl
  | cons b rest ih =>
    obtain ⟨hb, hrest⟩ := List.forall_mem_cons.mp h
    rw [after_cons, next_accept_of_ascii hb, ih hrest]

theorem branchScan_of_ascii {bytes : List UInt8} (h : ∀ b ∈ bytes, b ≤ 0x7F) :
    branchScan .accept bytes = ⟨.accept, bytes.length⟩ := by
  have hafter := ScanState.after_accept_of_ascii h
  have hlive : ScanState.accept.after bytes ≠ .reject := by simp [hafter]
  rw [ScanState.branchScan_eq, hafter, ScanState.taken_of_after_ne_reject hlive]

section Blocks

variable {quiet : List UInt8 → Bool}

/-- The loop over the blocks, from any state and with any count of bytes before it. -/
theorem scanBlocks_eq_branchScan
    (hquiet : ∀ block, quiet block = true → ∀ b ∈ block, b ≤ 0x7F) (tail : List UInt8)
    (base : Nat) (s : ScanState) (blocks : List (List UInt8))
    (hlength : ∀ block ∈ blocks, block.length = 16) :
    scanBlocks quiet tail base s blocks = (branchScan s (blocks.flatten ++ tail)).shift base := by
  induction blocks generalizing base s with
  | nil => rfl
  | cons block rest ih =>
    obtain ⟨hblock, hrest⟩ := List.forall_mem_cons.mp hlength
    rw [scanBlocks, List.flatten_cons, List.append_assoc, branchScan_append]
    split
    next h =>
      obtain ⟨hs, hq⟩ := h
      have hscan := branchScan_of_ascii (hquiet block hq)
      rw [hs, ih (base + 16) .accept hrest, hscan, hblock]
      exact (Scan.shift_shift base 16 _).symm
    next =>
      dsimp only
      split
      · rfl
      · rw [ih (base + 16) _ hrest, hblock, Scan.shift_shift]

/-- The scan over any split is the scan byte by byte. -/
theorem blockScan_eq_branchScan
    (hquiet : ∀ block, quiet block = true → ∀ b ∈ block, b ≤ 0x7F) (s : ScanState)
    {bytes : List UInt8} (split : BlockSplit bytes) :
    blockScan quiet s split = branchScan s bytes := by
  have hscan := branchScan_append s split.headBytes (split.blockList.flatten ++ split.tailBytes)
  rw [split.headBytes_append, split.length_headBytes] at hscan
  rw [blockScan, hscan, scanBlocks_eq_branchScan hquiet split.tailBytes split.head _ _
    (fun block h => split.length_of_mem_blockList h)]

end Blocks

section VectorTests

variable {s : ScanState} {bytes : List UInt8}

theorem blockScan_signMask (split : BlockSplit bytes) :
    blockScan (signMask · == 0) s split = branchScan s bytes := by
  apply blockScan_eq_branchScan
  intro block h
  exact (signMask_eq_zero_iff block).mp (beq_iff_eq.mp h)

theorem blockScan_topBitsClear (split : BlockSplit bytes) :
    blockScan topBitsClear s split = branchScan s bytes := by
  apply blockScan_eq_branchScan
  intro block h
  exact (topBitsClear_eq_true_iff block).mp h

/-- With either test of a block, and however the bytes are split, the scan over blocks finds the
state and the stop of the look-ups byte by byte, and so do the ranges. A block that is skipped
would keep the state, and a refused byte is reported at its index among all bytes, be it in the
head, in a block or in the tail. -/
theorem blockScans_eq_byteScans (s : ScanState) (split : BlockSplit bytes) :
    (blockScan (signMask · == 0) s split = tableScan s bytes ∧
      blockScan topBitsClear s split = tableScan s bytes ∧
      branchScan s bytes = tableScan s bytes) ∧
    (∀ block, signMask block = 0 ∨ topBitsClear block = true →
      tableScan .accept block = ⟨.accept, block.length⟩) ∧
    ∀ front b rest, bytes = front ++ b :: rest → s.after front ≠ .reject →
      (s.after front).next b = .reject →
      blockScan (signMask · == 0) s split = ⟨.reject, front.length⟩ ∧
        blockScan topBitsClear s split = ⟨.reject, front.length⟩ := by
  refine ⟨?_, ?_, ?_⟩
  · rw [blockScan_signMask, blockScan_topBitsClear, tableScan_eq_branchScan]
    exact ⟨rfl, rfl, rfl⟩
  · intro block hquiet
    have hascii : ∀ b ∈ block, b ≤ 0x7F := by
      rcases hquiet with h | h
      · exact (signMask_eq_zero_iff block).mp h
      · exact (topBitsClear_eq_true_iff block).mp h
    rw [tableScan_eq_branchScan, branchScan_of_ascii hascii]
  · rintro front b rest rfl hlive hrefused
    have hscan := ScanState.branchScan_of_refused hlive hrefused rest
    rw [blockScan_signMask, blockScan_topBitsClear]
    exact ⟨hscan, hscan⟩

/-- A sequence that is completed in the head, a block that is skipped, one that ends within a
sequence, and a byte in the tail that the sequence does not allow. -/
theorem blockScans_refuse_in_tail :
    ScanState.needOne.after (0xBF :: (List.replicate 31 0x61 ++ [0xE2, 0x82])) ≠ .reject ∧
      (ScanState.needOne.after (0xBF :: (List.replicate 31 0x61 ++ [0xE2, 0x82]))).next 0x41 =
        .reject ∧
      blockScan (signMask · == 0) .needOne
        (⟨1, 2, by decide⟩ :
          BlockSplit (0xBF :: (List.replicate 31 0x61 ++ [0xE2, 0x82]) ++ [0x41])) =
        ⟨.reject, 34⟩ ∧
      blockScan topBitsClear .needOne
        (⟨1, 2, by decide⟩ :
          BlockSplit (0xBF :: (List.replicate 31 0x61 ++ [0xE2, 0x82]) ++ [0x41])) =
        ⟨.reject, 34⟩ := by
  have hlive :
      ScanState.needOne.after (0xBF :: (List.replicate 31 0x61 ++ [0xE2, 0x82])) ≠ .reject := by
    decide
  have hrefused : (ScanState.needOne.after
      (0xBF :: (List.replicate 31 0x61 ++ [0xE2, 0x82]))).next 0x41 = .reject := by
    decide
  obtain ⟨-, -, hstop⟩ := blockScans_eq_byteScans .needOne
    (⟨1, 2, by decide⟩ : BlockSplit (0xBF :: (List.replicate 31 0x61 ++ [0xE2, 0x82]) ++ [0x41]))
  exact ⟨hlive, hrefused, hstop _ _ [] rfl hlive hrefused⟩

end VectorTests

/-- Every tier finds what the scan by ranges finds, whatever the processor and the alignment. -/
theorem ScanTier.scan_eq_branchScan (level : VectorLevel) (tier : ScanTier) (s : ScanState)
    (b : Buffer) : tier.scan level s b = branchScan s b.bytes := by
  cases tier with
  | table => exact tableScan_eq_branchScan s b.bytes
  | branching => rfl
  | sse2 =>
    simp only [scan]
    split
    · exact blockScan_signMask b.split
    · rfl
  | sse41 =>
    simp only [scan]
    split
    · exact blockScan_topBitsClear b.split
    · rfl

end PayloadStream
