import PayloadStream.Proofs.TierAgreement

/-!
# Scans on state numbers

In memory a state is its number, a single byte that could hold others too. The scans below work on
numbers and note whatever they take for granted: the row and the byte of every look-up in the table,
and the bounds of every part of the bytes that the loop over blocks takes. From the number of a
state they find what the scans on states find, all their look-ups are at cells of the table, and all
parts are within the bytes.
-/

namespace PayloadStream

open TransitionTable (rejectRow)

/-- The report of a scan, with the state by its number. -/
structure RowScan where
  row : UInt8
  stop : Nat

namespace RowScan

def rejected (r : RowScan) : Bool := r.row == rejectRow

def shift (base : Nat) (r : RowScan) : RowScan := { r with stop := base + r.stop }

end RowScan

def Scan.numbered (r : Scan) : RowScan := ⟨r.state.code, r.stop⟩

theorem Scan.rejected_numbered (r : Scan) : r.numbered.rejected = r.rejected :=
  r.state.code_beq_rejectRow

theorem ScanState.code_le (s : ScanState) : s.code ≤ 8 := by cases s <;> decide

/-- States are listed by their numbers. -/
theorem ScanState.getElem?_all (s : ScanState) : all[s.code.toNat]? = some s := by cases s <;> rfl

/-- What every step keeps holds where a scan stops. -/
theorem scanWith_induction {σ : Type} {step : σ → UInt8 → σ} {P : σ → Prop}
    (hstep : ∀ s b, P s → P (step s b)) (refuses : σ → Bool) (n : Nat) {s : σ} (h : P s)
    (bytes : List UInt8) : P (scanWith step refuses n s bytes).1 := by
  induction bytes generalizing n s with
  | nil => exact h
  | cons b rest ih =>
    rw [scanWith]
    split
    · exact hstep s b h
    · exact ih (n + 1) (hstep s b h)

namespace TransitionTable

/-- A look-up of the cell for a row and a byte. -/
structure Lookup where
  row : UInt8
  byte : UInt8
deriving DecidableEq

/-- The row is that of a state, and the byte has a class, whose column is used: the cell is one of
the table. -/
structure Lookup.InTable (l : Lookup) : Prop where
  row_le : l.row ≤ 8
  byte_lt : l.byte.toNat < byteClasses.size
  class_le : classOf l.byte ≤ 11
  index_lt : index l.row l.byte < cells.size

/-- The row that look-ups lead to, and the look-ups, the last one first. -/
structure Walk where
  row : UInt8
  lookups : List Lookup

def Walk.step (w : Walk) (b : UInt8) : Walk :=
  ⟨TransitionTable.step w.row b, ⟨w.row, b⟩ :: w.lookups⟩

/-- The scan by look-ups, which it notes. -/
def walk (row : UInt8) (bytes : List UInt8) : Walk × Nat :=
  scanWith Walk.step (·.row == rejectRow) 0 ⟨row, []⟩ bytes

def walkRows (row : UInt8) (bytes : List UInt8) : RowScan :=
  ⟨(walk row bytes).1.row, (walk row bytes).2⟩

/-- The ranges on numbers. One that no state has is refused. -/
def rangeStep (row b : UInt8) : UInt8 := ((ScanState.ofCode row).next b).code

def rangeRows (row : UInt8) (bytes : List UInt8) : RowScan :=
  let reached := scanWith rangeStep (· == rejectRow) 0 row bytes
  ⟨reached.1, reached.2⟩

theorem rangeRows_code (s : ScanState) (bytes : List UInt8) :
    rangeRows s.code bytes = (branchScan s bytes).numbered := by
  have hstep : ∀ t b, rangeStep (ScanState.code t) b = (t.next b).code := by
    intro t b
    rw [rangeStep, ScanState.ofCode_code]
  rw [rangeRows, scanWith_comp (· == .reject) (· == rejectRow) ScanState.code hstep
    ScanState.code_beq_rejectRow]
  rfl

/-- Noting the look-ups changes nothing: the loop is that of the scan by look-ups. -/
theorem walkRows_eq (row : UInt8) (bytes : List UInt8) :
    walkRows row bytes =
      ⟨(scanWith step (· == rejectRow) 0 row bytes).1,
        (scanWith step (· == rejectRow) 0 row bytes).2⟩ := by
  have hstep : ∀ (w : Walk) (b : UInt8), step w.row b = (w.step b).row := by
    intro w b
    rw [Walk.step]
  have hscan := scanWith_comp (fun w : Walk => w.row == rejectRow) (· == rejectRow) Walk.row hstep
    (by intro w; rfl) 0 ⟨row, []⟩ bytes
  rw [hscan, walkRows, walk]

theorem walkRows_code (s : ScanState) (bytes : List UInt8) :
    walkRows s.code bytes = (tableScan s bytes).numbered := by
  have hscan := scanWith_comp (· == .reject) (· == rejectRow) ScanState.code step_code
    ScanState.code_beq_rejectRow 0 s bytes
  rw [walkRows_eq, tableScan, Scan.numbered, hscan, ScanState.ofCode_code]

theorem inTable_of_code (s : ScanState) (b : UInt8) : Lookup.InTable ⟨s.code, b⟩ := by
  have hrow : s.code.toNat ≤ 8 := UInt8.le_iff_toNat_le.mp s.code_le
  have hclass : (classOf b).toNat < 12 := by
    rw [toNat_classOf]
    exact rangeClass_lt b.toNat
  refine ⟨s.code_le, ?_, UInt8.le_iff_toNat_le.mpr (Nat.le_of_lt_succ hclass), ?_⟩
  · rw [size_byteClasses]
    exact b.toNat_lt
  · change s.code.toNat * 16 + (classOf b).toNat < cells.size
    rw [size_cells]
    omega

/-- The row is that of a state, and all look-ups so far were in the table. -/
structure Walk.Sound (w : Walk) : Prop where
  exists_state : ∃ s : ScanState, s.code = w.row
  inTable : ∀ l ∈ w.lookups, l.InTable

theorem Walk.Sound.step {w : Walk} (h : w.Sound) (b : UInt8) : (w.step b).Sound := by
  obtain ⟨s, hs⟩ := h.exists_state
  constructor
  · refine ⟨s.next b, ?_⟩
    rw [Walk.step, ← hs, step_code]
  · rw [Walk.step, List.forall_mem_cons, ← hs]
    exact ⟨inTable_of_code s b, h.inTable⟩

theorem sound_walk (s : ScanState) (bytes : List UInt8) : (walk s.code bytes).1.Sound := by
  have hstart : Walk.Sound ⟨s.code, []⟩ := ⟨⟨s, rfl⟩, by simp⟩
  exact scanWith_induction (fun _ b h => h.step b) _ 0 hstart bytes

end TransitionTable

open TransitionTable (rangeRows rangeRows_code walkRows walkRows_code)

/-- The bounds of a part that the loop over blocks takes when some blocks are done. -/
structure Slice where
  done : Nat
  start : Nat
  stop : Nat
deriving DecidableEq

/-- The part is the next block, or the tail after the last one, and is within the bytes. -/
structure Slice.Fits {bytes : List UInt8} (split : BlockSplit bytes) (s : Slice) : Prop where
  start_eq : s.start = split.head + 16 * s.done
  stop_eq : s.done < split.blocks ∧ s.stop = s.start + 16 ∨
    s.done = split.blocks ∧ s.stop = bytes.length
  start_le_stop : s.start ≤ s.stop
  stop_le_length : s.stop ≤ bytes.length

/-- The loop over the blocks and then the tail, with the parts that it takes. A block that is
skipped is not taken. -/
def sliceBlocks (quiet : List UInt8 → Bool) (bytes : List UInt8) :
    Nat → Nat → UInt8 → List (List UInt8) → List Slice × RowScan
  | done, base, row, [] =>
    ([⟨done, base, bytes.length⟩],
      (rangeRows row (bytes.extract base bytes.length)).shift base)
  | done, base, row, block :: rest =>
    if row = ScanState.accept.code ∧ quiet block = true then
      sliceBlocks quiet bytes (done + 1) (base + 16) row rest
    else
      let scan := rangeRows row (bytes.extract base (base + 16))
      if scan.rejected then ([⟨done, base, base + 16⟩], scan.shift base)
      else
        let later := sliceBlocks quiet bytes (done + 1) (base + 16) scan.row rest
        (⟨done, base, base + 16⟩ :: later.1, later.2)

/-- The scan over a split, with the parts that its loop takes. -/
def sliceScan (quiet : List UInt8 → Bool) (row : UInt8) {bytes : List UInt8}
    (split : BlockSplit bytes) : List Slice × RowScan :=
  let scan := rangeRows row split.headBytes
  if scan.rejected then ([], scan)
  else sliceBlocks quiet bytes 0 split.head scan.row split.blockList

section Slices

variable {quiet : List UInt8 → Bool} {bytes : List UInt8}

/-- What the loop takes by its bounds are the blocks, and at the end the tail. -/
theorem sliceBlocks_code (done base n : Nat) (s : ScanState) :
    (sliceBlocks quiet bytes done base s.code (takeBlocks n (bytes.drop base))).2 =
      (scanBlocks quiet (bytes.drop (base + 16 * n)) base s
        (takeBlocks n (bytes.drop base))).numbered := by
  induction n generalizing done base s with
  | zero =>
    have htail : bytes.extract base bytes.length = bytes.drop base := by
      rw [List.extract_eq_take_drop, List.take_of_length_le (Nat.le_of_eq List.length_drop)]
    rw [takeBlocks, sliceBlocks, scanBlocks, htail, rangeRows_code]
    rfl
  | succ n ih =>
    have hblock : bytes.extract base (base + 16) = (bytes.drop base).take 16 := by simp
    have hrest : base + 16 * (n + 1) = base + 16 + 16 * n := by omega
    have hskip : s.code = ScanState.accept.code ↔ s = .accept :=
      ⟨ScanState.code_injective, congrArg ScanState.code⟩
    -- Both loops now make the same tests, and the part from `base` on is the next block.
    simp only [takeBlocks, sliceBlocks, scanBlocks, List.drop_drop, hblock, hrest, rangeRows_code,
      Scan.rejected_numbered, hskip]
    split
    · exact ih (done + 1) (base + 16) s
    · split
      · rfl
      · exact ih (done + 1) (base + 16) _

theorem sliceScan_code (s : ScanState) (split : BlockSplit bytes) :
    (sliceScan quiet s.code split).2 = (blockScan quiet s split).numbered := by
  simp only [sliceScan, blockScan, rangeRows_code, Scan.rejected_numbered]
  split
  · rfl
  · exact sliceBlocks_code 0 split.head split.blocks _

/-- The loop keeps its place: the head and the blocks that are done. -/
theorem fits_of_mem_sliceBlocks (split : BlockSplit bytes) {done base : Nat} (row : UInt8)
    {blocks : List (List UInt8)} (hbase : base = split.head + 16 * done)
    (hblocks : done + blocks.length = split.blocks) :
    ∀ s ∈ (sliceBlocks quiet bytes done base row blocks).1, s.Fits split := by
  have hfits := split.fits
  -- The induction is on the blocks left: with those done they stay all blocks of the split.
  induction blocks generalizing done base row with
  | nil =>
    have hdone : done = split.blocks := hblocks
    have hle : base ≤ bytes.length := by omega
    rw [sliceBlocks, List.forall_mem_singleton]
    exact ⟨hbase, .inr ⟨hdone, rfl⟩, hle, Nat.le_refl _⟩
  | cons block rest ih =>
    rw [List.length_cons] at hblocks
    have hdone : done < split.blocks := by omega
    have hle : base + 16 ≤ bytes.length := by omega
    have hblock : Slice.Fits split ⟨done, base, base + 16⟩ :=
      ⟨hbase, .inl ⟨hdone, rfl⟩, Nat.le_add_right base 16, hle⟩
    have hlater : ∀ row', ∀ s ∈ (sliceBlocks quiet bytes (done + 1) (base + 16) row' rest).1,
        s.Fits split :=
      fun row' => ih row' (by omega) (by omega)
    rw [sliceBlocks]
    split
    · exact hlater row
    · dsimp only
      split
      · exact List.forall_mem_singleton.mpr hblock
      · exact List.forall_mem_cons.mpr ⟨hblock, hlater _⟩

theorem fits_of_mem_sliceScan (split : BlockSplit bytes) (row : UInt8) :
    ∀ s ∈ (sliceScan quiet row split).1, s.Fits split := by
  rw [sliceScan]
  split
  · simp
  · apply fits_of_mem_sliceBlocks split _ rfl
    rw [BlockSplit.blockList, length_takeBlocks, Nat.zero_add]

end Slices

/-- The scan of a tier on numbers. -/
def ScanTier.scanRows (level : VectorLevel) (tier : ScanTier) (row : UInt8) (b : Buffer) :
    RowScan :=
  match tier with
  | table => walkRows row b.bytes
  | branching => rangeRows row b.bytes
  | sse2 =>
    if .sse2 ≤ level then (sliceScan (signMask · == 0) row b.split).2 else rangeRows row b.bytes
  | sse41 =>
    if .sse41 ≤ level then (sliceScan topBitsClear row b.split).2 else rangeRows row b.bytes

theorem ScanTier.scanRows_code (level : VectorLevel) (tier : ScanTier) (s : ScanState)
    (b : Buffer) : tier.scanRows level s.code b = (tier.scan level s b).numbered := by
  cases tier with
  | table => exact walkRows_code s b.bytes
  | branching => exact rangeRows_code s b.bytes
  | sse2 =>
    rw [scanRows, scan, sliceScan_code, rangeRows_code]
    split <;> rfl
  | sse41 =>
    rw [scanRows, scan, sliceScan_code, rangeRows_code]
    split <;> rfl

end PayloadStream
