import PayloadStream.ValidatorRun
import PayloadStream.Proofs.CheckpointSimulation
import PayloadStream.Proofs.RowScans

/-!
# Runs on state numbers

A validator in memory keeps the number of its state from call to call, through every tier, and
writes that of the rejection itself at the end of a cut message. Step by step it is the validator on
states with its state numbered. So whatever is called, the number is that of a state, and no scan
that a run can come to looks up or takes anything outside.
-/

namespace PayloadStream

open ScanState (accept reject)
open TransitionTable (rejectRow sound_walk walk walkRows walkRows_code)

/-- A validator as it is in memory. -/
structure RowValidator where
  row : UInt8
  current : UInt64
  total : UInt64
  tier : ScanTier

def Validator.numbered (v : Validator) : RowValidator := ⟨v.state.code, v.current, v.total, v.tier⟩

namespace RowValidator

def ofOptions (level : VectorLevel) (options : ScanOptions) : RowValidator where
  row := accept.code
  current := 0
  total := 0
  tier := ExecutionTier.select level options.tier

def reset (v : RowValidator) : RowValidator :=
  { v with row := accept.code, current := 0, total := 0 }

def selectTier (level : VectorLevel) (v : RowValidator) (request : Option ScanTier) :
    RowValidator :=
  { v with tier := ExecutionTier.select level request }

/-- The state by its number. A number that no state has would pass for a rejection. -/
def state (v : RowValidator) : ScanState := .ofCode v.row

def rejected (v : RowValidator) : Bool := v.row == rejectRow

def verdict (v : RowValidator) : Verdict :=
  if v.row = accept.code then .valid
  else if v.row = rejectRow then .invalid v.current v.total
  else .incomplete

def feed (level : VectorLevel) (v : RowValidator) (b : Buffer) : RowValidator :=
  if v.rejected then { v with current := 0 }
  else
    let scan := v.tier.scanRows level v.row b
    { v with
      row := scan.row
      current := scan.stop.toUInt64
      total := v.total + scan.stop.toUInt64 }

def finish (v : RowValidator) : RowValidator :=
  if v.verdict = .incomplete then { v with row := rejectRow } else v

def answer (level : VectorLevel) (v : RowValidator) : ValidatorCall → ValidatorReply × RowValidator
  | .validate chunk => (.verdict (v.feed level chunk).verdict, v.feed level chunk)
  | .complete chunk => (.verdict (v.feed level chunk).finish.verdict, (v.feed level chunk).finish)
  | .reset => (.silent, v.reset)
  | .selectTier code =>
    match ExecutionTier.request code with
    | .ok request => (.tier (v.selectTier level request).tier, v.selectTier level request)
    | .error e => (.unknownTier e, v)

/-- The live validator after a run. -/
def afterRun (level : VectorLevel) (options : ScanOptions) (steps : List (RunStep ValidatorCall)) :
    RowValidator :=
  ((Checkpointed.start (ofOptions level options)).run (answer level) steps).live

end RowValidator

namespace Validator

theorem state_numbered (v : Validator) : v.numbered.state = v.state :=
  ScanState.ofCode_code v.state

theorem rejected_numbered (v : Validator) : v.numbered.rejected = v.rejected :=
  v.state.code_beq_rejectRow

theorem verdict_numbered (v : Validator) : v.numbered.verdict = v.verdict := by
  rw [RowValidator.verdict, verdict, numbered]
  cases v.state <;> rfl

theorem feed_numbered (level : VectorLevel) (v : Validator) (b : Buffer) :
    v.numbered.feed level b = (v.feed level b).numbered := by
  rw [RowValidator.feed, feed, rejected_numbered]
  split
  · rfl
  · dsimp only [numbered]
    rw [ScanTier.scanRows_code]
    rfl

theorem finish_numbered (v : Validator) : v.numbered.finish = v.finish.numbered := by
  rw [RowValidator.finish, finish, verdict_numbered]
  split <;> rfl

/-- Calls on the numbered validator are calls on the validator. -/
theorem simulates_numbered (level : VectorLevel) :
    Checkpointed.Simulates (RowValidator.answer level) (answer level) (· = ·) (· = ·)
      (fun r v => r = v.numbered) := by
  rintro r v call _ rfl rfl
  cases call with
  | validate chunk =>
    rw [RowValidator.answer, answer, validate, feed_numbered, verdict_numbered]
    exact ⟨rfl, rfl⟩
  | complete chunk =>
    rw [RowValidator.answer, answer, complete, feed_numbered, finish_numbered, verdict_numbered]
    exact ⟨rfl, rfl⟩
  | reset => exact ⟨rfl, rfl⟩
  | selectTier code =>
    rw [RowValidator.answer, answer]
    cases (ExecutionTier.request code : Except UnknownTier (Option ScanTier)) <;> exact ⟨rfl, rfl⟩

theorem afterRun_eq_numbered (level : VectorLevel) (options : ScanOptions)
    (steps : List (RunStep ValidatorCall)) :
    RowValidator.afterRun level options steps =
      ((Checkpointed.start (ofOptions level options)).run (answer level) steps).live.numbered := by
  have hstart : RowValidator.ofOptions level options = (ofOptions level options).numbered := rfl
  exact ((simulates_numbered level).run (Checkpointed.related_start hstart)
    (RunStep.forall₂_rel_eq steps)).live

end Validator

/-- In every run the numbered validator is the validator with its state numbered, and answers every
call alike. The number is one of nine, and the state is found by it; only a rejection passes for
one. From there the noted scans find what the scans on states find. Every look-up is at a cell of
the table, and however the bytes are split, every part that the loop over blocks takes is the next
block, or the tail, and within the bytes. -/
theorem runs_access_in_range (level : VectorLevel) (options : ScanOptions)
    (before : List (RunStep ValidatorCall)) :
    let live := RowValidator.afterRun level options before
    let v := ((Checkpointed.start (Validator.ofOptions level options)).run
      (Validator.answer level) before).live
    (live = v.numbered ∧ ∀ call, (live.answer level call).1 = (v.answer level call).1) ∧
    live.row ≤ 8 ∧ ScanState.all[live.row.toNat]? = some live.state ∧
    (live.rejected = true ↔ live.state = reject) ∧
    ∀ bytes : List UInt8,
      (walkRows live.row bytes = (tableScan v.state bytes).numbered ∧
        ∀ l ∈ (walk live.row bytes).1.lookups, l.InTable) ∧
      ∀ (quiet : List UInt8 → Bool) (split : BlockSplit bytes),
        (sliceScan quiet live.row split).2 = (blockScan quiet v.state split).numbered ∧
          ∀ s ∈ (sliceScan quiet live.row split).1, s.Fits split := by
  intro live v
  have hlive : live = v.numbered := Validator.afterRun_eq_numbered level options before
  refine ⟨⟨hlive, ?_⟩, ?_, ?_, ?_, ?_⟩
  · intro call
    exact (Validator.simulates_numbered level hlive rfl).1
  · rw [hlive]
    exact v.state.code_le
  · rw [hlive, Validator.state_numbered]
    exact v.state.getElem?_all
  · rw [hlive, Validator.rejected_numbered, Validator.state_numbered]
    exact beq_iff_eq
  · intro bytes
    rw [hlive]
    refine ⟨⟨walkRows_code v.state bytes, (sound_walk v.state bytes).inTable⟩, ?_⟩
    intro quiet split
    exact ⟨sliceScan_code v.state split, fits_of_mem_sliceScan split v.state.code⟩

/-- The end of a message is taken back within a sequence of three bytes. From there a block that
ends the sequence is taken, and then the tail. -/
theorem runs_access_after_restore :
    let before : List (RunStep ValidatorCall) := [.act (.validate ⟨[0x61, 0xE2], 3⟩), .save,
      .act (.complete ⟨[], 0⟩), .restore]
    let live := RowValidator.afterRun .sse2 ⟨some .sse41⟩ before
    let bytes : List UInt8 := 0x82 :: 0xAC :: List.replicate 17 0x61
    let split : BlockSplit bytes := ⟨1, 1, by decide⟩
    live.row = 3 ∧ ScanState.all[live.row.toNat]? = some live.state ∧
    (⟨2, 0xAC⟩ ∈ (walk 3 bytes).1.lookups ∧ TransitionTable.Lookup.InTable ⟨2, 0xAC⟩) ∧
    (⟨0, 1, 17⟩ ∈ (sliceScan (signMask · == 0) 3 split).1 ∧ Slice.Fits split ⟨0, 1, 17⟩) ∧
    ⟨1, 17, 19⟩ ∈ (sliceScan (signMask · == 0) 3 split).1 ∧ Slice.Fits split ⟨1, 17, 19⟩ := by
  intro before live bytes split
  have hrow : (RowValidator.afterRun .sse2 ⟨some .sse41⟩ before).row = 3 := rfl
  obtain ⟨-, -, hstate, -, haccess⟩ := runs_access_in_range .sse2 ⟨some .sse41⟩ before
  rw [hrow] at haccess
  obtain ⟨hlookups, hslices⟩ := haccess bytes
  have hlookup : ⟨2, 0xAC⟩ ∈ (walk 3 bytes).1.lookups := by decide +kernel
  have hblock : ⟨0, 1, 17⟩ ∈ (sliceScan (signMask · == 0) 3 split).1 := by decide +kernel
  have htail : ⟨1, 17, 19⟩ ∈ (sliceScan (signMask · == 0) 3 split).1 := by decide +kernel
  exact ⟨hrow, hstate, ⟨hlookup, hlookups.2 _ hlookup⟩, ⟨hblock, (hslices _ split).2 _ hblock⟩,
    htail, (hslices _ split).2 _ htail⟩

end PayloadStream
