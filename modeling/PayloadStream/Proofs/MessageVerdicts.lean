import PayloadStream.Validator
import PayloadStream.Proofs.TextGrammar
import PayloadStream.Proofs.TierAgreement

/-!
# Verdicts at the start of a message

One equation says what a call does to a validator, for every tier and also after a rejection. At
the start of a message it makes the verdict a statement on text: `valid` means well-formed,
`incomplete` that at most three more bytes make it so, and `invalid` that nothing does, with the
index where the bytes stop being the front of any text.
-/

namespace PayloadStream
namespace Validator

variable {level : VectorLevel} {v : Validator}

/-- A validator at the start of a message: from a constructor, or reset. -/
inductive Initial (level : VectorLevel) : Validator → Prop
  | automatic : Initial level (automatic level)
  | ofOptions (options : ScanOptions) : Initial level (ofOptions level options)
  | reset (v : Validator) : Initial level v.reset

theorem Initial.state_eq (h : Initial level v) : v.state = .accept := by cases h <;> rfl

theorem Initial.total_eq (h : Initial level v) : v.total = 0 := by cases h <;> rfl

/-- What a call does. A rejected validator is no exception: it takes no byte. -/
theorem feed_eq (level : VectorLevel) (v : Validator) (b : Buffer) :
    v.feed level b =
      { v with
        state := v.state.after b.bytes
        current := (v.state.taken b.bytes).toUInt64
        total := v.total + (v.state.taken b.bytes).toUInt64 } := by
  cases v with
  | mk state current total tier =>
    simp only [feed, rejected, ScanTier.scan_eq_branchScan, ScanState.branchScan_eq]
    split
    next h =>
      have hreject : state = .reject := by simpa using h
      simp [hreject]
    next => rfl

@[simp] theorem state_feed (level : VectorLevel) (v : Validator) (b : Buffer) :
    (v.feed level b).state = v.state.after b.bytes := by
  rw [feed_eq]

@[simp] theorem current_feed (level : VectorLevel) (v : Validator) (b : Buffer) :
    (v.feed level b).current = (v.state.taken b.bytes).toUInt64 := by
  rw [feed_eq]

@[simp] theorem total_feed (level : VectorLevel) (v : Validator) (b : Buffer) :
    (v.feed level b).total = v.total + (v.state.taken b.bytes).toUInt64 := by
  rw [feed_eq]

theorem rejected_eq_true_iff : v.rejected = true ↔ v.state = .reject := beq_iff_eq

theorem rejected_eq_false_iff : v.rejected = false ↔ v.state ≠ .reject := beq_eq_false_iff_ne

theorem verdict_eq_incomplete_iff :
    v.verdict = .incomplete ↔ v.state ≠ .accept ∧ v.state ≠ .reject := by
  simp only [verdict]
  cases v.state <;> simp

theorem verdict_eq_invalid_iff {offset total : UInt64} :
    v.verdict = .invalid offset total ↔
      v.state = .reject ∧ v.current = offset ∧ v.total = total := by
  simp only [verdict]
  cases v.state <;> simp

theorem exists_verdict_eq_invalid_iff :
    (∃ offset total, v.verdict = .invalid offset total) ↔ v.state = .reject := by
  constructor
  · rintro ⟨offset, total, h⟩
    exact (verdict_eq_invalid_iff.mp h).1
  · intro h
    exact ⟨v.current, v.total, verdict_eq_invalid_iff.mpr ⟨h, rfl, rfl⟩⟩

namespace Initial

variable (h : Initial level v) {b : Buffer}

include h

theorem validate_of_boundary (hafter : ScanState.accept.after b.bytes = .accept) :
    (v.validate level b).1 = .valid := by
  change (v.feed level b).verdict = .valid
  rw [verdict_eq_valid_iff, state_feed, h.state_eq, hafter]

theorem validate_of_within (haccept : ScanState.accept.after b.bytes ≠ .accept)
    (hreject : ScanState.accept.after b.bytes ≠ .reject) :
    (v.validate level b).1 = .incomplete := by
  change (v.feed level b).verdict = .incomplete
  rw [verdict_eq_incomplete_iff, state_feed, h.state_eq]
  exact ⟨haccept, hreject⟩

/-- Both places of a rejection are the number of bytes taken. -/
theorem validate_of_refused (hafter : ScanState.accept.after b.bytes = .reject) :
    (v.validate level b).1 = .invalid (ScanState.accept.taken b.bytes).toUInt64
      (ScanState.accept.taken b.bytes).toUInt64 := by
  change (v.feed level b).verdict = _
  rw [verdict_eq_invalid_iff, state_feed, current_feed, total_feed, h.state_eq, h.total_eq,
    UInt64.zero_add]
  exact ⟨hafter, rfl, rfl⟩

theorem after_of_valid (hvalid : (v.validate level b).1 = .valid) :
    ScanState.accept.after b.bytes = .accept := by
  change (v.feed level b).verdict = .valid at hvalid
  rwa [verdict_eq_valid_iff, state_feed, h.state_eq] at hvalid

theorem after_of_incomplete (hincomplete : (v.validate level b).1 = .incomplete) :
    ScanState.accept.after b.bytes ≠ .accept ∧ ScanState.accept.after b.bytes ≠ .reject := by
  change (v.feed level b).verdict = .incomplete at hincomplete
  rwa [verdict_eq_incomplete_iff, state_feed, h.state_eq] at hincomplete

theorem after_of_invalid (hinvalid : (v.validate level b).1.isInvalid = true) :
    ScanState.accept.after b.bytes = .reject := by
  change (v.feed level b).verdict.isInvalid = true at hinvalid
  rwa [isInvalid_verdict, rejected_eq_true_iff, state_feed, h.state_eq] at hinvalid

theorem state_validate : (v.validate level b).2.state = ScanState.accept.after b.bytes := by
  change (v.feed level b).state = _
  rw [state_feed, h.state_eq]

end Initial

theorem toNat_taken (s : ScanState) {bytes : List UInt8} (h : bytes.length < UInt64.size) :
    (s.taken bytes).toUInt64.toNat = s.taken bytes :=
  UInt64.toNat_ofNat_of_lt' (Nat.lt_of_le_of_lt (s.taken_le_length bytes) h)

@[simp] theorem current_finish (v : Validator) : v.finish.current = v.current := by
  simp only [finish]
  split <;> rfl

@[simp] theorem total_finish (v : Validator) : v.finish.total = v.total := by
  simp only [finish]
  split <;> rfl

/-- The end of a message leaves no state within a sequence. -/
theorem state_finish (v : Validator) :
    v.finish.state = if v.state = .accept then .accept else .reject := by
  simp only [finish, verdict_eq_incomplete_iff]
  split
  next h => rw [if_neg h.1]
  next h =>
    split
    next haccept => exact haccept
    next haccept =>
      by_contra hreject
      exact h ⟨haccept, hreject⟩

/-- At the start of a message `valid` means well-formed: concatenated shortest sequences of scalar
values, and nothing else. -/
theorem validate_eq_valid_iff_wellFormed (h : Initial level v) (b : Buffer) :
    (v.validate level b).1 = .valid ↔ WellFormed b.bytes := by
  change (v.feed level b).verdict = .valid ↔ WellFormed b.bytes
  rw [verdict_eq_valid_iff, state_feed, h.state_eq, wellFormed_iff_after]

theorem validate_two_byte_scalar :
    Initial .sse41 (automatic .sse41) ∧
      ((automatic .sse41).validate .sse41 ⟨[0xC3, 0xA9], 15⟩).1 = .valid ∧
      WellFormed [0xC3, 0xA9] := by
  have hvalid : ((automatic .sse41).validate .sse41 ⟨[0xC3, 0xA9], 15⟩).1 = .valid := by decide
  exact ⟨.automatic, hvalid, (validate_eq_valid_iff_wellFormed .automatic _).mp hvalid⟩

/-- At the start of a message `incomplete` means that one to three more bytes make the text
well-formed. `invalid` means that no bytes do, and has the first index where that shows. -/
theorem validate_earliest_rejection (h : Initial level v) (b : Buffer) :
    ((v.validate level b).1 = .incomplete ↔
      ¬ WellFormed b.bytes ∧ ∃ t, 1 ≤ t.length ∧ t.length ≤ 3 ∧ WellFormed (b.bytes ++ t)) ∧
    ((∃ offset total, (v.validate level b).1 = .invalid offset total) ↔ ¬ Viable b.bytes) ∧
    ∀ offset total, (v.validate level b).1 = .invalid offset total →
      offset = total ∧ ∃ i, FirstUnviable b.bytes i ∧ total = i.toUInt64 := by
  change ((v.feed level b).verdict = .incomplete ↔ _) ∧
    ((∃ offset total, (v.feed level b).verdict = .invalid offset total) ↔ _) ∧
    ∀ offset total, (v.feed level b).verdict = .invalid offset total → _
  refine ⟨?_, ?_, ?_⟩
  · rw [verdict_eq_incomplete_iff, state_feed, h.state_eq, exists_wellFormed_append_iff]
  · rw [exists_verdict_eq_invalid_iff, state_feed, h.state_eq, viable_iff_after, not_not]
  · intro offset total hinvalid
    obtain ⟨hstate, rfl, rfl⟩ := verdict_eq_invalid_iff.mp hinvalid
    rw [state_feed, h.state_eq] at hstate
    rw [current_feed, total_feed, h.state_eq, h.total_eq, UInt64.zero_add]
    exact ⟨rfl, _, firstUnviable_taken hstate, rfl⟩

theorem validate_overlong_after_block :
    Initial .sse2 (ofOptions .sse2 ⟨some .sse41⟩) ∧
      ((ofOptions .sse2 ⟨some .sse41⟩).validate .sse2
        ⟨List.replicate 18 0x61 ++ [0xE0, 0x80], 14⟩).1 = .invalid 19 19 ∧
      ∃ i, FirstUnviable (List.replicate 18 0x61 ++ [0xE0, 0x80]) i ∧ 19 = i.toUInt64 := by
  have hinvalid : ((ofOptions .sse2 ⟨some .sse41⟩).validate .sse2
      ⟨List.replicate 18 0x61 ++ [0xE0, 0x80], 14⟩).1 = .invalid 19 19 := by decide
  obtain ⟨-, -, hplace⟩ := validate_earliest_rejection (.ofOptions ⟨some .sse41⟩) _
  obtain ⟨-, hfirst⟩ := hplace 19 19 hinvalid
  exact ⟨.ofOptions _, hinvalid, hfirst⟩

end Validator
end PayloadStream
