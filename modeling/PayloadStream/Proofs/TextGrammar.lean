import Mathlib.Order.Bounds.Basic
import PayloadStream.Proofs.ScalarSequences

/-!
# The automaton and the grammar of text

From a code point boundary the automaton ends on a boundary exactly for well-formed text, and
short of `reject` exactly for the fronts of well-formed text: every state but `reject` is at most
three bytes away from a boundary. Hence a byte is refused exactly where the bytes up to it stop
being the front of any text.
-/

namespace PayloadStream

/-- The least index of a byte with which the bytes so far are no front of well-formed text. -/
def FirstUnviable (bytes : List UInt8) (i : Nat) : Prop :=
  IsLeast {i | i < bytes.length ∧ ¬ Viable (bytes.take (i + 1))} i

open ScanState (accept reject)

theorem after_encodeText (cs : List Char) : accept.after (encodeText cs) = accept := by
  induction cs with
  | nil => rfl
  | cons c cs ih =>
    rw [encodeText_cons, ScanState.after_append, ScanState.after_encodeScalar, ih]

theorem wellFormed_of_after {bytes : List UInt8} (h : accept.after bytes = accept) :
    WellFormed bytes := by
  -- The induction is on the length, since a whole sequence is taken off at each step.
  induction hn : bytes.length using Nat.strongRecOn generalizing bytes with
  | ind n ih =>
    cases bytes with
    | nil => exact .nil
    | cons b rest =>
      obtain ⟨c, tail, hbytes, htail⟩ := ScanState.opensWithScalar_of_after h
      have hlength := congrArg List.length hbytes
      have hpos := length_encodeScalar_pos c
      rw [List.length_append] at hlength
      obtain ⟨cs, hcs⟩ := ih tail.length (by omega) htail rfl
      exact ⟨c :: cs, by rw [encodeText_cons, hcs, hbytes]⟩

theorem wellFormed_iff_after (bytes : List UInt8) :
    WellFormed bytes ↔ accept.after bytes = accept := by
  constructor
  · rintro ⟨cs, rfl⟩
    exact after_encodeText cs
  · exact wellFormed_of_after

/-- Bytes that lead from a state to the next boundary. -/
def ScanState.completion : ScanState → List UInt8
  | accept => []
  | reject => []
  | needOne => [0x80]
  | needTwo => [0x80, 0x80]
  | needTwoAfterE0 => [0xA0, 0x80]
  | needTwoAfterEd => [0x80, 0x80]
  | needThreeAfterF0 => [0x90, 0x80, 0x80]
  | needThree => [0x80, 0x80, 0x80]
  | needThreeAfterF4 => [0x80, 0x80, 0x80]

theorem ScanState.after_completion {s : ScanState} (hs : s ≠ reject) :
    s.after s.completion = accept := by
  cases s with
  | reject => exact absurd rfl hs
  | _ => rfl

theorem ScanState.length_completion_le (s : ScanState) : s.completion.length ≤ 3 := by
  cases s <;> simp [completion]

theorem ScanState.length_completion_pos_iff {s : ScanState} :
    0 < s.completion.length ↔ s ≠ accept ∧ s ≠ reject := by
  cases s <;> simp [completion]

theorem ScanState.Expects.length_completion {s t : ScanState} {low high : Nat}
    (h : Expects s low high t) : t.completion.length + 1 = s.completion.length := by
  cases h <;> rfl

theorem ScanState.exists_expects {s : ScanState} (haccept : s ≠ accept) (hreject : s ≠ reject) :
    ∃ low high t, Expects s low high t := by
  cases s with
  | accept => exact absurd rfl haccept
  | reject => exact absurd rfl hreject
  | needOne => exact ⟨_, _, _, .one⟩
  | needTwo => exact ⟨_, _, _, .two⟩
  | needTwoAfterE0 => exact ⟨_, _, _, .twoAfterE0⟩
  | needTwoAfterEd => exact ⟨_, _, _, .twoAfterEd⟩
  | needThreeAfterF0 => exact ⟨_, _, _, .threeAfterF0⟩
  | needThree => exact ⟨_, _, _, .three⟩
  | needThreeAfterF4 => exact ⟨_, _, _, .threeAfterF4⟩

/-- Within a sequence, a byte that is taken is one that the state expects. -/
theorem ScanState.exists_expects_of_next {s : ScanState} {b : UInt8} (haccept : s ≠ accept)
    (h : s.next b ≠ reject) :
    ∃ low high, Expects s low high (s.next b) ∧ low ≤ b.toNat ∧ b.toNat ≤ high := by
  have hreject : s ≠ reject := by
    rintro rfl
    exact h rfl
  obtain ⟨low, high, t, hs⟩ := exists_expects haccept hreject
  rw [hs.next_eq] at h ⊢
  split
  next hb => exact ⟨low, high, hs, hb⟩
  next hb => exact absurd (if_neg hb) h

/-- It brings the boundary nearer by one. -/
theorem ScanState.length_completion_next {s : ScanState} {b : UInt8} (haccept : s ≠ accept)
    (h : s.next b ≠ reject) : (s.next b).completion.length + 1 = s.completion.length := by
  obtain ⟨low, high, hs, -⟩ := exists_expects_of_next haccept h
  exact hs.length_completion

/-- Bytes that are taken within a sequence, up to its end. -/
theorem ScanState.length_completion_after {s : ScanState} {bytes : List UInt8}
    (hle : bytes.length ≤ s.completion.length) (hlive : s.after bytes ≠ reject) :
    (s.after bytes).completion.length + bytes.length = s.completion.length := by
  induction bytes generalizing s with
  | nil => rfl
  | cons b rest ih =>
    rw [List.length_cons] at hle ⊢
    have hpos : 0 < s.completion.length := Nat.lt_of_lt_of_le (Nat.zero_lt_succ _) hle
    have hnext : s.next b ≠ reject := by
      intro hnext
      rw [after_cons, hnext, after_reject] at hlive
      exact hlive rfl
    have hstep := length_completion_next (length_completion_pos_iff.mp hpos).1 hnext
    have hrest := ih (s := s.next b) (by omega) hlive
    rw [after_cons]
    omega

/-- No boundary is reached by fewer bytes than the state lacks. -/
theorem ScanState.after_ne_accept_of_short {s : ScanState} {bytes : List UInt8}
    (h : bytes.length < s.completion.length) : s.after bytes ≠ accept := by
  intro haccept
  have hlive : s.after bytes ≠ reject := by
    rw [haccept]
    decide
  have hlength := length_completion_after (Nat.le_of_lt h) hlive
  rw [haccept] at hlength
  exact Nat.ne_of_lt h ((Nat.zero_add _).symm.trans hlength)

theorem ScanState.Expects.continuation {s t : ScanState} {low high : Nat}
    (h : Expects s low high t) : 0x80 ≤ low ∧ high ≤ 0xBF := by
  cases h <;> decide

/-- No sequence starts with a byte that is taken within one. -/
theorem ScanState.next_accept_of_next {s : ScanState} {b : UInt8} (haccept : s ≠ accept)
    (h : s.next b ≠ reject) : accept.next b = reject := by
  obtain ⟨low, high, hs, hb⟩ := exists_expects_of_next haccept h
  have hbounds := hs.continuation
  have hlead := leadRange_ofLead b
  change ofLead b = reject
  generalize ofLead b = t at hlead ⊢
  cases hlead with
  | refused _ => rfl
  | _ => omega

theorem viable_iff_after (bytes : List UInt8) : Viable bytes ↔ accept.after bytes ≠ reject := by
  constructor
  · rintro ⟨rest, hrest⟩ hreject
    rw [wellFormed_iff_after, ScanState.after_append_of_reject hreject] at hrest
    cases hrest
  · intro h
    refine ⟨(accept.after bytes).completion, ?_⟩
    rw [wellFormed_iff_after, ScanState.after_append, ScanState.after_completion h]

/-- Bytes that only lack the end of a code point, which takes at most three bytes. -/
theorem exists_wellFormed_append_iff (bytes : List UInt8) :
    (¬ WellFormed bytes ∧ ∃ t, 1 ≤ t.length ∧ t.length ≤ 3 ∧ WellFormed (bytes ++ t)) ↔
      accept.after bytes ≠ accept ∧ accept.after bytes ≠ reject := by
  rw [wellFormed_iff_after]
  constructor
  · rintro ⟨hne, t, -, -, ht⟩
    exact ⟨hne, (viable_iff_after bytes).mp ⟨t, ht⟩⟩
  · rintro ⟨haccept, hreject⟩
    refine ⟨haccept, (accept.after bytes).completion,
      ScanState.length_completion_pos_iff.mpr ⟨haccept, hreject⟩,
      ScanState.length_completion_le _, ?_⟩
    rw [wellFormed_iff_after, ScanState.after_append, ScanState.after_completion hreject]

/-- A scan from a boundary stops at the first byte that no text allows. -/
theorem firstUnviable_taken {bytes : List UInt8} (h : accept.after bytes = reject) :
    FirstUnviable bytes (accept.taken bytes) := by
  have hfront (i : Nat) : ¬ Viable (bytes.take (i + 1)) ↔
      accept.taken bytes < i + 1 ∧ accept.taken bytes < bytes.length := by
    rw [viable_iff_after, not_not, ScanState.after_take_eq_reject_iff (by decide)]
  have hlt := (ScanState.after_eq_reject_iff (by decide) bytes).mp h
  constructor
  · exact ⟨hlt, (hfront _).mpr ⟨Nat.lt_succ_self _, hlt⟩⟩
  · rintro i ⟨-, hi⟩
    have hle := ((hfront i).mp hi).1
    omega

theorem firstUnviable_iff {bytes : List UInt8} {i : Nat} :
    FirstUnviable bytes i ↔ accept.after bytes = reject ∧ accept.taken bytes = i := by
  constructor
  · intro h
    have hreject : accept.after bytes = reject := by
      by_contra hlive
      have hviable : Viable (bytes.take (i + 1) ++ bytes.drop (i + 1)) := by
        rw [List.take_append_drop]
        exact (viable_iff_after bytes).mpr hlive
      exact h.1.2 hviable.of_append
    exact ⟨hreject, (firstUnviable_taken hreject).unique h⟩
  · rintro ⟨hreject, rfl⟩
    exact firstUnviable_taken hreject

/-- The number of bytes taken has one of two meanings: a scan that is never refused takes all. -/
theorem firstUnviable_or_viable (bytes : List UInt8) :
    FirstUnviable bytes (accept.taken bytes) ∨
      Viable bytes ∧ accept.taken bytes = bytes.length := by
  by_cases h : accept.after bytes = reject
  · exact .inl (firstUnviable_taken h)
  · exact .inr ⟨(viable_iff_after bytes).mpr h, ScanState.taken_of_after_ne_reject h⟩

end PayloadStream
