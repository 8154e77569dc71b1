import PayloadStream.ByteScan

/-!
# Runs of the automaton over whole byte lists

A scan stops at the first refused byte. Since `reject` is never left, the state it reports is
the state after all of its bytes, and the number of bytes it takes adds up over consecutive
parts. The two functions below carry every statement on streams that are cut into chunks.
-/

namespace PayloadStream
namespace ScanState

/-- The state after all of the bytes. -/
def after (s : ScanState) (bytes : List UInt8) : ScanState := bytes.foldl next s

/-- How many bytes a scan takes: those before the first refused one, or all. -/
def taken (s : ScanState) (bytes : List UInt8) : Nat := (branchScan s bytes).stop

@[simp] theorem after_nil (s : ScanState) : s.after [] = s := rfl

@[simp] theorem after_cons (s : ScanState) (b : UInt8) (rest : List UInt8) :
    s.after (b :: rest) = (s.next b).after rest := rfl

theorem after_append (s : ScanState) (xs ys : List UInt8) :
    s.after (xs ++ ys) = (s.after xs).after ys := List.foldl_append

@[simp] theorem after_reject (bytes : List UInt8) : reject.after bytes = reject := by
  induction bytes with
  | nil => rfl
  | cons b rest ih => exact ih

@[simp] theorem taken_nil (s : ScanState) : s.taken [] = 0 := rfl

@[simp] theorem taken_reject (bytes : List UInt8) : reject.taken bytes = 0 := by simp [taken]

theorem taken_cons_of_refused {s : ScanState} {b : UInt8} (h : s.next b = reject)
    (rest : List UInt8) : s.taken (b :: rest) = 0 := by
  simp [taken, branchScan_cons, h]

theorem taken_cons {s : ScanState} {b : UInt8} (h : s.next b ≠ reject) (rest : List UInt8) :
    s.taken (b :: rest) = 1 + (s.next b).taken rest := by
  simp [taken, branchScan_cons, h]

theorem state_branchScan (s : ScanState) (bytes : List UInt8) :
    (branchScan s bytes).state = s.after bytes := by
  induction bytes generalizing s with
  | nil => rfl
  | cons b rest ih =>
    by_cases h : s.next b = reject
    · simp [branchScan_cons, h]
    · simp [branchScan_cons, h, ih]

theorem branchScan_eq (s : ScanState) (bytes : List UInt8) :
    branchScan s bytes = ⟨s.after bytes, s.taken bytes⟩ := by
  rw [← state_branchScan]
  rfl

/-- Counts add up: the second part is taken from the state that the first one ends in. -/
theorem taken_append (s : ScanState) (xs ys : List UInt8) :
    s.taken (xs ++ ys) = s.taken xs + (s.after xs).taken ys := by
  induction xs generalizing s with
  | nil => simp
  | cons b rest ih =>
    by_cases h : s.next b = reject
    · simp [taken_cons_of_refused h, h]
    · rw [List.cons_append, taken_cons h, taken_cons h, ih, after_cons, Nat.add_assoc]

theorem taken_le_length (s : ScanState) (bytes : List UInt8) : s.taken bytes ≤ bytes.length := by
  induction bytes generalizing s with
  | nil => simp
  | cons b rest ih =>
    by_cases h : s.next b = reject
    · simp [taken_cons_of_refused h]
    · have hrest := ih (s.next b)
      rw [taken_cons h, List.length_cons]
      omega

/-- Exactly the fronts that reach past the taken bytes are rejected. -/
theorem after_take_eq_reject_iff {s : ScanState} (hs : s ≠ reject) (bytes : List UInt8) (n : Nat) :
    s.after (bytes.take n) = reject ↔ s.taken bytes < n ∧ s.taken bytes < bytes.length := by
  induction bytes generalizing s n with
  | nil => simp [hs]
  | cons b rest ih =>
    cases n with
    | zero => simp [hs]
    | succ n =>
      rw [List.take_succ_cons, after_cons]
      by_cases h : s.next b = reject
      · simp [taken_cons_of_refused h, h]
      · rw [ih h n, taken_cons h, List.length_cons]
        omega

theorem after_eq_reject_iff {s : ScanState} (hs : s ≠ reject) (bytes : List UInt8) :
    s.after bytes = reject ↔ s.taken bytes < bytes.length := by
  have h := after_take_eq_reject_iff hs bytes bytes.length
  rw [List.take_length] at h
  rw [h, and_self]

theorem taken_of_after_ne_reject {s : ScanState} {bytes : List UInt8}
    (h : s.after bytes ≠ reject) : s.taken bytes = bytes.length := by
  have hs : s ≠ reject := by
    rintro rfl
    exact h (after_reject bytes)
  have hle := taken_le_length s bytes
  have hlt := mt (after_eq_reject_iff hs bytes).mpr h
  omega

/-- A first part that is not rejected is taken whole. -/
theorem taken_append_of_live {s : ScanState} {xs : List UInt8} (h : s.after xs ≠ reject)
    (ys : List UInt8) : s.taken (xs ++ ys) = xs.length + (s.after xs).taken ys := by
  rw [taken_append, taken_of_after_ne_reject h]

/-- What follows a rejection is not looked at. -/
theorem after_append_of_reject {s : ScanState} {xs : List UInt8} (h : s.after xs = reject)
    (ys : List UInt8) : s.after (xs ++ ys) = reject := by
  rw [after_append, h, after_reject]

theorem taken_append_of_reject {s : ScanState} {xs : List UInt8} (h : s.after xs = reject)
    (ys : List UInt8) : s.taken (xs ++ ys) = s.taken xs := by
  rw [taken_append, h, taken_reject, Nat.add_zero]

theorem taken_of_refused {s : ScanState} {front : List UInt8} {b : UInt8}
    (hlive : s.after front ≠ reject) (h : (s.after front).next b = reject) (rest : List UInt8) :
    s.taken (front ++ b :: rest) = front.length := by
  rw [taken_append_of_live hlive, taken_cons_of_refused h, Nat.add_zero]

/-- A byte that is refused after a live part is reported at its index. -/
theorem branchScan_of_refused {s : ScanState} {front : List UInt8} {b : UInt8}
    (hlive : s.after front ≠ reject) (h : (s.after front).next b = reject) (rest : List UInt8) :
    branchScan s (front ++ b :: rest) = ⟨reject, front.length⟩ := by
  have hafter : s.after (front ++ b :: rest) = reject := by
    rw [after_append, after_cons, h, after_reject]
  rw [branchScan_eq, hafter, taken_of_refused hlive h]

theorem within_eq (low high : UInt8) (s : ScanState) (b : UInt8) :
    within low high s b =
      if low.toNat ≤ b.toNat ∧ b.toNat ≤ high.toNat then s else reject := by
  simp only [within, UInt8.le_iff_toNat_le]

/-- The range of a sequence's first byte, by the state it leads to. -/
inductive LeadRange (b : UInt8) : ScanState → Prop
  | ascii (high : b.toNat ≤ 0x7F) : LeadRange b accept
  | refused (h : 0x80 ≤ b.toNat ∧ b.toNat < 0xC2 ∨ 0xF4 < b.toNat) : LeadRange b reject
  | two (low : 0xC2 ≤ b.toNat) (high : b.toNat ≤ 0xDF) : LeadRange b needOne
  | threeE0 (h : b.toNat = 0xE0) : LeadRange b needTwoAfterE0
  | threeEd (h : b.toNat = 0xED) : LeadRange b needTwoAfterEd
  | three (low : 0xE1 ≤ b.toNat) (high : b.toNat ≤ 0xEF) (h : b.toNat ≠ 0xED) :
      LeadRange b needTwo
  | fourF0 (h : b.toNat = 0xF0) : LeadRange b needThreeAfterF0
  | four (low : 0xF1 ≤ b.toNat) (high : b.toNat ≤ 0xF3) : LeadRange b needThree
  | fourF4 (h : b.toNat = 0xF4) : LeadRange b needThreeAfterF4

theorem leadRange_ofLead (b : UInt8) : LeadRange b (ofLead b) := by
  simp only [ofLead, UInt8.le_iff_toNat_le, UInt8.lt_iff_toNat_lt, ← UInt8.toNat_inj,
    UInt8.reduceToNat]
  split
  next high => exact .ascii high
  split
  next h _ => exact .refused (by omega)
  split
  next high => exact .two (by omega) high
  split
  next h => exact .threeE0 h
  split
  next h => exact .threeEd h
  split
  next h high => exact .three (by omega) high h
  split
  next h => exact .fourF0 h
  split
  next high => exact .four (by omega) high
  split
  next h => exact .fourF4 h
  next => exact .refused (by omega)

/-- The later bytes that a state within a sequence takes, and the state they lead to. -/
inductive Expects : ScanState → (low high : Nat) → ScanState → Prop
  | one : Expects needOne 0x80 0xBF accept
  | two : Expects needTwo 0x80 0xBF needOne
  | twoAfterE0 : Expects needTwoAfterE0 0xA0 0xBF needOne
  | twoAfterEd : Expects needTwoAfterEd 0x80 0x9F needOne
  | three : Expects needThree 0x80 0xBF needTwo
  | threeAfterF0 : Expects needThreeAfterF0 0x90 0xBF needTwo
  | threeAfterF4 : Expects needThreeAfterF4 0x80 0x8F needTwo

namespace Expects

variable {s t : ScanState} {low high : Nat}

theorem next_eq (h : Expects s low high t) (b : UInt8) :
    s.next b = if low ≤ b.toNat ∧ b.toNat ≤ high then t else reject := by
  cases h <;> exact within_eq _ _ _ b

theorem next_of_mem (h : Expects s low high t) {b : UInt8} (hb : low ≤ b.toNat ∧ b.toNat ≤ high) :
    s.next b = t := by
  rw [h.next_eq, if_pos hb]

/-- Within a sequence a boundary is only reached by way of an expected byte. -/
theorem exists_cons_of_after (h : Expects s low high t) {bytes : List UInt8}
    (hafter : s.after bytes = accept) :
    ∃ b rest, bytes = b :: rest ∧ (low ≤ b.toNat ∧ b.toNat ≤ high) ∧ t.after rest = accept := by
  cases bytes with
  | nil =>
    change s = accept at hafter
    subst hafter
    cases h
  | cons b rest =>
    rw [after_cons, h.next_eq] at hafter
    split at hafter
    next hb => exact ⟨b, rest, rfl, hb, hafter⟩
    next => simp at hafter

end Expects

end ScanState
end PayloadStream
