import PayloadStream.Proofs.RunInvariants
import PayloadStream.Proofs.TierIndependence

/-!
# The counters of a validator

A history keeps, beside a run, the chunks that a validator was given since its last reset and the
current counter that each call left; restoring a validator brings its history back. The total is
always the sum of what the calls left. While nothing is rejected, every call leaves the length of
its chunk, so the total is the length of the text. A rejection ends that: at the offending byte, or
behind the last one where the message ends within a code point. From there on every call leaves
zero, and the total stays.
-/

namespace PayloadStream

open ScanState (accept reject)

/-- What a validator was given since its last reset, and the current counter after each chunk. -/
inductive ReadHistory where
  | fresh
  | read (earlier : ReadHistory) (bytes : List UInt8) (left : UInt64)

namespace ReadHistory

/-- The bytes of all chunks in order. -/
def text : ReadHistory → List UInt8
  | fresh => []
  | read earlier bytes _ => earlier.text ++ bytes

/-- The sum of the counters that the calls left. -/
def counted : ReadHistory → Nat
  | fresh => 0
  | read earlier _ left => earlier.counted + left.toNat

/-- The length of the last chunk, if there is one. -/
def lastLength : ReadHistory → Nat
  | fresh => 0
  | read _ bytes _ => bytes.length

theorem lastLength_le (h : ReadHistory) : h.lastLength ≤ h.text.length := by
  cases h with
  | fresh => exact Nat.le_refl 0
  | read earlier bytes left =>
    change bytes.length ≤ (earlier.text ++ bytes).length
    rw [List.length_append]
    exact Nat.le_add_left _ _

/-- The counters of a validator are those that its history tells. -/
structure Agrees (h : ReadHistory) (v : Validator) : Prop where
  total_eq_counted : v.total.toNat = h.counted
  total_eq_length : v.rejected = false → v.total.toNat = h.text.length
  current_eq_length : v.rejected = false → v.current.toNat = h.lastLength

end ReadHistory

namespace ValidatorCall

/-- The call reads this chunk. -/
inductive Reads : ValidatorCall → Buffer → Prop
  | validate (b : Buffer) : Reads (.validate b) b
  | complete (b : Buffer) : Reads (.complete b) b

/-- The history after a call that left this current counter. -/
def note (left : UInt64) (h : ReadHistory) : ValidatorCall → ReadHistory
  | validate b => h.read b.bytes left
  | complete b => h.read b.bytes left
  | reset => .fresh
  | selectTier _ => h

end ValidatorCall

/-- A validator and its history. -/
structure Recorded where
  validator : Validator
  history : ReadHistory

def Recorded.answer (level : VectorLevel) (r : Recorded) (call : ValidatorCall) :
    ValidatorReply × Recorded :=
  let after := (r.validator.answer level call).2
  ((r.validator.answer level call).1, ⟨after, call.note after.current r.history⟩)

namespace Validator

variable {level : VectorLevel} {v w : Validator} {call : ValidatorCall} {b : Buffer}

/-- The history of the live validator after a run that starts with no history. -/
def historyAfter (level : VectorLevel) (v : Validator) (steps : List (RunStep ValidatorCall)) :
    ReadHistory :=
  ((Checkpointed.start ⟨v, .fresh⟩).run (Recorded.answer level) steps).live.history

/-- The verdict on a call is what the validator shows after it. -/
structure Reports (v : Validator) (verdict : Verdict) : Prop where
  valid_iff : verdict = .valid ↔ v.state = accept
  isInvalid_iff : verdict.isInvalid = true ↔ v.state = reject
  counters : ∀ offset total, verdict = .invalid offset total →
    offset = v.current ∧ total = v.total

theorem reports_verdict (v : Validator) : Reports v v.verdict := by
  refine ⟨verdict_eq_valid_iff, ?_, ?_⟩
  · rw [isInvalid_verdict, rejected_eq_true_iff]
  · intro offset total h
    obtain ⟨-, hcurrent, htotal⟩ := verdict_eq_invalid_iff.mp h
    exact ⟨hcurrent.symm, htotal.symm⟩

section Reading

variable (h : call.Reads b) (level : VectorLevel) (w : Validator)

include h

theorem verdict_of_reads :
    (w.answer level call).1 = .verdict (w.answer level call).2.verdict := by
  cases h <;> rfl

theorem current_of_reads :
    (w.answer level call).2.current = (w.state.taken b.bytes).toUInt64 := by
  cases h with
  | validate => exact current_feed level w b
  | complete => exact (current_finish _).trans (current_feed level w b)

theorem total_of_reads :
    (w.answer level call).2.total = w.total + (w.state.taken b.bytes).toUInt64 := by
  cases h with
  | validate => exact total_feed level w b
  | complete => exact (total_finish _).trans (total_feed level w b)

/-- A state that is no rejection is that of the automaton: only a rejection is written into it. -/
theorem state_of_reads (hlive : (w.answer level call).2.state ≠ reject) :
    (w.answer level call).2.state = w.state.after b.bytes := by
  cases h with
  | validate => exact state_feed level w b
  | complete =>
    have hfinish := state_finish (w.feed level b)
    change (w.feed level b).finish.state ≠ reject at hlive
    change (w.feed level b).finish.state = w.state.after b.bytes
    split at hfinish
    next haccept => rw [hfinish, ← haccept, state_feed]
    next => exact absurd hfinish hlive

theorem note_of_reads (left : UInt64) (past : ReadHistory) :
    call.note left past = past.read b.bytes left := by
  cases h <;> rfl

end Reading

end Validator

namespace Recorded

variable {level : VectorLevel} {r : Recorded}

/-- The invariant of a run with history. The words may wrap, the sums may not. -/
structure Sound (r : Recorded) : Prop where
  total_eq : r.validator.total = r.history.counted.toUInt64
  counted_le : r.history.counted ≤ r.history.text.length
  state_eq : r.validator.state ≠ reject → r.validator.state = accept.after r.history.text
  live_total : r.validator.state ≠ reject → r.validator.total = r.history.text.length.toUInt64
  live_current : r.validator.state ≠ reject →
    r.validator.current = r.history.lastLength.toUInt64

namespace Sound

theorem start {v : Validator} (h : Validator.Initial level v) : Sound ⟨v, .fresh⟩ := by
  refine ⟨h.total_eq, Nat.le_refl _, fun _ => h.state_eq, fun _ => h.total_eq, fun _ => ?_⟩
  cases h <;> rfl

theorem read (h : Sound r) {call : ValidatorCall} {b : Buffer} (hcall : call.Reads b)
    (level : VectorLevel) : Sound (r.answer level call).2 := by
  have hcurrent := Validator.current_of_reads hcall level r.validator
  have htotal := Validator.total_of_reads hcall level r.validator
  have hstate := Validator.state_of_reads hcall level r.validator
  have htaken := r.validator.state.taken_le_length b.bytes
  -- A validator that is not rejected after the call was not before it, and took the whole chunk.
  have hbefore : (r.validator.answer level call).2.state ≠ reject →
      r.validator.state ≠ reject ∧ r.validator.state.taken b.bytes = b.bytes.length := by
    intro hlive
    have hafter : r.validator.state.after b.bytes ≠ reject := hstate hlive ▸ hlive
    refine ⟨?_, ScanState.taken_of_after_ne_reject hafter⟩
    intro hreject
    rw [hreject] at hafter
    exact hafter (ScanState.after_reject b.bytes)
  rw [answer, Validator.note_of_reads hcall]
  generalize (r.validator.answer level call).2 = u at hcurrent htotal hstate hbefore
  refine ⟨?_, ?_, ?_, ?_, ?_⟩
  · change u.total = (r.history.counted + u.current.toNat).toUInt64
    rw [htotal, ← hcurrent, h.total_eq, Nat.toUInt64_eq, Nat.toUInt64_eq, UInt64.ofNat_add,
      UInt64.ofNat_toNat]
  · change r.history.counted + u.current.toNat ≤ (r.history.text ++ b.bytes).length
    have hle : u.current.toNat ≤ r.validator.state.taken b.bytes := by
      rw [hcurrent]
      exact Nat.mod_le _ _
    have hcounted := h.counted_le
    rw [List.length_append]
    omega
  · intro hlive
    change u.state = accept.after (r.history.text ++ b.bytes)
    rw [hstate hlive, ScanState.after_append, h.state_eq (hbefore hlive).1]
  · intro hlive
    change u.total = (r.history.text ++ b.bytes).length.toUInt64
    rw [htotal, h.live_total (hbefore hlive).1, (hbefore hlive).2, List.length_append]
    exact (UInt64.ofNat_add _ _).symm
  · intro hlive
    change u.current = b.bytes.length.toUInt64
    rw [hcurrent, (hbefore hlive).2]

/-- Another tier changes neither the counters nor the history. -/
theorem sameButTier (h : Sound r) {v : Validator} (hsame : v.SameButTier r.validator) :
    Sound ⟨v, r.history⟩ := by
  have hstate := hsame.state_eq
  refine ⟨hsame.total_eq.trans h.total_eq, h.counted_le, ?_, ?_, ?_⟩
  · intro hlive
    exact hstate.trans (h.state_eq (hstate ▸ hlive))
  · intro hlive
    exact hsame.total_eq.trans (h.live_total (hstate ▸ hlive))
  · intro hlive
    exact hsame.current_eq.trans (h.live_current (hstate ▸ hlive))

theorem preserves (level : VectorLevel) : Checkpointed.Preserves (answer level) Sound := by
  intro r call h
  cases call with
  | validate b => exact h.read (.validate b) level
  | complete b => exact h.read (.complete b) level
  | reset =>
    have hinitial : Validator.Initial level r.validator.reset := .reset r.validator
    exact .start hinitial
  | selectTier code => exact h.sameButTier (.selectTier ⟨rfl, rfl, rfl⟩ code)

theorem agrees (h : Sound r) (hlength : r.history.text.length < UInt64.size) :
    r.history.Agrees r.validator := by
  have hcounted := Nat.lt_of_le_of_lt h.counted_le hlength
  refine ⟨?_, ?_, ?_⟩
  · rw [h.total_eq]
    exact UInt64.toNat_ofNat_of_lt' hcounted
  · intro hlive
    rw [h.live_total (Validator.rejected_eq_false_iff.mp hlive)]
    exact UInt64.toNat_ofNat_of_lt' hlength
  · intro hlive
    rw [h.live_current (Validator.rejected_eq_false_iff.mp hlive)]
    exact UInt64.toNat_ofNat_of_lt' (Nat.lt_of_le_of_lt r.history.lastLength_le hlength)

end Sound

/-- Keeping a history changes nothing about the validator. -/
theorem simulates_validator (level : VectorLevel) :
    Checkpointed.Simulates (answer level) (Validator.answer level) (· = ·) (· = ·)
      (fun r v => r.validator = v) := by
  rintro r _ call _ rfl rfl
  exact ⟨rfl, rfl⟩

end Recorded

namespace Validator

variable {level : VectorLevel} {v w : Validator} {call : ValidatorCall} {b : Buffer}

theorem sound_run (h : Initial level v) (steps : List (RunStep ValidatorCall)) :
    Recorded.Sound ⟨((Checkpointed.start v).run (answer level) steps).live,
      historyAfter level v steps⟩ := by
  have hsame := ((Recorded.simulates_validator level).run
    (Checkpointed.related_start (show (Recorded.mk v .fresh).validator = v from rfl))
    (RunStep.forall₂_rel_eq steps)).live
  have hsound := ((Checkpointed.throughout_start (Recorded.Sound.start h)).run
    (Recorded.Sound.preserves level) steps).live
  rwa [← hsame]

/-- Where a call rejects: at the first byte that no text allows, or behind a message that ends
within a code point. -/
theorem place_of_rejection {past : ReadHistory} (h : Recorded.Sound ⟨w, past⟩)
    (hcall : call.Reads b) (hlive : w.state ≠ reject)
    (hlength : (past.text ++ b.bytes).length < UInt64.size) {offset total : UInt64}
    (hinvalid : (w.answer level call).2.verdict = .invalid offset total) :
    offset.toNat < b.bytes.length ∧ ¬ Viable (past.text ++ b.bytes) ∨
      offset.toNat = b.bytes.length ∧ call = .complete b ∧ Viable (past.text ++ b.bytes) ∧
        ¬ WellFormed (past.text ++ b.bytes) := by
  obtain ⟨hreject, rfl, -⟩ := verdict_eq_invalid_iff.mp hinvalid
  have hb : b.bytes.length < UInt64.size := by
    rw [List.length_append] at hlength
    omega
  have hafter : accept.after (past.text ++ b.bytes) = w.state.after b.bytes := by
    rw [ScanState.after_append, ← h.state_eq hlive]
  rw [current_of_reads hcall, toNat_taken _ hb, viable_iff_after, wellFormed_iff_after, hafter,
    not_not]
  by_cases hchunk : w.state.after b.bytes = reject
  · exact .inl ⟨(ScanState.after_eq_reject_iff hlive b.bytes).mp hchunk, hchunk⟩
  · refine .inr ⟨ScanState.taken_of_after_ne_reject hchunk, ?_⟩
    cases hcall with
    | validate =>
      change (w.feed level b).state = reject at hreject
      rw [state_feed] at hreject
      exact absurd hreject hchunk
    | complete =>
      refine ⟨rfl, hchunk, ?_⟩
      intro haccept
      change (w.feed level b).finish.state = reject at hreject
      rw [state_finish, state_feed, if_pos haccept] at hreject
      cases hreject

/-- A rejected validator with this total. -/
structure Stuck (total : UInt64) (v : Validator) : Prop where
  state_eq : v.state = reject
  total_eq : v.total = total

namespace Stuck

variable {total : UInt64}

theorem feed (h : Stuck total v) (level : VectorLevel) (b : Buffer) :
    Stuck total (v.feed level b) := by
  constructor
  · rw [state_feed, h.state_eq, ScanState.after_reject]
  · rw [total_feed, h.state_eq, ScanState.taken_reject, h.total_eq]
    exact UInt64.add_zero total

theorem finish (h : Stuck total v) : Stuck total v.finish := by
  constructor
  · rw [state_finish, h.state_eq]
    rfl
  · rw [total_finish, h.total_eq]

theorem answer (h : Stuck total v) (level : VectorLevel) (hcall : call ≠ .reset) :
    Stuck total (v.answer level call).2 := by
  cases call with
  | validate b => exact h.feed level b
  | complete b => exact (h.feed level b).finish
  | reset => exact absurd rfl hcall
  | selectTier code =>
    have hsame : SameButTier (v.answer level (.selectTier code)).2 v :=
      .selectTier ⟨rfl, rfl, rfl⟩ code
    exact ⟨hsame.state_eq.trans h.state_eq, hsame.total_eq.trans h.total_eq⟩

theorem verdict_eq (h : Stuck total v) (level : VectorLevel) (hcall : call.Reads b) :
    (v.answer level call).1 = .verdict (.invalid 0 total) := by
  have hne : call ≠ .reset := by
    rintro rfl
    cases hcall
  have hafter := h.answer level hne
  have hcurrent := current_of_reads hcall level v
  rw [h.state_eq, ScanState.taken_reject] at hcurrent
  rw [verdict_of_reads hcall]
  exact congrArg ValidatorReply.verdict
    (verdict_eq_invalid_iff.mpr ⟨hafter.state_eq, hcurrent, hafter.total_eq⟩)

end Stuck

/-- At every point of every run the counters are those of the history, the verdict on the next chunk
is what the validator shows after it, and a rejection is placed within that chunk, or behind it if
the message was to end there within a code point. Once rejected, a validator answers every chunk
alike until it is reset or another one is restored. -/
theorem counters_follow_history (h : Initial level v) (before : List (RunStep ValidatorCall)) :
    let m := (Checkpointed.start v).run (answer level) before
    let past := historyAfter level v before
    (past.text.length < UInt64.size → past.Agrees m.live) ∧
    (∀ (call : ValidatorCall) (b : Buffer), call.Reads b →
      ∃ verdict, (m.live.answer level call).1 = .verdict verdict ∧
        Reports (m.live.answer level call).2 verdict ∧
        (m.live.rejected = false → (past.text ++ b.bytes).length < UInt64.size →
          ∀ offset total, verdict = .invalid offset total →
            offset.toNat < b.bytes.length ∧ ¬ Viable (past.text ++ b.bytes) ∨
            offset.toNat = b.bytes.length ∧ call = .complete b ∧
              Viable (past.text ++ b.bytes) ∧ ¬ WellFormed (past.text ++ b.bytes))) ∧
    (m.live.rejected = true →
      ∀ onward : List (RunStep ValidatorCall), (∀ s ∈ onward, s.Onward (· ≠ .reset)) →
        let later := (m.run (answer level) onward).live
        later.state = reject ∧ later.total = m.live.total ∧
          ∀ (call : ValidatorCall) (b : Buffer), call.Reads b →
            (later.answer level call).1 = .verdict (.invalid 0 m.live.total)) := by
  intro m past
  have hsound : Recorded.Sound ⟨m.live, past⟩ := sound_run h before
  refine ⟨hsound.agrees, ?_, ?_⟩
  · intro call b hcall
    refine ⟨_, verdict_of_reads hcall level m.live, reports_verdict _, ?_⟩
    intro hlive hlength offset total hinvalid
    exact place_of_rejection hsound hcall (rejected_eq_false_iff.mp hlive) hlength hinvalid
  · intro hrejected onward honward later
    have hstart : Stuck m.live.total m.live := ⟨rejected_eq_true_iff.mp hrejected, rfl⟩
    have hlater : Stuck m.live.total later :=
      Checkpointed.live_run_of_onward (fun _ _ hcall hstuck => hstuck.answer level hcall) hstart
        honward
    exact ⟨hlater.state_eq, hlater.total_eq, fun call b hcall => hlater.verdict_eq level hcall⟩

/-- The end of a message is taken back, and comes again. It is within a code point both times, and
the second time the rejection stays. -/
theorem counters_after_restored_end :
    let before : List (RunStep ValidatorCall) := [.act (.validate ⟨[0x61, 0xE2], 3⟩), .save,
      .act (.complete ⟨[0x82], 0⟩), .restore]
    let onward : List (RunStep ValidatorCall) := [.act (.selectTier 1), .save,
      .act (.validate ⟨[0xAC], 0⟩)]
    let m := (Checkpointed.start (automatic .sse41)).run (answer .sse41) before
    let stuck := (Checkpointed.start (automatic .sse41)).run (answer .sse41)
      (before ++ [.act (.complete ⟨[0x82], 0⟩)])
    Initial .sse41 (automatic .sse41) ∧
    (historyAfter .sse41 (automatic .sse41) before).text.length < UInt64.size ∧
    m.live.rejected = false ∧ m.live.total.toNat = 2 ∧ m.live.current.toNat = 2 ∧
    ValidatorCall.Reads (.complete ⟨[0x82], 0⟩) ⟨[0x82], 0⟩ ∧
    (m.live.answer .sse41 (.complete ⟨[0x82], 0⟩)).1 = .verdict (.invalid 1 3) ∧
    Viable [0x61, 0xE2, 0x82] ∧ ¬ WellFormed [0x61, 0xE2, 0x82] ∧
    stuck.live.rejected = true ∧ (∀ s ∈ onward, s.Onward (· ≠ .reset)) ∧
    ((stuck.run (answer .sse41) onward).live.answer .sse41 (.complete ⟨[0x82], 0⟩)).1 =
      .verdict (.invalid 0 3) := by
  intro before onward m stuck
  have hstart : Initial .sse41 (automatic .sse41) := .automatic
  have hlength : (historyAfter .sse41 (automatic .sse41) before).text.length < UInt64.size := by
    decide
  have hlive : m.live.rejected = false := by decide
  have hreads : ValidatorCall.Reads (.complete ⟨[0x82], 0⟩) ⟨[0x82], 0⟩ := .complete _
  have hverdict : (m.live.answer .sse41 (.complete ⟨[0x82], 0⟩)).1 = .verdict (.invalid 1 3) := rfl
  have hstuck : stuck.live.rejected = true := by decide
  have honward : ∀ s ∈ onward, s.Onward (· ≠ .reset) := by
    intro s hs
    simp only [onward, List.mem_cons, List.not_mem_nil, or_false] at hs
    rcases hs with rfl | rfl | rfl
    · exact .act (by simp)
    · exact .save
    · exact .act (by simp)
  obtain ⟨hagrees, hcall, -⟩ := counters_follow_history hstart before
  obtain ⟨-, -, hstays⟩ := counters_follow_history hstart
    (before ++ [.act (.complete ⟨[0x82], 0⟩)])
  obtain ⟨-, -, hreplies⟩ := hstays hstuck onward honward
  obtain ⟨verdict, hreply, -, hplace⟩ := hcall _ _ hreads
  obtain rfl : Verdict.invalid 1 3 = verdict :=
    ValidatorReply.verdict.inj (hverdict.symm.trans hreply)
  rcases hplace hlive (by decide) 1 3 rfl with ⟨hlt, -⟩ | ⟨-, -, hviable, hwf⟩
  · exact absurd hlt (by decide)
  · exact ⟨hstart, hlength, hlive, (hagrees hlength).total_eq_length hlive,
      (hagrees hlength).current_eq_length hlive, hreads, hverdict, hviable, hwf, hstuck, honward,
      hreplies _ _ hreads⟩

end Validator

end PayloadStream
