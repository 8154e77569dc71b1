import PayloadStream.ValidatorRun
import PayloadStream.Proofs.CheckpointSimulation
import PayloadStream.Proofs.MessageVerdicts

/-!
# Tiers cannot be observed

Two validators that agree on all but the tier answer alike: every call's effect on the state and
the counters is one equation that has no tier in it. The agreement is a simulation, so it holds
step by step all along two runs on different processors, with other tiers asked for at any point,
also within a code point and after a rejection, and with known codes in one run where the other
has unknown ones.
-/

namespace PayloadStream

/-- Equal calls, apart from the tier that is asked for and from where the bytes are in memory. -/
inductive ValidatorCall.SameButTier : ValidatorCall → ValidatorCall → Prop
  | validate (bytes : List UInt8) (o o' : Fin 16) :
      SameButTier (.validate ⟨bytes, o⟩) (.validate ⟨bytes, o'⟩)
  | complete (bytes : List UInt8) (o o' : Fin 16) :
      SameButTier (.complete ⟨bytes, o⟩) (.complete ⟨bytes, o'⟩)
  | reset : SameButTier .reset .reset
  | selectTier (code code' : UInt8) : SameButTier (.selectTier code) (.selectTier code')

def ValidatorReply.verdict? : ValidatorReply → Option Verdict
  | verdict v => some v
  | _ => none

/-- Replies with one verdict, or without any. -/
def ValidatorReply.SameVerdict (r r' : ValidatorReply) : Prop := r.verdict? = r'.verdict?

/-- What a caller can ask of a run after a step, leaving out the tier. -/
structure Observation where
  verdict : Option Verdict
  state : ScanState
  rejected : Bool
  current : UInt64
  total : UInt64
deriving DecidableEq

def observe (after : Option ValidatorReply × Validator) : Observation where
  verdict := after.1.bind ValidatorReply.verdict?
  state := after.2.state
  rejected := after.2.rejected
  current := after.2.current
  total := after.2.total

namespace Validator

variable {level level' : VectorLevel} {v w : Validator}

/-- Equal validators, apart from the tier. -/
structure SameButTier (v w : Validator) : Prop where
  state_eq : v.state = w.state
  current_eq : v.current = w.current
  total_eq : v.total = w.total

namespace SameButTier

theorem verdict_eq (h : SameButTier v w) : v.verdict = w.verdict := by
  simp only [verdict, h.state_eq, h.current_eq, h.total_eq]

theorem feed (h : SameButTier v w) (bytes : List UInt8) (o o' : Fin 16) :
    SameButTier (v.feed level ⟨bytes, o⟩) (w.feed level' ⟨bytes, o'⟩) := by
  constructor
  · rw [state_feed, state_feed, h.state_eq]
  · rw [current_feed, current_feed, h.state_eq]
  · rw [total_feed, total_feed, h.state_eq, h.total_eq]

theorem finish (h : SameButTier v w) : SameButTier v.finish w.finish := by
  simp only [Validator.finish, h.verdict_eq]
  split
  · exact ⟨rfl, h.current_eq, h.total_eq⟩
  · exact h

theorem selectTier (h : SameButTier v w) (code : UInt8) :
    SameButTier (v.answer level (.selectTier code)).2 w := by
  rw [answer]
  split
  · exact ⟨h.state_eq, h.current_eq, h.total_eq⟩
  · exact h

theorem symm (h : SameButTier v w) : SameButTier w v :=
  ⟨h.state_eq.symm, h.current_eq.symm, h.total_eq.symm⟩

theorem observe_eq (h : SameButTier v w) {r r' : Option ValidatorReply}
    (hr : Option.Rel ValidatorReply.SameVerdict r r') :
    observe (r, v) = observe (r', w) := by
  have hverdict : r.bind ValidatorReply.verdict? = r'.bind ValidatorReply.verdict? := by
    cases hr with
    | none => rfl
    | some hverdict => exact hverdict
  simp only [observe, hverdict, rejected, h.state_eq, h.current_eq, h.total_eq]

end SameButTier

theorem verdict?_selectTier (level : VectorLevel) (v : Validator) (code : UInt8) :
    (v.answer level (.selectTier code)).1.verdict? = none := by
  rw [answer]
  split <;> rfl

/-- Agreement on all but the tier is kept by every call, and the verdicts are the same. -/
theorem simulates_sameButTier (level level' : VectorLevel) :
    Checkpointed.Simulates (answer level) (answer level') ValidatorCall.SameButTier
      ValidatorReply.SameVerdict SameButTier := by
  intro v w call call' h hcall
  cases hcall with
  | validate bytes o o' =>
    have hfeed : SameButTier (v.feed level ⟨bytes, o⟩) (w.feed level' ⟨bytes, o'⟩) :=
      h.feed bytes o o'
    exact ⟨congrArg some hfeed.verdict_eq, hfeed⟩
  | complete bytes o o' =>
    have hfinish :
        SameButTier (v.feed level ⟨bytes, o⟩).finish (w.feed level' ⟨bytes, o'⟩).finish :=
      (h.feed bytes o o').finish
    exact ⟨congrArg some hfinish.verdict_eq, hfinish⟩
  | reset => exact ⟨rfl, rfl, rfl, rfl⟩
  | selectTier code code' =>
    have hv := verdict?_selectTier level v code
    have hw := verdict?_selectTier level' w code'
    exact ⟨hv.trans hw.symm, ((h.selectTier code).symm.selectTier code').symm⟩

/-- Two runs of fresh validators that differ in the processor and in all the tiers asked for cannot
be told apart, step by step, by verdicts, state or counters. -/
theorem trace_observe_eq (level level' : VectorLevel) (request request' : Option ScanTier)
    {steps steps' : List (RunStep ValidatorCall)}
    (hsteps : List.Forall₂ (RunStep.Rel ValidatorCall.SameButTier) steps steps') :
    ((ofOptions level ⟨request⟩).trace level steps).map observe =
      ((ofOptions level' ⟨request'⟩).trace level' steps').map observe := by
  have hstart : SameButTier (ofOptions level ⟨request⟩) (ofOptions level' ⟨request'⟩) :=
    ⟨rfl, rfl, rfl⟩
  have htrace := (simulates_sameButTier level level').trace
    (Checkpointed.related_start hstart) hsteps
  rw [← List.forall₂_eq_eq_eq, List.forall₂_map_left_iff, List.forall₂_map_right_iff]
  exact htrace.imp fun _ _ h => h.2.observe_eq h.1

/-- Within a code point one run takes the table while the other asks for an unknown tier. -/
theorem trace_observe_cut_sequence :
    List.Forall₂ (RunStep.Rel ValidatorCall.SameButTier)
      [.act (.validate ⟨[0x61, 0xE2], 3⟩), .act (.selectTier 1), .save, .act (.complete ⟨[], 0⟩),
        .restore, .act (.validate ⟨[0xFF], 0⟩)]
      [.act (.validate ⟨[0x61, 0xE2], 0⟩), .act (.selectTier 200), .save, .act (.complete ⟨[], 0⟩),
        .restore, .act (.validate ⟨[0xFF], 9⟩)] ∧
    ((ofOptions .sse41 ⟨none⟩).trace .sse41
      [.act (.validate ⟨[0x61, 0xE2], 3⟩), .act (.selectTier 1), .save, .act (.complete ⟨[], 0⟩),
        .restore, .act (.validate ⟨[0xFF], 0⟩)]).map observe =
    ((ofOptions .scalar ⟨some .sse2⟩).trace .scalar
      [.act (.validate ⟨[0x61, 0xE2], 0⟩), .act (.selectTier 200), .save, .act (.complete ⟨[], 0⟩),
        .restore, .act (.validate ⟨[0xFF], 9⟩)]).map observe := by
  have hsteps : List.Forall₂ (RunStep.Rel ValidatorCall.SameButTier)
      [.act (.validate ⟨[0x61, 0xE2], 3⟩), .act (.selectTier 1), .save, .act (.complete ⟨[], 0⟩),
        .restore, .act (.validate ⟨[0xFF], 0⟩)]
      [.act (.validate ⟨[0x61, 0xE2], 0⟩), .act (.selectTier 200), .save, .act (.complete ⟨[], 0⟩),
        .restore, .act (.validate ⟨[0xFF], 9⟩)] :=
    .cons (.act (.validate _ _ _)) <| .cons (.act (.selectTier _ _)) <| .cons .save <|
      .cons (.act (.complete _ _ _)) <| .cons .restore <| .cons (.act (.validate _ _ _)) .nil
  exact ⟨hsteps, trace_observe_eq .sse41 .scalar none (some .sse2) hsteps⟩

end Validator

end PayloadStream
