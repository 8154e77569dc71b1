import Mathlib.Data.List.Nodup
import PayloadStream.Proofs.MessageStreams

/-!
# The state is what the rest of a message needs

After some bytes, all that matters for the rest is which continuations make the text well-formed.
The state of the automaton decides that, and no two states decide it alike: the shortest ways back
to a boundary, taken from all states together, tell the states apart. So two histories lead to one
state exactly if every continuation completes both or neither, however they were cut into chunks.
-/

namespace PayloadStream

namespace ScanState

/-- The continuation leads from the state to a code point boundary. -/
def Finishes (s : ScanState) (rest : List UInt8) : Prop := s.after rest = accept

instance (s : ScanState) (rest : List UInt8) : Decidable (s.Finishes rest) :=
  inferInstanceAs (Decidable (s.after rest = accept))

/-- Which of the completions of all states finish this one. -/
def signature (s : ScanState) : List Bool := all.map fun u => decide (s.Finishes u.completion)

theorem nodup_signatures : (all.map signature).Nodup := by decide +kernel

theorem signature_injective {s t : ScanState} (h : s.signature = t.signature) : s = t :=
  List.inj_on_of_nodup_map nodup_signatures s.mem_all t.mem_all h

theorem eq_of_finishes_iff {s t : ScanState} (h : ∀ rest, s.Finishes rest ↔ t.Finishes rest) :
    s = t := by
  apply signature_injective
  apply List.map_congr_left
  intro u _
  exact decide_eq_decide.mpr (h u.completion)

end ScanState

open ScanState (accept)

theorem wellFormed_append_iff (bytes rest : List UInt8) :
    WellFormed (bytes ++ rest) ↔ (accept.after bytes).Finishes rest := by
  rw [wellFormed_iff_after, ScanState.after_append]
  rfl

theorem after_eq_iff_wellFormed_append (xs ys : List UInt8) :
    accept.after xs = accept.after ys ↔
      ∀ rest, WellFormed (xs ++ rest) ↔ WellFormed (ys ++ rest) := by
  constructor
  · intro h rest
    rw [wellFormed_append_iff, wellFormed_append_iff, h]
  · intro h
    apply ScanState.eq_of_finishes_iff
    intro rest
    rw [← wellFormed_append_iff, ← wellFormed_append_iff]
    exact h rest

namespace Validator

variable {level level' : VectorLevel} {v w : Validator}

/-- The state after a history, however it was cut and by whatever tiers it was read, is the same as
after another one exactly if the same continuations make both well-formed. -/
theorem state_stream_eq_iff (h : Initial level v) (h' : Initial level' w)
    (calls calls' : List StreamCall) :
    (v.stream level calls).state = (w.stream level' calls').state ↔
      ∀ rest, WellFormed (message calls ++ rest) ↔ WellFormed (message calls' ++ rest) := by
  have hv := (hasRead_stream level v calls).state_eq
  have hw := (hasRead_stream level' w calls').state_eq
  rw [h.state_eq] at hv
  rw [h'.state_eq] at hw
  rw [hv, hw]
  exact after_eq_iff_wellFormed_append (message calls) (message calls')

/-- A sequence of four bytes of which two were read, and one of three of which one was read. -/
theorem state_stream_two_bytes_left :
    Initial .sse41 (automatic .sse41) ∧ Initial .scalar (ofOptions .scalar ⟨some .table⟩) ∧
      ((automatic .sse41).stream .sse41
          [.chunk ⟨[0x61, 0xF0], 3⟩, .tier 2, .chunk ⟨[0x90], 0⟩]).state =
        ((ofOptions .scalar ⟨some .table⟩).stream .scalar [.chunk ⟨[0xE1], 0⟩]).state ∧
      ∀ rest, WellFormed ([0x61, 0xF0, 0x90] ++ rest) ↔ WellFormed ([0xE1] ++ rest) := by
  have hv : Initial .sse41 (automatic .sse41) := .automatic
  have hw : Initial .scalar (ofOptions .scalar ⟨some .table⟩) := .ofOptions _
  have hstate :
      ((automatic .sse41).stream .sse41
          [.chunk ⟨[0x61, 0xF0], 3⟩, .tier 2, .chunk ⟨[0x90], 0⟩]).state =
        ((ofOptions .scalar ⟨some .table⟩).stream .scalar [.chunk ⟨[0xE1], 0⟩]).state := by
    decide +kernel
  exact ⟨hv, hw, hstate, (state_stream_eq_iff hv hw _ _).mp hstate⟩

end Validator

end PayloadStream
