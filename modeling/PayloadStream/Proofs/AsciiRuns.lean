import PayloadStream.Proofs.MessageVerdicts

/-!
# Runs of ASCII bytes

On a boundary the automaton takes ASCII bytes and stays there; within a sequence it refuses them. So
a run of ASCII bytes may be put into a text at every boundary, where it only moves the bytes behind
it further on, and it breaks the text at every other place. Behind a rejection it is not looked at.
The vector code rests on this where it skips blocks, and the statements here are for runs of any
length at any place.
-/

namespace PayloadStream

open ScanState (accept reject)

/-- Verdicts of one kind. The second has the places of a rejection `n` bytes further on. -/
inductive Verdict.FurtherBy (n : Nat) : Verdict → Verdict → Prop
  | valid : FurtherBy n valid valid
  | incomplete : FurtherBy n incomplete incomplete
  | invalid {o o' t t' : UInt64} (offset_eq : o'.toNat = o.toNat + n)
      (total_eq : t'.toNat = t.toNat + n) : FurtherBy n (invalid o t) (invalid o' t')

/-- The places that a rejection has further on, if they fit a word. -/
theorem Verdict.FurtherBy.eq_invalid {n : Nat} {o o' t t' : UInt64} {v : Verdict}
    (h : FurtherBy n (.invalid o t) v) (ho : o.toNat + n = o'.toNat)
    (ht : t.toNat + n = t'.toNat) : v = .invalid o' t' := by
  cases h with
  | invalid hoffset htotal =>
    rw [UInt64.toNat_inj.mp (hoffset.trans ho), UInt64.toNat_inj.mp (htotal.trans ht)]

namespace ScanState

variable {s : ScanState} {front run : List UInt8}

theorem next_of_ascii (haccept : s ≠ accept) {b : UInt8} (hb : b ≤ 0x7F) : s.next b = reject := by
  by_contra hlive
  have hrefused := next_accept_of_next haccept hlive
  rw [next_accept_of_ascii hb] at hrefused
  cases hrefused

section Boundary

variable (hfront : s.after front = accept) (hrun : ∀ b ∈ run, b ≤ 0x7F)

include hfront hrun

/-- A run at a boundary leaves the state of all that follows. -/
theorem after_append_run (rest : List UInt8) :
    s.after (front ++ run ++ rest) = s.after (front ++ rest) := by
  rw [after_append, after_append, hfront, after_accept_of_ascii hrun, after_append, hfront]

/-- A run at a boundary is taken whole. -/
theorem taken_append_run (rest : List UInt8) :
    s.taken (front ++ run ++ rest) = s.taken (front ++ rest) + run.length := by
  have hlive : s.after front ≠ reject := by
    rw [hfront]
    decide
  have hlive' : s.after (front ++ run) ≠ reject := by
    rw [after_append, hfront, after_accept_of_ascii hrun]
    decide
  rw [taken_append_of_live hlive', taken_append_of_live hlive, after_append, hfront,
    after_accept_of_ascii hrun, List.length_append]
  omega

end Boundary

/-- A run within a sequence is refused at its first byte. -/
theorem branchScan_append_run (haccept : s.after front ≠ accept)
    (hlive : s.after front ≠ reject) (hne : run ≠ []) (hrun : ∀ b ∈ run, b ≤ 0x7F)
    (rest : List UInt8) :
    branchScan s (front ++ run ++ rest) = ⟨reject, front.length⟩ := by
  obtain ⟨b, tail, rfl⟩ := List.exists_cons_of_ne_nil hne
  have hrefused := next_of_ascii haccept (hrun b List.mem_cons_self)
  rw [List.append_assoc, List.cons_append]
  exact branchScan_of_refused hlive hrefused (tail ++ rest)

end ScanState

namespace Validator

variable {level level' level'' : VectorLevel} {u v w : Validator}

/-- Bytes that lead to one state have verdicts of one kind, as far apart as the bytes taken. -/
theorem Initial.furtherBy_of_after_eq (h : Initial level v) (h' : Initial level' w) {b b' : Buffer}
    {n : Nat} (hword : b'.bytes.length < UInt64.size)
    (hafter : accept.after b'.bytes = accept.after b.bytes)
    (htaken : accept.taken b'.bytes = accept.taken b.bytes + n) :
    (v.validate level b).1.FurtherBy n (w.validate level' b').1 := by
  by_cases hreject : accept.after b.bytes = reject
  · rw [h.validate_of_refused hreject, h'.validate_of_refused (hafter.trans hreject)]
    have hplace : (accept.taken b'.bytes).toUInt64.toNat =
        (accept.taken b.bytes).toUInt64.toNat + n := by
      have hle := accept.taken_le_length b'.bytes
      have hshorter : accept.taken b.bytes < UInt64.size := by omega
      rw [toNat_taken _ hword, htaken]
      exact congrArg (· + n) (UInt64.toNat_ofNat_of_lt' hshorter).symm
    exact .invalid hplace hplace
  by_cases haccept : accept.after b.bytes = accept
  · rw [h.validate_of_boundary haccept, h'.validate_of_boundary (hafter.trans haccept)]
    exact .valid
  · rw [h.validate_of_within haccept hreject]
    rw [← hafter] at haccept hreject
    rw [h'.validate_of_within haccept hreject]
    exact .incomplete

/-- A run of ASCII bytes behind some bytes. At a boundary it changes neither the kind of the verdict
nor the state, and a rejection behind it is reported further on by its length. Within a sequence it
is a rejection at its first byte, whatever it holds and whatever follows. A rejection before it
stays as it is. -/
theorem validate_ascii_run (hfront : Initial level v) (hplain : Initial level' u)
    (hlonger : Initial level'' w) {front run rest : List UInt8} (hne : run ≠ [])
    (hrun : ∀ b ∈ run, b ≤ 0x7F) (hword : (front ++ run ++ rest).length < UInt64.size)
    (o o' o'' : Fin 16) :
    let before := v.validate level ⟨front, o⟩
    let plain := u.validate level' ⟨front ++ rest, o'⟩
    let longer := w.validate level'' ⟨front ++ run ++ rest, o''⟩
    (before.1 = .valid →
      plain.1.FurtherBy run.length longer.1 ∧ longer.2.state = plain.2.state) ∧
    (before.1 = .incomplete → ∃ offset total, longer.1 = .invalid offset total ∧
      offset.toNat = front.length ∧ total.toNat = front.length) ∧
    (before.1.isInvalid = true → longer.1 = before.1) := by
  intro before plain longer
  refine ⟨?_, ?_, ?_⟩
  · intro hvalid
    have hboundary := hfront.after_of_valid hvalid
    have hafter := ScanState.after_append_run hboundary hrun rest
    have htaken := ScanState.taken_append_run hboundary hrun rest
    refine ⟨hplain.furtherBy_of_after_eq hlonger hword hafter htaken, ?_⟩
    calc longer.2.state = accept.after (front ++ run ++ rest) := hlonger.state_validate
      _ = accept.after (front ++ rest) := hafter
      _ = plain.2.state := (hplain.state_validate (b := ⟨front ++ rest, o'⟩)).symm
  · intro hincomplete
    obtain ⟨haccept, hlive⟩ := hfront.after_of_incomplete hincomplete
    have hscan := ScanState.branchScan_append_run haccept hlive hne hrun rest
    rw [ScanState.branchScan_eq] at hscan
    obtain ⟨hreject, htaken⟩ := Scan.mk.inj hscan
    have hplace : front.length.toUInt64.toNat = front.length := by
      rw [← htaken]
      exact toNat_taken accept hword
    refine ⟨_, _, hlonger.validate_of_refused hreject, ?_⟩
    rw [htaken]
    exact ⟨hplace, hplace⟩
  · intro hinvalid
    have hreject := hfront.after_of_invalid hinvalid
    have hlater := ScanState.after_append_of_reject hreject (run ++ rest)
    have htaken := ScanState.taken_append_of_reject hreject (run ++ rest)
    rw [← List.append_assoc] at hlater htaken
    have hresult := hlonger.validate_of_refused (b := ⟨front ++ run ++ rest, o''⟩) hlater
    rw [htaken] at hresult
    exact hresult.trans (hfront.validate_of_refused hreject).symm

/-- A run of a whole block, put in by three validators that differ in tier, level and the place of
the bytes in memory: before a sequence that is broken, within one that lacks a byte, and behind a
byte that no text holds. -/
theorem validate_ascii_run_moves_rejection :
    let v := automatic .sse41
    let u := ofOptions .scalar ⟨some .table⟩
    let run := List.replicate 16 (0x61 : UInt8)
    Initial .sse41 v ∧ Initial .scalar u ∧ run ≠ [] ∧ (∀ b ∈ run, b ≤ 0x7F) ∧
    (([0xC3, 0xA9] ++ run ++ [0xE2, 0x41]).length < UInt64.size ∧
      (v.validate .sse41 ⟨[0xC3, 0xA9], 0⟩).1 = .valid ∧
      (u.validate .scalar ⟨[0xC3, 0xA9] ++ [0xE2, 0x41], 0⟩).1 = .invalid 3 3 ∧
      (v.validate .sse41 ⟨[0xC3, 0xA9] ++ run ++ [0xE2, 0x41], 14⟩).1 = .invalid 19 19) ∧
    (([0xE2, 0x82] ++ run ++ [0xAC]).length < UInt64.size ∧
      (v.validate .sse41 ⟨[0xE2, 0x82], 0⟩).1 = .incomplete ∧
      (u.validate .scalar ⟨[0xE2, 0x82] ++ [0xAC], 0⟩).1 = .valid ∧
      (v.validate .sse41 ⟨[0xE2, 0x82] ++ run ++ [0xAC], 14⟩).1 = .invalid 2 2) ∧
    (([0x61, 0xFF] ++ run ++ [0x62]).length < UInt64.size ∧
      (v.validate .sse41 ⟨[0x61, 0xFF], 0⟩).1 = .invalid 1 1 ∧
      (v.validate .sse41 ⟨[0x61, 0xFF] ++ run ++ [0x62], 14⟩).1 = .invalid 1 1) := by
  intro v u run
  have hv : Initial .sse41 v := .automatic
  have hu : Initial .scalar u := .ofOptions _
  have hne : run ≠ [] := by decide
  have hrun : ∀ b ∈ run, b ≤ 0x7F := by
    intro b hb
    rw [List.eq_of_mem_replicate hb]
    decide
  refine ⟨hv, hu, hne, hrun, ?_, ?_, ?_⟩
  · have hword : ([0xC3, 0xA9] ++ run ++ [0xE2, 0x41]).length < UInt64.size := by decide
    have hvalid : (v.validate .sse41 ⟨[0xC3, 0xA9], 0⟩).1 = .valid := by decide
    have hplain : (u.validate .scalar ⟨[0xC3, 0xA9] ++ [0xE2, 0x41], 0⟩).1 = .invalid 3 3 := by
      decide +kernel
    obtain ⟨hboundary, -, -⟩ := validate_ascii_run hv hu hv hne hrun hword 0 0 14
    obtain ⟨hmoves, -⟩ := hboundary hvalid
    rw [hplain] at hmoves
    have hlonger : (v.validate .sse41 ⟨[0xC3, 0xA9] ++ run ++ [0xE2, 0x41], 14⟩).1 =
        .invalid 19 19 := hmoves.eq_invalid (by decide) (by decide)
    exact ⟨hword, hvalid, hplain, hlonger⟩
  · have hword : ([0xE2, 0x82] ++ run ++ [0xAC]).length < UInt64.size := by decide
    have hincomplete : (v.validate .sse41 ⟨[0xE2, 0x82], 0⟩).1 = .incomplete := by decide
    have hplain : (u.validate .scalar ⟨[0xE2, 0x82] ++ [0xAC], 0⟩).1 = .valid := by
      decide +kernel
    obtain ⟨-, hwithin, -⟩ := validate_ascii_run hv hu hv hne hrun hword 0 0 14
    obtain ⟨offset, total, hlonger, hoffset, htotal⟩ := hwithin hincomplete
    have ho : offset = 2 := UInt64.toNat_inj.mp hoffset
    have ht : total = 2 := UInt64.toNat_inj.mp htotal
    rw [ho, ht] at hlonger
    exact ⟨hword, hincomplete, hplain, hlonger⟩
  · have hword : ([0x61, 0xFF] ++ run ++ [0x62]).length < UInt64.size := by decide
    have hinvalid : (v.validate .sse41 ⟨[0x61, 0xFF], 0⟩).1 = .invalid 1 1 := by decide
    obtain ⟨-, -, hrejected⟩ := validate_ascii_run hv hu hv hne hrun hword 0 0 14
    have hsame := hrejected (congrArg Verdict.isInvalid hinvalid)
    exact ⟨hword, hinvalid, hsame.trans hinvalid⟩

end Validator

end PayloadStream
