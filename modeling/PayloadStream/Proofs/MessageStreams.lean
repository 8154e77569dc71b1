import PayloadStream.ValidatorRun
import PayloadStream.Proofs.MessageVerdicts

/-!
# Messages in chunks

A stream is what may happen within one message: chunks are read, and the tier changes in between.
State and total depend on the bytes alone and not on the cuts, since the state of the automaton
and the number of bytes taken pass from part to part. So every verdict on the way is that of one
call on all bytes so far, and the last one decides the message.
-/

namespace PayloadStream

/-- A call within a message: a chunk, or another tier by its wire code. -/
inductive StreamCall where
  | chunk (b : Buffer)
  | tier (code : UInt8)

namespace StreamCall

def call : StreamCall → ValidatorCall
  | chunk b => .validate b
  | tier code => .selectTier code

def bytes : StreamCall → List UInt8
  | chunk b => b.bytes
  | tier _ => []

end StreamCall

/-- The bytes of all chunks in order. -/
def message (calls : List StreamCall) : List UInt8 := calls.flatMap StreamCall.bytes

/-- Equal verdicts, apart from the place of a rejection within its call. -/
inductive Verdict.SameUpToOffset : Verdict → Verdict → Prop
  | valid : SameUpToOffset valid valid
  | incomplete : SameUpToOffset incomplete incomplete
  | invalid (o o' total : UInt64) : SameUpToOffset (invalid o total) (invalid o' total)

namespace Validator

variable {level : VectorLevel} {v w u : Validator} {m : List UInt8}

/-- The validator after the calls of a stream. -/
def stream (level : VectorLevel) (v : Validator) (calls : List StreamCall) : Validator :=
  calls.foldl (fun w c => (w.answer level c.call).2) v

/-- What `w` must be if `v` has read a message since, however it was cut. -/
structure HasRead (v : Validator) (m : List UInt8) (w : Validator) : Prop where
  state_eq : w.state = v.state.after m
  total_eq : w.total = v.total + (v.state.taken m).toUInt64

namespace HasRead

theorem refl (v : Validator) : HasRead v [] v := ⟨rfl, (UInt64.add_zero v.total).symm⟩

theorem feed (h : HasRead v m w) (level : VectorLevel) (b : Buffer) :
    HasRead v (m ++ b.bytes) (w.feed level b) := by
  constructor
  · rw [state_feed, h.state_eq, ScanState.after_append]
  · rw [total_feed, h.total_eq, h.state_eq, ScanState.taken_append, UInt64.add_assoc]
    exact congrArg (v.total + ·) (UInt64.ofNat_add _ _).symm

/-- One call of a stream. -/
theorem answer (h : HasRead v m w) (level : VectorLevel) (c : StreamCall) :
    HasRead v (m ++ c.bytes) (w.answer level c.call).2 := by
  cases c with
  | chunk b => exact h.feed level b
  | tier code =>
    simp only [StreamCall.bytes, StreamCall.call, List.append_nil, Validator.answer]
    split
    · exact ⟨h.state_eq, h.total_eq⟩
    · exact h

/-- A whole stream. -/
theorem stream (h : HasRead v m w) (level : VectorLevel) (calls : List StreamCall) :
    HasRead v (m ++ message calls) (w.stream level calls) := by
  induction calls generalizing m w with
  | nil =>
    change HasRead v (m ++ []) w
    rwa [List.append_nil]
  | cons c rest ih =>
    have hrest := ih (h.answer level c)
    rw [List.append_assoc] at hrest
    exact hrest

/-- Two readings of one message agree on all but the place within the last call. -/
theorem sameUpToOffset (h : HasRead v m w) (h' : HasRead v m u) :
    w.verdict.SameUpToOffset u.verdict := by
  have hstate : w.state = u.state := h.state_eq.trans h'.state_eq.symm
  have htotal : w.total = u.total := h.total_eq.trans h'.total_eq.symm
  simp only [verdict, hstate, htotal]
  cases u.state with
  | accept => exact .valid
  | reject => exact .invalid _ _ _
  | _ => exact .incomplete

end HasRead

theorem hasRead_stream (level : VectorLevel) (v : Validator) (calls : List StreamCall) :
    HasRead v (message calls) (v.stream level calls) :=
  (HasRead.refl v).stream level calls

/-- After every chunk of a stream, from any validator, state, total and verdict are those of one
call on the bytes so far. The call that rejects first counts its offset from its own start. -/
theorem validate_chunk_eq_single (level : VectorLevel) (v : Validator) (before : List StreamCall)
    (chunk : Buffer) (offset : Fin 16) :
    let cut := (v.stream level before).validate level chunk
    let single := v.validate level ⟨message before ++ chunk.bytes, offset⟩
    cut.2.state = single.2.state ∧ cut.2.total = single.2.total ∧
      cut.1.SameUpToOffset single.1 ∧
      ((v.stream level before).rejected = false →
        (message before ++ chunk.bytes).length < UInt64.size →
        ∀ o o' t t', cut.1 = .invalid o t → single.1 = .invalid o' t' →
          o.toNat + (message before).length = o'.toNat) := by
  intro cut single
  have hbefore := hasRead_stream level v before
  have hcut := hbefore.feed level chunk
  have hsingle := (HasRead.refl v).feed level ⟨message before ++ chunk.bytes, offset⟩
  refine ⟨hcut.state_eq.trans hsingle.state_eq.symm, hcut.total_eq.trans hsingle.total_eq.symm,
    hcut.sameUpToOffset hsingle, ?_⟩
  intro hlive hlength o o' t t' ho ho'
  obtain ⟨-, rfl, -⟩ := verdict_eq_invalid_iff.mp ho
  obtain ⟨-, rfl, -⟩ := verdict_eq_invalid_iff.mp ho'
  have hlive' : v.state.after (message before) ≠ .reject := by
    rw [← hbefore.state_eq]
    simpa [rejected] using hlive
  have htaken := v.state.taken_append (message before) chunk.bytes
  rw [ScanState.taken_of_after_ne_reject hlive', ← hbefore.state_eq] at htaken
  have hchunk : chunk.bytes.length < UInt64.size := by
    rw [List.length_append] at hlength
    omega
  rw [current_feed, current_feed, toNat_taken _ hchunk, toNat_taken _ hlength, htaken]
  exact Nat.add_comm _ _

theorem validate_chunk_after_cut_lead :
    ((automatic .sse41).stream .sse41 [.chunk ⟨[0x61, 0xE0], 0⟩, .tier 1]).rejected = false ∧
      (message [.chunk ⟨[0x61, 0xE0], 0⟩, .tier 1] ++ [0x80]).length < UInt64.size ∧
      (((automatic .sse41).stream .sse41 [.chunk ⟨[0x61, 0xE0], 0⟩, .tier 1]).validate .sse41
        ⟨[0x80], 0⟩).1 = .invalid 0 2 ∧
      ((automatic .sse41).validate .sse41 ⟨[0x61, 0xE0, 0x80], 5⟩).1 = .invalid 2 2 ∧
      (0 : UInt64).toNat + (message [.chunk ⟨[0x61, 0xE0], 0⟩, .tier 1]).length =
        (2 : UInt64).toNat := by
  have hlive : ((automatic .sse41).stream .sse41
      [.chunk ⟨[0x61, 0xE0], 0⟩, .tier 1]).rejected = false := by decide
  have hlength : (message [.chunk ⟨[0x61, 0xE0], 0⟩, .tier 1] ++ [0x80]).length < UInt64.size := by
    decide
  have hcut : (((automatic .sse41).stream .sse41 [.chunk ⟨[0x61, 0xE0], 0⟩, .tier 1]).validate
      .sse41 ⟨[0x80], 0⟩).1 = .invalid 0 2 := by decide +kernel
  have hsingle : ((automatic .sse41).validate .sse41 ⟨[0x61, 0xE0, 0x80], 5⟩).1 =
      .invalid 2 2 := by decide
  obtain ⟨-, -, -, hoffset⟩ := validate_chunk_eq_single .sse41 (automatic .sse41)
    [.chunk ⟨[0x61, 0xE0], 0⟩, .tier 1] ⟨[0x80], 0⟩ 5
  exact ⟨hlive, hlength, hcut, hsingle, hoffset hlive hlength 0 2 2 2 hcut hsingle⟩

/-- A message in chunks, the last of which is read as the end: the end decides whether the text
is well-formed. If it is not, the total is the first index at which no text goes on as the
message does, or the length of a message that only lacks the end of a code point. -/
theorem complete_decides_message (h : Initial level v) (before : List StreamCall) (last : Buffer)
    {m : List UInt8} (hm : message before ++ last.bytes = m) (hlength : m.length < UInt64.size) :
    let result := (v.stream level before).complete level last
    result.1 ≠ .incomplete ∧ (result.1 = .valid ↔ WellFormed m) ∧
      (¬ WellFormed m → ∃ offset total, result.1 = .invalid offset total ∧
        ((∃ i, FirstUnviable m i ∧ total.toNat = i) ∨ Viable m ∧ total.toNat = m.length)) ∧
      (WellFormed m → result.2.state = .accept) ∧ (¬ WellFormed m → result.2.state = .reject) := by
  intro result
  have hread := (hasRead_stream level v before).feed level last
  generalize hw : (v.stream level before).feed level last = w at hread
  rw [hm] at hread
  have hstate : w.state = .accept ↔ WellFormed m := by
    rw [hread.state_eq, h.state_eq, wellFormed_iff_after]
  have htotal : w.total.toNat = ScanState.accept.taken m := by
    rw [hread.total_eq, h.total_eq, h.state_eq, UInt64.zero_add, toNat_taken _ hlength]
  have hresult : result = (w.finish.verdict, w.finish) := by rw [← hw]; rfl
  rw [hresult]
  by_cases hwf : WellFormed m
  · have hfinish : w.finish.state = .accept := by rw [state_finish, if_pos (hstate.mpr hwf)]
    have hverdict : w.finish.verdict = .valid := verdict_eq_valid_iff.mpr hfinish
    simp [hverdict, hfinish, hwf]
  · have hfinish : w.finish.state = .reject := by rw [state_finish, if_neg (mt hstate.mp hwf)]
    obtain ⟨offset, total, hverdict⟩ := exists_verdict_eq_invalid_iff.mpr hfinish
    obtain ⟨-, -, rfl⟩ := verdict_eq_invalid_iff.mp hverdict
    have hplace : (∃ i, FirstUnviable m i ∧ w.total.toNat = i) ∨
        Viable m ∧ w.total.toNat = m.length := by
      rcases firstUnviable_or_viable m with hfirst | ⟨hviable, hall⟩
      · exact .inl ⟨_, hfirst, htotal⟩
      · exact .inr ⟨hviable, htotal.trans hall⟩
    rw [total_finish] at hverdict
    refine ⟨by simp [hverdict], by simp [hverdict, hwf], ?_, fun h => absurd h hwf,
      fun _ => hfinish⟩
    exact fun _ => ⟨offset, w.total, hverdict, hplace⟩

/-- The cut code point is only noticed in an empty last chunk. -/
theorem complete_truncated_message :
    Initial .sse41 (automatic .sse41) ∧
      message [.chunk ⟨[0xE2], 0⟩, .tier 2, .chunk ⟨[0x82], 9⟩] ++ [] = [0xE2, 0x82] ∧
      [(0xE2 : UInt8), 0x82].length < UInt64.size ∧
      (((automatic .sse41).stream .sse41
        [.chunk ⟨[0xE2], 0⟩, .tier 2, .chunk ⟨[0x82], 9⟩]).complete .sse41 ⟨[], 0⟩).1 =
          .invalid 0 2 ∧
      ¬ WellFormed [0xE2, 0x82] := by
  have hstart : Initial .sse41 (automatic .sse41) := .automatic
  have hlength : [(0xE2 : UInt8), 0x82].length < UInt64.size := by decide
  obtain ⟨-, hvalid_iff, -⟩ := complete_decides_message hstart
    [.chunk ⟨[0xE2], 0⟩, .tier 2, .chunk ⟨[0x82], 9⟩] ⟨[], 0⟩ rfl hlength
  have hinvalid : (((automatic .sse41).stream .sse41
      [.chunk ⟨[0xE2], 0⟩, .tier 2, .chunk ⟨[0x82], 9⟩]).complete .sse41 ⟨[], 0⟩).1 =
        .invalid 0 2 := by decide
  refine ⟨hstart, rfl, hlength, hinvalid, fun hwf => ?_⟩
  have hvalid := hvalid_iff.mpr hwf
  rw [hinvalid] at hvalid
  cases hvalid

end Validator
end PayloadStream
