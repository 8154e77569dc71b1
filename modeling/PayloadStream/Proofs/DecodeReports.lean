import PayloadStream.Proofs.MessageVerdicts
import PayloadStream.Proofs.SequenceReading

/-!
# Reports of the decoder

A decoding that fails has read some scalar values and then met bytes that open with no whole
sequence. Its report gives the length of the longest well-formed front and, unless more bytes could
still complete it, the length of the longest part after it that a text could have held. A validator
refuses the byte after that part, or the only byte of the part if no sequence starts with it.
-/

namespace PayloadStream

open ScanState (accept reject ofLead)

theorem ScanState.ofLead_live_iff (b : UInt8) :
    (ofLead b ≠ accept ∧ ofLead b ≠ reject) ↔ 0xC2 ≤ b ∧ b ≤ 0xF4 := by
  simp only [UInt8.le_iff_toNat_le, UInt8.reduceToNat]
  have hlead := leadRange_ofLead b
  generalize ofLead b = s at hlead ⊢
  cases hlead <;> simp <;> omega

theorem ScanState.ne_of_short {s : ScanState} {n : Nat} (h : n < s.completion.length) :
    s ≠ accept ∧ s ≠ reject :=
  length_completion_pos_iff.mp (Nat.lt_of_le_of_lt (Nat.zero_le n) h)

namespace Broken

variable {bytes : List UInt8} {e : Option Nat} {k : Nat}

/-- No front of the bytes but the empty one ends on a boundary. -/
theorem after_take_ne_accept (h : Broken bytes e) {m : Nat} (hm : 0 < m) :
    accept.after (bytes.take m) ≠ accept := by
  obtain ⟨m, rfl⟩ := Nat.exists_eq_succ_of_ne_zero (Nat.ne_of_gt hm)
  cases h with
  | @lead b rest h =>
    change (ofLead b).after (rest.take m) ≠ accept
    rw [h, ScanState.after_reject]
    decide
  | @within b c front rest hshort hlive hrefused =>
    change (ofLead b).after ((front ++ c :: rest).take m) ≠ accept
    rcases Nat.lt_or_ge front.length m with hlt | hle
    · have hne : ofLead b ≠ reject := (ScanState.ne_of_short hshort).2
      have htaken := ScanState.taken_of_refused hlive hrefused rest
      have hreject : (ofLead b).after ((front ++ c :: rest).take m) = reject := by
        rw [ScanState.after_take_eq_reject_iff hne, htaken, List.length_append, List.length_cons]
        omega
      rw [hreject]
      decide
    · rw [List.take_append_of_le_length hle]
      apply ScanState.after_ne_accept_of_short
      rw [List.length_take]
      omega
  | @unfinished b rest hshort hlive =>
    change (ofLead b).after (rest.take m) ≠ accept
    apply ScanState.after_ne_accept_of_short
    rw [List.length_take]
    omega

theorem length_pos (h : Broken bytes e) : 0 < bytes.length := by
  cases h <;> exact Nat.zero_lt_succ _

theorem after_ne_accept (h : Broken bytes e) : accept.after bytes ≠ accept := by
  have hne := h.after_take_ne_accept h.length_pos
  rwa [List.take_length] at hne

theorem eq_none_iff (h : Broken bytes e) : e = none ↔ accept.after bytes ≠ reject := by
  cases h with
  | @lead b rest h =>
    change some 1 = none ↔ (ofLead b).after rest ≠ reject
    simp [h]
  | @within b c front rest hshort hlive hrefused =>
    change some (front.length + 1) = none ↔ (ofLead b).after (front ++ c :: rest) ≠ reject
    rw [ScanState.after_append, ScanState.after_cons, hrefused]
    simp
  | unfinished hshort hlive => exact iff_of_true rfl hlive

theorem after_eq_reject (h : Broken bytes (some k)) : accept.after bytes = reject := by
  by_contra hlive
  cases h.eq_none_iff.mpr hlive

/-- The automaton stops after the part that no text holds, or at once if no sequence has the first
byte. -/
theorem exists_taken (h : Broken bytes (some k)) :
    ∃ b rest, bytes = b :: rest ∧
      ((0xC2 ≤ b ∧ b ≤ 0xF4) ∧ accept.taken bytes = k ∨
        ¬ (0xC2 ≤ b ∧ b ≤ 0xF4) ∧ accept.taken bytes = 0 ∧ k = 1) := by
  cases h with
  | @lead b rest h =>
    have hfirst : accept.next b = reject := h
    have hb : ¬ (0xC2 ≤ b ∧ b ≤ 0xF4) := fun hb => ((ScanState.ofLead_live_iff b).mpr hb).2 h
    exact ⟨b, rest, rfl, .inr ⟨hb, ScanState.taken_cons_of_refused hfirst rest, rfl⟩⟩
  | @within b c front rest hshort hlive hrefused =>
    have hlead := ScanState.ne_of_short hshort
    have hfirst : accept.next b ≠ reject := hlead.2
    refine ⟨b, front ++ c :: rest, rfl, .inl ⟨(ScanState.ofLead_live_iff b).mp hlead, ?_⟩⟩
    rw [ScanState.taken_cons hfirst, Nat.add_comm]
    exact congrArg (· + 1) (ScanState.taken_of_refused hlive hrefused rest)

theorem part_bounds (h : Broken bytes (some k)) : 1 ≤ k ∧ k ≤ 3 := by
  cases h with
  | lead _ => exact ⟨Nat.le_refl 1, by decide⟩
  | @within b _ _ _ hshort _ _ =>
    have hle := ScanState.length_completion_le (ofLead b)
    omega

/-- The part that no text holds is the longest one that a text could have held, if it is more than
one byte. -/
theorem isGreatest_part (h : Broken bytes (some k)) :
    IsGreatest {m | m ≤ bytes.length ∧ (m = 1 ∨ Viable (bytes.take m))} k := by
  have hlt := (ScanState.after_eq_reject_iff (by decide) bytes).mp h.after_eq_reject
  have hviable (m : Nat) : Viable (bytes.take m) ↔ m ≤ accept.taken bytes := by
    rw [viable_iff_after, ne_eq, ScanState.after_take_eq_reject_iff (by decide)]
    omega
  obtain ⟨hpos, -⟩ := h.part_bounds
  obtain ⟨-, -, -, ⟨-, htaken⟩ | ⟨-, htaken, hk⟩⟩ := h.exists_taken
  · constructor
    · exact ⟨by omega, .inr ((hviable k).mpr (Nat.le_of_eq htaken.symm))⟩
    · rintro m ⟨-, hm⟩
      rw [hviable] at hm
      omega
  · constructor
    · exact ⟨by omega, .inl hk⟩
    · rintro m ⟨-, hm⟩
      rw [hviable] at hm
      omega

end Broken

/-- What decoding comes to: scalar values only, or some of them and then broken bytes. -/
inductive Decodes (start : Nat) (bytes : List UInt8) : Except DecodeError (List Char) → Prop
  | ok {cs : List Char} (h : bytes = encodeText cs) : Decodes start bytes (.ok cs)
  | error {e : DecodeError} (cs : List Char) (rest : List UInt8)
      (hbytes : bytes = encodeText cs ++ rest)
      (hplace : e.validUpTo = start + (encodeText cs).length)
      (hbroken : Broken rest e.errorLength) : Decodes start bytes (.error e)

/-- One more scalar value in front. -/
theorem Decodes.cons {start : Nat} {bytes : List UInt8} {o : Except DecodeError (List Char)}
    (c : Char) (h : Decodes (start + (encodeScalar c).length) bytes o) :
    Decodes start (encodeScalar c ++ bytes) (o.map (c :: ·)) := by
  cases h with
  | ok h => exact .ok (by rw [h, encodeText_cons])
  | error cs rest hbytes hplace hbroken =>
    refine .error (c :: cs) rest ?_ ?_ hbroken
    · rw [hbytes, encodeText_cons, List.append_assoc]
    · rw [hplace, encodeText_cons, List.length_append, Nat.add_assoc]

theorem decodes_decodeFrom (start : Nat) (bytes : List UInt8) :
    Decodes start bytes (decodeFrom start bytes) := by
  fun_induction decodeFrom start bytes with
  | case1 start => exact .ok rfl
  | case2 start b rest value extra hread ih =>
    have hopens := opens_readScalar b rest
    rw [hread] at hopens
    cases hopens with
    | scalar tail hbytes hextra =>
      have hdrop : rest.drop extra = tail := by
        have h := congrArg (List.drop (extra + 1)) hbytes
        rwa [List.drop_succ_cons, List.drop_left' hextra.symm] at h
      rw [hdrop, Nat.add_assoc, Nat.add_comm 1, hextra] at ih ⊢
      rw [hbytes]
      exact ih.cons _
  | case3 start b rest hread =>
    have hopens := opens_readScalar b rest
    rw [hread] at hopens
    cases hopens with
    | unfinished h => exact .error [] (b :: rest) rfl rfl h
  | case4 start b rest n hread =>
    have hopens := opens_readScalar b rest
    rw [hread] at hopens
    cases hopens with
    | malformed h => exact .error [] (b :: rest) rfl rfl h

/-- The report of a failed decoding, said of the bytes alone. -/
structure DecodeError.Describes (e : DecodeError) (bytes : List UInt8) : Prop where
  validUpTo_lt : e.validUpTo < bytes.length
  /-- The longest well-formed front. -/
  validUpTo_greatest : IsGreatest {m | m ≤ bytes.length ∧ WellFormed (bytes.take m)} e.validUpTo
  /-- No length is given exactly where more bytes can complete the text. -/
  errorLength_eq_none_iff : e.errorLength = none ↔ Viable bytes
  /-- Otherwise it is the length of the longest part after the front that a text could have held,
  and at least one byte. -/
  errorLength_greatest {k : Nat} (h : e.errorLength = some k) :
    1 ≤ k ∧ k ≤ 3 ∧ IsGreatest {m | m ≤ (bytes.drop e.validUpTo).length ∧
      (m = 1 ∨ Viable ((bytes.drop e.validUpTo).take m))} k

theorem after_encodeText_append (cs : List Char) (rest : List UInt8) :
    accept.after (encodeText cs ++ rest) = accept.after rest := by
  rw [ScanState.after_append, after_encodeText]

theorem taken_encodeText_append (cs : List Char) (rest : List UInt8) :
    accept.taken (encodeText cs ++ rest) = (encodeText cs).length + accept.taken rest := by
  have hlive : accept.after (encodeText cs) ≠ reject := by
    rw [after_encodeText]
    decide
  rw [ScanState.taken_append_of_live hlive, after_encodeText]

theorem Broken.describes {cs : List Char} {rest : List UInt8} {e : DecodeError}
    (h : Broken rest e.errorLength) (hplace : e.validUpTo = (encodeText cs).length) :
    e.Describes (encodeText cs ++ rest) where
  validUpTo_lt := by
    have hpos := h.length_pos
    rw [hplace, List.length_append]
    omega
  validUpTo_greatest := by
    rw [hplace]
    constructor
    · refine ⟨?_, cs, List.take_left.symm⟩
      rw [List.length_append]
      exact Nat.le_add_right _ _
    · rintro m ⟨-, hm⟩
      apply Nat.le_of_not_lt
      intro hlt
      obtain ⟨n, rfl⟩ := Nat.exists_eq_add_of_lt hlt
      rw [Nat.add_assoc, List.take_length_add_append, wellFormed_iff_after,
        after_encodeText_append] at hm
      exact h.after_take_ne_accept (Nat.zero_lt_succ n) hm
  errorLength_eq_none_iff := by
    rw [h.eq_none_iff, viable_iff_after, after_encodeText_append]
  errorLength_greatest {k} hk := by
    rw [hk] at h
    rw [hplace, List.drop_left]
    exact ⟨h.part_bounds.1, h.part_bounds.2, h.isGreatest_part⟩

/-- After scalar values and broken bytes, the place that the automaton stops at is told by the byte
that the broken bytes open with. -/
theorem Broken.exists_stop {rest : List UInt8} {k : Nat} (h : Broken rest (some k))
    (cs : List Char) :
    ∃ first, (encodeText cs ++ rest)[(encodeText cs).length]? = some first ∧
      accept.taken (encodeText cs ++ rest) =
        (if 0xC2 ≤ first ∧ first ≤ 0xF4 then (encodeText cs).length + k
          else (encodeText cs).length) ∧
      accept.taken (encodeText cs ++ rest) ≤ (encodeText cs).length + 3 := by
  have hbounds := h.part_bounds
  obtain ⟨first, tail, hrest, htaken⟩ := h.exists_taken
  rw [taken_encodeText_append]
  refine ⟨first, ?_, ?_, by omega⟩
  · rw [hrest, List.getElem?_append_right (Nat.le_refl _), Nat.sub_self]
    rfl
  · rcases htaken with ⟨hfirst, htaken⟩ | ⟨hfirst, htaken, -⟩
    · rw [if_pos hfirst, htaken]
    · rw [if_neg hfirst, htaken, Nat.add_zero]

namespace Decodes

variable {bytes : List UInt8} {e : DecodeError}

theorem eq_encodeText {cs : List Char} (h : Decodes 0 bytes (.ok cs)) :
    bytes = encodeText cs := by
  cases h with
  | ok hbytes => exact hbytes

theorem describes (h : Decodes 0 bytes (.error e)) : e.Describes bytes := by
  cases h with
  | error cs rest hbytes hplace hbroken =>
    rw [Nat.zero_add] at hplace
    rw [hbytes]
    exact hbroken.describes hplace

/-- Without a length, the automaton is left within a sequence. -/
theorem live_of_unfinished (h : Decodes 0 bytes (.error e)) (hnone : e.errorLength = none) :
    accept.after bytes ≠ accept ∧ accept.after bytes ≠ reject := by
  cases h with
  | error cs rest hbytes _ hbroken =>
    rw [hbytes, after_encodeText_append]
    exact ⟨hbroken.after_ne_accept, hbroken.eq_none_iff.mp hnone⟩

/-- With a length, the automaton stops where the byte after the front tells. -/
theorem stop_of_malformed (h : Decodes 0 bytes (.error e)) {k : Nat}
    (hk : e.errorLength = some k) :
    accept.after bytes = reject ∧
      ∃ first, bytes[e.validUpTo]? = some first ∧
        accept.taken bytes =
          (if 0xC2 ≤ first ∧ first ≤ 0xF4 then e.validUpTo + k else e.validUpTo) ∧
        accept.taken bytes ≤ e.validUpTo + 3 := by
  cases h with
  | error cs rest hbytes hplace hbroken =>
    rw [Nat.zero_add] at hplace
    rw [hk] at hbroken
    rw [hbytes, hplace]
    exact ⟨(after_encodeText_append cs rest).trans hbroken.after_eq_reject,
      hbroken.exists_stop cs⟩

end Decodes

namespace Validator

variable {level : VectorLevel} {v : Validator}

/-- At the start of a message the verdict is what the decoder reports: `valid` where it succeeds,
`incomplete` where only the end of the bytes is missed, and else `invalid` at the byte after the
part that no text holds, or at its only byte if no sequence starts with it. So the offending byte is
at most three bytes after the last boundary. -/
theorem validate_follows_decode (h : Initial level v) (b : Buffer) :
    (∀ cs, decode b.bytes = .ok cs →
      encodeText cs = b.bytes ∧ (v.validate level b).1 = .valid) ∧
    ∀ e, decode b.bytes = .error e →
      e.Describes b.bytes ∧
      (e.errorLength = none → (v.validate level b).1 = .incomplete) ∧
      ∀ k, e.errorLength = some k →
        ∃ (first : UInt8) (offset : Nat), b.bytes[e.validUpTo]? = some first ∧
          offset = (if 0xC2 ≤ first ∧ first ≤ 0xF4 then e.validUpTo + k else e.validUpTo) ∧
          offset ≤ e.validUpTo + 3 ∧
          (v.validate level b).1 = .invalid offset.toUInt64 offset.toUInt64 := by
  have hdecodes : Decodes 0 b.bytes (decode b.bytes) := decodes_decodeFrom 0 b.bytes
  constructor
  · intro cs hok
    rw [hok] at hdecodes
    have hbytes := hdecodes.eq_encodeText
    have hafter : accept.after b.bytes = accept := by rw [hbytes, after_encodeText]
    exact ⟨hbytes.symm, h.validate_of_boundary hafter⟩
  · intro e herror
    rw [herror] at hdecodes
    refine ⟨hdecodes.describes, ?_, ?_⟩
    · intro hnone
      obtain ⟨haccept, hreject⟩ := hdecodes.live_of_unfinished hnone
      exact h.validate_of_within haccept hreject
    · intro k hk
      obtain ⟨hreject, first, hfirst, hstop, hle⟩ := hdecodes.stop_of_malformed hk
      exact ⟨first, _, hfirst, hstop, hle, h.validate_of_refused hreject⟩

/-- After a letter of two bytes, a sequence of four of which the last byte does not belong. -/
theorem validate_follows_decode_broken_sequence :
    Initial .sse41 (automatic .sse41) ∧
      decode [0xC3, 0xA9, 0xF0, 0x90, 0x80, 0x41] = .error ⟨2, some 3⟩ ∧
      ((automatic .sse41).validate .sse41 ⟨[0xC3, 0xA9, 0xF0, 0x90, 0x80, 0x41], 13⟩).1 =
        .invalid 5 5 := by
  have herror : decode [0xC3, 0xA9, 0xF0, 0x90, 0x80, 0x41] = .error ⟨2, some 3⟩ := by
    decide +kernel
  have hstart : Initial .sse41 (automatic .sse41) := .automatic
  obtain ⟨-, hreport⟩ :=
    validate_follows_decode hstart ⟨[0xC3, 0xA9, 0xF0, 0x90, 0x80, 0x41], 13⟩
  obtain ⟨-, -, hmalformed⟩ := hreport _ herror
  obtain ⟨first, offset, hfirst, rfl, -, hverdict⟩ := hmalformed 3 rfl
  obtain rfl : 0xF0 = first := Option.some.inj hfirst
  exact ⟨hstart, herror, hverdict⟩

end Validator

end PayloadStream
