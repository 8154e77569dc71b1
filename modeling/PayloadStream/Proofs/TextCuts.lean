import PayloadStream.Proofs.MessageVerdicts

/-!
# Cutting text

A cut of encoded text falls between two scalar values or within the sequence of one. The automaton
tells the two apart, and within a sequence its state tells how many bytes lack to the next boundary
and whether the last byte is one of the first bytes that narrow the second. What follows such a cut
starts with a byte that no sequence starts with.
-/

namespace PayloadStream

open ScanState (accept reject ofLead)

/-- The places between the scalar values of a text, by the length of its front. -/
def IsBoundary (cs : List Char) (n : Nat) : Prop :=
  ∃ front back, cs = front ++ back ∧ n = (encodeText front).length

/-- Where a cut of encoded text falls. -/
inductive TextCut (cs : List Char) (n : Nat) : Prop
  | boundary (h : IsBoundary cs n) : TextCut cs n
  | within (front back : List Char) (c : Char) (k : Nat) (htext : cs = front ++ c :: back)
      (hpos : 0 < k) (hlt : k < (encodeScalar c).length)
      (hplace : n = (encodeText front).length + k) : TextCut cs n

/-- The bytes behind the last boundary before a place, and how many bytes lack to the next one. -/
structure UnfinishedAt (cs : List Char) (n : Nat) (pending : List UInt8) (lacking : Nat) :
    Prop where
  pending_eq : ∃ last, IsGreatest {m | m ≤ n ∧ IsBoundary cs m} last ∧
    pending = ((encodeText cs).take n).drop last
  lacking_least : IsLeast {r | IsBoundary cs (n + r)} lacking

namespace ScanState

/-- The states in which so many bytes lack. -/
def family : Nat → List ScanState
  | 1 => [needOne]
  | 2 => [needTwo, needTwoAfterE0, needTwoAfterEd]
  | 3 => [needThree, needThreeAfterF0, needThreeAfterF4]
  | _ => []

/-- The first byte that a state stands behind, where it narrows the second one. -/
def narrowedBy? : ScanState → Option UInt8
  | needTwoAfterE0 => some 0xE0
  | needTwoAfterEd => some 0xED
  | needThreeAfterF0 => some 0xF0
  | needThreeAfterF4 => some 0xF4
  | _ => none

/-- The state names what is unfinished: how many bytes lack, and a single pending byte that narrows
the next one. -/
structure Awaits (s : ScanState) (pending : List UInt8) (lacking : Nat) : Prop where
  mem_family : s ∈ family lacking
  narrowedBy?_eq_iff (b : UInt8) :
    s.narrowedBy? = some b ↔ pending = [b] ∧ b ∈ [0xE0, 0xED, 0xF0, 0xF4]

theorem mem_family_length_completion {s : ScanState} (haccept : s ≠ accept)
    (hreject : s ≠ reject) : s ∈ family s.completion.length := by
  cases s with
  | accept => exact absurd rfl haccept
  | reject => exact absurd rfl hreject
  | _ => decide

theorem narrowedBy?_ofLead (a b : UInt8) :
    (ofLead a).narrowedBy? = some b ↔ a = b ∧ b ∈ [0xE0, 0xED, 0xF0, 0xF4] := by
  have hlead := leadRange_ofLead a
  simp only [List.mem_cons, List.not_mem_nil, or_false, ← UInt8.toNat_inj, UInt8.reduceToNat]
  generalize ofLead a = s at hlead ⊢
  cases hlead <;> simp [narrowedBy?, ← UInt8.toNat_inj] <;> omega

/-- Behind a later byte nothing is narrowed. -/
theorem narrowedBy?_next {s : ScanState} (haccept : s ≠ accept) (b : UInt8) :
    (s.next b).narrowedBy? = none := by
  by_cases h : s.next b = reject
  · rw [h]
    rfl
  · obtain ⟨low, high, hs, -⟩ := exists_expects_of_next haccept h
    generalize s.next b = t at hs
    cases hs <;> rfl

/-- The state behind a first byte and some of the later ones names them. -/
theorem awaits_after {b : UInt8} {rest : List UInt8}
    (hshort : rest.length < (ofLead b).completion.length) (hlive : (ofLead b).after rest ≠ reject) :
    ((ofLead b).after rest).Awaits (b :: rest) ((ofLead b).completion.length - rest.length) := by
  have hlength := length_completion_after (Nat.le_of_lt hshort) hlive
  have hfamily := mem_family_length_completion (after_ne_accept_of_short hshort) hlive
  rw [Nat.eq_sub_of_add_eq hlength] at hfamily
  refine ⟨hfamily, fun a => ?_⟩
  rcases List.eq_nil_or_concat rest with rfl | ⟨init, c, rfl⟩
  · simp [narrowedBy?_ofLead]
  · have hinit : (ofLead b).after init ≠ accept := by
      apply after_ne_accept_of_short
      rw [List.concat_eq_append, List.length_append] at hshort
      omega
    rw [List.concat_eq_append, after_append, after_cons, after_nil, narrowedBy?_next hinit]
    simp

end ScanState

/-- The first byte of a scalar value's sequence tells how many more there are. -/
theorem ScalarBytes.length_completion {n : Nat} {b : UInt8} {rest : List UInt8}
    (h : ScalarBytes n (b :: rest)) (hvalid : n.isValidChar) :
    (ofLead b).completion.length = rest.length := by
  simp only [Nat.isValidChar] at hvalid
  have hlead := ScanState.leadRange_ofLead b
  generalize ofLead b = s at hlead ⊢
  cases h with
  | one _ high hb =>
    cases hlead with
    | ascii _ => rfl
    | _ => omega
  | two _ c low high hb hc =>
    cases hlead with
    | two _ _ => rfl
    | _ => omega
  | three _ c d low high hb hc hd =>
    cases hlead with
    | threeE0 _ => rfl
    | threeEd _ => rfl
    | three _ _ _ => rfl
    | _ => omega
  | four _ c d e low hb hc hd he =>
    cases hlead with
    | fourF0 _ => rfl
    | four _ _ => rfl
    | fourF4 _ => rfl
    | _ => omega

/-- The state within the sequence of a scalar value names the bytes before and after. -/
theorem awaits_take_encodeScalar (c : Char) {k : Nat} (hpos : 0 < k)
    (hlt : k < (encodeScalar c).length) :
    (accept.after ((encodeScalar c).take k)).Awaits ((encodeScalar c).take k)
      ((encodeScalar c).length - k) := by
  have hbytes := scalarBytes_encodeScalar c
  have hafter := ScanState.after_encodeScalar c
  obtain ⟨k, rfl⟩ := Nat.exists_eq_succ_of_ne_zero (Nat.ne_of_gt hpos)
  cases hscalar : encodeScalar c with
  | nil => simp [hscalar] at hlt
  | cons b rest =>
    rw [hscalar] at hbytes hafter hlt
    have hlength := hbytes.length_completion c.valid
    have hwhole : (ofLead b).after (rest.take k ++ rest.drop k) = accept := by
      rwa [List.take_append_drop]
    have hlive : (ofLead b).after (rest.take k) ≠ reject := by
      intro hreject
      rw [ScanState.after_append_of_reject hreject] at hwhole
      cases hwhole
    rw [List.length_cons] at hlt
    have htake : (rest.take k).length = k := List.length_take_of_le (by omega)
    have hawaits := ScanState.awaits_after (by omega) hlive
    rwa [htake, hlength, ← Nat.add_sub_add_right _ 1 _] at hawaits

theorem ScanState.Awaits.within_sequence {s : ScanState} {pending : List UInt8} {lacking : Nat}
    (h : s.Awaits pending lacking) : s ≠ accept ∧ s ≠ reject := by
  have hmem := h.mem_family
  unfold family at hmem
  split at hmem
  all_goals
    constructor
    · rintro rfl
      simp at hmem
    · rintro rfl
      simp at hmem

/-- Both parts of a text that is cut at a boundary lead from a boundary to a boundary. -/
theorem IsBoundary.after_parts {cs : List Char} {n : Nat} (h : IsBoundary cs n) :
    accept.after ((encodeText cs).take n) = accept ∧
      accept.after ((encodeText cs).drop n) = accept := by
  obtain ⟨front, back, rfl, rfl⟩ := h
  rw [encodeText_append, List.take_left, List.drop_left, after_encodeText, after_encodeText]
  exact ⟨rfl, rfl⟩

section Within

variable (front back : List Char) (c : Char) {k : Nat} (hpos : 0 < k)
  (hlt : k < (encodeScalar c).length)

include hlt

theorem take_within :
    (encodeText (front ++ c :: back)).take ((encodeText front).length + k) =
      encodeText front ++ (encodeScalar c).take k := by
  rw [encodeText_append, encodeText_cons, List.take_length_add_append,
    List.take_append_of_le_length (Nat.le_of_lt hlt)]

include hpos

theorem awaits_within :
    (accept.after ((encodeText (front ++ c :: back)).take ((encodeText front).length + k))).Awaits
      ((encodeScalar c).take k) ((encodeScalar c).length - k) := by
  rw [take_within front back c hlt, ScanState.after_append, after_encodeText]
  exact awaits_take_encodeScalar c hpos hlt

/-- No boundary falls within the sequence of a scalar value. -/
theorem not_isBoundary_within :
    ¬ IsBoundary (front ++ c :: back) ((encodeText front).length + k) := by
  intro h
  exact (awaits_within front back c hpos hlt).within_sequence.1 h.after_parts.1

/-- So the boundaries next to it are its own ends. -/
theorem unfinishedAt_within :
    UnfinishedAt (front ++ c :: back) ((encodeText front).length + k) ((encodeScalar c).take k)
      ((encodeScalar c).length - k) where
  pending_eq := by
    refine ⟨(encodeText front).length, ⟨⟨Nat.le_add_right _ _, front, c :: back, rfl, rfl⟩, ?_⟩, ?_⟩
    · rintro m ⟨hm, hboundary⟩
      apply Nat.le_of_not_lt
      intro hbehind
      obtain ⟨j, rfl⟩ := Nat.exists_eq_add_of_le (Nat.le_of_lt hbehind)
      exact not_isBoundary_within front back c (by omega) (by omega) hboundary
    · rw [take_within front back c hlt, List.drop_left]
  lacking_least := by
    constructor
    · refine ⟨front ++ [c], back, by simp, ?_⟩
      rw [encodeText_append, List.length_append, encodeText_cons, encodeText_nil, List.append_nil]
      omega
    · intro r hboundary
      apply Nat.le_of_not_lt
      intro hbefore
      rw [Set.mem_ofPred_eq, Nat.add_assoc] at hboundary
      exact not_isBoundary_within front back c (by omega) (by omega) hboundary

end Within

theorem textCut_of_le (cs : List Char) {n : Nat} (hn : n ≤ (encodeText cs).length) :
    TextCut cs n := by
  induction cs generalizing n with
  | nil =>
    obtain rfl : n = 0 := Nat.le_zero.mp hn
    exact .boundary ⟨[], [], rfl, rfl⟩
  | cons c cs ih =>
    rcases Nat.lt_or_ge n (encodeScalar c).length with hlt | hge
    · rcases Nat.eq_zero_or_pos n with rfl | hpos
      · exact .boundary ⟨[], c :: cs, rfl, rfl⟩
      · exact .within [] cs c n rfl hpos hlt (Nat.zero_add n).symm
    · rw [encodeText_cons, List.length_append] at hn
      obtain ⟨m, rfl⟩ := Nat.exists_eq_add_of_le hge
      have hm : m ≤ (encodeText cs).length := by omega
      cases ih hm with
      | boundary h =>
        obtain ⟨front, back, rfl, rfl⟩ := h
        exact .boundary ⟨c :: front, back, rfl, by rw [encodeText_cons, List.length_append]⟩
      | within front back d k htext hpos hlt hplace =>
        refine .within (c :: front) back d k (by rw [htext]; rfl) hpos hlt ?_
        rw [hplace, encodeText_cons, List.length_append, Nat.add_assoc]

/-- Text that is cut within a sequence goes on with a byte that no sequence starts with. -/
theorem exists_drop_eq_cons {bytes : List UInt8} {n : Nat} (hafter : accept.after bytes = accept)
    (hcut : accept.after (bytes.take n) ≠ accept) :
    ∃ b rest, bytes.drop n = b :: rest ∧ accept.next b = reject := by
  have hwhole : (accept.after (bytes.take n)).after (bytes.drop n) = accept := by
    rwa [← ScanState.after_append, List.take_append_drop]
  cases hdrop : bytes.drop n with
  | nil =>
    rw [hdrop] at hwhole
    exact absurd hwhole hcut
  | cons b rest =>
    refine ⟨b, rest, rfl, ScanState.next_accept_of_next hcut ?_⟩
    intro hreject
    rw [hdrop, ScanState.after_cons, hreject, ScanState.after_reject] at hwhole
    cases hwhole

namespace Validator

variable {level level' : VectorLevel} {v w : Validator}

/-- Text that is cut anywhere. At a boundary both parts are valid. Within a sequence the front is
incomplete, and its state names the bytes behind the last boundary and those that lack to the next
one, while the rest is refused at its first byte. -/
theorem validate_cut_text (h : Initial level v) (h' : Initial level' w) (cs : List Char) {n : Nat}
    (hn : n ≤ (encodeText cs).length) (offset offset' : Fin 16) :
    let front := v.validate level ⟨(encodeText cs).take n, offset⟩
    let rest := w.validate level' ⟨(encodeText cs).drop n, offset'⟩
    (IsBoundary cs n → front.1 = .valid ∧ rest.1 = .valid) ∧
      (¬ IsBoundary cs n → front.1 = .incomplete ∧ rest.1 = .invalid 0 0 ∧
        ∃ pending lacking, UnfinishedAt cs n pending lacking ∧
          front.2.state.Awaits pending lacking) := by
  intro front rest
  constructor
  · intro hboundary
    obtain ⟨hfront, hrest⟩ := hboundary.after_parts
    exact ⟨h.validate_of_boundary hfront, h'.validate_of_boundary hrest⟩
  · intro hcut
    cases textCut_of_le cs hn with
    | boundary hboundary => exact absurd hboundary hcut
    | within text back c k htext hpos hlt hplace =>
      subst htext hplace
      have hawaits := awaits_within text back c hpos hlt
      obtain ⟨haccept, hreject⟩ := hawaits.within_sequence
      obtain ⟨b, tail, hdrop, hrefused⟩ := exists_drop_eq_cons (after_encodeText _) haccept
      refine ⟨h.validate_of_within haccept hreject, ?_, _, _,
        unfinishedAt_within text back c hpos hlt, ?_⟩
      · have hafter : accept.after (b :: tail) = reject := by
          rw [ScanState.after_cons, hrefused, ScanState.after_reject]
        have hinvalid := h'.validate_of_refused (b := ⟨b :: tail, offset'⟩) hafter
        rw [ScanState.taken_cons_of_refused hrefused, ← hdrop] at hinvalid
        exact hinvalid
      · change ((v.feed level _).state).Awaits _ _
        rw [state_feed, h.state_eq]
        exact hawaits

/-- After a letter of two bytes, a sequence of four is cut behind its first byte. -/
theorem validate_cut_after_lead :
    Initial .sse41 (automatic .sse41) ∧ Initial .scalar (ofOptions .scalar ⟨some .table⟩) ∧
      3 ≤ (encodeText ['é', '𐀀']).length ∧ ¬ IsBoundary ['é', '𐀀'] 3 ∧
      ((automatic .sse41).validate .sse41 ⟨[0xC3, 0xA9, 0xF0], 9⟩).1 = .incomplete ∧
      ((automatic .sse41).validate .sse41 ⟨[0xC3, 0xA9, 0xF0], 9⟩).2.state = .needThreeAfterF0 ∧
      ((ofOptions .scalar ⟨some .table⟩).validate .scalar ⟨[0x90, 0x80, 0x80], 0⟩).1 =
        .invalid 0 0 := by
  have hv : Initial .sse41 (automatic .sse41) := .automatic
  have hw : Initial .scalar (ofOptions .scalar ⟨some .table⟩) := .ofOptions _
  have hn : 3 ≤ (encodeText ['é', '𐀀']).length := by decide
  have hcut : ¬ IsBoundary ['é', '𐀀'] 3 :=
    not_isBoundary_within ['é'] [] '𐀀' (k := 1) (by decide) (by decide)
  obtain ⟨-, hwithin⟩ := validate_cut_text hv hw ['é', '𐀀'] hn 9 0
  obtain ⟨hfront, hback, -⟩ := hwithin hcut
  exact ⟨hv, hw, hn, hcut, hfront, by decide, hback⟩

end Validator

end PayloadStream
