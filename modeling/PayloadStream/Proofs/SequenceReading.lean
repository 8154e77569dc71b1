import PayloadStream.SequentialDecoder
import PayloadStream.Proofs.TextGrammar

/-!
# Reading one scalar value

While the decoder collects the bits of a sequence, the automaton is in a state that goes with them:
it expects exactly the bytes after which the bits can still become a scalar value. So the decoder
reads a scalar value where the automaton comes back to a boundary, it breaks off where the automaton
refuses a byte, and it runs out of bytes where the automaton is left within a sequence.
-/

namespace PayloadStream

open ScanState (accept reject ofLead)

/-- The state in which `k` bytes lack, of which none is narrowed. -/
def ScanState.lacking : Nat → ScanState
  | 0 => accept
  | 1 => needOne
  | _ => needTwo

/-- A byte after which the bits `p`, with `k` more bytes to follow, can be a scalar value. -/
def Continues (least k p : Nat) (c : UInt8) : Prop :=
  0x80 ≤ c ∧ c < 0xC0 ∧ Completable least (p * 64 + (c.toNat - 0x80)) k

/-- A sequence of which some bytes were read: their bits are `p`, `k + 1` bytes lack, and the state
is the one that the automaton is in. -/
inductive Pending : (least k p : Nat) → List UInt8 → ScanState → Prop
  | two {b : UInt8} {p : Nat} (hb : b.toNat = 0xC0 + p) (low : 2 ≤ p) (high : p < 0x20) :
      Pending 0x80 0 p [b] (ofLead b)
  | three {b : UInt8} {p : Nat} (hb : b.toNat = 0xE0 + p) (high : p < 0x10) :
      Pending 0x800 1 p [b] (ofLead b)
  | threeLast {b c : UInt8} {p : Nat} (hb : b.toNat = 0xE0 + p / 64)
      (hc : c.toNat = 0x80 + p % 64) (low : 0x20 ≤ p) (high : p < 0x400)
      (hsurrogate : p < 0x360 ∨ 0x380 ≤ p) : Pending 0x800 0 p [b, c] .needOne
  | four {b : UInt8} {p : Nat} (hb : b.toNat = 0xF0 + p) (high : p < 5) :
      Pending 0x10000 2 p [b] (ofLead b)
  | fourThird {b c : UInt8} {p : Nat} (hb : b.toNat = 0xF0 + p / 64)
      (hc : c.toNat = 0x80 + p % 64) (low : 0x10 ≤ p) (high : p < 0x110) :
      Pending 0x10000 1 p [b, c] .needTwo
  | fourLast {b c d : UInt8} {p : Nat} (hb : b.toNat = 0xF0 + p / 4096)
      (hc : c.toNat = 0x80 + p / 64 % 64) (hd : d.toNat = 0x80 + p % 64) (low : 0x400 ≤ p)
      (high : p < 0x4400) : Pending 0x10000 0 p [b, c, d] .needOne

namespace Pending

variable {least k p : Nat} {front : List UInt8} {s : ScanState}

/-- The state expects the bytes that continue the bits, and lacks as many as the decoder does. -/
theorem exists_expects (h : Pending least k p front s) :
    ∃ low high, ScanState.Expects s low high (.lacking k) ∧ s.completion.length = k + 1 ∧
      ∀ c : UInt8, Continues least k p c ↔ low ≤ c.toNat ∧ c.toNat ≤ high := by
  simp only [Continues, Completable, UInt8.le_iff_toNat_le, UInt8.lt_iff_toNat_lt,
    UInt8.reduceToNat]
  cases h with
  | @two b p hb low high =>
    have hlead := ScanState.leadRange_ofLead b
    generalize ofLead b = s at hlead ⊢
    cases hlead with
    | two _ _ => exact ⟨_, _, .one, rfl, fun c => by omega⟩
    | _ => omega
  | @three b p hb high =>
    have hlead := ScanState.leadRange_ofLead b
    generalize ofLead b = s at hlead ⊢
    cases hlead with
    | threeE0 _ => exact ⟨_, _, .twoAfterE0, rfl, fun c => by omega⟩
    | threeEd _ => exact ⟨_, _, .twoAfterEd, rfl, fun c => by omega⟩
    | three _ _ _ => exact ⟨_, _, .two, rfl, fun c => by omega⟩
    | _ => omega
  | threeLast hb hc low high hsurrogate => exact ⟨_, _, .one, rfl, fun c => by omega⟩
  | @four b p hb high =>
    have hlead := ScanState.leadRange_ofLead b
    generalize ofLead b = s at hlead ⊢
    cases hlead with
    | fourF0 _ => exact ⟨_, _, .threeAfterF0, rfl, fun c => by omega⟩
    | four _ _ => exact ⟨_, _, .three, rfl, fun c => by omega⟩
    | fourF4 _ => exact ⟨_, _, .threeAfterF4, rfl, fun c => by omega⟩
    | _ => omega
  | fourThird hb hc low high => exact ⟨_, _, .two, rfl, fun c => by omega⟩
  | fourLast hb hc hd low high => exact ⟨_, _, .one, rfl, fun c => by omega⟩

theorem length_completion (h : Pending least k p front s) : s.completion.length = k + 1 := by
  obtain ⟨_, _, -, hlength, -⟩ := h.exists_expects
  exact hlength

/-- Bytes that do not continue the bits are refused. -/
theorem next_of_not_continues (h : Pending least k p front s) {c : UInt8}
    (hc : ¬ Continues least k p c) : s.next c = reject := by
  obtain ⟨low, high, hexpects, -, hiff⟩ := h.exists_expects
  rw [hexpects.next_eq, if_neg (mt (hiff c).mpr hc)]

theorem next_of_continues (h : Pending least k p front s) {c : UInt8}
    (hc : Continues least k p c) : s.next c = .lacking k := by
  obtain ⟨low, high, hexpects, -, hiff⟩ := h.exists_expects
  exact hexpects.next_of_mem ((hiff c).mp hc)

/-- The last byte completes the sequence of a scalar value. -/
theorem last (h : Pending least 0 p front s) {c : UInt8} (hc : Continues least 0 p c) :
    ScalarBytes (p * 64 + (c.toNat - 0x80)) (front ++ [c]) ∧
      (p * 64 + (c.toNat - 0x80)).isValidChar := by
  simp only [Continues, Completable, UInt8.le_iff_toNat_le, UInt8.lt_iff_toNat_lt,
    UInt8.reduceToNat] at hc
  simp only [Nat.isValidChar]
  cases h with
  | two hb low high =>
    exact ⟨.two _ _ (by omega) (by omega) (by omega) (by omega), by omega⟩
  | threeLast hb hd low high hsurrogate =>
    exact ⟨.three _ _ _ (by omega) (by omega) (by omega) (by omega) (by omega), by omega⟩
  | fourLast hb hd he low high =>
    exact ⟨.four _ _ _ _ (by omega) (by omega) (by omega) (by omega) (by omega), by omega⟩

/-- Any other byte that continues the bits leaves a sequence that lacks one byte less. -/
theorem more (h : Pending least (k + 1) p front s) {c : UInt8}
    (hc : Continues least (k + 1) p c) :
    Pending least k (p * 64 + (c.toNat - 0x80)) (front ++ [c]) (s.next c) := by
  rw [h.next_of_continues hc]
  simp only [Continues, Completable, UInt8.le_iff_toNat_le, UInt8.lt_iff_toNat_lt,
    UInt8.reduceToNat] at hc
  cases h with
  | three hb high => exact .threeLast (by omega) (by omega) (by omega) (by omega) (by omega)
  | four hb high => exact .fourThird (by omega) (by omega) (by omega) (by omega)
  | fourThird hb hd low high =>
    exact .fourLast (by omega) (by omega) (by omega) (by omega) (by omega)

theorem state_ne_reject (h : Pending least k p front s) : s ≠ reject := by
  rintro rfl
  cases h.length_completion

end Pending

/-- What comes of reading on in a sequence, said of the automaton. -/
inductive ReadsOn (front : List UInt8) (s : ScanState) (rest : List UInt8) : FirstScalar → Prop
  | scalar {value extra : Nat} (more tail : List UInt8) (hrest : rest = more ++ tail)
      (hextra : extra + 1 = front.length + more.length)
      (hbytes : ScalarBytes value (front ++ more)) (hvalid : value.isValidChar) :
      ReadsOn front s rest (.scalar value extra)
  | unfinished (hshort : rest.length < s.completion.length) (hlive : s.after rest ≠ reject) :
      ReadsOn front s rest .unfinished
  | malformed {n : Nat} {c : UInt8} (more tail : List UInt8) (hrest : rest = more ++ c :: tail)
      (hn : n = front.length + more.length) (hshort : more.length < s.completion.length)
      (hlive : s.after more ≠ reject) (hrefused : (s.after more).next c = reject) :
      ReadsOn front s rest (.malformed n)

/-- A byte that was taken is put back in front of the rest. -/
theorem ReadsOn.cons {front rest : List UInt8} {s : ScanState} {c : UInt8} {o : FirstScalar}
    (h : ReadsOn (front ++ [c]) (s.next c) rest o)
    (hlength : (s.next c).completion.length + 1 = s.completion.length) :
    ReadsOn front s (c :: rest) o := by
  cases h with
  | scalar more tail hrest hextra hbytes hvalid =>
    rw [List.length_append, List.length_singleton] at hextra
    rw [List.append_assoc] at hbytes
    refine .scalar (c :: more) tail (congrArg (c :: ·) hrest) ?_ hbytes hvalid
    rw [List.length_cons]
    omega
  | unfinished hshort hlive =>
    refine .unfinished ?_ hlive
    rw [List.length_cons]
    omega
  | malformed more tail hrest hn hshort hlive hrefused =>
    rw [List.length_append, List.length_singleton] at hn
    refine .malformed (c :: more) tail (congrArg (c :: ·) hrest) ?_ ?_ hlive hrefused
    · rw [List.length_cons]
      omega
    · rw [List.length_cons]
      omega

/-- Reading on from a pending sequence, to its end or to the first byte that does not belong. -/
theorem Pending.readsOn {least k p : Nat} {front : List UInt8} {s : ScanState}
    (h : Pending least k p front s) (rest : List UInt8) :
    ReadsOn front s rest (readContinuations least (k + 1) front.length p rest) := by
  induction rest generalizing k p front s with
  | nil =>
    have hlength := h.length_completion
    exact .unfinished (by rw [hlength]; exact Nat.zero_lt_succ k) h.state_ne_reject
  | cons c rest ih =>
    have hlength := h.length_completion
    rw [readContinuations]
    split
    next hc =>
      cases k with
      | zero =>
        obtain ⟨hbytes, hvalid⟩ := h.last hc
        exact .scalar [c] rest rfl rfl hbytes hvalid
      | succ k =>
        have hmore := h.more hc
        have hread := ih hmore
        rw [List.length_append, List.length_singleton] at hread
        exact hread.cons (by rw [hmore.length_completion, hlength])
    next hc =>
      exact .malformed [] rest rfl rfl (by rw [hlength]; exact Nat.zero_lt_succ k)
        h.state_ne_reject (h.next_of_not_continues hc)

/-- Bytes that open with no whole sequence, and how many of them no text holds. -/
inductive Broken : List UInt8 → Option Nat → Prop
  /-- No sequence has this first byte. -/
  | lead {b : UInt8} {rest : List UInt8} (h : ofLead b = reject) : Broken (b :: rest) (some 1)
  /-- The sequence is broken off by the byte `c`. -/
  | within {b c : UInt8} {front rest : List UInt8}
      (hshort : front.length < (ofLead b).completion.length)
      (hlive : (ofLead b).after front ≠ reject)
      (hrefused : ((ofLead b).after front).next c = reject) :
      Broken (b :: (front ++ c :: rest)) (some (front.length + 1))
  | unfinished {b : UInt8} {rest : List UInt8}
      (hshort : rest.length < (ofLead b).completion.length)
      (hlive : (ofLead b).after rest ≠ reject) : Broken (b :: rest) none

/-- What comes of reading the first scalar value. -/
inductive Opens (bytes : List UInt8) : FirstScalar → Prop
  | scalar {value extra : Nat} (tail : List UInt8)
      (hbytes : bytes = encodeScalar (Char.ofNat value) ++ tail)
      (hextra : extra + 1 = (encodeScalar (Char.ofNat value)).length) :
      Opens bytes (.scalar value extra)
  | unfinished (h : Broken bytes none) : Opens bytes .unfinished
  | malformed {n : Nat} (h : Broken bytes (some n)) : Opens bytes (.malformed n)

theorem ReadsOn.opens {b : UInt8} {rest : List UInt8} {o : FirstScalar}
    (h : ReadsOn [b] (ofLead b) rest o) : Opens (b :: rest) o := by
  cases h with
  | scalar more tail hrest hextra hbytes hvalid =>
    have henc : encodeScalar (Char.ofNat _) = b :: more := hbytes.encodeScalar_ofNat hvalid
    refine .scalar tail ?_ ?_
    · rw [henc, hrest, List.cons_append]
    · rw [henc, hextra, List.length_singleton, List.length_cons, Nat.add_comm]
  | unfinished hshort hlive => exact .unfinished (.unfinished hshort hlive)
  | malformed more tail hrest hn hshort hlive hrefused =>
    rw [hrest, hn, List.length_singleton, Nat.add_comm]
    exact .malformed (.within hshort hlive hrefused)

/-- A first byte whose bits no scalar value has is refused, and any other one is read on from. -/
theorem opens_readSequence {least k p : Nat} {b : UInt8} (rest : List UInt8)
    (hpending : Completable least p (k + 1) → Pending least k p [b] (ofLead b))
    (hrefused : ¬ Completable least p (k + 1) → ofLead b = reject) :
    Opens (b :: rest) (readSequence least (k + 1) p rest) := by
  rw [readSequence]
  split
  next h => exact ((hpending h).readsOn rest).opens
  next h => exact .malformed (.lead (hrefused h))

theorem opens_readScalar (b : UInt8) (rest : List UInt8) :
    Opens (b :: rest) (readScalar b rest) := by
  have hlt := b.toNat_lt
  have refused (h : 0x80 ≤ b.toNat ∧ b.toNat < 0xC2 ∨ 0xF4 < b.toNat) : ofLead b = reject := by
    have hlead := ScanState.leadRange_ofLead b
    generalize ofLead b = s at hlead ⊢
    cases hlead with
    | refused _ => rfl
    | _ => omega
  simp only [readScalar, UInt8.lt_iff_toNat_lt, UInt8.reduceToNat]
  split
  next h =>
    have hbytes : ScalarBytes b.toNat [b] := .one b h rfl
    have henc := hbytes.encodeScalar_ofNat (.inl (by omega))
    exact .scalar rest (by rw [henc]; rfl) (by rw [henc]; rfl)
  split
  next h => exact .malformed (.lead (refused (by omega)))
  split
  next h =>
    apply opens_readSequence
    · simp only [Completable]
      intro hbits
      exact .two (by omega) (by omega) (by omega)
    · simp only [Completable]
      intro hbits
      exact refused (by omega)
  split
  next h =>
    apply opens_readSequence
    · intro hbits
      exact .three (by omega) (by omega)
    · simp only [Completable]
      intro hbits
      exact refused (by omega)
  split
  next h =>
    apply opens_readSequence
    · simp only [Completable]
      intro hbits
      exact .four (by omega) (by omega)
    · simp only [Completable]
      intro hbits
      exact refused (by omega)
  next h => exact .malformed (.lead (refused (by omega)))

end PayloadStream
