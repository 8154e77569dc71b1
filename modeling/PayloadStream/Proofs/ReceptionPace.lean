import PayloadStream.Proofs.EvenCuts
import PayloadStream.Proofs.ReceivedMessages

/-!
# How far a reception goes

All reads before the last one have the full size of a chunk. So their number tells how much has been
received, and a reception ends with the read that the first unviable byte falls into. Without such a
byte it makes every read, also where the text breaks off within a code point.
-/

namespace PayloadStream

open ScanState (accept reject)

/-- A read of a full chunk, `earlier` bytes into a message that it leaves undecided. -/
structure Read.Passes (size earlier : Nat) (read : Read) : Prop where
  isInvalid_eq : read.verdict.isInvalid = false
  current_eq : read.validator.current.toNat = size
  total_eq : read.validator.total.toNat = earlier + size

/-- The number of reads that a message takes behind `before` bytes, in chunks of one size. -/
def readsLeft (size before : Nat) (whole : List UInt8) : Nat :=
  if accept.after whole = reject then (accept.taken whole - before) / size + 1
  else (whole.length - before) ⌈/⌉ size

section ReadsLeft

variable {size before : Nat} {text bytes whole : List UInt8}

theorem readsLeft_of_reject (h : accept.after whole = reject) :
    readsLeft size before whole = (accept.taken whole - before) / size + 1 := if_pos h

theorem readsLeft_of_live (h : accept.after whole ≠ reject) :
    readsLeft size before whole = (whole.length - before) ⌈/⌉ size := if_neg h

/-- The last chunk takes one read, whatever it holds. -/
theorem readsLeft_last (hpos : 0 < bytes.length) (hle : bytes.length ≤ size) :
    readsLeft size text.length (text ++ bytes) = 1 := by
  by_cases h : accept.after (text ++ bytes) = reject
  · have hlt := (ScanState.after_eq_reject_iff (by decide) _).mp h
    rw [List.length_append] at hlt
    have hwithin : accept.taken (text ++ bytes) - text.length < size := by omega
    rw [readsLeft_of_reject h, Nat.div_eq_of_lt hwithin]
  · rw [readsLeft_of_live h, List.length_append, Nat.add_sub_cancel_left]
    exact ceilDiv_eq_one hpos hle

/-- A chunk that is rejected is the last one to be read. -/
theorem readsLeft_rejected (hpos : 0 < bytes.length) (hle : bytes.length ≤ size)
    (h : accept.after (text ++ bytes) = reject) (rest : List UInt8) :
    readsLeft size text.length (text ++ bytes ++ rest) = 1 := by
  rw [readsLeft_of_reject (ScanState.after_append_of_reject h rest),
    ScanState.taken_append_of_reject h, ← readsLeft_of_reject h]
  exact readsLeft_last hpos hle

/-- A full chunk that is not rejected takes one read of those that are left. -/
theorem readsLeft_eq_add_one (hpos : 0 < size) (htaken : before + size ≤ accept.taken whole) :
    readsLeft size before whole = readsLeft size (before + size) whole + 1 := by
  by_cases h : accept.after whole = reject
  · have hle : size ≤ accept.taken whole - before := Nat.le_sub_of_add_le' htaken
    rw [readsLeft_of_reject h, readsLeft_of_reject h, Nat.div_eq_sub_div hpos hle, Nat.sub_sub]
  · rw [ScanState.taken_of_after_ne_reject h] at htaken
    have hle : size ≤ whole.length - before := Nat.le_sub_of_add_le' htaken
    rw [readsLeft_of_live h, readsLeft_of_live h, ceilDiv_eq_sub_ceilDiv_add_one hpos hle,
      Nat.sub_sub]

end ReadsLeft

/-- A reception of the rest of `whole` behind `text`, in chunks of one size. -/
structure Paced (key : Option MaskKey) (size : Nat) (text whole : List UInt8) (receipt : Receipt) :
    Prop where
  length_eq : receipt.reads.length = readsLeft size text.length whole
  received_eq : text ++ receipt.received = whole.take (text.length + receipt.reads.length * size)
  masker : receipt.masker.Holds key (text ++ receipt.received).length
  earlier (k : Nat) (read : Read) (hread : receipt.reads[k]? = some read)
    (hk : k + 1 < receipt.reads.length) : read.Passes size (text.length + k * size)

namespace Paced

variable {key : Option MaskKey} {size : Nat} {text bytes whole : List UInt8} {m : Masker}
  {read : Read} {receipt : Receipt}

/-- Nothing is left to read. -/
theorem nil (hlive : accept.after text ≠ reject) (hm : m.Holds key text.length) :
    Paced key size text text ⟨[], [], m⟩ := by
  refine ⟨?_, ?_, ?_, ?_⟩
  · rw [readsLeft_of_live hlive, Nat.sub_self, zero_ceilDiv]
    rfl
  · rw [List.append_nil, List.take_of_length_le (Nat.le_add_right _ _)]
  · rwa [List.append_nil]
  · intro k read hread
    simp at hread

/-- A read that ends the reception. -/
theorem single (hlength : readsLeft size text.length whole = 1)
    (hreceived : text ++ bytes = whole.take (text.length + size))
    (hm : m.Holds key (text ++ bytes).length) :
    Paced key size text whole ⟨bytes, [read], m⟩ := by
  refine ⟨hlength.symm, ?_, hm, ?_⟩
  · rw [hreceived, List.length_singleton, Nat.one_mul]
  · intro k read' hread hk
    simp at hk

/-- A full chunk that others follow. -/
theorem cons (hpos : 0 < size) (hsize : bytes.length = size)
    (htaken : (text ++ bytes).length ≤ accept.taken whole)
    (hread : read.Passes size text.length) (h : Paced key size (text ++ bytes) whole receipt) :
    Paced key size text whole
      ⟨bytes ++ receipt.received, read :: receipt.reads, receipt.masker⟩ := by
  have hlength := h.length_eq
  have hreceived := h.received_eq
  rw [List.length_append, hsize] at htaken hlength
  have hshift (k : Nat) : (text ++ bytes).length + k * size = text.length + (k + 1) * size := by
    rw [List.length_append, hsize, Nat.add_mul, Nat.one_mul, Nat.add_assoc, Nat.add_comm size]
  rw [List.append_assoc, hshift] at hreceived
  refine ⟨?_, hreceived, ?_, ?_⟩
  · rw [List.length_cons, hlength, readsLeft_eq_add_one hpos htaken]
  · rw [← List.append_assoc]
    exact h.masker
  · intro k read' hread' hk
    cases k with
    | zero =>
      obtain rfl : read = read' := Option.some.inj hread'
      rwa [Nat.zero_mul]
    | succ k =>
      rw [← hshift]
      exact h.earlier k read' hread' (Nat.lt_of_succ_lt_succ hk)

end Paced

namespace Receiving

variable {key : Option MaskKey} {text : List UInt8} {m : Masker} {v : Validator} {size : Nat}
  (h : Receiving key text m v)

include h

theorem passes_validate (level : VectorLevel) {b : Buffer} (hsize : b.bytes.length = size)
    (hlive : accept.after (text ++ b.bytes) ≠ reject)
    (hword : text.length + size < UInt64.size) :
    (Read.mk (v.validate level b).1 (v.validate level b).2).Passes size text.length := by
  have htaken : accept.taken (text ++ b.bytes) = text.length + size := by
    rw [ScanState.taken_of_after_ne_reject hlive, List.length_append, hsize]
  refine ⟨?_, ?_, ?_⟩
  · exact (h.isInvalid_validate level b).trans (beq_eq_false_iff_ne.mpr hlive)
  · change (v.feed level b).current.toNat = size
    rw [h.current_feed, htaken, Nat.add_sub_cancel_left]
    exact UInt64.toNat_ofNat_of_lt' (by omega)
  · change (v.feed level b).total.toNat = text.length + size
    rw [h.total_feed, htaken]
    exact UInt64.toNat_ofNat_of_lt' hword

theorem paced (level : VectorLevel) (place : Nat → Fin 16) (hpos : 0 < size)
    {chunks : List (List UInt8)} (hcut : EvenlyCut size chunks)
    (hword : text.length + chunks.flatten.length < UInt64.size) :
    Paced key size text (text ++ maskFrom key text.length chunks.flatten)
      (readChunks level place m v chunks) := by
  -- The chunks of an even cut are read one by one. `text` grows, and the message that it starts
  -- stays the same.
  induction hcut generalizing text place m v with
  | nil =>
    rw [List.flatten_nil, maskFrom_nil, List.append_nil]
    exact .nil h.live h.masker
  | @last chunk hne hle =>
    rw [readChunks_single (h.fst_processCopy level chunk (place 0)), List.flatten_singleton]
    rw [← length_maskFrom key text.length chunk] at hne hle
    have hwhole : (text ++ maskFrom key text.length chunk).length ≤ text.length + size := by
      rw [List.length_append]
      exact Nat.add_le_add_left hle _
    exact .single (readsLeft_last hne hle) (List.take_of_length_le hwhole).symm
      (h.masker_processCopy level chunk (place 0))
  | @more chunk next rest hsize tail ih =>
    have hplain := h.fst_processCopy level chunk (place 0)
    have hbytes := (length_maskFrom key text.length chunk).trans hsize
    rw [List.flatten_cons, List.length_append, hsize] at hword
    rw [List.flatten_cons, maskFrom_append, ← List.append_assoc]
    by_cases hreject : accept.after (text ++ maskFrom key text.length chunk) = reject
    · have hinvalid := h.isInvalid_validate level ⟨maskFrom key text.length chunk, place 0⟩
      rw [readChunks_of_rejected hplain (hinvalid.trans (beq_iff_eq.mpr hreject))]
      apply Paced.single (readsLeft_rejected (hbytes ▸ hpos) hbytes.le hreject _) _
        (h.masker_processCopy level chunk (place 0))
      rw [← hbytes, ← List.length_append, List.take_left]
    · have hread := h.passes_validate (b := ⟨maskFrom key text.length chunk, place 0⟩) level hbytes
        hreject (by omega)
      have hnext := h.next level chunk (place 0) hreject
      rw [readChunks_of_live hplain rfl hread.isInvalid_eq]
      have hlater := ih hnext (fun k => place (k + 1))
        (by rwa [List.length_append, hbytes, Nat.add_assoc])
      rw [List.length_append, length_maskFrom] at hlater
      exact .cons hpos hbytes (hnext.length_le_taken _) hread hlater

end Receiving

namespace Reception

theorem exists_paced (level : VectorLevel) (place : Nat → Fin 16) (r : Reception)
    {wire : List UInt8} (hword : wire.length < UInt64.size) (hparts : r.parts ≠ 0) :
    ∃ receipt, r.receive level place wire = .ok receipt ∧
      Paced r.key (max 1 (wire.length ⌈/⌉ r.parts.toNat)) [] (maskFrom r.key 0 wire) receipt := by
  have hpos : 0 < max 1 (wire.length ⌈/⌉ r.parts.toNat) :=
    Nat.lt_of_lt_of_le Nat.one_pos (Nat.le_max_left _ _)
  have hstart := Receiving.start level r.key { tier := r.maskTier } { tier := r.scanTier }
  have hpaced := hstart.paced level place hpos (evenlyCut_chunksOf hpos wire)
    (by rwa [flatten_chunksOf, List.length_nil, Nat.zero_add])
  rw [flatten_chunksOf] at hpaced
  refine ⟨_, ?_, hpaced⟩
  rw [receive, evenChunks_eq_chunksOf hword hparts]
  rfl

/-- A reception, wherever its reads lie, ends with the read that holds the first byte that no text
allows, or else with the last chunk. It keeps the unmasked bytes of the reads it made, and the
masker stands behind them. The reads before the last one are full, and count on from each other. The
length of a payload fits a word. -/
theorem receive_stops_at_first_unviable (level : VectorLevel) (place : Nat → Fin 16)
    (r : Reception) {wire : List UInt8} (hword : wire.length < UInt64.size) (hparts : r.parts ≠ 0) :
    let plain := maskFrom r.key 0 wire
    let size := max 1 (plain.length ⌈/⌉ r.parts.toNat)
    ∃ receipt, r.receive level place wire = .ok receipt ∧
      (∀ d, FirstUnviable plain d → receipt.reads.length = d / size + 1) ∧
      ((¬ ∃ d, FirstUnviable plain d) → receipt.reads.length = plain.length ⌈/⌉ size) ∧
      (wire = [] → receipt.reads = []) ∧
      receipt.received = plain.take (min (receipt.reads.length * size) plain.length) ∧
      receipt.masker.position.toNat = receipt.received.length ∧
      ∀ k read, receipt.reads[k]? = some read → k + 1 < receipt.reads.length →
        read.verdict.isInvalid = false ∧ read.validator.current.toNat = size ∧
        read.validator.total.toNat = size * (k + 1) := by
  intro plain size
  obtain ⟨receipt, hreceive, h⟩ := exists_paced level place r hword hparts
  have hplain : plain.length = wire.length := length_maskFrom r.key 0 wire
  rw [← hplain] at h hword
  have hreceived := h.received_eq
  rw [List.nil_append, List.length_nil, Nat.zero_add, List.take_eq_take_min] at hreceived
  have hall : (¬ ∃ d, FirstUnviable plain d) → receipt.reads.length = plain.length ⌈/⌉ size := by
    intro hnone
    have hlive : accept.after plain ≠ reject := by
      intro hreject
      exact hnone ⟨_, firstUnviable_taken hreject⟩
    exact h.length_eq.trans (readsLeft_of_live hlive)
  refine ⟨receipt, hreceive, ?_, hall, ?_, hreceived, ?_, ?_⟩
  · intro d hd
    obtain ⟨hreject, rfl⟩ := firstUnviable_iff.mp hd
    exact h.length_eq.trans (readsLeft_of_reject hreject)
  · rintro rfl
    have hnone : ¬ ∃ d, FirstUnviable plain d := by
      rintro ⟨d, hd⟩
      exact Nat.not_lt_zero d hd.1.1
    apply List.eq_nil_of_length_eq_zero
    rw [hall hnone]
    exact zero_ceilDiv size
  · have hle : receipt.received.length ≤ plain.length := by
      rw [hreceived]
      exact List.length_take_le' _ _
    rw [h.masker.position_eq]
    exact UInt64.toNat_ofNat_of_lt' (Nat.lt_of_le_of_lt hle hword)
  · intro k read hread hk
    have hpasses := h.earlier k read hread hk
    refine ⟨hpasses.isInvalid_eq, hpasses.current_eq, ?_⟩
    rw [hpasses.total_eq, List.length_nil, Nat.zero_add, Nat.mul_succ, Nat.mul_comm]

/-- A surrogate that is cut after its first byte. Its second byte is the first one that no text
allows, so the last of three reads is not made. -/
theorem receive_stops_within_surrogate :
    let r : Reception := ⟨some ⟨#v[0x37, 0xFA, 0x21, 0x3D]⟩, 3, some .sse2, none⟩
    let place : Nat → Fin 16 := fun k => blockOffset (7 * k + 3)
    let wire : List UInt8 := [0x56, 0x17, 0x81, 0xBD, 0x55]
    wire.length < UInt64.size ∧ r.parts ≠ 0 ∧ FirstUnviable (maskFrom r.key 0 wire) 2 ∧
    ∃ receipt first, r.receive .sse41 place wire = .ok receipt ∧ receipt.reads.length = 2 ∧
      receipt.received = [0x61, 0xED, 0xA0, 0x80] ∧ receipt.masker.position.toNat = 4 ∧
      receipt.reads[0]? = some first ∧ first.verdict.isInvalid = false ∧
      first.validator.current.toNat = 2 ∧ first.validator.total.toNat = 2 := by
  intro r place wire
  have hword : wire.length < UInt64.size := by decide
  have hparts : r.parts ≠ 0 := by decide
  have hplain : maskFrom r.key 0 wire = [0x61, 0xED, 0xA0, 0x80, 0x62] := by decide
  have hfirst : FirstUnviable (maskFrom r.key 0 wire) 2 := firstUnviable_iff.mpr (by decide)
  have hsize : max 1 ((maskFrom r.key 0 wire).length ⌈/⌉ r.parts.toNat) = 2 := by decide
  obtain ⟨receipt, hreceive, hreads, -, -, hreceived, hposition, hearlier⟩ :=
    receive_stops_at_first_unviable .sse41 place r hword hparts
  rw [hsize] at hreads hreceived hearlier
  have hlength : receipt.reads.length = 2 := hreads 2 hfirst
  rw [hlength, hplain] at hreceived
  have htaken : receipt.received = [0x61, 0xED, 0xA0, 0x80] := hreceived
  rw [htaken] at hposition
  obtain ⟨first, hread⟩ : ∃ first, receipt.reads[0]? = some first :=
    ⟨_, List.getElem?_eq_getElem (hlength ▸ Nat.zero_lt_two)⟩
  obtain ⟨hvalid, hcurrent, htotal⟩ := hearlier 0 first hread (hlength ▸ Nat.one_lt_two)
  exact ⟨hword, hparts, hfirst, receipt, first, hreceive, hlength, htaken, hposition, hread,
    hvalid, hcurrent, htotal⟩

end Reception

end PayloadStream
