import PayloadStream.Reception
import PayloadStream.Proofs.KeyStreams
import PayloadStream.Proofs.MessageStreams

/-!
# What a reception ends with

Three things go from read to read: the place in the wire bytes, the position in the key, and the
state of the scan with its counters. They stay in step, so that after every read the validator has
read exactly the plaintext of the bytes so far. The last read is the last chunk, or the one that
rejects; what comes after a rejection changes neither the state nor the count. So the last verdict
is a function of the plaintext and of where the last read starts. Where the reads lie in memory
shows in nothing at all.
-/

namespace PayloadStream

open ScanState (accept reject)

/-- The verdict that ends a message of this text, if its last read starts after `earlier` bytes. -/
def closing (text : List UInt8) (earlier : Nat) : Verdict :=
  if accept.after text = accept then .valid
  else .invalid (accept.taken text - earlier).toUInt64 (accept.taken text).toUInt64

theorem closing_eq_valid_iff (text : List UInt8) (earlier : Nat) :
    closing text earlier = .valid ↔ WellFormed text := by
  rw [closing, wellFormed_iff_after]
  split
  next h => simp [h]
  next h => simp [h]

theorem closing_of_not_wellFormed {text : List UInt8} (h : ¬ WellFormed text) (earlier : Nat) :
    closing text earlier =
      .invalid (accept.taken text - earlier).toUInt64 (accept.taken text).toUInt64 := by
  rw [wellFormed_iff_after] at h
  rw [closing, if_neg h]

theorem sameUpToOffset_closing (text : List UInt8) (earlier earlier' : Nat) :
    (closing text earlier).SameUpToOffset (closing text earlier') := by
  rw [closing, closing]
  split
  · exact .valid
  · exact .invalid _ _ _

/-- Bytes after a rejected text do not change how it ends. -/
theorem closing_append_of_reject {text : List UInt8} (h : accept.after text = reject)
    (rest : List UInt8) (earlier : Nat) :
    closing (text ++ rest) earlier = closing text earlier := by
  rw [closing, closing, ScanState.after_append_of_reject h, ScanState.taken_append_of_reject h, h]

/-- A reception of the plaintext `text` so far, which is not rejected. -/
structure Receiving (key : Option MaskKey) (text : List UInt8) (m : Masker) (v : Validator) :
    Prop where
  masker : m.Holds key text.length
  state_eq : v.state = accept.after text
  total_eq : v.total = (accept.taken text).toUInt64
  live : accept.after text ≠ reject

namespace Receiving

variable {key : Option MaskKey} {text : List UInt8} {m : Masker} {v : Validator}

theorem start (level : VectorLevel) (key : Option MaskKey) (masking : MaskOptions)
    (scanning : ScanOptions) :
    Receiving key [] (Masker.ofOptions level key masking) (Validator.ofOptions level scanning) :=
  ⟨.ofOptions level key masking, rfl, rfl, by decide⟩

variable (h : Receiving key text m v)

include h

theorem fst_processCopy (level : VectorLevel) (chunk : List UInt8) (place : Fin 16) :
    (m.processCopy level chunk place).1 = maskFrom key text.length chunk :=
  h.masker.fst_process level ⟨chunk, place⟩

theorem length_le_taken (rest : List UInt8) : text.length ≤ accept.taken (text ++ rest) := by
  rw [ScanState.taken_append_of_live h.live]
  exact Nat.le_add_right _ _

theorem state_feed (level : VectorLevel) (b : Buffer) :
    (v.feed level b).state = accept.after (text ++ b.bytes) := by
  rw [Validator.state_feed, h.state_eq, ScanState.after_append]

theorem current_feed (level : VectorLevel) (b : Buffer) :
    (v.feed level b).current = (accept.taken (text ++ b.bytes) - text.length).toUInt64 := by
  rw [Validator.current_feed, h.state_eq, ScanState.taken_append_of_live h.live,
    Nat.add_sub_cancel_left]

theorem total_feed (level : VectorLevel) (b : Buffer) :
    (v.feed level b).total = (accept.taken (text ++ b.bytes)).toUInt64 := by
  rw [Validator.total_feed, h.total_eq, h.state_eq, ScanState.taken_append]
  exact (UInt64.ofNat_add _ _).symm

theorem masker_processCopy (level : VectorLevel) (chunk : List UInt8) (place : Fin 16) :
    (m.processCopy level chunk place).2.Holds key
      (text ++ maskFrom key text.length chunk).length := by
  rw [List.length_append, length_maskFrom]
  exact h.masker.process level ⟨chunk, place⟩

/-- The step to the next read. -/
theorem next (level : VectorLevel) (chunk : List UInt8) (place : Fin 16)
    (hlive : accept.after (text ++ maskFrom key text.length chunk) ≠ reject) :
    Receiving key (text ++ maskFrom key text.length chunk) (m.processCopy level chunk place).2
      (v.feed level ⟨maskFrom key text.length chunk, place⟩) :=
  ⟨h.masker_processCopy level chunk place, h.state_feed level _, h.total_feed level _, hlive⟩

theorem isInvalid_validate (level : VectorLevel) (b : Buffer) :
    (v.validate level b).1.isInvalid = (accept.after (text ++ b.bytes) == reject) := by
  change (v.feed level b).verdict.isInvalid = _
  rw [Validator.isInvalid_verdict, Validator.rejected, h.state_feed]

theorem verdict_validate_of_reject (level : VectorLevel) (b : Buffer)
    (hreject : accept.after (text ++ b.bytes) = reject) :
    (v.validate level b).1 = closing (text ++ b.bytes) text.length := by
  change (v.feed level b).verdict = _
  rw [closing, hreject, if_neg (by decide)]
  apply Validator.verdict_eq_invalid_iff.mpr
  exact ⟨(h.state_feed level b).trans hreject, h.current_feed level b, h.total_feed level b⟩

theorem verdict_complete (level : VectorLevel) (b : Buffer) :
    (v.complete level b).1 = closing (text ++ b.bytes) text.length := by
  have hstate := Validator.state_finish (v.feed level b)
  rw [h.state_feed] at hstate
  change (v.feed level b).finish.verdict = _
  rw [closing]
  split
  next haccept =>
    rw [if_pos haccept] at hstate
    exact Validator.verdict_eq_valid_iff.mpr hstate
  next haccept =>
    rw [if_neg haccept] at hstate
    apply Validator.verdict_eq_invalid_iff.mpr
    rw [Validator.current_finish, Validator.total_finish]
    exact ⟨hstate, h.current_feed level b, h.total_feed level b⟩

end Receiving

theorem Validator.read_place_irrel (level : VectorLevel) (last : Bool) (v : Validator)
    (bytes : List UInt8) (place place' : Fin 16) :
    v.read level last ⟨bytes, place⟩ = v.read level last ⟨bytes, place'⟩ := by
  have hfeed : v.feed level ⟨bytes, place⟩ = v.feed level ⟨bytes, place'⟩ := by
    rw [feed_eq, feed_eq]
  simp only [read, complete, validate, hfeed]

theorem readChunks_place_irrel (level : VectorLevel) (place place' : Nat → Fin 16) (m : Masker)
    (v : Validator) (chunks : List (List UInt8)) :
    readChunks level place m v chunks = readChunks level place' m v chunks := by
  induction chunks generalizing place place' m v with
  | nil => rfl
  | cons chunk rest ih =>
    have hcopy := m.processCopy_place_irrel level chunk (place 0) (place' 0)
    have hread (bytes : List UInt8) :=
      v.read_place_irrel level rest.isEmpty bytes (place 0) (place' 0)
    have hlater := ih (fun k => place (k + 1)) (fun k => place' (k + 1))
    simp only [readChunks, hcopy, hread, hlater]

/-- How the reads of some chunks end: `k` of them come before the last one. -/
structure EndsAs (text : List UInt8) (before : Nat) (chunks : List (List UInt8))
    (reads : List Read) (k : Nat) (last : Read) : Prop where
  length_eq : reads.length = k + 1
  getLast?_eq : reads.getLast? = some last
  verdict_eq : last.verdict = closing text (before + (chunks.take k).flatten.length)
  earlier_le : before + (chunks.take k).flatten.length ≤ accept.taken text

theorem EndsAs.single {text : List UInt8} {before : Nat} {chunks : List (List UInt8)} {read : Read}
    (hverdict : read.verdict = closing text before) (hle : before ≤ accept.taken text) :
    EndsAs text before chunks [read] 0 read :=
  ⟨rfl, rfl, hverdict, hle⟩

theorem EndsAs.cons {text chunk : List UInt8} {before k : Nat} {chunks : List (List UInt8)}
    {reads : List Read} {read last : Read}
    (h : EndsAs text (before + chunk.length) chunks reads k last) :
    EndsAs text before (chunk :: chunks) (read :: reads) (k + 1) last := by
  have hlength : before + ((chunk :: chunks).take (k + 1)).flatten.length =
      before + chunk.length + (chunks.take k).flatten.length := by
    rw [List.take_succ_cons, List.flatten_cons, List.length_append, Nat.add_assoc]
  refine ⟨congrArg (· + 1) h.length_eq, ?_, ?_, ?_⟩
  · rw [List.getLast?_cons, h.getLast?_eq]
    rfl
  · rw [hlength]
    exact h.verdict_eq
  · rw [hlength]
    exact h.earlier_le

section Steps

variable {level : VectorLevel} {place : Nat → Fin 16} {m : Masker} {v : Validator}
  {chunk next bytes : List UInt8} {rest : List (List UInt8)}
  (hplain : (m.processCopy level chunk (place 0)).1 = bytes)

include hplain

theorem readChunks_single :
    readChunks level place m v [chunk] =
      ⟨bytes,
        [⟨(v.complete level ⟨bytes, place 0⟩).1, (v.complete level ⟨bytes, place 0⟩).2⟩],
        (m.processCopy level chunk (place 0)).2⟩ := by
  simp only [readChunks, hplain, Validator.read, List.isEmpty_nil, if_true, List.append_nil,
    ite_self]

theorem readChunks_of_rejected (h : (v.validate level ⟨bytes, place 0⟩).1.isInvalid = true) :
    readChunks level place m v (chunk :: next :: rest) =
      ⟨bytes,
        [⟨(v.validate level ⟨bytes, place 0⟩).1, (v.validate level ⟨bytes, place 0⟩).2⟩],
        (m.processCopy level chunk (place 0)).2⟩ := by
  rw [readChunks, hplain]
  exact if_pos h

theorem readChunks_of_live {later : Receipt}
    (hlater : readChunks level (fun k => place (k + 1)) (m.processCopy level chunk (place 0)).2
      (v.feed level ⟨bytes, place 0⟩) (next :: rest) = later)
    (h : (v.validate level ⟨bytes, place 0⟩).1.isInvalid = false) :
    readChunks level place m v (chunk :: next :: rest) =
      ⟨bytes ++ later.received,
        ⟨(v.validate level ⟨bytes, place 0⟩).1, (v.validate level ⟨bytes, place 0⟩).2⟩ ::
          later.reads,
        later.masker⟩ := by
  rw [← hlater, readChunks, hplain]
  exact if_neg (Bool.eq_false_iff.mp h)

end Steps

/-- The reads of the chunks to come end as the whole text does. -/
theorem Receiving.exists_endsAs {key : Option MaskKey} {text : List UInt8} {m : Masker}
    {v : Validator} (h : Receiving key text m v) (level : VectorLevel) (place : Nat → Fin 16)
    {chunks : List (List UInt8)} (hne : chunks ≠ []) :
    ∃ k last, EndsAs (text ++ maskFrom key text.length chunks.flatten) text.length chunks
      (readChunks level place m v chunks).reads k last := by
  -- Each step adds the plaintext of one chunk to the text. That chunk is the last one, or it
  -- rejects, or it leaves the rest to the induction.
  induction chunks generalizing text place m v with
  | nil => exact absurd rfl hne
  | cons chunk rest ih =>
    have hplain := h.fst_processCopy level chunk (place 0)
    cases rest with
    | nil =>
      rw [readChunks_single hplain, List.flatten_cons, List.flatten_nil, List.append_nil]
      exact ⟨0, _, .single (h.verdict_complete level _) (h.length_le_taken _)⟩
    | cons next rest =>
      have hinvalid := h.isInvalid_validate level ⟨maskFrom key text.length chunk, place 0⟩
      rw [List.flatten_cons, maskFrom_append, ← List.append_assoc]
      by_cases hreject : accept.after (text ++ maskFrom key text.length chunk) = reject
      · rw [readChunks_of_rejected hplain (hinvalid.trans (beq_iff_eq.mpr hreject))]
        refine ⟨0, _, .single ?_ ?_⟩
        · rw [closing_append_of_reject hreject]
          exact h.verdict_validate_of_reject level _ hreject
        · rw [List.append_assoc]
          exact h.length_le_taken _
      · rw [readChunks_of_live hplain rfl (hinvalid.trans (beq_eq_false_iff_ne.mpr hreject))]
        obtain ⟨k, last, hends⟩ := ih (h.next level chunk (place 0) hreject)
          (fun k => place (k + 1)) (List.cons_ne_nil _ _)
        rw [List.length_append, length_maskFrom] at hends
        exact ⟨k + 1, last, hends.cons⟩

namespace Reception

theorem exists_evenChunks {parts : UInt64} (hparts : parts ≠ 0) (wire : List UInt8) :
    ∃ chunks, evenChunks wire parts = .ok chunks ∧ chunks.flatten = wire := by
  exact ⟨_, if_neg hparts, flatten_chunksOf _ wire⟩

/-- Where the reads lie in memory changes nothing in what a reception leaves. -/
theorem receive_place_irrel (level : VectorLevel) (place place' : Nat → Fin 16) (r : Reception)
    (wire : List UInt8) : r.receive level place wire = r.receive level place' wire := by
  unfold receive
  congr 1
  funext chunks
  exact readChunks_place_irrel level place place' _ _ chunks

/-- The last read of a reception ends the plaintext. -/
theorem exists_receive_endsAs (level : VectorLevel) (place : Nat → Fin 16) (r : Reception)
    {wire : List UInt8} (hwire : wire ≠ []) (hparts : r.parts ≠ 0) :
    ∃ chunks receipt k last, evenChunks wire r.parts = .ok chunks ∧
      r.receive level place wire = .ok receipt ∧
      EndsAs (maskFrom r.key 0 wire) 0 chunks receipt.reads k last := by
  obtain ⟨chunks, hchunks, hflatten⟩ := exists_evenChunks hparts wire
  have hne : chunks ≠ [] := by
    rintro rfl
    exact hwire hflatten.symm
  obtain ⟨k, last, hends⟩ := (Receiving.start level r.key { tier := r.maskTier }
    { tier := r.scanTier }).exists_endsAs level place hne
  rw [List.nil_append, hflatten] at hends
  refine ⟨chunks, _, k, last, hchunks, ?_, hends⟩
  rw [receive, hchunks]
  rfl

theorem exists_closing_of_receive {level : VectorLevel} {place : Nat → Fin 16} {r : Reception}
    {wire : List UInt8} {receipt : Receipt} {last : Read} (hwire : wire ≠ [])
    (hreceive : r.receive level place wire = .ok receipt)
    (hlast : receipt.reads.getLast? = some last) :
    ∃ earlier, last.verdict = closing (maskFrom r.key 0 wire) earlier := by
  have hparts : r.parts ≠ 0 := by
    intro h
    have herror : r.receive level place wire = .error {} := receive_eq_error_iff.mpr h
    rw [hreceive] at herror
    cases herror
  obtain ⟨chunks, receipt', k, last', -, hreceive', hends⟩ :=
    exists_receive_endsAs level place r hwire hparts
  obtain rfl : receipt' = receipt := Except.ok.inj (hreceive'.symm.trans hreceive)
  obtain rfl : last' = last := Option.some.inj (hends.getLast?_eq.symm.trans hlast)
  exact ⟨_, hends.verdict_eq⟩

theorem maskFrom_sendMasked (level : VectorLevel) (key : Option MaskKey) (payload : List UInt8)
    (place : Fin 16) : maskFrom key 0 (sendMasked level key payload place) = payload := by
  have hsent : sendMasked level key payload place = maskFrom key 0 payload :=
    (Masker.Holds.ofOptions level key {}).fst_process level ⟨payload, place⟩
  rw [hsent, maskFrom_maskFrom]

/-- A reception, in however many reads, wherever they lie and by whatever tiers, decides the
plaintext: the last verdict names the first place where it stops being the front of any text, or its
end if it only breaks off there, counted from the start and from the last read. -/
theorem receive_decides_plaintext (level : VectorLevel) (place : Nat → Fin 16) (r : Reception)
    {wire : List UInt8} (hwire : wire ≠ []) (hparts : r.parts ≠ 0) :
    let plain := maskFrom r.key 0 wire
    ∃ chunks receipt k last, evenChunks wire r.parts = .ok chunks ∧
      r.receive level place wire = .ok receipt ∧
      receipt.reads.length = k + 1 ∧ receipt.reads.getLast? = some last ∧
      (last.verdict = .valid ↔ WellFormed plain) ∧
      (¬ WellFormed plain → ∃ i, (FirstUnviable plain i ∨ Viable plain ∧ i = plain.length) ∧
        (chunks.take k).flatten.length ≤ i ∧
        last.verdict = .invalid (i - (chunks.take k).flatten.length).toUInt64 i.toUInt64) ∧
      (r.key = none → plain = wire) ∧
      (∀ sender payload sent, wire = sendMasked sender r.key payload sent → plain = payload) ∧
      ∀ (level' : VectorLevel) (place' : Nat → Fin 16) (r' : Reception) (receipt' : Receipt)
        (last' : Read), r'.key = r.key → r'.receive level' place' wire = .ok receipt' →
        receipt'.reads.getLast? = some last' → last.verdict.SameUpToOffset last'.verdict := by
  intro plain
  obtain ⟨chunks, receipt, k, last, hchunks, hreceive, hends⟩ :=
    exists_receive_endsAs level place r hwire hparts
  refine ⟨chunks, receipt, k, last, hchunks, hreceive, hends.length_eq, hends.getLast?_eq,
    ?_, ?_, ?_, ?_, ?_⟩
  · rw [hends.verdict_eq]
    exact closing_eq_valid_iff plain _
  · intro hplain
    refine ⟨accept.taken plain, firstUnviable_or_viable plain, ?_, ?_⟩
    · simpa using hends.earlier_le
    · rw [hends.verdict_eq, closing_of_not_wellFormed hplain, Nat.zero_add]
  · intro hkey
    change maskFrom r.key 0 wire = wire
    rw [hkey, maskFrom_none]
  · rintro sender payload sent rfl
    exact maskFrom_sendMasked sender r.key payload sent
  · intro level' place' r' receipt' last' hkey hreceive' hlast'
    obtain ⟨earlier, hverdict⟩ := exists_closing_of_receive hwire hreceive' hlast'
    rw [hends.verdict_eq, hverdict, hkey]
    exact sameUpToOffset_closing plain _ _

/-- A surrogate that is cut after its first byte; the second of three reads is the last. -/
theorem receive_surrogate_in_two_reads :
    let r : Reception := ⟨some ⟨#v[0x37, 0xFA, 0x21, 0x3D]⟩, 3, some .sse2, none⟩
    let place : Nat → Fin 16 := fun k => blockOffset (7 * k + 3)
    [(0x56 : UInt8), 0x17, 0x81, 0xBD, 0x55] ≠ [] ∧ r.parts ≠ 0 ∧
    ∃ receipt last, r.receive .sse41 place [0x56, 0x17, 0x81, 0xBD, 0x55] = .ok receipt ∧
      receipt.reads.getLast? = some last ∧ last.verdict = .invalid 0 2 ∧
      ¬ WellFormed [0x61, 0xED, 0xA0, 0x80, 0x62] := by
  intro r place
  have hwire : [(0x56 : UInt8), 0x17, 0x81, 0xBD, 0x55] ≠ [] := by decide
  have hparts : r.parts ≠ 0 := by decide
  have hrun : (r.receive .sse41 place [0x56, 0x17, 0x81, 0xBD, 0x55]).map
      (fun receipt => receipt.reads.getLast?.map Read.verdict) = .ok (some (.invalid 0 2)) := by
    decide +kernel
  have hplain : maskFrom r.key 0 [0x56, 0x17, 0x81, 0xBD, 0x55] =
      [0x61, 0xED, 0xA0, 0x80, 0x62] := by
    decide
  obtain ⟨_, receipt, _, last, -, hreceive, -, hlast, hvalid, -⟩ :=
    receive_decides_plaintext .sse41 place r hwire hparts
  rw [hreceive, Except.map, hlast] at hrun
  have hverdict : last.verdict = .invalid 0 2 := Option.some.inj (Except.ok.inj hrun)
  rw [hverdict, hplain] at hvalid
  exact ⟨hwire, hparts, receipt, last, hreceive, hlast, hverdict, fun h => nomatch hvalid.mpr h⟩

end Reception

end PayloadStream
