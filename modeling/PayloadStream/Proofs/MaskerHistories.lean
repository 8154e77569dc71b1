import PayloadStream.MaskerRun
import PayloadStream.Proofs.CheckpointSimulation
import PayloadStream.Proofs.KeyStreams

/-!
# The history of a masker

Of all that a masker has gone through, only one number counts: how many bytes it has masked since
the last reset. A ledger keeps that number beside a run, and restoring a masker brings its number
back. At every point the position is the number and the next call masks by it, so neither cuts nor
tiers nor places in memory nor detours through other streams show in the bytes.
-/

namespace PayloadStream

/-- The key that a way of making a masker gives it. Bytes are a key if they are four. -/
inductive MaskerSetup.Keyed : MaskerSetup → Option MaskKey → Prop
  | bytes (a b c d : UInt8) : Keyed (.bytes [a, b, c, d]) (some ⟨#v[a, b, c, d]⟩)
  | key (key : MaskKey) : Keyed (.key key) (some key)
  | null : Keyed .null none
  | options (key : Option MaskKey) (options : MaskOptions) : Keyed (.options key options) key
  | payload (key : Option MaskKey) (length : Option UInt64) : Keyed (.payload key length) key
  | payloadWith (key : Option MaskKey) (length : Option UInt64) (options : MaskOptions) :
      Keyed (.payloadWith key length options) key

namespace MaskerCall

/-- The bytes that a call masks. -/
def source : MaskerCall → List UInt8
  | process w => w.inner.bytes
  | copy bytes _ => bytes
  | skip n => List.replicate n.toNat 0
  | _ => []

/-- The number of bytes since the last reset, if it was `n` before the call. -/
def count (n : Nat) : MaskerCall → Nat
  | reset => 0
  | call => n + call.source.length

/-- What a call is to answer after `n` bytes. A tier is named or refused; the bytes do not tell. -/
inductive Answered (key : Option MaskKey) (n : Nat) : MaskerCall → MaskerReply → Prop
  | process (w : Window) (out : List UInt8) (length : out.length = w.buffer.bytes.length)
      (inside : ∀ i, w.start ≤ i ∧ i < w.stop →
        out[i]? = w.buffer.bytes[i]?.map (maskByte key (n + (i - w.start))))
      (outside : ∀ i, i < w.start ∨ w.stop ≤ i → out[i]? = w.buffer.bytes[i]?) :
      Answered key n (.process w) (.buffer out)
  | copy (bytes out : List UInt8) (place : Fin 16) (length : out.length = bytes.length)
      (masked : ∀ i, out[i]? = bytes[i]?.map (maskByte key (n + i))) :
      Answered key n (.copy bytes place) (.copy out bytes)
  | skip (k : UInt64) : Answered key n (.skip k) .silent
  | reset : Answered key n .reset .silent
  | tier (code : UInt8) (t : MaskTier) : Answered key n (.selectTier code) (.tier t)
  | unknownTier (code : UInt8) (e : UnknownTier) :
      Answered key n (.selectTier code) (.unknownTier e)

/-- The ledger's entry for a call: the call itself and the number of bytes before it. -/
def record (n : Nat) (call : MaskerCall) : (Nat × MaskerCall) × Nat := ((n, call), call.count n)

end MaskerCall

/-- The number of bytes since the last reset, after a run. -/
def processed (steps : List (RunStep MaskerCall)) : Nat :=
  ((Checkpointed.start 0).run MaskerCall.record steps).live

/-- A part of a stream: a window or a copy is masked, or another tier is asked for. -/
inductive MaskPiece where
  | window (w : Window)
  | copy (bytes : List UInt8) (place : Fin 16)
  | tier (code : UInt8)

namespace MaskPiece

def call : MaskPiece → MaskerCall
  | window w => .process w
  | copy bytes place => .copy bytes place
  | tier code => .selectTier code

/-- The masked bytes in a reply: those in the window, or all of a copy. -/
def result : MaskPiece → MaskerReply → List UInt8
  | window w, .buffer out => (out.drop w.start).take (w.stop - w.start)
  | copy _ _, .copy out _ => out
  | _, _ => []

end MaskPiece

/-- The masked bytes of a stream, part by part. -/
def Masker.maskPieces (level : VectorLevel) : Masker → List MaskPiece → List UInt8
  | _, [] => []
  | m, p :: rest =>
    p.result (m.answer level p.call).1 ++ maskPieces level (m.answer level p.call).2 rest

namespace Masker

variable {level : VectorLevel} {key : Option MaskKey} {m : Masker} {n : Nat}

namespace Holds

theorem answered_process (h : Holds key m n) (level : VectorLevel) (w : Window) :
    (MaskerCall.process w).Answered key n (.buffer (m.processWindow level w).1) := by
  rw [processWindow, h.fst_process]
  have hlength : (maskFrom key n w.inner.bytes).length = w.stop - w.start := by simp
  refine .process w _ (w.length_write hlength) ?_ (fun i => w.getElem?_write_outside hlength)
  rintro i ⟨hstart, hstop⟩
  have hinner : w.inner.bytes[i - w.start]? = w.buffer.bytes[i]? := by
    rw [w.getElem?_inner (by omega), Nat.add_sub_cancel' hstart]
  rw [w.getElem?_write_inside hlength ⟨hstart, hstop⟩, getElem?_maskFrom, hinner]

theorem answered_copy (h : Holds key m n) (level : VectorLevel) (bytes : List UInt8)
    (place : Fin 16) :
    (MaskerCall.copy bytes place).Answered key n
      (.copy (m.processCopy level bytes place).1 bytes) := by
  rw [processCopy, h.fst_process]
  exact .copy bytes _ place (length_maskFrom key n bytes) (getElem?_maskFrom key n bytes)

theorem selectTier (h : Holds key m n) (level : VectorLevel) (code : UInt8) :
    (MaskerCall.selectTier code).Answered key n (m.answer level (.selectTier code)).1 ∧
      Holds key (m.answer level (.selectTier code)).2 n := by
  rw [answer]
  split
  · exact ⟨.tier code _, h.key_eq, h.position_eq⟩
  · exact ⟨.unknownTier code _, h⟩

/-- One call. -/
theorem answer (h : Holds key m n) (level : VectorLevel) (call : MaskerCall) :
    call.Answered key n (m.answer level call).1 ∧
      Holds key (m.answer level call).2 (call.count n) := by
  cases call with
  | process w => exact ⟨h.answered_process level w, h.process level w.inner⟩
  | copy bytes place => exact ⟨h.answered_copy level bytes place, h.process level ⟨bytes, place⟩⟩
  | skip k =>
    refine ⟨.skip k, ?_⟩
    rw [snd_answer_skip level m k 0]
    exact h.process level ⟨List.replicate k.toNat 0, 0⟩
  | reset => exact ⟨.reset, h.key_eq, rfl⟩
  | selectTier code => exact h.selectTier level code

theorem result_piece (h : Holds key m n) (level : VectorLevel) (p : MaskPiece) :
    p.result (m.answer level p.call).1 = maskFrom key n p.call.source := by
  cases p with
  | window w =>
    have hlength : (maskFrom key n w.inner.bytes).length = w.stop - w.start := by simp
    change ((w.write (m.process level w.inner).1).drop w.start).take (w.stop - w.start) = _
    rw [h.fst_process, w.take_drop_write hlength]
    rfl
  | copy bytes place => exact h.fst_process level ⟨bytes, place⟩
  | tier code =>
    simp only [MaskPiece.call, Masker.answer]
    split <;> rfl

theorem piece (h : Holds key m n) (level : VectorLevel) (p : MaskPiece) :
    Holds key (m.answer level p.call).2 (n + p.call.source.length) := by
  cases p <;> exact (h.answer level _).2

/-- The bytes of a stream are masked as one piece. -/
theorem maskPieces (h : Holds key m n) (level : VectorLevel) (pieces : List MaskPiece) :
    m.maskPieces level pieces = maskFrom key n (pieces.flatMap fun p => p.call.source) := by
  induction pieces generalizing m n with
  | nil => rfl
  | cons p rest ih =>
    rw [Masker.maskPieces, h.result_piece, ih (h.piece level p), List.flatMap_cons, maskFrom_append]

end Holds

theorem simulates_record (level : VectorLevel) (key : Option MaskKey) :
    Checkpointed.Simulates (answer level) MaskerCall.record (· = ·)
      (fun reply entry => entry.2.Answered key entry.1 reply) (Holds key) := by
  rintro m n call _ h rfl
  exact h.answer level call

theorem holds_run (h : Holds key m 0) (steps : List (RunStep MaskerCall)) :
    Holds key ((Checkpointed.start m).run (answer level) steps).live (processed steps) :=
  ((simulates_record level key).run (Checkpointed.related_start h)
    (RunStep.forall₂_rel_eq steps)).live

theorem exists_build {setup : MaskerSetup} (h : setup.Keyed key) (level : VectorLevel) :
    ∃ m, setup.build level = .ok m ∧ Holds key m 0 := by
  cases h <;> exact ⟨_, rfl, .ofOptions level _ _⟩

/-- Every way to make a masker gives one. After any run its position is the number of bytes since
the last reset, and by that number the next call is answered and the next stream is masked. -/
theorem masks_by_history {setup : MaskerSetup} (h : setup.Keyed key) (level : VectorLevel) :
    ∃ m, setup.build level = .ok m ∧ ∀ before : List (RunStep MaskerCall),
      let live := ((Checkpointed.start m).run (answer level) before).live
      let n := processed before
      (n < UInt64.size → live.position.toNat = n) ∧
      (∀ call : MaskerCall, call.Answered key n (live.answer level call).1) ∧
      ∀ pieces, live.maskPieces level pieces =
        maskFrom key n (pieces.flatMap fun p => p.call.source) := by
  obtain ⟨m, hm, hstart⟩ := exists_build h level
  refine ⟨m, hm, ?_⟩
  intro before live n
  have hlive : Holds key live n := holds_run hstart before
  refine ⟨?_, fun call => (hlive.answer level call).1, hlive.maskPieces level⟩
  intro hn
  rw [hlive.position_eq]
  exact UInt64.toNat_ofNat_of_lt' hn

/-- Three bytes were masked before the save; what came after it is undone. -/
theorem masks_after_restore :
    let before : List (RunStep MaskerCall) :=
      [.act (.process ⟨⟨[0, 0, 0, 0, 0], 7⟩, 1, 4, by decide, by decide⟩), .save,
        .act (.copy [9, 9] 4), .act (.selectTier 9), .act .reset, .restore]
    (MaskerSetup.payloadWith (some ⟨#v[1, 2, 3, 4]⟩) (some 300) {}).Keyed
      (some ⟨#v[1, 2, 3, 4]⟩) ∧
    ∃ m, (MaskerSetup.payloadWith (some ⟨#v[1, 2, 3, 4]⟩) (some 300) {}).build .sse2 = .ok m ∧
      ((Checkpointed.start m).run (answer .sse2) before).live.maskPieces .sse2
        [.copy [0] 12, .tier 1, .window (.whole ⟨[0, 0], 15⟩)] = [4, 1, 2] := by
  intro before
  have hkey : (MaskerSetup.payloadWith (some ⟨#v[1, 2, 3, 4]⟩) (some 300) {}).Keyed
      (some ⟨#v[1, 2, 3, 4]⟩) := .payloadWith _ _ _
  obtain ⟨m, hm, hruns⟩ := masks_by_history hkey .sse2
  obtain ⟨-, -, hmask⟩ := hruns before
  have hprocessed : processed before = 3 := by decide
  refine ⟨hkey, m, hm, ?_⟩
  rw [hmask, hprocessed]
  decide

end Masker

end PayloadStream
