import PayloadStream.EvenChunks
import PayloadStream.Masker
import PayloadStream.Validator

/-!
# Receiving a masked text message

A message arrives as several reads of nearly one size. Each read is unmasked and then validated,
the last one as the end of the message, and a rejection ends the reception. The masker's position
and the validator's state carry over from read to read. Each read is a copy of its own, which may
lie anywhere in memory.
-/

namespace PayloadStream

/-- How a message is received. Without a key the bytes arrive unmasked. -/
structure Reception where
  key : Option MaskKey
  /-- The number of reads that the message is cut into. -/
  parts : UInt64
  maskTier : Option MaskTier := none
  scanTier : Option ScanTier := none

/-- A read: the verdict on it and the validator after it. -/
structure Read where
  verdict : Verdict
  validator : Validator

structure Receipt where
  /-- The unmasked bytes of all reads that were made. -/
  received : List UInt8
  reads : List Read
  masker : Masker

/-- The bytes on the wire when a sender masks a copy of a payload in one piece. -/
def sendMasked (level : VectorLevel) (key : Option MaskKey) (payload : List UInt8)
    (place : Fin 16) : List UInt8 :=
  ((Masker.ofOptions level key {}).processCopy level payload place).1

/-- Reads a chunk as the end of the message or as one that others follow. -/
def Validator.read (level : VectorLevel) (last : Bool) (v : Validator) (b : Buffer) :
    Verdict × Validator :=
  if last then v.complete level b else v.validate level b

/-- Unmasks and validates reads in order, up to the end or the first rejection. Read `k` lies
`place k` bytes behind a block boundary, and is validated where it was unmasked. -/
def readChunks (level : VectorLevel) :
    (place : Nat → Fin 16) → Masker → Validator → List (List UInt8) → Receipt
  | _, m, _, [] => ⟨[], [], m⟩
  | place, m, v, chunk :: rest =>
    let masked := m.processCopy level chunk (place 0)
    let read := v.read level rest.isEmpty ⟨masked.1, place 0⟩
    if read.1.isInvalid then ⟨masked.1, [⟨read.1, read.2⟩], masked.2⟩
    else
      let later := readChunks level (fun k => place (k + 1)) masked.2 read.2 rest
      ⟨masked.1 ++ later.received, ⟨read.1, read.2⟩ :: later.reads, later.masker⟩

namespace Reception

def receive (level : VectorLevel) (place : Nat → Fin 16) (r : Reception) (wire : List UInt8) :
    Except NoParts Receipt :=
  (evenChunks wire r.parts).map fun chunks =>
    readChunks level place (Masker.ofOptions level r.key { tier := r.maskTier })
      (Validator.ofOptions level { tier := r.scanTier }) chunks

theorem receive_eq_error_iff {level : VectorLevel} {place : Nat → Fin 16} {r : Reception}
    {wire : List UInt8} {e : NoParts} : r.receive level place wire = .error e ↔ r.parts = 0 := by
  unfold receive evenChunks
  split <;> simp_all [Except.map]

end Reception

end PayloadStream
