import PayloadStream.TransitionTable

/-!
# Scanning byte by byte

A scan feeds bytes to the automaton until one is refused or none is left, and reports the state
reached and the index where it stopped: that of the refused byte, or the length.

`branchScan` steps by ranges and `tableScan` by look-ups.
-/

namespace PayloadStream

structure Scan where
  state : ScanState
  /-- The index of the refused byte, or the length if every byte was taken. -/
  stop : Nat
deriving DecidableEq

namespace Scan

def rejected (r : Scan) : Bool := r.state == .reject

/-- The scan as seen from `base` bytes before its start. -/
def shift (base : Nat) (r : Scan) : Scan := { r with stop := base + r.stop }

@[simp] theorem shift_zero (r : Scan) : r.shift 0 = r := by simp [shift]

@[simp] theorem shift_shift (m n : Nat) (r : Scan) : (r.shift n).shift m = r.shift (m + n) := by
  simp [shift, Nat.add_assoc]

@[simp] theorem state_shift (n : Nat) (r : Scan) : (r.shift n).state = r.state := rfl

@[simp] theorem stop_shift (n : Nat) (r : Scan) : (r.shift n).stop = n + r.stop := rfl

end Scan

/-- Steps through the bytes while none is refused. The count `n` is the index of the next byte. -/
def scanWith {σ : Type} (step : σ → UInt8 → σ) (refuses : σ → Bool) :
    Nat → σ → List UInt8 → σ × Nat
  | n, s, [] => (s, n)
  | n, s, b :: rest =>
    if refuses (step s b) then (step s b, n) else scanWith step refuses (n + 1) (step s b) rest

/-- The scan by ranges. -/
def branchScan (s : ScanState) (bytes : List UInt8) : Scan :=
  let reached := scanWith ScanState.next (· == .reject) 0 s bytes
  ⟨reached.1, reached.2⟩

/-- The scan by look-ups; it runs on row numbers and names the state at the end. -/
def tableScan (s : ScanState) (bytes : List UInt8) : Scan :=
  let reached := scanWith TransitionTable.step (· == TransitionTable.rejectRow) 0 s.code bytes
  ⟨ScanState.ofCode reached.1, reached.2⟩

section ScanWith

variable {σ : Type} {step : σ → UInt8 → σ} {refuses : σ → Bool}

@[simp] theorem scanWith_nil (n : Nat) (s : σ) : scanWith step refuses n s [] = (s, n) := rfl

theorem scanWith_add (n k : Nat) (s : σ) (bytes : List UInt8) :
    scanWith step refuses (n + k) s bytes =
      ((scanWith step refuses k s bytes).1, n + (scanWith step refuses k s bytes).2) := by
  induction bytes generalizing k s with
  | nil => rfl
  | cons b rest ih =>
    by_cases h : refuses (step s b) = true
    · simp [scanWith, h]
    · simp [scanWith, h, Nat.add_assoc, ih]

end ScanWith

@[simp] theorem branchScan_nil (s : ScanState) : branchScan s [] = ⟨s, 0⟩ := rfl

theorem branchScan_cons (s : ScanState) (b : UInt8) (rest : List UInt8) :
    branchScan s (b :: rest) =
      if s.next b = .reject then ⟨.reject, 0⟩ else (branchScan (s.next b) rest).shift 1 := by
  by_cases h : s.next b = .reject
  · simp [branchScan, scanWith, h]
  · simp [branchScan, scanWith, h, scanWith_add 1 0, Scan.shift]

@[simp] theorem branchScan_reject (bytes : List UInt8) :
    branchScan .reject bytes = ⟨.reject, 0⟩ := by
  cases bytes with
  | nil => rfl
  | cons b rest => simp [branchScan_cons]

/-- The scan of two parts in a row: the second starts in the state that the first ends in. -/
theorem branchScan_append (s : ScanState) (xs ys : List UInt8) :
    branchScan s (xs ++ ys) =
      if (branchScan s xs).rejected then branchScan s xs
      else (branchScan (branchScan s xs).state ys).shift xs.length := by
  induction xs generalizing s with
  | nil =>
    by_cases h : s = .reject
    · simp [h, Scan.rejected]
    · simp [Scan.rejected, h]
  | cons b rest ih =>
    by_cases h : s.next b = .reject
    · simp [branchScan_cons, h, Scan.rejected]
    · rw [List.cons_append, branchScan_cons, branchScan_cons, if_neg h, if_neg h, ih]
      split <;> simp_all [Scan.rejected, Nat.add_comm]

@[simp] theorem tableScan_nil (s : ScanState) : tableScan s [] = ⟨s, 0⟩ := by
  simp [tableScan]

end PayloadStream
