import PayloadStream.BlockScan
import PayloadStream.ExecutionTier

/-!
# Tiers of the UTF-8 scan

Four ways to scan, which find the same state and the same stop. The two block tiers need a vector
level; where the processor lacks it they scan by ranges.
-/

namespace PayloadStream

/-- How the automaton is run. -/
inductive ScanTier where
  /-- One table look-up a byte. -/
  | table
  /-- Range tests on every byte. -/
  | branching
  /-- Blocks tested by the mask of their top bits. -/
  | sse2
  /-- Blocks tested for a set top bit at once. -/
  | sse41
deriving DecidableEq

namespace ScanTier

instance : ExecutionTier ScanTier where
  all := [table, branching, sse2, sse41]
  code
    | table => 1
    | branching => 2
    | sse2 => 3
    | sse41 => 4
  name
    | table => "TableDfa"
    | branching => "UnrolledDfa"
    | sse2 => "Sse2Dfa"
    | sse41 => "Sse41Dfa"
  required
    | table => .scalar
    | branching => .scalar
    | sse2 => .sse2
    | sse41 => .sse41
  best
    | .scalar => branching
    | .sse2 => sse2
    | .sse41 => sse41

def scan (level : VectorLevel) (tier : ScanTier) (s : ScanState) (b : Buffer) : Scan :=
  match tier with
  | table => tableScan s b.bytes
  | branching => branchScan s b.bytes
  | sse2 =>
    if .sse2 ≤ level then blockScan (signMask · == 0) s b.split else branchScan s b.bytes
  | sse41 =>
    if .sse41 ≤ level then blockScan topBitsClear s b.split else branchScan s b.bytes

end ScanTier

end PayloadStream
