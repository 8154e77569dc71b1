/-!
# States of the UTF-8 automaton

While text is read byte by byte, the automaton remembers what the bytes since the last code
point boundary still demand. The lead bytes `E0`, `ED`, `F0` and `F4` narrow the second byte, so
that overlong forms, surrogates and values above `U+10FFFF` are refused as soon as they show.

`next` is the transition written as ranges; `TransitionTable` has it as a table.
-/

namespace PayloadStream

/-- What the automaton expects next. -/
inductive ScanState where
  /-- The bytes so far end on a code point boundary. -/
  | accept
  /-- The bytes so far cannot be continued to well-formed text. -/
  | reject
  | needOne
  | needTwo
  | needTwoAfterE0
  | needTwoAfterEd
  | needThreeAfterF0
  | needThree
  | needThreeAfterF4
deriving DecidableEq

namespace ScanState

def all : List ScanState :=
  [accept, reject, needOne, needTwo, needTwoAfterE0, needTwoAfterEd, needThreeAfterF0, needThree,
    needThreeAfterF4]

/-- The number of the state, which is also its row in the transition table. -/
def code : ScanState → UInt8
  | accept => 0
  | reject => 1
  | needOne => 2
  | needTwo => 3
  | needTwoAfterE0 => 4
  | needTwoAfterEd => 5
  | needThreeAfterF0 => 6
  | needThree => 7
  | needThreeAfterF4 => 8

def name : ScanState → String
  | accept => "Accept"
  | reject => "Reject"
  | needOne => "NeedOne"
  | needTwo => "NeedTwo"
  | needTwoAfterE0 => "NeedTwoAfterE0"
  | needTwoAfterEd => "NeedTwoAfterEd"
  | needThreeAfterF0 => "NeedThreeAfterF0"
  | needThree => "NeedThree"
  | needThreeAfterF4 => "NeedThreeAfterF4"

/-- The state of a number, and `reject` for a number that no state has. -/
def ofCode (c : UInt8) : ScanState :=
  (all.find? (fun s => s.code == c)).getD reject

/-- The state after the first byte of a sequence. -/
def ofLead (b : UInt8) : ScanState :=
  if b ≤ 0x7F then accept
  else if b < 0xC2 then reject
  else if b ≤ 0xDF then needOne
  else if b = 0xE0 then needTwoAfterE0
  else if b = 0xED then needTwoAfterEd
  else if b ≤ 0xEF then needTwo
  else if b = 0xF0 then needThreeAfterF0
  else if b ≤ 0xF3 then needThree
  else if b = 0xF4 then needThreeAfterF4
  else reject

/-- The state `after` for a byte between `low` and `high`; any other byte is refused. -/
def within (low high : UInt8) (after : ScanState) (b : UInt8) : ScanState :=
  if low ≤ b ∧ b ≤ high then after else reject

def next : ScanState → UInt8 → ScanState
  | accept => ofLead
  | reject => fun _ => reject
  | needOne => within 0x80 0xBF accept
  | needTwo => within 0x80 0xBF needOne
  | needTwoAfterE0 => within 0xA0 0xBF needOne
  | needTwoAfterEd => within 0x80 0x9F needOne
  | needThreeAfterF0 => within 0x90 0xBF needTwo
  | needThree => within 0x80 0xBF needTwo
  | needThreeAfterF4 => within 0x80 0x8F needTwo

theorem mem_all (s : ScanState) : s ∈ all := by cases s <;> decide

@[simp] theorem ofCode_code (s : ScanState) : ofCode s.code = s := by cases s <;> rfl

theorem code_injective {s t : ScanState} (h : s.code = t.code) : s = t := by
  rw [← ofCode_code s, h, ofCode_code t]

@[simp] theorem next_reject (b : UInt8) : next reject b = reject := rfl

theorem next_accept_of_ascii {b : UInt8} (h : b ≤ 0x7F) : next accept b = accept := by
  simp [next, ofLead, h]

end ScanState

end PayloadStream
