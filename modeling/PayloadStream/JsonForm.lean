import PayloadStream.Json
import PayloadStream.Masker
import PayloadStream.Validator

/-!
# JSON forms

How tiers, states, verdicts and options are written as JSON, and what is read back. A value without
fields is written as its name and read from its name or from an object that maps only its name to
null. A record is written as an object with its fields and read from such an object, whatever else
it holds, or from an array of exactly the fields in order. A tier that is left open is null, and in
an object it may be missing.
-/

namespace PayloadStream

class JsonForm (α : Type) where
  toJson : α → Json
  ofJson? : Json → Option α

namespace JsonForm

/-- Reads a value that is one of a list of named ones. -/
def ofName? {α : Type} (all : List α) (name : α → String) : Json → Option α
  | .string s => all.find? (fun a => name a == s)
  | .object [(s, .null)] => all.find? (fun a => name a == s)
  | _ => none

def ofNullable? {α : Type} [JsonForm α] : Json → Option (Option α)
  | .null => some none
  | j => (ofJson? j).map some

def ofOption {α : Type} [JsonForm α] : Option α → Json
  | none => .null
  | some a => toJson a

instance : JsonForm ScanTier where
  toJson t := .string (ExecutionTier.name t)
  ofJson? := ofName? ExecutionTier.all ExecutionTier.name

instance : JsonForm MaskTier where
  toJson t := .string (ExecutionTier.name t)
  ofJson? := ofName? ExecutionTier.all ExecutionTier.name

instance : JsonForm ScanState where
  toJson s := .string s.name
  ofJson? := ofName? ScanState.all ScanState.name

def verdictOfName? : String → Option Verdict
  | "Valid" => some .valid
  | "Incomplete" => some .incomplete
  | _ => none

def rejectionOfFields? (fields : List (String × Json)) : Option Verdict := do
  let offset ← (← Json.field? "offset" fields).size?
  let total ← (← Json.field? "total" fields).size?
  return .invalid offset total

def verdict? : Json → Option Verdict
  | .string s => verdictOfName? s
  | .object [(s, .null)] => verdictOfName? s
  | .object [("Invalid", .object fields)] => rejectionOfFields? fields
  | _ => none

instance : JsonForm Verdict where
  toJson
    | .valid => .string "Valid"
    | .incomplete => .string "Incomplete"
    | .invalid offset total =>
      .object [("Invalid", .object [("offset", .ofSize offset), ("total", .ofSize total)])]
  ofJson? := verdict?

def scanOptions? (tier : Json) : Option ScanOptions := do
  return { tier := ← ofNullable? tier }

instance : JsonForm ScanOptions where
  toJson o := .object [("tier", ofOption o.tier)]
  ofJson?
    | .object fields => scanOptions? ((Json.field? "tier" fields).getD .null)
    | .array [tier] => scanOptions? tier
    | _ => none

def maskOptions? (tier threshold : Json) : Option MaskOptions := do
  return { tier := ← ofNullable? tier, threshold := ← threshold.size? }

instance : JsonForm MaskOptions where
  toJson o := .object [("tier", ofOption o.tier), ("simd_threshold", .ofSize o.threshold)]
  ofJson?
    | .object fields => do
      maskOptions? ((Json.field? "tier" fields).getD .null) (← Json.field? "simd_threshold" fields)
    | .array [tier, threshold] => maskOptions? tier threshold
    | _ => none

end JsonForm

end PayloadStream
