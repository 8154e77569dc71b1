import Mathlib.Data.List.Nodup
import PayloadStream.JsonForm

/-!
# Canonical JSON forms

A value is written in one form and may be read from many. Reading a JSON value and writing what was
read gives its canonical form. Since every written form is read back as the value it was written
from, canonical forms are read as the same values, stay as they are, and tell the values apart.
-/

namespace PayloadStream

namespace JsonForm

/-- The canonical form of a JSON value that can be read. -/
def normalize? (α : Type) [JsonForm α] (j : Json) : Option Json := (ofJson? j : Option α).map toJson

/-- A form of which what is written is read back. -/
class LawfulJsonForm (α : Type) [JsonForm α] : Prop where
  ofJson?_toJson (v : α) : ofJson? (toJson v) = some v

/-- Reading and writing fit together for all values and all JSON. -/
structure RoundTrips (α : Type) [JsonForm α] : Prop where
  read_written (v : α) : ofJson? (toJson v) = some v
  written_ne {v w : α} (h : v ≠ w) : toJson v ≠ toJson w
  /-- Whichever spelling was read, the canonical form is read as the same value and stays. -/
  read_canonical {j : Json} {v : α} (h : ofJson? j = some v) :
    normalize? α j = some (toJson v) ∧ ofJson? (toJson v) = some v ∧
      normalize? α (toJson v) = some (toJson v)
  /-- Exactly the written forms stay as they are. -/
  canonical_iff (j : Json) : normalize? α j = some j ↔ ∃ v : α, toJson v = j

theorem normalize?_of_read {α : Type} [JsonForm α] {j : Json} {v : α} (h : ofJson? j = some v) :
    normalize? α j = some (toJson v) := by
  rw [normalize?, h]
  rfl

section Lawful

variable {α : Type} [JsonForm α] [LawfulJsonForm α]

theorem ofJson?_toJson (v : α) : ofJson? (toJson v) = some v := LawfulJsonForm.ofJson?_toJson v

theorem toJson_injective {v w : α} (h : toJson v = toJson w) : v = w := by
  have hv : ofJson? (toJson w) = some v := h ▸ ofJson?_toJson v
  exact Option.some.inj (hv.symm.trans (ofJson?_toJson w))

theorem normalize?_toJson (v : α) : normalize? α (toJson v) = some (toJson v) :=
  normalize?_of_read (ofJson?_toJson v)

theorem normalize?_eq_self_iff (j : Json) : normalize? α j = some j ↔ ∃ v : α, toJson v = j := by
  constructor
  · intro h
    obtain ⟨v, -, hv⟩ := Option.map_eq_some_iff.mp h
    exact ⟨v, hv⟩
  · rintro ⟨v, rfl⟩
    exact normalize?_toJson v

theorem roundTrips : RoundTrips α where
  read_written := ofJson?_toJson
  written_ne h heq := h (toJson_injective heq)
  read_canonical h := ⟨normalize?_of_read h, ofJson?_toJson _, normalize?_toJson _⟩
  canonical_iff := normalize?_eq_self_iff

/-- An optional value is read back, as no value is written as null. -/
theorem ofNullable?_ofOption (hnull : ∀ v : α, toJson v ≠ .null) (o : Option α) :
    ofNullable? (ofOption o) = some o := by
  cases o with
  | none => rfl
  | some v =>
    change ofNullable? (toJson v) = some (some v)
    unfold ofNullable?
    split
    next h => exact absurd h (hnull v)
    next =>
      rw [ofJson?_toJson]
      rfl

end Lawful

/-- A name finds the one listed value that has it. -/
theorem find?_name_eq_some_iff {α : Type} {all : List α} {name : α → String}
    (hnames : (all.map name).Nodup) {s : String} {a : α} :
    all.find? (fun b => name b == s) = some a ↔ a ∈ all ∧ name a = s := by
  constructor
  · intro h
    exact ⟨List.mem_of_find?_eq_some h, by simpa using List.find?_some h⟩
  · rintro ⟨ha, rfl⟩
    cases h : all.find? (fun b => name b == name a) with
    | none =>
      have hnone := List.find?_eq_none.mp h a ha
      exact absurd (beq_self_eq_true (name a)) hnone
    | some b =>
      have hname : name b = name a := by simpa using List.find?_some h
      rw [List.inj_on_of_nodup_map hnames (List.mem_of_find?_eq_some h) ha hname]

instance : LawfulJsonForm ScanTier where
  ofJson?_toJson t := by
    have hnames : ((ExecutionTier.all : List ScanTier).map ExecutionTier.name).Nodup := by decide
    exact (find?_name_eq_some_iff hnames).mpr ⟨by cases t <;> decide, rfl⟩

instance : LawfulJsonForm MaskTier where
  ofJson?_toJson t := by
    have hnames : ((ExecutionTier.all : List MaskTier).map ExecutionTier.name).Nodup := by decide
    exact (find?_name_eq_some_iff hnames).mpr ⟨by cases t <;> decide, rfl⟩

instance : LawfulJsonForm ScanState where
  ofJson?_toJson s := by
    have hnames : (ScanState.all.map ScanState.name).Nodup := by decide
    exact (find?_name_eq_some_iff hnames).mpr ⟨s.mem_all, rfl⟩

theorem rejectionOfFields?_written (offset total : UInt64) :
    rejectionOfFields? [("offset", .ofSize offset), ("total", .ofSize total)] =
      some (.invalid offset total) := by
  have htotal : Json.field? "total" [("offset", .ofSize offset), ("total", .ofSize total)] =
      some (.ofSize total) := by
    rw [Json.field?_cons_ne (by decide), Json.field?_cons_self]
  simp only [rejectionOfFields?, Json.field?_cons_self, htotal, Json.size?_ofSize,
    Option.bind_eq_bind, Option.bind_some, Option.pure_def]

instance : LawfulJsonForm Verdict where
  ofJson?_toJson v := by
    cases v with
    | valid => rfl
    | incomplete => rfl
    | invalid offset total => exact rejectionOfFields?_written offset total

theorem scanOptions?_ofOption (o : ScanOptions) : scanOptions? (ofOption o.tier) = some o := by
  have htier : ofNullable? (ofOption o.tier) = some o.tier := ofNullable?_ofOption nofun o.tier
  rw [scanOptions?, htier]
  rfl

instance : LawfulJsonForm ScanOptions where
  ofJson?_toJson o := by
    change scanOptions? ((Json.field? "tier" [("tier", ofOption o.tier)]).getD .null) = some o
    rw [Json.field?_cons_self]
    exact scanOptions?_ofOption o

theorem maskOptions?_ofOption (o : MaskOptions) :
    maskOptions? (ofOption o.tier) (.ofSize o.threshold) = some o := by
  have htier : ofNullable? (ofOption o.tier) = some o.tier := ofNullable?_ofOption nofun o.tier
  rw [maskOptions?, htier, Json.size?_ofSize]
  rfl

theorem ofJson?_object_maskOptions (fields : List (String × Json)) :
    (ofJson? (.object fields) : Option MaskOptions) =
      (Json.field? "simd_threshold" fields).bind
        (maskOptions? ((Json.field? "tier" fields).getD .null)) := rfl

instance : LawfulJsonForm MaskOptions where
  ofJson?_toJson o := by
    have hthreshold : Json.field? "simd_threshold"
        [("tier", ofOption o.tier), ("simd_threshold", .ofSize o.threshold)] =
        some (.ofSize o.threshold) := by
      rw [Json.field?_cons_ne (by decide), Json.field?_cons_self]
    change ofJson? (.object
      [("tier", ofOption o.tier), ("simd_threshold", .ofSize o.threshold)]) = some o
    rw [ofJson?_object_maskOptions, hthreshold, Json.field?_cons_self]
    exact maskOptions?_ofOption o

/-- All public values round-trip, and every spelling that is read has a canonical form. -/
theorem public_forms_round_trip :
    RoundTrips ScanTier ∧ RoundTrips MaskTier ∧ RoundTrips ScanState ∧ RoundTrips Verdict ∧
      RoundTrips ScanOptions ∧ RoundTrips MaskOptions :=
  ⟨roundTrips, roundTrips, roundTrips, roundTrips, roundTrips, roundTrips⟩

/-- An array with a tier spelled as an object, and the largest size. -/
theorem public_forms_round_trip_array :
    ofJson? (.array [.object [("Sse2", .null)], .integer 18446744073709551615]) =
        some (⟨some .sse2, 18446744073709551615⟩ : MaskOptions) ∧
      normalize? MaskOptions (.array [.object [("Sse2", .null)], .integer 18446744073709551615]) =
        some (.object
          [("tier", .string "Sse2"), ("simd_threshold", .integer 18446744073709551615)]) := by
  have hread : ofJson? (.array [.object [("Sse2", .null)], .integer 18446744073709551615]) =
      some (⟨some .sse2, 18446744073709551615⟩ : MaskOptions) := rfl
  obtain ⟨-, -, -, -, -, hoptions⟩ := public_forms_round_trip
  obtain ⟨hnormal, -⟩ := hoptions.read_canonical hread
  exact ⟨hread, hnormal⟩

end JsonForm

end PayloadStream
