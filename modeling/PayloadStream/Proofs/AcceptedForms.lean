import PayloadStream.Proofs.CanonicalForms

/-!
# The JSON values that are read

Verdicts and masking options are read from exactly the spellings that are listed here, however deep
the JSON value and whatever else its objects hold. The spellings are said by membership, which
settles the value of a key where keys are distinct. So the fields that are named decide, in any
order and among any others, while the object around a variant's name has that name as its only key.
-/

namespace PayloadStream

namespace Json

/-- Every object in the value, at any depth, has distinct keys. -/
inductive KeysDistinct : Json → Prop
  | null : KeysDistinct null
  | bool (b : Bool) : KeysDistinct (bool b)
  | integer (n : Int) : KeysDistinct (integer n)
  | decimal (mantissa exponent : Int) : KeysDistinct (decimal mantissa exponent)
  | string (s : String) : KeysDistinct (string s)
  | array {items : List Json} (hitems : ∀ j ∈ items, KeysDistinct j) : KeysDistinct (array items)
  | object {fields : List (String × Json)} (hkeys : (fields.map Prod.fst).Nodup)
      (hvalues : ∀ field ∈ fields, KeysDistinct field.2) : KeysDistinct (object fields)

/-- Two lists of fields have the same values under some keys. -/
def SameAt (keys : List String) (fields fields' : List (String × Json)) : Prop :=
  ∀ key ∈ keys, ∀ v, (key, v) ∈ fields ↔ (key, v) ∈ fields'

variable {key : String} {v : Json} {fields fields' : List (String × Json)}

theorem KeysDistinct.nodup_keys (h : (Json.object fields).KeysDistinct) :
    (fields.map Prod.fst).Nodup := by
  cases h with
  | object hkeys _ => exact hkeys

theorem KeysDistinct.of_mem (h : (Json.object fields).KeysDistinct) (hv : (key, v) ∈ fields) :
    v.KeysDistinct := by
  cases h with
  | object _ hvalues => exact hvalues _ hv

theorem field?_eq_some_iff (hkeys : (fields.map Prod.fst).Nodup) :
    field? key fields = some v ↔ (key, v) ∈ fields := by
  induction fields with
  | nil => simp [field?]
  | cons field rest ih =>
    obtain ⟨k, w⟩ := field
    rw [List.map_cons, List.nodup_cons] at hkeys
    obtain ⟨hk, hrest⟩ := hkeys
    by_cases h : k = key
    · subst h
      have hbehind : (k, v) ∉ rest := fun hv => hk (List.mem_map.mpr ⟨(k, v), hv, rfl⟩)
      simp [hbehind, eq_comm]
    · have hne : (key, v) ≠ (k, w) := fun heq => h (congrArg Prod.fst heq).symm
      rw [field?_cons_ne h, ih hrest, List.mem_cons, or_iff_right hne]

theorem field?_eq_none_iff : field? key fields = none ↔ ∀ v, (key, v) ∉ fields := by
  induction fields with
  | nil => simp [field?]
  | cons field rest ih =>
    obtain ⟨k, w⟩ := field
    by_cases h : k = key
    · subst h
      simp only [field?_cons_self, reduceCtorEq, false_iff, not_forall, not_not]
      exact ⟨w, List.mem_cons_self⟩
    · rw [field?_cons_ne h, ih]
      simp [Ne.symm h]

/-- Fields that agree on a key are read alike there. -/
theorem SameAt.field?_eq {keys : List String} (h : SameAt keys fields fields')
    (hkeys : (fields.map Prod.fst).Nodup) (hkeys' : (fields'.map Prod.fst).Nodup)
    (hkey : key ∈ keys) : field? key fields = field? key fields' := by
  apply Option.ext
  intro v
  rw [field?_eq_some_iff hkeys, field?_eq_some_iff hkeys']
  exact h key hkey v

/-- Fields in another order. -/
theorem SameAt.of_perm (h : fields.Perm fields') (keys : List String) :
    SameAt keys fields fields' := fun _ _ _ => h.mem_iff

/-- One field more, under none of the keys. -/
theorem SameAt.cons_left {keys : List String} (h : SameAt keys fields fields') (hkey : key ∉ keys)
    (v : Json) : SameAt keys ((key, v) :: fields) fields' := by
  intro k hk w
  have hne : (k, w) ≠ (key, v) := by
    intro heq
    obtain rfl : k = key := congrArg Prod.fst heq
    exact hkey hk
  rw [List.mem_cons, or_iff_right hne]
  exact h k hk w

/-- The sizes are the integers from zero up to `2 ^ 64 - 1`. -/
theorem size?_eq_some_iff {j : Json} {n : UInt64} : j.size? = some n ↔ j = integer n.toNat := by
  constructor
  · intro h
    unfold size? at h
    split at h
    next k =>
      split at h
      next hk =>
        obtain rfl := Option.some.inj h
        rw [UInt64.toNat_ofNat_of_lt' hk]
        rfl
      next => cases h
    next => cases h
  · rintro rfl
    exact size?_ofSize n

end Json

namespace JsonForm

open ExecutionTier (name)

/-- The spellings of a name: itself, or an object that maps it and no other key to null. -/
inductive SpellsName (name : String) : Json → Prop
  | string : SpellsName name (.string name)
  | object : SpellsName name (.object [(name, .null)])

/-- The spellings of a verdict. -/
inductive SpellsVerdict : Json → Verdict → Prop
  | valid {j : Json} (h : SpellsName "Valid" j) : SpellsVerdict j .valid
  | incomplete {j : Json} (h : SpellsName "Incomplete" j) : SpellsVerdict j .incomplete
  | invalid {fields : List (String × Json)} {offset total : UInt64}
      (hoffset : ("offset", .integer offset.toNat) ∈ fields)
      (htotal : ("total", .integer total.toNat) ∈ fields) :
      SpellsVerdict (.object [("Invalid", .object fields)]) (.invalid offset total)

/-- The spellings of a tier that may be left open. -/
inductive SpellsTier : Json → Option MaskTier → Prop
  | none : SpellsTier .null none
  | some {j : Json} {t : MaskTier} (h : SpellsName (name t) j) : SpellsTier j (some t)

/-- The spellings of masking options. -/
inductive SpellsMaskOptions : Json → MaskOptions → Prop
  | object {fields : List (String × Json)} {j : Json} {o : MaskOptions}
      (hj : ("tier", j) ∈ fields) (htier : SpellsTier j o.tier)
      (hthreshold : ("simd_threshold", .integer o.threshold.toNat) ∈ fields) :
      SpellsMaskOptions (.object fields) o
  | objectWithoutTier {fields : List (String × Json)} {threshold : UInt64}
      (htier : ∀ j, ("tier", j) ∉ fields)
      (hthreshold : ("simd_threshold", .integer threshold.toNat) ∈ fields) :
      SpellsMaskOptions (.object fields) ⟨none, threshold⟩
  | array {j : Json} {o : MaskOptions} (htier : SpellsTier j o.tier) :
      SpellsMaskOptions (.array [j, .integer o.threshold.toNat]) o

/-- A value that is one of a list of named ones is read exactly from the spellings of its name. -/
theorem ofName?_eq_some_iff {α : Type} {all : List α} {name : α → String}
    (hnames : (all.map name).Nodup) {j : Json} {a : α} :
    ofName? all name j = some a ↔ a ∈ all ∧ SpellsName (name a) j := by
  constructor
  · intro h
    unfold ofName? at h
    split at h
    · obtain ⟨ha, rfl⟩ := (find?_name_eq_some_iff hnames).mp h
      exact ⟨ha, .string⟩
    · obtain ⟨ha, rfl⟩ := (find?_name_eq_some_iff hnames).mp h
      exact ⟨ha, .object⟩
    · cases h
  · rintro ⟨ha, h⟩
    have hfind := (find?_name_eq_some_iff hnames).mpr ⟨ha, rfl⟩
    cases h with
    | string => exact hfind
    | object => exact hfind

theorem ofJson?_maskTier_eq_some_iff {j : Json} {t : MaskTier} :
    ofJson? j = some t ↔ SpellsName (name t) j := by
  have hnames : ((ExecutionTier.all : List MaskTier).map name).Nodup := by decide
  have hall : t ∈ (ExecutionTier.all : List MaskTier) := by cases t <;> decide
  exact (ofName?_eq_some_iff hnames).trans (and_iff_right hall)

theorem ofNullable?_eq_some_iff {j : Json} {o : Option MaskTier} :
    ofNullable? j = some o ↔ SpellsTier j o := by
  constructor
  · intro h
    unfold ofNullable? at h
    split at h
    · obtain rfl := Option.some.inj h
      exact .none
    · obtain ⟨t, ht, rfl⟩ := Option.map_eq_some_iff.mp h
      exact .some (ofJson?_maskTier_eq_some_iff.mp ht)
  · intro h
    cases h with
    | none => rfl
    | some h =>
      have hread := ofJson?_maskTier_eq_some_iff.mpr h
      cases h with
      | string => exact Option.map_eq_some_iff.mpr ⟨_, hread, rfl⟩
      | object => exact Option.map_eq_some_iff.mpr ⟨_, hread, rfl⟩

theorem maskOptions?_eq_some_iff {tier threshold : Json} {o : MaskOptions} :
    maskOptions? tier threshold = some o ↔
      SpellsTier tier o.tier ∧ threshold = .integer o.threshold.toNat := by
  simp only [maskOptions?, Option.bind_eq_bind, Option.bind_eq_some_iff, Option.pure_def,
    ofNullable?_eq_some_iff, Json.size?_eq_some_iff, Option.some.injEq]
  constructor
  · rintro ⟨t, ht, n, hn, rfl⟩
    exact ⟨ht, hn⟩
  · rintro ⟨ht, hn⟩
    exact ⟨o.tier, ht, o.threshold, hn, rfl⟩

/-- A variant without fields, from either spelling of its name. -/
theorem spellsVerdict_of_name {s : String} {j : Json} {v : Verdict} (hs : SpellsName s j)
    (h : verdictOfName? s = some v) : SpellsVerdict j v := by
  unfold verdictOfName? at h
  split at h
  · obtain rfl := Option.some.inj h
    exact .valid hs
  · obtain rfl := Option.some.inj h
    exact .incomplete hs
  · cases h

theorem rejectionOfFields?_eq_some_iff {fields : List (String × Json)}
    (hkeys : (fields.map Prod.fst).Nodup) {v : Verdict} :
    rejectionOfFields? fields = some v ↔
      ∃ offset total : UInt64, ("offset", .integer offset.toNat) ∈ fields ∧
        ("total", .integer total.toNat) ∈ fields ∧ .invalid offset total = v := by
  simp only [rejectionOfFields?, Option.bind_eq_bind, Option.bind_eq_some_iff, Option.pure_def,
    Json.field?_eq_some_iff hkeys, Json.size?_eq_some_iff, Option.some.injEq]
  constructor
  · rintro ⟨_, hoffset, offset, rfl, _, htotal, total, rfl, rfl⟩
    exact ⟨offset, total, hoffset, htotal, rfl⟩
  · rintro ⟨offset, total, hoffset, htotal, rfl⟩
    exact ⟨_, hoffset, offset, rfl, _, htotal, total, rfl, rfl⟩

theorem ofJson?_verdict_eq_some_iff {j : Json} (hj : j.KeysDistinct) {v : Verdict} :
    ofJson? j = some v ↔ SpellsVerdict j v := by
  constructor
  · intro h
    change verdict? j = some v at h
    unfold verdict? at h
    split at h
    · exact spellsVerdict_of_name .string h
    · exact spellsVerdict_of_name .object h
    · have hkeys := (hj.of_mem List.mem_cons_self).nodup_keys
      obtain ⟨offset, total, hoffset, htotal, rfl⟩ :=
        (rejectionOfFields?_eq_some_iff hkeys).mp h
      exact .invalid hoffset htotal
    · cases h
  · intro h
    cases h with
    | valid h => cases h <;> rfl
    | incomplete h => cases h <;> rfl
    | invalid hoffset htotal =>
      have hkeys := (hj.of_mem List.mem_cons_self).nodup_keys
      exact (rejectionOfFields?_eq_some_iff hkeys).mpr ⟨_, _, hoffset, htotal, rfl⟩

/-- Options in an object, where a tier that is missing is left open. -/
theorem ofJson?_object_maskOptions_eq_some_iff {fields : List (String × Json)}
    (hkeys : (fields.map Prod.fst).Nodup) {o : MaskOptions} :
    ofJson? (.object fields) = some o ↔ SpellsMaskOptions (.object fields) o := by
  simp only [ofJson?_object_maskOptions, Option.bind_eq_some_iff, maskOptions?_eq_some_iff,
    Json.field?_eq_some_iff hkeys]
  constructor
  · rintro ⟨_, hthreshold, htier, rfl⟩
    cases hfield : Json.field? "tier" fields with
    | none =>
      rw [hfield] at htier
      obtain ⟨tier, threshold⟩ := o
      cases htier with
      | none => exact .objectWithoutTier (Json.field?_eq_none_iff.mp hfield) hthreshold
      | some h => cases h
    | some j =>
      rw [hfield] at htier
      exact .object ((Json.field?_eq_some_iff hkeys).mp hfield) htier hthreshold
  · intro h
    cases h with
    | object hj htier hthreshold =>
      refine ⟨_, hthreshold, ?_, rfl⟩
      rw [(Json.field?_eq_some_iff hkeys).mpr hj]
      exact htier
    | objectWithoutTier htier hthreshold =>
      refine ⟨_, hthreshold, ?_, rfl⟩
      rw [Json.field?_eq_none_iff.mpr htier]
      exact .none

theorem ofJson?_maskOptions_eq_some_iff {j : Json} (hj : j.KeysDistinct) {o : MaskOptions} :
    ofJson? j = some o ↔ SpellsMaskOptions j o := by
  cases j with
  | object fields => exact ofJson?_object_maskOptions_eq_some_iff hj.nodup_keys
  | array items =>
    constructor
    · intro h
      match items, h with
      | [tier, threshold], h =>
        obtain ⟨htier, rfl⟩ := maskOptions?_eq_some_iff.mp h
        exact .array htier
    · intro h
      cases h with
      | array htier => exact maskOptions?_eq_some_iff.mpr ⟨htier, rfl⟩
  | _ => exact ⟨nofun, nofun⟩

/-- An object around the name of a variant has no other key. -/
theorem ofJson?_object_eq_none_of_length_ne_one {fields : List (String × Json)}
    (h : fields.length ≠ 1) :
    (ofJson? (.object fields) : Option Verdict) = none ∧
      (ofJson? (.object fields) : Option MaskTier) = none := by
  constructor
  · change verdict? (.object fields) = none
    unfold verdict?
    split
    next heq => cases heq
    next heq =>
      cases heq
      exact absurd rfl h
    next heq =>
      cases heq
      exact absurd rfl h
    next => rfl
  · rw [Option.eq_none_iff_forall_ne_some]
    intro t ht
    cases ofJson?_maskTier_eq_some_iff.mp ht
    exact h rfl

section NamedFields

variable {fields fields' : List (String × Json)} (hkeys : (fields.map Prod.fst).Nodup)
  (hkeys' : (fields'.map Prod.fst).Nodup)

include hkeys hkeys'

theorem rejectionOfFields?_eq_of_sameAt (h : Json.SameAt ["offset", "total"] fields fields') :
    rejectionOfFields? fields = rejectionOfFields? fields' := by
  rw [rejectionOfFields?, rejectionOfFields?, h.field?_eq hkeys hkeys' (by decide),
    h.field?_eq hkeys hkeys' (by decide)]

theorem ofJson?_maskOptions_eq_of_sameAt
    (h : Json.SameAt ["tier", "simd_threshold"] fields fields') :
    (ofJson? (.object fields) : Option MaskOptions) = ofJson? (.object fields') := by
  rw [ofJson?_object_maskOptions, ofJson?_object_maskOptions,
    h.field?_eq hkeys hkeys' (by decide), h.field?_eq hkeys hkeys' (by decide)]

end NamedFields

/-- Verdicts and masking options are read from their spellings and from nothing else. Within
`Invalid` and in options the named fields decide alone: other fields may stand anywhere among them,
be changed or be left out, and the order is free. Around the name of a variant nothing may stand. -/
theorem forms_read_iff_spelled :
    (∀ j : Json, j.KeysDistinct → ∀ v : Verdict, ofJson? j = some v ↔ SpellsVerdict j v) ∧
    (∀ j : Json, j.KeysDistinct → ∀ o : MaskOptions, ofJson? j = some o ↔ SpellsMaskOptions j o) ∧
    (∀ fields fields' : List (String × Json), (fields.map Prod.fst).Nodup →
      (fields'.map Prod.fst).Nodup → Json.SameAt ["offset", "total"] fields fields' →
      (ofJson? (.object [("Invalid", .object fields)]) : Option Verdict) =
        ofJson? (.object [("Invalid", .object fields')])) ∧
    (∀ fields fields' : List (String × Json), (fields.map Prod.fst).Nodup →
      (fields'.map Prod.fst).Nodup → Json.SameAt ["tier", "simd_threshold"] fields fields' →
      (ofJson? (.object fields) : Option MaskOptions) = ofJson? (.object fields')) ∧
    ∀ fields : List (String × Json), fields.length ≠ 1 →
      (ofJson? (.object fields) : Option Verdict) = none ∧
        (ofJson? (.object fields) : Option MaskTier) = none := by
  refine ⟨?_, ?_, ?_, ?_, ?_⟩
  · intro j hj v
    exact ofJson?_verdict_eq_some_iff hj
  · intro j hj o
    exact ofJson?_maskOptions_eq_some_iff hj
  · intro fields fields' hkeys hkeys' hsame
    exact rejectionOfFields?_eq_of_sameAt hkeys hkeys' hsame
  · intro fields fields' hkeys hkeys' hsame
    exact ofJson?_maskOptions_eq_of_sameAt hkeys hkeys' hsame
  · intro fields hlength
    exact ofJson?_object_eq_none_of_length_ne_one hlength

/-- Options with a field that nothing reads and in another order, and a second key beside the name
of a variant. -/
theorem forms_read_among_other_fields :
    (Json.object [("note", .array [.null]), ("simd_threshold", .integer 7),
        ("tier", .object [("Sse2", .null)])]).KeysDistinct ∧
      (ofJson? (.object [("note", .array [.null]), ("simd_threshold", .integer 7),
        ("tier", .object [("Sse2", .null)])]) : Option MaskOptions) = some ⟨some .sse2, 7⟩ ∧
      Json.SameAt ["tier", "simd_threshold"]
        [("note", .array [.null]), ("simd_threshold", .integer 7),
          ("tier", .object [("Sse2", .null)])]
        [("tier", .object [("Sse2", .null)]), ("simd_threshold", .integer 7)] ∧
      (ofJson? (.object [("tier", .object [("Sse2", .null)]), ("simd_threshold", .integer 7)]) :
        Option MaskOptions) = some ⟨some .sse2, 7⟩ ∧
      [("Valid", Json.null), ("note", .null)].length ≠ 1 ∧
      (ofJson? (.object [("Valid", .null), ("note", .null)]) : Option Verdict) = none := by
  have hdistinct : (Json.object [("note", .array [.null]), ("simd_threshold", .integer 7),
      ("tier", .object [("Sse2", .null)])]).KeysDistinct := by
    refine .object (by decide) ?_
    simp only [List.forall_mem_cons, List.not_mem_nil, false_implies, implies_true, and_true]
    refine ⟨.array ?_, .integer 7, .object (by decide) ?_⟩
    · simpa using Json.KeysDistinct.null
    · simpa using Json.KeysDistinct.null
  have htier : SpellsTier (.object [("Sse2", .null)]) (some .sse2) := .some .object
  have hspelled : SpellsMaskOptions (.object [("note", .array [.null]),
      ("simd_threshold", .integer 7), ("tier", .object [("Sse2", .null)])]) ⟨some .sse2, 7⟩ :=
    .object (by simp) htier (by simp)
  obtain ⟨-, hoptions, -, hnamed, hvariant⟩ := forms_read_iff_spelled
  have hread := (hoptions _ hdistinct _).mpr hspelled
  have hsame : Json.SameAt ["tier", "simd_threshold"]
      [("note", .array [.null]), ("simd_threshold", .integer 7),
        ("tier", .object [("Sse2", .null)])]
      [("tier", .object [("Sse2", .null)]), ("simd_threshold", .integer 7)] :=
    (Json.SameAt.of_perm (.swap _ _ _) _).cons_left (by decide) _
  have hequal := hnamed _ _ (by decide) (by decide) hsame
  have hlength : [("Valid", Json.null), ("note", .null)].length ≠ 1 := by decide
  obtain ⟨hverdict, -⟩ := hvariant _ hlength
  exact ⟨hdistinct, hread, hsame, hequal.symm.trans hread, hlength, hverdict⟩

end JsonForm

end PayloadStream
