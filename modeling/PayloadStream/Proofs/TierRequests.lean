import PayloadStream.MaskerRun
import PayloadStream.ValidatorRun
import PayloadStream.Proofs.CheckpointSimulation
import PayloadStream.Proofs.TierSelection

/-!
# The request in force

Of all the requests that a run makes, the last one counts that named a tier or left the choice
open; a code that no tier has leaves the one before in force, and restoring brings back the request
of the time of saving. A ledger keeps it beside the run. The tier is at every point the greatest
that the processor runs and this request allows.

A masker for a payload makes its first request by the payload's length, so a longer payload or a
lower threshold never gives a lower tier.
-/

namespace PayloadStream

open ExecutionTier (Greatest Within all code select greatest_select)

namespace ExecutionTier

variable {τ : Type} [ExecutionTier τ]

/-- The request in force once a wire code was asked for, which was `r` before. -/
def revise (r : Option τ) (c : UInt8) : Option τ :=
  if c = 0 then none else (all.find? fun t => code t == c).or r

theorem revise_eq (r : Option τ) (c : UInt8) :
    revise r c =
      match (request c : Except UnknownTier (Option τ)) with
      | .ok asked => asked
      | .error _ => r := by
  unfold revise request ofCode
  split
  · rfl
  · cases (all : List τ).find? (fun t => code t == c) <;> rfl

theorem request_of_unknown {c : UInt8} (h : c ≠ 0) (hall : ∀ t ∈ (all : List τ), code t ≠ c) :
    (request c : Except UnknownTier (Option τ)) = .error ⟨c⟩ := by
  rw [request, if_neg h, ofCode_eq_error_iff.mpr ⟨rfl, hall⟩]
  rfl

end ExecutionTier

section Ledger

variable {α ρ σ τ : Type} [ExecutionTier τ] {level : VectorLevel} {answer : σ → α → ρ × σ}
  {tierOf : σ → τ} {code? : α → Option UInt8}

/-- The ledger's entry for a call: the wire code in it, if any, revises the request. -/
def noteRequest (code? : α → Option UInt8) (r : Option τ) (call : α) : Unit × Option τ :=
  ((), ((code? call).map (ExecutionTier.revise r)).getD r)

/-- The request in force after a run that started with one. -/
def requestAfter (code? : α → Option UInt8) (first : Option τ) (steps : List (RunStep α)) :
    Option τ :=
  ((Checkpointed.start first).run (noteRequest code?) steps).live

/-- A machine that changes its tier only when a call asks for one by its wire code, and then to what
is selected. -/
structure SelectsByCode (level : VectorLevel) (answer : σ → α → ρ × σ) (tierOf : σ → τ)
    (code? : α → Option UInt8) : Prop where
  tier_of_none : ∀ s a, code? a = none → tierOf (answer s a).2 = tierOf s
  tier_of_some : ∀ s a c, code? a = some c → tierOf (answer s a).2 =
    match ExecutionTier.request c with
    | .ok asked => select level asked
    | .error _ => tierOf s

namespace SelectsByCode

variable (h : SelectsByCode level answer tierOf code?)

include h

/-- One call: the tier stays the one that the request in force selects. -/
theorem simulates : Checkpointed.Simulates answer (noteRequest code?) (· = ·) (fun _ _ => True)
    (fun s r => tierOf s = select level r) := by
  rintro s r a _ hs rfl
  refine ⟨trivial, ?_⟩
  cases hcode : code? a with
  | none =>
    rw [noteRequest, hcode, h.tier_of_none s a hcode]
    exact hs
  | some c =>
    rw [noteRequest, hcode, h.tier_of_some s a c hcode]
    change _ = select level (ExecutionTier.revise r c)
    rw [ExecutionTier.revise_eq]
    split
    · rfl
    · exact hs

theorem greatest_run [ExecutionTier.LawfulTiers τ] {s : σ} {first : Option τ}
    (hs : tierOf s = select level first) (steps : List (RunStep α)) :
    Greatest level (requestAfter code? first steps)
      (tierOf ((Checkpointed.start s).run answer steps).live) := by
  have hrun := h.simulates.run (Checkpointed.related_start hs) (RunStep.forall₂_rel_eq steps)
  rw [hrun.live]
  exact greatest_select level _

end SelectsByCode

end Ledger

/-- The wire code that a call asks for. -/
def ValidatorCall.code? : ValidatorCall → Option UInt8
  | selectTier c => some c
  | _ => none

/-- The wire code that a call asks for. -/
def MaskerCall.code? : MaskerCall → Option UInt8
  | selectTier c => some c
  | _ => none

theorem Validator.selectsByCode (level : VectorLevel) :
    SelectsByCode level (answer level) tier ValidatorCall.code? := by
  constructor
  · intro v call hcode
    cases call with
    | validate chunk => exact tier_feed level v chunk
    | complete chunk => exact (tier_finish _).trans (tier_feed level v chunk)
    | reset => rfl
    | selectTier c => cases hcode
  · intro v call c hcode
    cases call with
    | selectTier c' =>
      obtain rfl := Option.some.inj hcode
      rw [answer]
      cases (ExecutionTier.request c' : Except UnknownTier (Option ScanTier)) <;> rfl
    | _ => cases hcode

theorem Masker.selectsByCode (level : VectorLevel) :
    SelectsByCode level (answer level) tier MaskerCall.code? := by
  constructor
  · intro m call hcode
    cases call with
    | selectTier c => cases hcode
    | _ => rfl
  · intro m call c hcode
    cases call with
    | selectTier c' =>
      obtain rfl := Option.some.inj hcode
      rw [answer]
      cases (ExecutionTier.request c' : Except UnknownTier (Option MaskTier)) <;> rfl
    | _ => cases hcode

namespace Masker

/-- The request for a payload of some length. If the options name no tier, blocks are worth their
setup from the threshold on; an unknown length counts as a short one. -/
inductive PayloadAsks (o : MaskOptions) : Option UInt64 → Option MaskTier → Prop
  | named (length : Option UInt64) {t : MaskTier} (tier : o.tier = some t) :
      PayloadAsks o length (some t)
  | unknown (tier : o.tier = none) : PayloadAsks o none (some .simple)
  | short {n : UInt64} (tier : o.tier = none) (lt : n < o.threshold) :
      PayloadAsks o (some n) (some .simple)
  | long {n : UInt64} (tier : o.tier = none) (le : o.threshold ≤ n) : PayloadAsks o (some n) none

theorem payloadAsks_payloadRequest (o : MaskOptions) (length : Option UInt64) :
    PayloadAsks o length (payloadRequest length o) := by
  unfold payloadRequest
  cases htier : o.tier with
  | some t => exact .named length htier
  | none =>
    rw [Option.none_or]
    cases length with
    | none => exact .unknown htier
    | some n =>
      dsimp only
      split
      next h => exact .long htier h
      next h => exact .short htier (UInt64.not_le.mp h)

theorem PayloadAsks.payloadRequest_eq {o : MaskOptions} {length : Option UInt64}
    {r : Option MaskTier} (h : PayloadAsks o length r) : payloadRequest length o = r := by
  unfold payloadRequest
  cases h with
  | named _ tier => rw [tier, Option.some_or]
  | unknown tier => rw [tier, Option.none_or]
  | short tier lt =>
    rw [tier, Option.none_or]
    exact if_neg (UInt64.not_le.mpr lt)
  | long tier le =>
    rw [tier, Option.none_or]
    exact if_pos le

/-- With no tier named, a longer payload and a lower threshold allow more. -/
theorem PayloadAsks.within {o o' : MaskOptions} {length length' : Option UInt64}
    {r r' : Option MaskTier} (h : PayloadAsks o length r) (h' : PayloadAsks o' length' r')
    (ho : o.tier = none) (ho' : o'.tier = none) (hlength : length ≤ length')
    (hthreshold : o'.threshold ≤ o.threshold) {t : MaskTier} (ht : Within r t) : Within r' t := by
  -- Only a payload that reaches the threshold leaves the choice open, and then the longer payload
  -- reaches the lower threshold too.
  cases h' with
  | named _ tier => simp [ho'] at tier
  | long tier le =>
    rintro _ ⟨⟩
  | unknown tier =>
    cases h with
    | named _ tier => simp [ho] at tier
    | unknown => exact ht
    | short => exact ht
    | long => exact absurd hlength Option.not_some_le_none
  | short tier lt =>
    cases h with
    | named _ tier => simp [ho] at tier
    | unknown => exact ht
    | short => exact ht
    | long _ le =>
      have hle : o.threshold < o'.threshold :=
        UInt64.lt_of_le_of_lt (UInt64.le_trans le (Option.some_le_some.mp hlength)) lt
      exact absurd hthreshold (UInt64.not_le.mpr hle)

end Masker

namespace MaskerSetup

/-- The request that a way of making a masker starts with. -/
inductive Asks : MaskerSetup → Option MaskTier → Prop
  | bytes (key : List UInt8) : Asks (.bytes key) none
  | key (key : MaskKey) : Asks (.key key) none
  | null : Asks .null none
  | options (key : Option MaskKey) (o : MaskOptions) : Asks (.options key o) o.tier
  | payload (key : Option MaskKey) {length : Option UInt64} {r : Option MaskTier}
      (h : Masker.PayloadAsks {} length r) : Asks (.payload key length) r
  | payloadWith (key : Option MaskKey) {length : Option UInt64} {o : MaskOptions}
      {r : Option MaskTier} (h : Masker.PayloadAsks o length r) :
      Asks (.payloadWith key length o) r

theorem exists_asks (setup : MaskerSetup) : ∃ r, setup.Asks r := by
  cases setup with
  | bytes key => exact ⟨none, .bytes key⟩
  | key key => exact ⟨none, .key key⟩
  | null => exact ⟨none, .null⟩
  | options key o => exact ⟨o.tier, .options key o⟩
  | payload key length => exact ⟨_, .payload key (Masker.payloadAsks_payloadRequest {} length)⟩
  | payloadWith key length o =>
    exact ⟨_, .payloadWith key (Masker.payloadAsks_payloadRequest o length)⟩

theorem Asks.tier_build {setup : MaskerSetup} {r : Option MaskTier} {level : VectorLevel}
    {m : Masker} (h : setup.Asks r) (hm : setup.build level = .ok m) :
    m.tier = select level r := by
  cases h with
  | bytes key =>
    rw [build, Masker.ofBytes] at hm
    cases hkey : MaskKey.ofBytes key with
    | error e =>
      rw [hkey] at hm
      cases hm
    | ok k =>
      rw [hkey] at hm
      cases hm
      rfl
  | payload key h =>
    cases hm
    exact congrArg (select level) h.payloadRequest_eq
  | payloadWith key h =>
    cases hm
    exact congrArg (select level) h.payloadRequest_eq
  | _ =>
    cases hm
    rfl

end MaskerSetup

/-- At every point of every run the tier is the greatest that the processor runs and the request in
force allows, and an unknown code is answered by an error and changes nothing. Every way to make a
masker starts with a request. With no tier named, a longer payload or a lower threshold never gives
a lower tier; an unknown length is below all others. -/
theorem tier_follows_requests (level : VectorLevel) :
    (∀ (options : ScanOptions) (before : List (RunStep ValidatorCall)),
      let live := ((Checkpointed.start (Validator.ofOptions level options)).run
        (Validator.answer level) before).live
      Greatest level (requestAfter ValidatorCall.code? options.tier before) live.tier ∧
      ∀ c, c ≠ 0 → (∀ t ∈ (all : List ScanTier), code t ≠ c) →
        live.answer level (.selectTier c) = (.unknownTier ⟨c⟩, live)) ∧
    (∀ setup : MaskerSetup, (∃ r, setup.Asks r) ∧
      ∀ r, setup.Asks r → ∀ m, setup.build level = .ok m →
        ∀ before : List (RunStep MaskerCall),
          let live := ((Checkpointed.start m).run (Masker.answer level) before).live
          Greatest level (requestAfter MaskerCall.code? r before) live.tier ∧
          ∀ c, c ≠ 0 → (∀ t ∈ (all : List MaskTier), code t ≠ c) →
            live.answer level (.selectTier c) = (.unknownTier ⟨c⟩, live)) ∧
    ∀ (key key' : Option MaskKey) (length length' : Option UInt64) (o o' : MaskOptions),
      o.tier = none → o'.tier = none → length ≤ length' → o'.threshold ≤ o.threshold →
        code (Masker.forPayload level key length o).tier ≤
          code (Masker.forPayload level key' length' o').tier := by
  refine ⟨?_, ?_, ?_⟩
  · intro options before live
    refine ⟨(Validator.selectsByCode level).greatest_run rfl before, ?_⟩
    intro c hc hall
    rw [Validator.answer, ExecutionTier.request_of_unknown hc hall]
  · intro setup
    refine ⟨setup.exists_asks, ?_⟩
    intro r hr m hm before live
    refine ⟨(Masker.selectsByCode level).greatest_run (hr.tier_build hm) before, ?_⟩
    intro c hc hall
    rw [Masker.answer, ExecutionTier.request_of_unknown hc hall]
  · intro key key' length length' o o' ho ho' hlength hthreshold
    apply (greatest_select level _).le_of_within (greatest_select level _)
    exact (Masker.payloadAsks_payloadRequest o length).within
      (Masker.payloadAsks_payloadRequest o' length') ho ho' hlength hthreshold

/-- A validator that asked for more than the processor has, and a masker for a payload that reaches
the threshold. What was asked for after the save is undone, and an unknown code is not heard. -/
theorem tier_follows_restored_requests :
    let calls : List (RunStep ValidatorCall) := [.act (.validate ⟨[0xE2], 3⟩), .save,
      .act (.selectTier 1), .act .reset, .restore, .act (.selectTier 9)]
    let maskerCalls : List (RunStep MaskerCall) := [.save, .act (.selectTier 1),
      .act (.copy [7, 7] 5), .restore, .act (.selectTier 9)]
    let v := (Checkpointed.start (Validator.ofOptions .sse2 ⟨some .sse41⟩)).run
      (Validator.answer .sse2) calls
    let m := (Checkpointed.start (Masker.forPayload .sse2 none (some 64) ⟨none, 64⟩)).run
      (Masker.answer .sse2) maskerCalls
    ((9 : UInt8) ≠ 0 ∧ (∀ t ∈ (all : List ScanTier), code t ≠ 9) ∧
      ∀ t ∈ (all : List MaskTier), code t ≠ 9) ∧
    requestAfter ValidatorCall.code? (some .sse41) calls = some ScanTier.sse41 ∧
    Greatest .sse2 (some .sse41) v.live.tier ∧
    v.live.answer .sse2 (.selectTier 9) = (.unknownTier ⟨9⟩, v.live) ∧
    (MaskerSetup.payloadWith none (some 64) ⟨none, 64⟩).Asks none ∧
    (MaskerSetup.payloadWith none (some 64) ⟨none, 64⟩).build .sse2 =
      .ok (Masker.forPayload .sse2 none (some 64) ⟨none, 64⟩) ∧
    requestAfter MaskerCall.code? (none : Option MaskTier) maskerCalls = none ∧
    Greatest .sse2 none m.live.tier ∧
    m.live.answer .sse2 (.selectTier 9) = (.unknownTier ⟨9⟩, m.live) ∧
    ((some 63 : Option UInt64) ≤ some 64 ∧ (64 : UInt64) ≤ 100 ∧
      code (Masker.forPayload .sse2 none (some 63) ⟨none, 100⟩).tier ≤
        code (Masker.forPayload .sse2 none (some 64) ⟨none, 64⟩).tier) := by
  intro calls maskerCalls v m
  have hscan : ∀ t ∈ (all : List ScanTier), code t ≠ 9 := by decide
  have hmask : ∀ t ∈ (all : List MaskTier), code t ≠ 9 := by decide
  have hsetup : (MaskerSetup.payloadWith none (some 64) ⟨none, 64⟩).Asks none :=
    .payloadWith none (.long rfl (UInt64.le_refl 64))
  have hlength : (some 63 : Option UInt64) ≤ some 64 := Option.some_le_some.mpr (by decide)
  have hthreshold : (64 : UInt64) ≤ 100 := by decide
  obtain ⟨hvalidator, hmasker, hpayload⟩ := tier_follows_requests .sse2
  obtain ⟨hv, hvreply⟩ := hvalidator ⟨some .sse41⟩ calls
  obtain ⟨hm, hmreply⟩ := (hmasker _).2 none hsetup _ rfl maskerCalls
  exact ⟨⟨by decide, hscan, hmask⟩, rfl, hv, hvreply 9 (by decide) hscan, hsetup, rfl, rfl, hm,
    hmreply 9 (by decide) hmask, hlength, hthreshold,
    hpayload none none _ _ _ _ rfl rfl hlength hthreshold⟩

end PayloadStream
