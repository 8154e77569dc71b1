import PayloadStream.MaskerRun
import PayloadStream.ValidatorRun
import PayloadStream.Proofs.RunInvariants
import PayloadStream.Proofs.TierSelection

/-!
# Resetting makes fresh

Of a validator that was reset only the tier is left, and of a masker the key and the tier. A fresh
one that is asked for that tier is the same, provided the tier is one that the processor runs: any
other would be replaced. That it runs is what every call of a run keeps, since tiers come from
selection only. From then on both go through the same states, whatever they are asked, as long as
nothing from before the reset is brought back.
-/

namespace PayloadStream

open ExecutionTier (Available available_select select_of_available)

variable {level : VectorLevel}

namespace Validator

/-- The validator's tier is one that the processor runs. -/
def Fits (level : VectorLevel) (v : Validator) : Prop := Available level v.tier

theorem fits_ofOptions (level : VectorLevel) (options : ScanOptions) :
    Fits level (ofOptions level options) :=
  available_select level options.tier

theorem preserves_fits (level : VectorLevel) :
    Checkpointed.Preserves (answer level) (Fits level) := by
  intro v call h
  cases call with
  | validate chunk =>
    change Available level (v.feed level chunk).tier
    rwa [tier_feed]
  | complete chunk =>
    change Available level (v.feed level chunk).finish.tier
    rwa [tier_finish, tier_feed]
  | reset => exact h
  | selectTier code =>
    rw [answer]
    split
    · exact available_select level _
    · exact h

theorem Fits.reset_eq_ofOptions {v : Validator} (h : Fits level v) :
    v.reset = ofOptions level ⟨some v.tier⟩ := by
  rw [reset, ofOptions, select_of_available h]

/-- After any run that ends with a reset. -/
theorem live_run_reset (level : VectorLevel) (options : ScanOptions)
    (before : List (RunStep ValidatorCall)) :
    let m := (Checkpointed.start (ofOptions level options)).run (answer level)
      (before ++ [.act .reset])
    m.live = ofOptions level ⟨some m.live.tier⟩ := by
  have hrun := (Checkpointed.throughout_start (fits_ofOptions level options)).run
    (preserves_fits level) before
  rw [Checkpointed.run_append]
  exact hrun.live.reset_eq_ofOptions

end Validator

namespace Masker

/-- The masker's tier is one that the processor runs. -/
def Fits (level : VectorLevel) (m : Masker) : Prop := Available level m.tier

theorem fits_ofOptions (level : VectorLevel) (key : Option MaskKey) (options : MaskOptions) :
    Fits level (ofOptions level key options) :=
  available_select level options.tier

theorem fits_build {setup : MaskerSetup} {m : Masker} (h : setup.build level = .ok m) :
    Fits level m := by
  cases setup with
  | bytes k =>
    rw [MaskerSetup.build, ofBytes] at h
    cases hk : MaskKey.ofBytes k with
    | error e =>
      rw [hk] at h
      cases h
    | ok key =>
      rw [hk] at h
      cases h
      exact fits_ofOptions level _ _
  | _ =>
    cases h
    exact fits_ofOptions level _ _

theorem preserves_fits (level : VectorLevel) :
    Checkpointed.Preserves (answer level) (Fits level) := by
  intro m call h
  cases call with
  | selectTier code =>
    rw [answer]
    split
    · exact available_select level _
    · exact h
  | _ => exact h

theorem Fits.reset_eq_ofOptions {m : Masker} (h : Fits level m) (threshold : UInt64) :
    m.reset = ofOptions level m.key ⟨some m.tier, threshold⟩ := by
  rw [reset, ofOptions, select_of_available h]

/-- After any run that ends with a reset. -/
theorem live_run_reset {setup : MaskerSetup} {m₀ : Masker} (h : setup.build level = .ok m₀)
    (before : List (RunStep MaskerCall)) (threshold : UInt64) :
    let m := (Checkpointed.start m₀).run (answer level) (before ++ [.act .reset])
    m.live = ofOptions level m.live.key ⟨some m.live.tier, threshold⟩ := by
  have hrun := (Checkpointed.throughout_start (fits_build h)).run (preserves_fits level) before
  rw [Checkpointed.run_append]
  exact hrun.live.reset_eq_ofOptions threshold

end Masker

end PayloadStream
