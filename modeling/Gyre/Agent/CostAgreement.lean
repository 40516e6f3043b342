/- digest: When the budget is charged what is recorded for a call. -/

import Gyre.Agent.CostGuard
import Gyre.Llm.CostTracker

/-!
A call is charged to the daily budget by the guard and recorded by the tracker. The guard knows only
the built-in prices, while the tracker looks into the pricing file first.
-/

set_option autoImplicit false
set_option relaxedAutoImplicit false

namespace Gyre.Agent.CostAgreement

open Gyre.Llm.Costs Gyre.Llm.Pricing

/-- By how many dollars recording a call raises the total of its day. -/
def chargedCost (config : CostGuardConfig) (guard : CostGuard) (now : Nat) (model : String)
    (inputTokens outputTokens : UInt32) : ℚ :=
  let charged := (guardStep config guard (.record now model inputTokens outputTokens)).1
  ((charged.total : ℚ) - (rollOver guard now).total) / 10 ^ 8

/-- One price for a model: the longest prefix decides it, and the budget is charged what is
recorded, whatever order the providers come in. -/
structure OnePrice (pricing : Option PricingConfig) (modelId : String) : Prop where
  longest : ∀ config, pricing = some config → LongestWins config modelId
  charged : ∀ tracker : CostTracker, Option.Rel SameTable pricing tracker.pricing →
    ∀ (limits : CostGuardConfig) (guard : CostGuard) (now : Nat) (inputTokens outputTokens : UInt32)
      (sessionId : Option String), ∃ usage : UsageRecord,
        (tracker.record modelId inputTokens outputTokens sessionId now).records =
          tracker.records ++ [usage] ∧
        usage.cost = chargedCost limits guard now modelId inputTokens outputTokens

/-- The first model of its provider that covers the identifier. -/
def ComesFirst (config : PricingConfig) (modelId : String) (model : ModelPricing) : Prop :=
  ∃ provider ∈ config.providers, ∃ before after, provider.2.models = before ++ model :: after ∧
    (∀ other ∈ before, other.covers modelId = false) ∧ model.covers modelId = true

/-- Every price that can be found, and that of every longest prefix, is the built-in one. -/
def AsBuiltIn (config : PricingConfig) (modelId : String) : Prop :=
  ∀ model, ComesFirst config modelId model ∨ IsLongest config modelId model →
    model.rates = builtInRates modelId

section Charge

variable {config : PricingConfig} {modelId : String} {model : ModelPricing}
  {tracker : CostTracker}

theorem chargedCost_eq (limits : CostGuardConfig) (guard : CostGuard) (now : Nat)
    (inputTokens outputTokens : UInt32) :
    chargedCost limits guard now modelId inputTokens outputTokens =
      (builtInRates modelId).1 * inputTokens.toNat +
        (builtInRates modelId).2 * outputTokens.toNat := by
  have htotal : (guardStep limits guard (.record now modelId inputTokens outputTokens)).1.total =
      (rollOver guard now).total + callCost modelId inputTokens outputTokens := rfl
  unfold chargedCost builtInRates
  dsimp only
  rw [htotal]
  unfold callCost
  push_cast
  ring

theorem comesFirst_iff :
    ComesFirst config modelId model ↔
      ∃ provider ∈ config.providers, provider.2.firstCovering modelId = some model := by
  unfold ComesFirst ProviderPricing.firstCovering
  constructor
  · rintro ⟨provider, hmem, before, after, hmodels, hbefore, hcovers⟩
    refine ⟨provider, hmem, List.find?_eq_some_iff_append.2 ⟨hcovers, before, after, hmodels, ?_⟩⟩
    intro other hother
    simp [hbefore other hother]
  · rintro ⟨provider, hmem, hfirst⟩
    obtain ⟨hcovers, before, after, hmodels, hbefore⟩ := List.find?_eq_some_iff_append.1 hfirst
    refine ⟨provider, hmem, before, after, hmodels, ?_, hcovers⟩
    intro other hother
    simpa using hbefore other hother

/-- The rates of a tracker can be read off from its records of single tokens. -/
theorem rates_of_costs {rates rates' : ℚ × ℚ}
    (h : ∀ inputTokens outputTokens : UInt32,
      rates.1 * inputTokens.toNat + rates.2 * outputTokens.toNat =
        rates'.1 * inputTokens.toNat + rates'.2 * outputTokens.toNat) :
    rates = rates' := by
  have hinput := h 1 0
  have houtput := h 0 1
  simp only [UInt32.toNat_one, UInt32.toNat_zero, Nat.cast_one, Nat.cast_zero, mul_one, mul_zero,
    add_zero, zero_add] at hinput houtput
  exact Prod.ext hinput houtput

theorem charged_rates {pricing : Option PricingConfig} (h : OnePrice pricing modelId)
    (hsame : Option.Rel SameTable pricing tracker.pricing) :
    tracker.costPerToken modelId = builtInRates modelId := by
  apply rates_of_costs
  intro inputTokens outputTokens
  obtain ⟨usage, hrecords, hcost⟩ := h.charged tracker hsame ⟨none, none⟩ (CostGuard.new 0) 0
    inputTokens outputTokens none
  have husage : usage.cost = tracker.recordedCost modelId inputTokens outputTokens := by
    have hlast := List.append_cancel_left hrecords
    rw [← List.singleton_inj.1 hlast]
  rw [chargedCost_eq] at hcost
  rw [← hcost, husage]
  rfl

/-- With agreeing prices every order of the providers gives the built-in ones. -/
theorem lookup_of_asBuiltIn {config' : PricingConfig} (h : AsBuiltIn config modelId)
    (hsame : SameTable config config') :
    (config'.lookup modelId).getD (builtInRates modelId) = builtInRates modelId := by
  cases hfound : config'.lookup modelId with
  | none => rfl
  | some rates =>
    obtain ⟨provider, hmem, model, hfirst, hrates⟩ := lookup_eq_some hfound
    have hcomes : ComesFirst config modelId model :=
      comesFirst_iff.2 ⟨provider, hsame.mem_iff.1 hmem, hfirst⟩
    rw [Option.getD_some, ← hrates]
    exact h model (.inl hcomes)

theorem asBuiltIn_of_onePrice (h : OnePrice (some config) modelId) : AsBuiltIn config modelId := by
  have hfirst : ∀ model, ComesFirst config modelId model →
      model.rates = builtInRates modelId := by
    intro model hcomes
    obtain ⟨provider, hmem, hfirst⟩ := comesFirst_iff.1 hcomes
    obtain ⟨config', hsame, hhead⟩ := exists_sameTable_first hmem
    let tracker : CostTracker := ⟨[], some config'⟩
    have hrates : tracker.costPerToken modelId = builtInRates modelId := charged_rates h (.some hsame)
    unfold CostTracker.costPerToken at hrates
    rw [Option.bind_some, lookup_of_head hhead hfirst, Option.getD_some] at hrates
    exact hrates
  rintro model (hcomes | hlongest)
  · exact hfirst model hcomes
  · have hfound := (h.longest config rfl).1 model hlongest
    obtain ⟨provider, hmem, first, hfirstCovering, hrates⟩ := lookup_eq_some hfound
    rw [← hrates]
    exact hfirst first (comesFirst_iff.2 ⟨provider, hmem, hfirstCovering⟩)

theorem onePrice_of_asBuiltIn {pricing : Option PricingConfig}
    (h : ∀ config, pricing = some config → AsBuiltIn config modelId) :
    OnePrice pricing modelId where
  longest config hconfig := by
    rw [longestWins_iff]
    intro longest hlongest provider hmem model hfirst
    rw [h config hconfig longest (.inr hlongest)]
    exact h config hconfig model (.inl (comesFirst_iff.2 ⟨provider, hmem, hfirst⟩))
  charged tracker hsame limits guard now inputTokens outputTokens sessionId := by
    have hrates : tracker.costPerToken modelId = builtInRates modelId := by
      unfold CostTracker.costPerToken
      revert hsame
      generalize tracker.pricing = found
      intro hsame
      cases hsame with
      | none => rfl
      | some hsame =>
        rw [Option.bind_some]
        exact lookup_of_asBuiltIn (h _ rfl) hsame
    refine ⟨_, rfl, ?_⟩
    rw [chargedCost_eq, ← hrates]
    rfl

end Charge

/-- A model has one price exactly when what the pricing file says of it is what is built in. -/
theorem one_price_iff (pricing : Option PricingConfig) (modelId : String) :
    OnePrice pricing modelId ↔
      ∀ config, pricing = some config → AsBuiltIn config modelId := by
  constructor
  · rintro h config rfl
    exact asBuiltIn_of_onePrice h
  · exact onePrice_of_asBuiltIn

/-- With the default file, a call is recorded with half of the input price that it is charged. -/
theorem default_file_differs : ¬ OnePrice (some defaultPricing) "gemini-2.5-pro" := by
  intro h
  have hcomes : ComesFirst defaultPricing "gemini-2.5-pro"
      ⟨"gemini-2.5-pro".toList, 125 / 100, 10⟩ := by
    refine comesFirst_iff.2 ⟨("google", ⟨[⟨"gemini-2.5-flash".toList, 15 / 100, 6 / 10⟩,
      ⟨"gemini-2.5-pro".toList, 125 / 100, 10⟩, ⟨"gemini-2.0-flash".toList, 1 / 10, 4 / 10⟩]⟩),
      ?_, ?_⟩
    · simp [defaultPricing]
    · decide +kernel
  have hrates := asBuiltIn_of_onePrice h _ (.inl hcomes)
  revert hrates
  decide +kernel

end Gyre.Agent.CostAgreement
