/- digest: Prices from the pricing file, and the costs that are recorded with them. -/

import Mathlib
import Gyre.Llm.Costs

/-!
The providers of a pricing file are kept in a hash map, whose order of iteration nothing fixes. A
configuration lists them in one order; what holds of it in every order is stated over `SameTable`.
-/

set_option autoImplicit false
set_option relaxedAutoImplicit false

namespace Gyre.Llm.Pricing

open Gyre.Llm.Costs

/-- Cost per million tokens of the models whose names begin with a text. -/
structure ModelPricing where
  namePrefix : List Char
  inputPerM : ℚ
  outputPerM : ℚ
  deriving DecidableEq

structure ProviderPricing where
  models : List ModelPricing
  deriving DecidableEq

structure PricingConfig where
  providers : List (String × ProviderPricing)
  distinct : (providers.map Prod.fst).Nodup

/-- `id.starts_with(&model.prefix)`. -/
def ModelPricing.covers (model : ModelPricing) (modelId : String) : Bool :=
  model.namePrefix.isPrefixOf (withoutProvider modelId.toList)

/-- Costs per token. -/
def ModelPricing.rates (model : ModelPricing) : ℚ × ℚ :=
  (model.inputPerM / 1000000, model.outputPerM / 1000000)

/-- The first model of a provider that covers the identifier. -/
def ProviderPricing.firstCovering (provider : ProviderPricing) (modelId : String) :
    Option ModelPricing :=
  provider.models.find? (·.covers modelId)

def PricingConfig.lookup (config : PricingConfig) (modelId : String) : Option (ℚ × ℚ) :=
  config.providers.findSome? fun provider =>
    (provider.2.firstCovering modelId).map ModelPricing.rates

/-- The table that is written when there is no file. -/
def defaultPricing : PricingConfig where
  providers :=
    [("anthropic", ⟨[
        ⟨"claude-sonnet-4".toList, 3, 15⟩,
        ⟨"claude-opus-4".toList, 15, 75⟩,
        ⟨"claude-3-5-sonnet".toList, 3, 15⟩,
        ⟨"claude-3-5-haiku".toList, 8 / 10, 4⟩,
        ⟨"claude-3-haiku".toList, 25 / 100, 125 / 100⟩,
        ⟨"claude-3-opus".toList, 15, 75⟩]⟩),
      ("openai", ⟨[
        ⟨"gpt-4o-mini".toList, 15 / 100, 6 / 10⟩,
        ⟨"gpt-4o".toList, 25 / 10, 10⟩,
        ⟨"gpt-4-turbo".toList, 10, 30⟩,
        ⟨"o1-mini".toList, 3, 12⟩,
        ⟨"o1".toList, 15, 60⟩,
        ⟨"o3-mini".toList, 11 / 10, 44 / 10⟩]⟩),
      ("google", ⟨[
        ⟨"gemini-2.5-flash".toList, 15 / 100, 6 / 10⟩,
        ⟨"gemini-2.5-pro".toList, 125 / 100, 10⟩,
        ⟨"gemini-2.0-flash".toList, 1 / 10, 4 / 10⟩]⟩)]
  distinct := by decide

/-- `costs::model_cost`, or else `costs::default_cost`, in dollars. -/
def builtInRates (modelId : String) : ℚ × ℚ :=
  let rates := (modelCost modelId).getD defaultCost
  (rates.1 / 10 ^ 8, rates.2 / 10 ^ 8)

structure UsageRecord where
  model : String
  inputTokens : UInt32
  outputTokens : UInt32
  cost : ℚ
  timestamp : Nat
  sessionId : Option String

structure CostTracker where
  records : List UsageRecord
  pricing : Option PricingConfig

/-- The pricing file comes first, then the built-in table with its default. -/
def CostTracker.costPerToken (tracker : CostTracker) (modelId : String) : ℚ × ℚ :=
  (tracker.pricing.bind (·.lookup modelId)).getD (builtInRates modelId)

def CostTracker.recordedCost (tracker : CostTracker) (model : String)
    (inputTokens outputTokens : UInt32) : ℚ :=
  let rates := tracker.costPerToken model
  rates.1 * inputTokens.toNat + rates.2 * outputTokens.toNat

def CostTracker.record (tracker : CostTracker) (model : String)
    (inputTokens outputTokens : UInt32) (sessionId : Option String) (now : Nat) : CostTracker :=
  let cost := tracker.recordedCost model inputTokens outputTokens
  { tracker with
    records := tracker.records ++ [⟨model, inputTokens, outputTokens, cost, now, sessionId⟩] }

/-- The same providers, in whichever order. -/
def SameTable (config config' : PricingConfig) : Prop :=
  config'.providers.Perm config.providers

def PricingConfig.Lists (config : PricingConfig) (model : ModelPricing) : Prop :=
  ∃ provider ∈ config.providers, model ∈ provider.2.models

/-- No covering model of the table has a longer prefix. -/
structure IsLongest (config : PricingConfig) (modelId : String) (model : ModelPricing) : Prop where
  listed : config.Lists model
  covers : model.covers modelId = true
  longest : ∀ other, config.Lists other → other.covers modelId = true →
    other.namePrefix.length ≤ model.namePrefix.length

/-- The price of the longest prefix is found, whatever order the providers come in. -/
def LongestWins (config : PricingConfig) (modelId : String) : Prop :=
  (∀ model, IsLongest config modelId model → config.lookup modelId = some model.rates) ∧
    ∀ config', SameTable config config' → config'.lookup modelId = config.lookup modelId

section Lookup

variable {config config' : PricingConfig} {modelId : String} {model : ModelPricing}
  {provider : String × ProviderPricing}

theorem SameTable.refl (config : PricingConfig) : SameTable config config :=
  List.Perm.refl config.providers

theorem lists_of_firstCovering (hmem : provider ∈ config.providers)
    (hfirst : provider.2.firstCovering modelId = some model) :
    config.Lists model ∧ model.covers modelId = true := by
  have hlisted : model ∈ provider.2.models := List.mem_of_find?_eq_some hfirst
  have hcovers : model.covers modelId = true := by
    simpa using List.find?_some hfirst
  exact ⟨⟨provider, hmem, hlisted⟩, hcovers⟩

/-- A provider with a covering model has a first one. -/
theorem firstCovering_of_covers (hlisted : model ∈ provider.2.models)
    (hcovers : model.covers modelId = true) :
    ∃ first, provider.2.firstCovering modelId = some first := by
  have hsome : (provider.2.models.find? (·.covers modelId)).isSome = true :=
    List.find?_isSome.2 ⟨model, hlisted, hcovers⟩
  exact Option.isSome_iff_exists.1 hsome

/-- What is found is what some provider gives first. -/
theorem lookup_eq_some {rates : ℚ × ℚ} (h : config.lookup modelId = some rates) :
    ∃ provider ∈ config.providers, ∃ model,
      provider.2.firstCovering modelId = some model ∧ model.rates = rates := by
  obtain ⟨provider, hmem, hgives⟩ := List.exists_of_findSome?_eq_some h
  obtain ⟨model, hfirst, hrates⟩ := Option.map_eq_some_iff.1 hgives
  exact ⟨provider, hmem, model, hfirst, hrates⟩

theorem lookup_eq_none :
    config.lookup modelId = none ↔
      ∀ provider ∈ config.providers, provider.2.firstCovering modelId = none := by
  unfold PricingConfig.lookup
  rw [List.findSome?_eq_none_iff]
  constructor
  · intro h provider hmem
    exact Option.map_eq_none_iff.1 (h provider hmem)
  · intro h provider hmem
    exact Option.map_eq_none_iff.2 (h provider hmem)

theorem exists_longest (hlisted : config.Lists model) (hcovers : model.covers modelId = true) :
    ∃ longest, IsLongest config modelId longest := by
  let covering := (config.providers.flatMap fun provider => provider.2.models).filter
    (·.covers modelId)
  have hcovering : ∀ other, other ∈ covering ↔ config.Lists other ∧ other.covers modelId = true := by
    intro other
    simp [covering, PricingConfig.Lists]
  have hnonempty : covering ≠ [] :=
    List.ne_nil_of_mem ((hcovering model).2 ⟨hlisted, hcovers⟩)
  obtain ⟨longest, hlongest⟩ := List.exists_mem_of_ne_nil _ hnonempty
  have hbounded := Set.exists_max_image { other | other ∈ covering } (·.namePrefix.length)
    (List.finite_toSet covering) ⟨longest, hlongest⟩
  obtain ⟨best, hbest, hmax⟩ := hbounded
  obtain ⟨hbestListed, hbestCovers⟩ := (hcovering best).1 hbest
  exact ⟨best, hbestListed, hbestCovers, fun other h hc => hmax other ((hcovering other).2 ⟨h, hc⟩)⟩

/-- Any provider can come first. -/
theorem exists_sameTable_first (hmem : provider ∈ config.providers) :
    ∃ config', SameTable config config' ∧ config'.providers.head? = some provider := by
  obtain ⟨before, after, hsplit⟩ := List.append_of_mem hmem
  have hperm : (provider :: (before ++ after)).Perm config.providers := by
    rw [hsplit]
    exact List.perm_middle.symm
  have hdistinct : ((provider :: (before ++ after)).map Prod.fst).Nodup :=
    (hperm.map Prod.fst).nodup_iff.2 config.distinct
  exact ⟨⟨provider :: (before ++ after), hdistinct⟩, hperm, rfl⟩

theorem lookup_of_head (hhead : config.providers.head? = some provider)
    (hfirst : provider.2.firstCovering modelId = some model) :
    config.lookup modelId = some model.rates := by
  obtain ⟨rest, hrest⟩ := List.head?_eq_some_iff.1 hhead
  unfold PricingConfig.lookup
  rw [hrest, List.findSome?_cons, hfirst]
  rfl

/-- When every first covering model has one price, this price is found in every order. -/
theorem lookup_of_agree {rates : ℚ × ℚ}
    (hagree : ∀ provider ∈ config.providers, ∀ model,
      provider.2.firstCovering modelId = some model → model.rates = rates)
    (hsame : SameTable config config') (hlisted : config.Lists model)
    (hcovers : model.covers modelId = true) :
    config'.lookup modelId = some rates := by
  obtain ⟨provider, hmem, hmodel⟩ := hlisted
  obtain ⟨first, hfirst⟩ := firstCovering_of_covers hmodel hcovers
  have hsome : config'.lookup modelId ≠ none := by
    intro hnone
    have hno := lookup_eq_none.1 hnone provider (hsame.mem_iff.2 hmem)
    rw [hfirst] at hno
    exact Option.some_ne_none _ hno
  obtain ⟨found, hfound⟩ := Option.ne_none_iff_exists'.1 hsome
  obtain ⟨giver, hgiver, model', hfirst', hrates⟩ := lookup_eq_some hfound
  rw [hfound, ← hrates, hagree giver (hsame.mem_iff.1 hgiver) model' hfirst']

/-- The longest prefix decides exactly when nothing that comes first in its provider has another
price. -/
theorem longestWins_iff :
    LongestWins config modelId ↔
      ∀ longest, IsLongest config modelId longest →
        ∀ provider ∈ config.providers, ∀ model,
          provider.2.firstCovering modelId = some model → model.rates = longest.rates := by
  constructor
  · rintro ⟨hprice, horder⟩ longest hlongest provider hmem model hfirst
    obtain ⟨config', hsame, hhead⟩ := exists_sameTable_first hmem
    have hfound := lookup_of_head hhead hfirst
    rw [horder config' hsame, hprice longest hlongest] at hfound
    exact (Option.some.inj hfound).symm
  · intro h
    constructor
    · intro longest hlongest
      exact lookup_of_agree (h longest hlongest) (SameTable.refl config) hlongest.listed
        hlongest.covers
    · intro config' hsame
      by_cases hany : ∃ model, config.Lists model ∧ model.covers modelId = true
      · obtain ⟨model, hlisted, hcovers⟩ := hany
        obtain ⟨longest, hlongest⟩ := exists_longest hlisted hcovers
        rw [lookup_of_agree (h longest hlongest) hsame hlisted hcovers,
          lookup_of_agree (h longest hlongest) (SameTable.refl config) hlisted hcovers]
      · have hnone : ∀ provider ∈ config.providers, provider.2.firstCovering modelId = none := by
          intro provider hmem
          rw [Option.eq_none_iff_forall_ne_some]
          intro model hfirst
          exact hany ⟨model, lists_of_firstCovering hmem hfirst⟩
        rw [lookup_eq_none.2 hnone]
        exact lookup_eq_none.2 fun provider hmem => hnone provider (hsame.mem_iff.1 hmem)

end Lookup

end Gyre.Llm.Pricing
