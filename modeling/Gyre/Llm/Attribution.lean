/- digest: What a stack of wrappers answers for the base provider that answered a request. -/

import Gyre.Lib.Reach
import Gyre.Llm.ProviderStack

set_option autoImplicit false
set_option relaxedAutoImplicit false

namespace Gyre.Llm

open Gyre.Lib

universe u

namespace LlmProvider

variable {S : Type u}

/-- Two providers go by the same names and prices. -/
structure NamesAs (p q : LlmProvider S) (s : S) : Prop where
  modelName : p.modelName s = q.modelName s
  activeModelName : p.activeModelName s = q.activeModelName s
  costPerToken : p.costPerToken s = q.costPerToken s

/-- The metadata that the trait's default method gives. -/
def plainMetadata (p : LlmProvider S) (s : S) : Except LlmError ModelMetadata :=
  .ok ⟨p.modelName s, none⟩

/-- The cost that the trait's default method gives. -/
def plainCost (p : LlmProvider S) (inputTokens outputTokens : UInt32) (s : S) : Rat :=
  (p.costPerToken s).1 * inputTokens.toNat + (p.costPerToken s).2 * outputTokens.toNat

theorem notePrimary_eq_self {store : Nat → S → S} {result : Except LlmError Unit × S}
    (h : store 0 result.2 = result.2) : notePrimary store result = result := by
  rcases result with ⟨err | done, s⟩
  · rfl
  · exact congrArg (Prod.mk (Except.ok ())) h

end LlmProvider

namespace ProviderStack

/-- There is a failover; the wrappers above it have one inner provider. -/
def hasFailover : ProviderStack → Bool
  | base _ => false
  | breaker inner => inner.hasFailover
  | cached inner => inner.hasFailover
  | failover _ _ => true

/-- There is a wrapper that works out costs by itself. -/
def recalculates : ProviderStack → Bool
  | base _ => false
  | breaker inner => inner.recalculates
  | cached _ => true
  | failover _ _ => true

end ProviderStack

/-- A store of another request leaves what failovers have noted for this one. -/
def Answered.KeptBy (r : Answered) (noted : List Nat × Nat) : Prop :=
  ∀ e ∈ storesTo [] r.path, e.1 = noted.1 → e ∈ r.pending ∨ e.2 = noted.2

instance (r : Answered) (noted : List Nat × Nat) : Decidable (r.KeptBy noted) :=
  inferInstanceAs (Decidable (∀ e ∈ storesTo [] r.path, e.1 = noted.1 → e ∈ r.pending ∨ e.2 = noted.2))

namespace StackWorld

variable {σ : Type u} (stack : ProviderStack)

/-- Until a request is accounted for, nothing notes another provider at a failover that has noted the
way to the provider that answered it; and a response is found in a cache only while the failovers
below have noted the way it came. -/
def Undisturbed (w : StackWorld σ) : StackAct σ → Prop
  | .hit toCache path =>
    ∀ e ∈ storesTo [] path, e ∈ storesTo [] toCache ∨ w.state.lastUsed e.1 = e.2
  | .store request =>
    ∀ r ∈ w.requests[request]?, ∀ noted ∈ r.pending.head?,
      ∀ other ∈ w.requests, other.accounted = false → other.KeptBy noted
  | .setModel _ =>
    ∀ r ∈ w.requests, r.accounted = false → ∀ e ∈ storesTo [] r.path,
      e ∈ r.pending ∨ e.2 = 0 ∨ ∃ i ∈ e.1, i ≠ 0
  | .answer _ | .account _ _ _ | .bases _ => True

instance Undisturbed.decidable (w : StackWorld σ) : ∀ act, Decidable (w.Undisturbed act)
  | .hit toCache path =>
    inferInstanceAs (Decidable (∀ e ∈ storesTo [] path, e ∈ storesTo [] toCache ∨ _))
  | .store request =>
    inferInstanceAs (Decidable (∀ r ∈ w.requests[request]?, ∀ noted ∈ r.pending.head?,
      ∀ other ∈ w.requests, other.accounted = false → other.KeptBy noted))
  | .setModel _ =>
    inferInstanceAs (Decidable (∀ r ∈ w.requests, r.accounted = false →
      ∀ e ∈ storesTo [] r.path, e ∈ r.pending ∨ e.2 = 0 ∨ ∃ i ∈ e.1, i ≠ 0))
  | .answer _ | .account _ _ _ | .bases _ => .isTrue trivial

/-- The stack answers for the provider that answered a request: it goes by its names and prices; for
metadata and response chains, where the provider has the trait's defaults or there is no failover;
for costs, where the provider adds up tokens at its prices or no wrapper does; for lists, where the
provider lists all models, sorted, or there is no failover; and a switch of the model reaches it
where it is the first provider of every failover. -/
structure AnswersFor (bases : Nat → LlmProvider σ) (s : StackState σ) (r : Answered) : Prop where
  names : (stack.provider bases []).NamesAs (.lift (bases r.producer)) s
  modelMetadata : (stack.provider bases []).modelMetadata s =
      (bases r.producer).modelMetadata s.bases ↔
    (stack.hasFailover = true → (bases r.producer).modelMetadata s.bases =
      (bases r.producer).plainMetadata s.bases)
  getResponseChainId (thread : String) : (stack.provider bases []).getResponseChainId thread s =
      (bases r.producer).getResponseChainId thread s.bases ↔
    (stack.hasFailover = true → (bases r.producer).getResponseChainId thread s.bases = none)
  seedResponseChain (thread id : String) :
    ((stack.provider bases []).seedResponseChain thread id s).bases =
      (bases r.producer).seedResponseChain thread id s.bases ↔
    (stack.hasFailover = true → (bases r.producer).seedResponseChain thread id s.bases = s.bases)
  calculateCost (inputTokens outputTokens : UInt32) :
    (stack.provider bases []).calculateCost inputTokens outputTokens s =
      (bases r.producer).calculateCost inputTokens outputTokens s.bases ↔
    (stack.recalculates = true → (bases r.producer).calculateCost inputTokens outputTokens s.bases =
      (bases r.producer).plainCost inputTokens outputTokens s.bases)
  listModels : (stack.hasFailover = true →
      ∃ names, (bases r.producer).listModels s.bases = .ok names ∧ names.SortedLT ∧
        ∀ path i, stack.baseAt path = some i → ∀ others,
          (bases i).listModels s.bases = .ok others → others ⊆ names) →
    (stack.provider bases []).listModels s = (bases r.producer).listModels s.bases
  setModel (model : String) : (∀ i ∈ r.path, i = 0) →
    (stack.provider bases []).setModel model s =
      (LlmProvider.lift (bases r.producer)).setModel model s

end StackWorld

section Merged

variable {lists : List (Except LlmError (List String))}

theorem mem_mergedModels {model : String} :
    model ∈ LlmProvider.mergedModels lists ↔ ∃ names, .ok names ∈ lists ∧ model ∈ names := by
  unfold LlmProvider.mergedModels
  rw [(List.pairwise_insertionSort (· ≤ ·) _).destutter_eq_dedup, List.mem_dedup,
    List.mem_insertionSort, List.mem_flatMap]
  constructor
  · rintro ⟨list, hlist, hmodel⟩
    cases list with
    | error err => exact absurd hmodel List.not_mem_nil
    | ok names => exact ⟨names, hlist, hmodel⟩
  · rintro ⟨names, hlist, hmodel⟩
    exact ⟨.ok names, hlist, hmodel⟩

theorem sorted_mergedModels : (LlmProvider.mergedModels lists).SortedLT := by
  unfold LlmProvider.mergedModels
  have hsorted := List.pairwise_insertionSort (· ≤ ·) (lists.flatMap fun list =>
    list.toOption.getD [])
  have hdestutter := (hsorted.sublist (List.destutter_sublist (· ≠ ·) _)).sortedLE
  apply hdestutter.sortedLT_of_nodup
  rw [hsorted.destutter_eq_dedup]
  exact List.nodup_dedup _

end Merged

section Answers

variable {σ : Type u} {bases : Nat → LlmProvider σ} {stack : ProviderStack} {s : StackState σ}
  {b : Nat} {position path : List Nat}

open ProviderStack

/-- Where failovers have noted the way to a base provider, the stack goes by its names. -/
theorem ProviderStack.namesAs (hbase : stack.baseAt path = some b)
    (hnoted : ∀ e ∈ storesTo position path, s.lastUsed e.1 = e.2) :
    (stack.provider bases position).NamesAs (.lift (bases b)) s := by
  induction stack generalizing position path with
  | base i =>
    cases path with
    | nil =>
      cases hbase
      exact ⟨rfl, rfl, rfl⟩
    | cons => cases hbase
  | breaker inner ih =>
    obtain ⟨hname, hactive, hcost⟩ := ih hbase hnoted
    exact ⟨hname, hactive, hcost⟩
  | cached inner ih =>
    obtain ⟨hname, hactive, hcost⟩ := ih hbase hnoted
    exact ⟨hname, hactive, hcost⟩
  | failover fallbacks providers ih =>
    cases path with
    | nil => cases hbase
    | cons i path =>
      unfold baseAt at hbase
      split at hbase
      next =>
        have hlast : s.lastUsed position = i :=
          hnoted (position, i) (List.mem_append_right _ (List.mem_singleton.mpr rfl))
        have hinner := ih i hbase fun e he => hnoted e (List.mem_append_left _ he)
        obtain ⟨hname, hactive, hcost⟩ := hinner
        constructor
        · show ((providers (s.lastUsed position)).provider bases
            (position ++ [s.lastUsed position])).modelName s = _
          rw [hlast]
          exact hname
        · show ((providers (s.lastUsed position)).provider bases
            (position ++ [s.lastUsed position])).activeModelName s = _
          rw [hlast]
          exact hactive
        · show ((providers (s.lastUsed position)).provider bases
            (position ++ [s.lastUsed position])).costPerToken s = _
          rw [hlast]
          exact hcost
      next => cases hbase

/-- A failover falls back on the trait's default methods for metadata and response chains. -/
theorem ProviderStack.defaults (h : stack.hasFailover = true) :
    (stack.provider bases position).modelMetadata s =
        (stack.provider bases position).plainMetadata s ∧
      (∀ thread, (stack.provider bases position).getResponseChainId thread s = none) ∧
        ∀ thread id, (stack.provider bases position).seedResponseChain thread id s = s := by
  induction stack with
  | base i => cases h
  | breaker inner ih => exact ih h
  | cached inner ih => exact ih h
  | failover fallbacks providers ih => exact ⟨rfl, fun _ => rfl, fun _ _ => rfl⟩

/-- Without a failover these are the base provider's own. -/
theorem ProviderStack.forwarded (h : stack.hasFailover = false)
    (hbase : stack.baseAt path = some b) :
    (stack.provider bases position).modelMetadata s = (LlmProvider.lift (bases b)).modelMetadata s ∧
      (∀ thread, (stack.provider bases position).getResponseChainId thread s =
        (LlmProvider.lift (bases b)).getResponseChainId thread s) ∧
      (∀ thread id, (stack.provider bases position).seedResponseChain thread id s =
        (LlmProvider.lift (bases b)).seedResponseChain thread id s) ∧
      (stack.provider bases position).listModels s = (LlmProvider.lift (bases b)).listModels s := by
  induction stack with
  | base i =>
    cases path with
    | nil =>
      cases hbase
      exact ⟨rfl, fun _ => rfl, fun _ _ => rfl, rfl⟩
    | cons => cases hbase
  | breaker inner ih => exact ih h hbase
  | cached inner ih => exact ih h hbase
  | failover fallbacks providers ih => cases h

theorem ProviderStack.recalculated (h : stack.recalculates = true) (inputTokens outputTokens : UInt32) :
    (stack.provider bases position).calculateCost inputTokens outputTokens s =
      (stack.provider bases position).plainCost inputTokens outputTokens s := by
  induction stack with
  | base i => cases h
  | breaker inner ih => exact ih h
  | cached inner ih => rfl
  | failover fallbacks providers ih => rfl

theorem ProviderStack.calculated (h : stack.recalculates = false)
    (hbase : stack.baseAt path = some b) (inputTokens outputTokens : UInt32) :
    (stack.provider bases position).calculateCost inputTokens outputTokens s =
      (LlmProvider.lift (bases b)).calculateCost inputTokens outputTokens s := by
  induction stack with
  | base i =>
    cases path with
    | nil =>
      cases hbase
      rfl
    | cons => cases hbase
  | breaker inner ih => exact ih h hbase
  | cached inner ih => cases h
  | failover fallbacks providers ih => cases h

/-- The models a stack lists are listed by its base providers. -/
theorem ProviderStack.listed_of_bases {names : List String}
    (hnames : ∀ path i, stack.baseAt path = some i → ∀ others,
      (bases i).listModels s.bases = .ok others → others ⊆ names)
    {models : List String} (h : (stack.provider bases position).listModels s = .ok models) :
    models ⊆ names := by
  induction stack generalizing position models with
  | base i => exact hnames [] i rfl models h
  | breaker inner ih => exact ih hnames h
  | cached inner ih => exact ih hnames h
  | failover fallbacks providers ih =>
    intro model hmodel
    have hmerged := Except.ok.inj h
    rw [← hmerged] at hmodel
    obtain ⟨others, hothers, hmem⟩ := mem_mergedModels.mp hmodel
    obtain ⟨i, hi, hlist⟩ := List.mem_map.mp hothers
    have hrange : i ≤ fallbacks := Nat.lt_succ_iff.mp (List.mem_range.mp hi)
    refine ih i (fun path j hj => ?_) hlist hmem
    apply hnames (i :: path) j
    unfold baseAt
    rw [if_pos hrange]
    exact hj

/-- The models of a base provider are listed by the stack. -/
theorem ProviderStack.listed {names : List String} (hbase : stack.baseAt path = some b)
    (hlist : (bases b).listModels s.bases = .ok names) :
    ∃ models, (stack.provider bases position).listModels s = .ok models ∧ names ⊆ models := by
  induction stack generalizing position path with
  | base i =>
    cases path with
    | nil =>
      cases hbase
      exact ⟨names, hlist, List.Subset.refl names⟩
    | cons => cases hbase
  | breaker inner ih => exact ih hbase
  | cached inner ih => exact ih hbase
  | failover fallbacks providers ih =>
    cases path with
    | nil => cases hbase
    | cons i path =>
      unfold baseAt at hbase
      split at hbase
      next hi =>
        have hinner : ∃ models, ((providers i).provider bases (position ++ [i])).listModels s =
            .ok models ∧ names ⊆ models := ih i hbase
        obtain ⟨models, hmodels, hsub⟩ := hinner
        refine ⟨_, rfl, fun model hmodel => mem_mergedModels.mpr ⟨models, ?_, hsub hmodel⟩⟩
        exact List.mem_map.mpr ⟨i, List.mem_range.mpr (Nat.lt_succ_iff.mpr hi), hmodels⟩
      next => cases hbase

theorem ProviderStack.listed_sorted (h : stack.hasFailover = true) :
    ∃ models, (stack.provider bases position).listModels s = .ok models ∧ models.SortedLT := by
  induction stack with
  | base i => cases h
  | breaker inner ih => exact ih h
  | cached inner ih => exact ih h
  | failover fallbacks providers ih => exact ⟨_, rfl, sorted_mergedModels⟩

/-- A model is switched at the first provider of every failover. -/
theorem ProviderStack.setModel_primary (hbase : stack.baseAt path = some b)
    (hprimary : ∀ i ∈ path, i = 0) (hnoted : ∀ e ∈ storesTo position path, s.lastUsed e.1 = e.2)
    (model : String) :
    (stack.provider bases position).setModel model s = (LlmProvider.lift (bases b)).setModel model s := by
  induction stack generalizing position path with
  | base i =>
    cases path with
    | nil =>
      cases hbase
      rfl
    | cons => cases hbase
  | breaker inner ih => exact ih hbase hprimary hnoted
  | cached inner ih => exact ih hbase hprimary hnoted
  | failover fallbacks providers ih =>
    cases path with
    | nil => cases hbase
    | cons i path =>
      unfold baseAt at hbase
      split at hbase
      next =>
        have hlast : s.lastUsed position = i :=
          hnoted (position, i) (List.mem_append_right _ (List.mem_singleton.mpr rfl))
        have hi : i = 0 := hprimary i List.mem_cons_self
        subst hi
        have hinner := ih 0 hbase (fun j hj => hprimary j (List.mem_cons_of_mem _ hj))
          fun e he => hnoted e (List.mem_append_left _ he)
        -- what is noted is noted already
        have hstore (states : σ) : StackState.store ⟨states, s.lastUsed⟩ position 0 =
            ⟨states, s.lastUsed⟩ := by
          unfold StackState.store
          have hupdate := Function.update_eq_self position s.lastUsed
          rw [hlast] at hupdate
          rw [hupdate]
        show LlmProvider.notePrimary (fun i s => s.store position i)
          (((providers 0).provider bases (position ++ [0])).setModel model s) = _
        rw [hinner]
        exact LlmProvider.notePrimary_eq_self (hstore _)
      next => cases hbase

/-- A switch of the model notes nothing but first providers along first providers. -/
theorem ProviderStack.setModel_lastUsed (hposition : ∀ i ∈ position, i = 0) (model : String)
    (q : List Nat) :
    ((stack.provider bases position).setModel model s).2.lastUsed q = s.lastUsed q ∨
      ((stack.provider bases position).setModel model s).2.lastUsed q = 0 ∧ ∀ i ∈ q, i = 0 := by
  induction stack generalizing position with
  | base i => exact .inl rfl
  | breaker inner ih => exact ih hposition
  | cached inner ih => exact ih hposition
  | failover fallbacks providers ih =>
    have hzero : ∀ i ∈ position ++ [0], i = 0 := fun i hi => by
      rcases List.mem_append.mp hi with hi | hi
      · exact hposition i hi
      · exact List.mem_singleton.mp hi
    have hinner := ih 0 hzero
    show (LlmProvider.notePrimary (fun i s => s.store position i)
      (((providers 0).provider bases (position ++ [0])).setModel model s)).2.lastUsed q = _ ∨
      (LlmProvider.notePrimary (fun i s => s.store position i)
        (((providers 0).provider bases (position ++ [0])).setModel model s)).2.lastUsed q = 0 ∧ _
    generalize ((providers 0).provider bases (position ++ [0])).setModel model s = after at hinner ⊢
    rcases after with ⟨err | done, s'⟩
    · exact hinner
    · show Function.update s'.lastUsed position 0 q = _ ∨ Function.update s'.lastUsed position 0 q = 0 ∧ _
      by_cases hq : q = position
      · subst hq
        rw [Function.update_self]
        exact .inr ⟨rfl, hposition⟩
      · rw [Function.update_of_ne hq]
        exact hinner

end Answers

namespace StackWorld

variable {σ : Type u} {stack : ProviderStack} {bases : Nat → LlmProvider σ}

/-- What a wrapper answers, by default or by its inner provider. -/
private theorem eq_iff_default {α : Type u} {x y default : α} {replaced : Bool}
    (hreplaced : replaced = true → x = default) (hforwarded : replaced = false → x = y) :
    x = y ↔ (replaced = true → y = default) := by
  constructor
  · intro hxy hreplace
    rw [← hxy]
    exact hreplaced hreplace
  · intro hdefault
    cases hcase : replaced with
    | true => exact (hreplaced hcase).trans (hdefault hcase).symm
    | false => exact hforwarded hcase

theorem answersFor {s : StackState σ} {r : Answered} (hbase : stack.baseAt r.path = some r.producer)
    (hnoted : ∀ e ∈ storesTo [] r.path, s.lastUsed e.1 = e.2) : AnswersFor stack bases s r := by
  have hnames : (stack.provider bases []).NamesAs (.lift (bases r.producer)) s :=
    ProviderStack.namesAs hbase hnoted
  constructor
  · exact hnames
  · apply eq_iff_default
    · intro hfailover
      rw [(ProviderStack.defaults hfailover).1]
      unfold LlmProvider.plainMetadata
      rw [hnames.modelName]
      rfl
    · exact fun hplain => (ProviderStack.forwarded hplain hbase).1
  · intro thread
    apply eq_iff_default
    · exact fun hfailover => (ProviderStack.defaults (s := s) hfailover).2.1 thread
    · exact fun hplain => (ProviderStack.forwarded hplain hbase).2.1 thread
  · intro thread id
    apply eq_iff_default
    · intro hfailover
      rw [(ProviderStack.defaults hfailover).2.2 thread id]
    · intro hplain
      rw [(ProviderStack.forwarded hplain hbase).2.2.1 thread id]
      rfl
  · intro inputTokens outputTokens
    apply eq_iff_default
    · intro hrecalculates
      rw [ProviderStack.recalculated hrecalculates]
      unfold LlmProvider.plainCost
      rw [hnames.costPerToken]
      rfl
    · exact fun hplain => ProviderStack.calculated hplain hbase inputTokens outputTokens
  · intro hlists
    cases hcase : stack.hasFailover with
    | false => exact (ProviderStack.forwarded hcase hbase).2.2.2
    | true =>
      obtain ⟨names, hnames, hsorted, hall⟩ := hlists hcase
      obtain ⟨models, hmodels, hmodelsSorted⟩ : ∃ models,
          (stack.provider bases []).listModels s = .ok models ∧ models.SortedLT :=
        ProviderStack.listed_sorted hcase
      obtain ⟨listed, hlisted, hsub⟩ : ∃ models,
          (stack.provider bases []).listModels s = .ok models ∧ names ⊆ models :=
        ProviderStack.listed hbase hnames
      have hsame : listed = models := Except.ok.inj (hlisted.symm.trans hmodels)
      have hsup := ProviderStack.listed_of_bases hall hmodels
      rw [hmodels, hnames]
      apply congrArg
      apply hmodelsSorted.eq_of_mem_iff hsorted
      intro model
      rw [hsame] at hsub
      exact ⟨fun hmodel => hsup hmodel, fun hmodel => hsub hmodel⟩
  · intro model hprimary
    exact ProviderStack.setModel_primary hbase hprimary hnoted model

/-- The way to the provider that answered a request is noted, or will be. -/
def Noted (s : StackState σ) (r : Answered) : Prop :=
  ∀ e ∈ storesTo [] r.path, e ∈ r.pending ∨ s.lastUsed e.1 = e.2

structure Tracked (stack : ProviderStack) (w : StackWorld σ) : Prop where
  requests : ∀ r ∈ w.requests,
    stack.baseAt r.path = some r.producer ∧ (r.accounted = false → Noted w.state r)
  ledger : ∀ e ∈ w.ledger, e.model = e.producerModel ∧
    e.cost = Costs.callCost e.producerModel e.inputTokens e.outputTokens

variable {w : StackWorld σ}

theorem Tracked.answered (h : w.Tracked stack) {r : Answered}
    (hbase : stack.baseAt r.path = some r.producer) (hnoted : Noted w.state r) :
    Tracked stack { w with requests := w.requests ++ [r] } := by
  refine ⟨fun other hother => ?_, h.ledger⟩
  rcases List.mem_append.mp hother with hother | hother
  · exact h.requests other hother
  · rw [List.mem_singleton.mp hother]
    exact ⟨hbase, fun _ => hnoted⟩

theorem Tracked.store (h : w.Tracked stack) {request : Nat}
    (hallowed : w.Undisturbed (.store request)) : (w.store request).Tracked stack := by
  unfold StackWorld.store
  split
  next r hr =>
    split
    next failover i rest hpending =>
      have hmem : r ∈ w.requests := List.mem_of_getElem? hr
      -- what others have noted stays as it is
      have hother (other : Answered) (hother : other ∈ w.requests) (hopen : other.accounted = false)
          (e : List Nat × Nat) (he : e ∈ storesTo [] other.path) (hdone : e ∉ other.pending) :
          (w.state.store failover i).lastUsed e.1 = e.2 := by
        have hbefore := ((h.requests other hother).2 hopen e he).resolve_left hdone
        show Function.update w.state.lastUsed failover i e.1 = e.2
        by_cases hsame : e.1 = failover
        · rw [hsame, Function.update_self]
          have hnoted := hallowed r hr (failover, i) (by rw [hpending]; rfl) other hother hopen e he
            hsame
          exact (hnoted.resolve_left hdone).symm
        · rw [Function.update_of_ne hsame]
          exact hbefore
      refine ⟨fun other hin => ?_, h.ledger⟩
      rcases List.mem_or_eq_of_mem_set hin with hin | rfl
      · refine ⟨(h.requests other hin).1, fun hopen e he => ?_⟩
        by_cases hdone : e ∈ other.pending
        · exact .inl hdone
        · exact .inr (hother other hin hopen e he hdone)
      · refine ⟨(h.requests r hmem).1, fun hopen e he => ?_⟩
        by_cases hdone : e ∈ r.pending
        · rw [hpending] at hdone
          rcases List.mem_cons.mp hdone with rfl | hrest
          · right
            exact Function.update_self _ _ _
          · exact .inl hrest
        · exact .inr (hother r hmem hopen e he hdone)
    next => exact h
  next => exact h

theorem Tracked.account (h : w.Tracked stack) (request : Nat) (inputTokens outputTokens : UInt32) :
    (w.account stack bases request inputTokens outputTokens).Tracked stack := by
  unfold StackWorld.account
  split
  next r hr =>
    have hmem : r ∈ w.requests := List.mem_of_getElem? hr
    split
    next hopen =>
      obtain ⟨hbase, hnoted⟩ := h.requests r hmem
      have hway : ∀ e ∈ storesTo [] r.path, w.state.lastUsed e.1 = e.2 := fun e he => by
        apply (hnoted hopen.2 e he).resolve_left
        rw [hopen.1]
        exact List.not_mem_nil
      have hnames : (stack.provider bases []).NamesAs (.lift (bases r.producer)) w.state :=
        ProviderStack.namesAs hbase hway
      constructor
      · intro other hin
        rcases List.mem_or_eq_of_mem_set hin with hin | rfl
        · exact h.requests other hin
        · exact ⟨hbase, fun hfalse => Bool.noConfusion hfalse⟩
      · intro e he
        rcases List.mem_append.mp he with he | he
        · exact h.ledger e he
        · rw [List.mem_singleton.mp he, hnames.activeModelName]
          exact ⟨rfl, rfl⟩
    next => exact h
  next => exact h

theorem Tracked.step (h : w.Tracked stack) (act : StackAct σ) (hallowed : w.Undisturbed act) :
    (w.step stack bases act).Tracked stack := by
  cases act with
  | answer path =>
    show (w.answer stack path).Tracked stack
    unfold StackWorld.answer
    split
    next i hbase => exact h.answered hbase fun e he => .inl he
    next => exact h
  | hit toCache path =>
    show (w.hit stack toCache path).Tracked stack
    unfold StackWorld.hit
    split
    next i hbase =>
      split
      next => exact h.answered hbase fun e he => hallowed e he
      next => exact h
    next => exact h
  | store request => exact h.store hallowed
  | account request inputTokens outputTokens => exact h.account request inputTokens outputTokens
  | bases states => exact ⟨h.requests, h.ledger⟩
  | setModel model =>
    refine ⟨fun r hr => ⟨(h.requests r hr).1, fun hopen e he => ?_⟩, h.ledger⟩
    rcases (h.requests r hr).2 hopen e he with hpending | hnoted
    · exact .inl hpending
    · rcases hallowed r hr hopen e he with hpending | hother
      · exact .inl hpending
      · right
        have hstart : ∀ i ∈ ([] : List Nat), i = 0 := fun i hi => absurd hi List.not_mem_nil
        rcases ProviderStack.setModel_lastUsed hstart model e.1 with hsame | ⟨hzero, hprimary⟩
        · exact hsame.trans hnoted
        · rcases hother with hfirst | ⟨i, hi, hne⟩
          · exact hzero.trans hfirst.symm
          · exact absurd (hprimary i hi) hne

end StackWorld

/-- Until a request is accounted for, the stack answers for the base provider its response is from, and
the model and the cost recorded are those of that provider, where nothing else is noted at the
failovers in the meantime. -/
theorem wrappers_answer_for_producer {σ : Type u} {stack : ProviderStack}
    {bases : Nat → LlmProvider σ} {state : σ} {w : StackWorld σ}
    (hw : Reached (StackWorld.step stack bases) StackWorld.Undisturbed (.new state) w) :
    (∀ e ∈ w.ledger, e.model = e.producerModel ∧
      e.cost = Costs.callCost e.producerModel e.inputTokens e.outputTokens) ∧
    ∀ r ∈ w.requests, r.pending = [] → r.accounted = false →
      StackWorld.AnswersFor stack bases w.state r := by
  have htracked : w.Tracked stack := by
    apply hw.invariant (StackWorld.Tracked stack)
    · exact ⟨fun r hr => absurd hr List.not_mem_nil, fun e he => absurd he List.not_mem_nil⟩
    · exact fun w act hallowed htracked => htracked.step act hallowed
  refine ⟨htracked.ledger, fun r hr hpending hopen => ?_⟩
  obtain ⟨hbase, hnoted⟩ := htracked.requests r hr
  refine StackWorld.answersFor hbase fun e he => (hnoted hopen e he).resolve_left ?_
  rw [hpending]
  exact List.not_mem_nil

section Examples

/-- A provider with a large window and a flat price that keeps a response chain, and a fallback. -/
private def twoModels (i : Nat) : LlmProvider (Option String) :=
  if i = 0 then
    { modelName _ := "gpt-4o"
      costPerToken _ := (250, 1000)
      modelMetadata _ := .ok ⟨"gpt-4o", some 128000⟩
      seedResponseChain _ id _ := some id
      getResponseChainId _ s := s
      calculateCost _ _ _ := 1 }
  else
    { modelName _ := "gpt-4o-mini"
      costPerToken _ := (15, 60) }

private def guardedTwo : ProviderStack :=
  .failover 1 fun i => if i = 0 then .cached (.breaker (.base 0)) else .breaker (.base 1)

private def playStack (acts : List (StackAct (Option String))) : StackWorld (Option String) :=
  acts.foldl (StackWorld.step guardedTwo twoModels) (.new (some "resp-1"))

/-- The fallback answers and is accounted for; then the first provider answers. -/
private def oneByOne : List (StackAct (Option String)) :=
  [.answer [1], .store 0, .account 0 100 50, .answer [0], .store 1]

theorem wrappers_answer_for_producer_one_by_one :
    (playStack oneByOne).ledger = [⟨1, "gpt-4o-mini", "gpt-4o-mini", 100, 50, 4500⟩] ∧
      StackWorld.AnswersFor guardedTwo twoModels (playStack oneByOne).state ⟨[0], 0, [], false⟩ := by
  have hreached : Reached (StackWorld.step guardedTwo twoModels) StackWorld.Undisturbed
      (.new (some "resp-1")) (playStack oneByOne) :=
    .foldl oneByOne .start (by decide +kernel)
  have hkept := wrappers_answer_for_producer hreached
  exact ⟨by decide +kernel, hkept.2 ⟨[0], 0, [], false⟩ (by decide +kernel) rfl rfl⟩

/-- A request answered by the first provider is accounted for after the fallback has answered another
one, and again where its response comes from the cache. -/
private def sideBySide : List (StackAct (Option String)) :=
  [.answer [0], .store 0, .answer [1], .store 1, .account 0 100 50]

/-- The first provider has answered, and all it notes is noted. -/
private def firstAnswered : StackState (Option String) := (playStack [.answer [0], .store 0]).state

/-- The cost of another provider's model is recorded, and a failover keeps metadata and response chains
of its provider to itself, as a cache does its price. -/
theorem other_model_accounted :
    (playStack sideBySide).ledger = [⟨0, "gpt-4o", "gpt-4o-mini", 100, 50, 4500⟩] ∧
    (guardedTwo.provider twoModels []).modelMetadata firstAnswered = .ok ⟨"gpt-4o", none⟩ ∧
    (twoModels 0).modelMetadata firstAnswered.bases = .ok ⟨"gpt-4o", some 128000⟩ ∧
    (guardedTwo.provider twoModels []).getResponseChainId "t" firstAnswered = none ∧
    (twoModels 0).getResponseChainId "t" firstAnswered.bases = some "resp-1" ∧
    ((guardedTwo.provider twoModels []).seedResponseChain "t" "resp-2" firstAnswered).bases =
      some "resp-1" ∧
    (twoModels 0).seedResponseChain "t" "resp-2" firstAnswered.bases = some "resp-2" ∧
    ((ProviderStack.cached (.base 0)).provider twoModels []).calculateCost 100 50 firstAnswered =
      75000 ∧
    (twoModels 0).calculateCost 100 50 firstAnswered.bases = 1 := by
  decide +kernel

end Examples

end Gyre.Llm
