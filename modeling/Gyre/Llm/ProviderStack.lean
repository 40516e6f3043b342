/- digest: The methods of providers, the wrappers that forward them, and requests through a stack side by side. -/

import Mathlib.Data.List.Destutter
import Mathlib.Data.List.Sort
import Mathlib.Data.String.Basic
import Gyre.Llm.Costs
import Gyre.Llm.Provider

/-!
A stack is a tree of wrappers over base providers. Of what requests do side by side, the order in which
failovers note the provider that answered is followed; which providers are called, refused or found in
a cache is left open.
-/

set_option autoImplicit false
set_option relaxedAutoImplicit false

namespace Gyre.Llm

universe u

structure ModelMetadata where
  id : String
  /-- In tokens. -/
  contextLength : Option Nat
  deriving DecidableEq, Repr

/-- The trait, with its default methods, but for the completions; methods look at a state and may
change it. Amounts of money are exact. -/
structure LlmProvider (S : Type u) where
  modelName : S → String
  costPerToken : S → Rat × Rat
  listModels : S → Except LlmError (List String) := fun _ => .ok []
  modelMetadata : S → Except LlmError ModelMetadata := fun s => .ok ⟨modelName s, none⟩
  activeModelName : S → String := modelName
  setModel : String → S → Except LlmError Unit × S := fun _ s =>
    (.error (.requestFailed "unknown" "Runtime model switching not supported by this provider"), s)
  seedResponseChain : String → String → S → S := fun _ _ s => s
  getResponseChainId : String → S → Option String := fun _ _ => none
  calculateCost : UInt32 → UInt32 → S → Rat := fun inputTokens outputTokens s =>
    (costPerToken s).1 * inputTokens.toNat + (costPerToken s).2 * outputTokens.toNat

namespace LlmProvider

variable {S : Type u}

/-- `impl LlmProvider for CircuitBreakerProvider`. -/
def breaker (inner : LlmProvider S) : LlmProvider S where
  modelName := inner.modelName
  costPerToken := inner.costPerToken
  listModels := inner.listModels
  modelMetadata := inner.modelMetadata
  activeModelName := inner.activeModelName
  setModel := inner.setModel
  seedResponseChain := inner.seedResponseChain
  getResponseChainId := inner.getResponseChainId
  calculateCost := inner.calculateCost

/-- `impl LlmProvider for CachedProvider`. -/
def cached (inner : LlmProvider S) : LlmProvider S where
  modelName := inner.modelName
  costPerToken := inner.costPerToken
  listModels := inner.listModels
  modelMetadata := inner.modelMetadata
  activeModelName := inner.activeModelName
  setModel := inner.setModel
  seedResponseChain := inner.seedResponseChain
  getResponseChainId := inner.getResponseChainId

/-- The models that several providers list, sorted and each once; a list that fails is left out. -/
def mergedModels (lists : List (Except LlmError (List String))) : List String :=
  let allModels := lists.flatMap fun list => list.toOption.getD []
  (allModels.insertionSort (· ≤ ·)).destutter (· ≠ ·)

/-- Where a switch of the primary's model succeeds, the primary is noted as used last. -/
def notePrimary (store : Nat → S → S) : Except LlmError Unit × S → Except LlmError Unit × S
  | (.ok (), s) => (.ok (), store 0 s)
  | (.error err, s) => (.error err, s)

/-- `impl LlmProvider for FailoverProvider`, over a first provider and some fallbacks. -/
def failover (fallbacks : Nat) (providers : Nat → LlmProvider S) (lastUsed : S → Nat)
    (store : Nat → S → S) : LlmProvider S where
  modelName s := (providers (lastUsed s)).modelName s
  costPerToken s := (providers (lastUsed s)).costPerToken s
  activeModelName s := (providers (lastUsed s)).activeModelName s
  setModel model s := notePrimary store ((providers 0).setModel model s)
  listModels s :=
    .ok (mergedModels ((List.range (fallbacks + 1)).map fun i => (providers i).listModels s))

end LlmProvider

/-- A stack of wrappers over numbered base providers. -/
inductive ProviderStack where
  | base (i : Nat)
  | breaker (inner : ProviderStack)
  | cached (inner : ProviderStack)
  | failover (fallbacks : Nat) (providers : Nat → ProviderStack)

/-- The states of the base providers, and the provider noted last by each failover. A failover is
named by the choices that lead to it. -/
structure StackState (σ : Type u) where
  bases : σ
  lastUsed : List Nat → Nat

/-- The stores of `last_used` on the way back from a provider, the inner ones first. -/
def storesTo (position : List Nat) : List Nat → List (List Nat × Nat)
  | [] => []
  | i :: path => storesTo (position ++ [i]) path ++ [(position, i)]

namespace StackState

variable {σ : Type u}

def store (s : StackState σ) (failover : List Nat) (i : Nat) : StackState σ :=
  { s with lastUsed := Function.update s.lastUsed failover i }

end StackState

/-- A base provider, which knows nothing of the failovers. -/
def LlmProvider.lift {σ : Type u} (p : LlmProvider σ) : LlmProvider (StackState σ) where
  modelName s := p.modelName s.bases
  costPerToken s := p.costPerToken s.bases
  listModels s := p.listModels s.bases
  modelMetadata s := p.modelMetadata s.bases
  activeModelName s := p.activeModelName s.bases
  setModel model s := ((p.setModel model s.bases).1, { s with bases := (p.setModel model s.bases).2 })
  seedResponseChain thread id s := { s with bases := p.seedResponseChain thread id s.bases }
  getResponseChainId thread s := p.getResponseChainId thread s.bases
  calculateCost inputTokens outputTokens s := p.calculateCost inputTokens outputTokens s.bases

namespace ProviderStack

variable {σ : Type u}

def provider (bases : Nat → LlmProvider σ) : ProviderStack → List Nat → LlmProvider (StackState σ)
  | base i, _ => .lift (bases i)
  | breaker inner, path => (inner.provider bases path).breaker
  | cached inner, path => (inner.provider bases path).cached
  | failover fallbacks providers, path =>
    .failover fallbacks (fun i => (providers i).provider bases (path ++ [i])) (·.lastUsed path)
      fun i s => s.store path i

/-- The base provider that choices lead to. -/
def baseAt : ProviderStack → List Nat → Option Nat
  | base i, [] => some i
  | base _, _ :: _ => none
  | breaker inner, path => inner.baseAt path
  | cached inner, path => inner.baseAt path
  | failover _ _, [] => none
  | failover fallbacks providers, i :: path =>
    if i ≤ fallbacks then (providers i).baseAt path else none

/-- Choices lead to a cache. -/
def cachedAt : ProviderStack → List Nat → Bool
  | base _, _ => false
  | breaker inner, path => inner.cachedAt path
  | cached inner, path => path.isEmpty || inner.cachedAt path
  | failover _ _, [] => false
  | failover fallbacks providers, i :: path => i ≤ fallbacks && (providers i).cachedAt path

end ProviderStack

/-- A request that has been answered: the choices that lead to the base provider its response is from,
and the stores of failovers that are still to be done. -/
structure Answered where
  path : List Nat
  producer : Nat
  pending : List (List Nat × Nat)
  accounted : Bool
  deriving DecidableEq, Repr

/-- What is recorded of a request, beside the base provider that answered it. -/
structure LedgerEntry where
  producer : Nat
  /-- The model that the producer has in use. -/
  producerModel : String
  model : String
  inputTokens : UInt32
  outputTokens : UInt32
  cost : Nat
  deriving DecidableEq, Repr

/-- A stack in use. -/
structure StackWorld (σ : Type u) where
  state : StackState σ
  requests : List Answered
  ledger : List LedgerEntry

inductive StackAct (σ : Type u) where
  /-- A base provider answers a request, which is then on its way back. -/
  | answer (path : List Nat)
  /-- A response that came by some choices is found in a cache that the first of them lead to. -/
  | hit (toCache path : List Nat)
  /-- The next failover notes the provider that answered. -/
  | store (request : Nat)
  /-- `record_llm_call`, with the name of the model in use. -/
  | account (request : Nat) (inputTokens outputTokens : UInt32)
  | setModel (model : String)
  /-- The base providers' states change. -/
  | bases (bases : σ)

namespace StackWorld

variable {σ : Type u} (stack : ProviderStack) (bases : Nat → LlmProvider σ)

def new (state : σ) : StackWorld σ := ⟨⟨state, fun _ => 0⟩, [], []⟩

def answer (w : StackWorld σ) (path : List Nat) : StackWorld σ :=
  match stack.baseAt path with
  | some i => { w with requests := w.requests ++ [⟨path, i, storesTo [] path, false⟩] }
  | none => w

def hit (w : StackWorld σ) (toCache path : List Nat) : StackWorld σ :=
  match stack.baseAt path with
  | some i =>
    if stack.cachedAt toCache ∧ toCache <+: path ∧ ∃ r ∈ w.requests, r.path = path then
      { w with requests := w.requests ++ [⟨path, i, storesTo [] toCache, false⟩] }
    else w
  | none => w

def store (w : StackWorld σ) (request : Nat) : StackWorld σ :=
  match w.requests[request]? with
  | some r =>
    match r.pending with
    | (failover, i) :: rest =>
      { w with
        state := w.state.store failover i
        requests := w.requests.set request { r with pending := rest } }
    | [] => w
  | none => w

def account (w : StackWorld σ) (request : Nat) (inputTokens outputTokens : UInt32) : StackWorld σ :=
  match w.requests[request]? with
  | some r =>
    if r.pending = [] ∧ r.accounted = false then
      let model := (stack.provider bases []).activeModelName w.state
      { w with
        requests := w.requests.set request { r with accounted := true }
        ledger := w.ledger ++ [⟨r.producer, (bases r.producer).activeModelName w.state.bases, model,
          inputTokens, outputTokens, Costs.callCost model inputTokens outputTokens⟩] }
    else w
  | none => w

def step (w : StackWorld σ) : StackAct σ → StackWorld σ
  | .answer path => w.answer stack path
  | .hit toCache path => w.hit stack toCache path
  | .store request => w.store request
  | .account request inputTokens outputTokens => w.account stack bases request inputTokens outputTokens
  | .setModel model => { w with state := ((stack.provider bases []).setModel model w.state).2 }
  | .bases states => { w with state := { w.state with bases := states } }

end StackWorld

end Gyre.Llm
