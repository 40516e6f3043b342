/- digest: What a response from the cache answers, and how many responses the cache holds. -/

import Gyre.Lib.Codes
import Gyre.Lib.Reach
import Gyre.Lib.Tables
import Gyre.Llm.ResponseCache

set_option autoImplicit false
set_option relaxedAutoImplicit false

namespace Gyre.Llm

open Gyre.Lib

universe u v

variable {σ : Type u} {κ : Type v}

/-- A call of the inner provider that was answered. -/
structure InnerCall where
  model : String
  activeModel : String
  request : CompletionRequest
  response : CompletionResponse
  time : Nat
  deriving DecidableEq, Repr

/-- The cache with all calls of the inner provider that were answered. -/
structure CacheWorld (σ : Type u) (κ : Type v) where
  inner : σ
  cache : ResponseCache κ
  calls : List InnerCall

inductive CacheAct (κ : Type v) where
  | complete (request : CompletionRequest) (now : Nat)
  | setModel (model : String)
  /-- The map goes through its entries in another order from now on. -/
  | rehash (cache : ResponseCache κ)

namespace InnerCall

/-- The call was for the same request, with the same model in use. -/
structure SameAs (call : InnerCall) (activeModel : String) (r : CompletionRequest) : Prop where
  activeModel : call.activeModel = activeModel
  messages : call.request.messages = r.messages
  maxTokens : call.request.maxTokens = r.maxTokens
  temperature : call.request.temperature = r.temperature
  stops : call.request.stops = r.stops
  threadId : call.request.threadId = r.threadId

/-- A number written between separators can be told from none. -/
def Separable (a b : Option UInt32) : Prop :=
  a.isSome = b.isSome ∨ ∀ n ∈ a.or b, (leBytes n).head? ≠ some 124

/-- All that is hashed is the same. -/
def SameHashed (call : InnerCall) (model : String) (r : CompletionRequest) : Prop :=
  call.model = model ∧ call.request.messages = r.messages ∧
    call.request.maxTokens = r.maxTokens ∧ call.request.temperature = r.temperature ∧
      call.request.stops = r.stops

/-- What is hashed tells the call from a request: no separator in a model's name, no number given in
one of them only that begins like a separator, no end mark in a stop sequence, and what is not hashed
is the same where all else is. -/
structure Apart (call : InnerCall) (model activeModel : String) (r : CompletionRequest) : Prop where
  name : call.model = model ∨ 124 ∉ textBytes call.model ∧ 124 ∉ textBytes model
  maxTokens : Separable call.request.maxTokens r.maxTokens
  temperature : Separable call.request.temperature r.temperature
  stops : call.request.stops = r.stops ∨
    (∀ s ∈ call.request.stops, 0 ∉ textBytes s) ∧ ∀ s ∈ r.stops, 0 ∉ textBytes s
  context : call.SameHashed model r →
    call.activeModel = activeModel ∧ call.request.threadId = r.threadId

instance (call : InnerCall) (activeModel : String) (r : CompletionRequest) :
    Decidable (call.SameAs activeModel r) :=
  decidable_of_iff
    (call.activeModel = activeModel ∧ call.request.messages = r.messages ∧
      call.request.maxTokens = r.maxTokens ∧ call.request.temperature = r.temperature ∧
        call.request.stops = r.stops ∧ call.request.threadId = r.threadId)
    ⟨fun ⟨hactive, hm, hmax, ht, hs, hthread⟩ => ⟨hactive, hm, hmax, ht, hs, hthread⟩,
      fun h => ⟨h.activeModel, h.messages, h.maxTokens, h.temperature, h.stops, h.threadId⟩⟩

instance (a b : Option UInt32) : Decidable (Separable a b) :=
  have : Decidable (∀ n ∈ a.or b, (leBytes n).head? ≠ some 124) := Option.decidableForallMem _
  inferInstanceAs (Decidable (_ ∨ ∀ n ∈ a.or b, _))

instance (call : InnerCall) (model : String) (r : CompletionRequest) :
    Decidable (call.SameHashed model r) :=
  inferInstanceAs (Decidable (_ ∧ _ ∧ _ ∧ _ ∧ _))

instance (call : InnerCall) (model activeModel : String) (r : CompletionRequest) :
    Decidable (call.Apart model activeModel r) :=
  decidable_of_iff
    ((call.model = model ∨ 124 ∉ textBytes call.model ∧ 124 ∉ textBytes model) ∧
      Separable call.request.maxTokens r.maxTokens ∧
      Separable call.request.temperature r.temperature ∧
      (call.request.stops = r.stops ∨
        (∀ s ∈ call.request.stops, 0 ∉ textBytes s) ∧ ∀ s ∈ r.stops, 0 ∉ textBytes s) ∧
      (call.SameHashed model r →
        call.activeModel = activeModel ∧ call.request.threadId = r.threadId))
    ⟨fun ⟨hname, hmax, ht, hs, hcontext⟩ => ⟨hname, hmax, ht, hs, hcontext⟩,
      fun h => ⟨h.name, h.maxTokens, h.temperature, h.stops, h.context⟩⟩

end InnerCall

namespace CachedProvider

variable [DecidableEq κ] (p : CachedProvider σ κ)

/-- What a call of `complete` leaves, with the call of the inner provider it was answered by. -/
def after (w : CacheWorld σ κ) (r : CompletionRequest) (now : Nat) (done : Completed σ κ) :
    CacheWorld σ κ :=
  match done.fromCache, done.result with
  | false, .ok response =>
    ⟨done.inner, done.cache, w.calls ++ [⟨p.inner.modelName w.inner,
      p.inner.activeModelName w.inner, r, response, now⟩]⟩
  | _, _ => ⟨done.inner, done.cache, w.calls⟩

def step (w : CacheWorld σ κ) : CacheAct κ → CacheWorld σ κ
  | .complete r now => p.after w r now (p.complete w.inner w.cache r now)
  | .setModel model => { w with inner := (p.inner.setModel w.inner model).2 }
  | .rehash cache => if cache.entries.Perm w.cache.entries then { w with cache := cache } else w

/-- A response from the cache was given by the inner provider, not longer than its time to live ago,
to the same request. -/
def ServedRight (w : CacheWorld σ κ) (r : CompletionRequest) (now : Nat) : Prop :=
  let done := p.complete w.inner w.cache r now
  done.fromCache = true → ∃ call ∈ w.calls, done.result = .ok call.response ∧
    now - call.time < p.config.ttl ∧ call.SameAs (p.inner.activeModelName w.inner) r

/-- The calls whose responses are alive in the cache are told from a request by what is hashed. -/
def Distinguished (w : CacheWorld σ κ) (r : CompletionRequest) (now : Nat) : Prop :=
  ∀ call ∈ w.calls, now - call.time < p.config.ttl →
    (∃ e ∈ w.cache.entries, e.2.response = call.response ∧ e.2.createdAt = call.time) →
      call.Apart (p.inner.modelName w.inner) (p.inner.activeModelName w.inner) r

instance (w : CacheWorld σ κ) (r : CompletionRequest) (now : Nat) :
    Decidable (p.ServedRight w r now) :=
  inferInstanceAs (Decidable (_ = true → ∃ call ∈ w.calls, _ ∧ _ ∧ _))

instance (w : CacheWorld σ κ) (r : CompletionRequest) (now : Nat) :
    Decidable (p.Distinguished w r now) :=
  inferInstanceAs (Decidable (∀ call ∈ w.calls, _ → (∃ e ∈ w.cache.entries, _) → _))

end CachedProvider

/-- Both lists of messages are printed, and neither text begins with the other. -/
def CachedProvider.PrintsApart (p : CachedProvider σ κ) (m m' : List ChatMessage) : Prop :=
  (p.json m).isSome ∧ (p.json m').isSome ∧
    ∀ x ∈ p.json m, ∀ y ∈ p.json m', x <+: y ∨ y <+: x → m = m'

section Keys

theorem textBytes_injective : Function.Injective textBytes := by
  intro s t h
  apply String.toByteArray_inj.mp
  apply ByteArray.ext
  exact Array.toList_inj.mp h

theorem leBytes_injective : Function.Injective leBytes := by
  intro m n h
  have hbytes := congrArg (List.map UInt8.toNat) h
  have hm := m.toNat_lt
  have hn := n.toNat_lt
  apply UInt32.toNat_inj.mp
  simp [leBytes, Nat.shiftRight_eq_div_pow] at hbytes
  omega

variable {p : CachedProvider σ κ} {call : InnerCall} {model activeModel : String}
  {r : CompletionRequest}

/-- Where what is hashed tells the two apart, equal bytes are hashed for equal requests only. -/
theorem InnerCall.Apart.same (h : call.Apart model activeModel r)
    (hjson : p.PrintsApart call.request.messages r.messages)
    (hbytes : p.keyBytes call.model call.request = p.keyBytes model r) :
    call.SameAs activeModel r := by
  obtain ⟨x, hx⟩ := Option.isSome_iff_exists.mp hjson.1
  obtain ⟨y, hy⟩ := Option.isSome_iff_exists.mp hjson.2.1
  unfold CachedProvider.keyBytes at hbytes
  rw [hx, hy] at hbytes
  -- the name, then the messages, then the two numbers, then the stop sequences
  have hname : call.model = model ∧
      x ++ 124 :: call.request.parameterBytes = y ++ 124 :: r.parameterBytes := by
    rcases h.name with hsame | ⟨hcall, hmodel⟩
    · rw [hsame] at hbytes
      exact ⟨hsame, (List.cons.inj (List.append_cancel_left hbytes)).2⟩
    · obtain ⟨htext, hrest⟩ := append_separator_inj hcall hmodel hbytes
      exact ⟨textBytes_injective htext, hrest⟩
  have hmessages : call.request.messages = r.messages := by
    apply hjson.2.2 x hx y hy
    exact List.prefix_or_prefix_of_prefix ⟨_, hname.2⟩ ⟨_, rfl⟩
  have hparameters : call.request.parameterBytes = r.parameterBytes := by
    have hrest := hname.2
    rw [hmessages, hy] at hx
    rw [Option.some.inj hx] at hrest
    exact (List.cons.inj (List.append_cancel_left hrest)).2
  have hlength (n : UInt32) : (leBytes n).length = 3 + 1 := rfl
  obtain ⟨hmaxTokens, hafter⟩ := optional_separated_inj leBytes_injective hlength h.maxTokens
    hparameters
  obtain ⟨htemperature, hlast⟩ := optional_separated_inj leBytes_injective hlength h.temperature
    hafter
  have hstops : call.request.stops = r.stops := by
    rcases h.stops with hsame | ⟨hcall, hr⟩
    · exact hsame
    · exact flatMap_terminated_inj textBytes_injective hcall hr hlast
  obtain ⟨hactive, hthread⟩ := h.context ⟨hname.1, hmessages, hmaxTokens, htemperature, hstops⟩
  exact ⟨hactive, hmessages, hmaxTokens, htemperature, hstops, hthread⟩

end Keys

section Entries

variable {cache : ResponseCache κ}

theorem ResponseCache.mem_retain {ttl now : Nat} {e : Sigma fun _ : κ => CacheEntry}
    (h : e ∈ (cache.retain ttl now).entries) : e ∈ cache.entries :=
  (List.mem_filter.mp h).1

variable [DecidableEq κ]

theorem ResponseCache.mem_evict {maxEntries rounds : Nat} {e : Sigma fun _ : κ => CacheEntry}
    (h : e ∈ (evict maxEntries rounds cache).entries) : e ∈ cache.entries := by
  induction rounds generalizing cache with
  | zero => exact h
  | succ rounds ih =>
    unfold evict at h
    split at h
    · split at h
      next key _ => exact mem_entries_erase (ih h)
      next => exact h
    · exact h

/-- As many rounds as there are entries make room for one more. -/
theorem ResponseCache.length_evict_lt {maxEntries rounds : Nat} (hmax : 1 ≤ maxEntries)
    (hrounds : cache.entries.length ≤ rounds) :
    (evict maxEntries rounds cache).entries.length < maxEntries := by
  induction rounds generalizing cache with
  | zero =>
    show cache.entries.length < maxEntries
    omega
  | succ rounds ih =>
    unfold evict
    split
    next hfull =>
      cases holdest : cache.entries.argmin fun e => e.2.lastAccessed with
      | none =>
        rw [List.argmin_eq_none.mp holdest, List.length_nil] at hfull
        omega
      | some e =>
        have hkey : cache.oldestKey = some e.1 := by
          unfold oldestKey
          rw [holdest]
          rfl
        have hmem : e.1 ∈ cache := AList.mem_keys.mpr (List.mem_map_of_mem (List.argmin_mem holdest))
        have hlength := length_entries_erase hmem
        rw [hkey]
        apply ih
        omega
    next hroom => omega

end Entries

namespace CachedProvider

variable [DecidableEq κ] {p : CachedProvider σ κ} {w : CacheWorld σ κ}

/-- Every entry holds the response of a call for its key, and there are not too many. -/
structure Sound (p : CachedProvider σ κ) (w : CacheWorld σ κ) : Prop where
  produced : ∀ e ∈ w.cache.entries, ∃ call ∈ w.calls,
    e.1 = p.cacheKey call.model call.request ∧ e.2.response = call.response ∧
      e.2.createdAt = call.time
  bounded : 1 ≤ p.config.maxEntries → w.cache.entries.length ≤ p.config.maxEntries

/-- The ways a request can go: from the cache, by a response of the inner provider, or to an error. -/
theorem complete_cases (p : CachedProvider σ κ) (s : σ) (cache : ResponseCache κ)
    (r : CompletionRequest) (now : Nat) :
    (∃ entry, ⟨p.cacheKey (p.inner.modelName s) r, entry⟩ ∈ cache.entries ∧
      now - entry.createdAt < p.config.ttl ∧
      p.complete s cache r now = ⟨.ok entry.response, true, s,
        AList.replace (p.cacheKey (p.inner.modelName s) r)
          { entry with lastAccessed := now, hitCount := entry.hitCount + 1 } cache⟩) ∨
    ∃ kept : ResponseCache κ, (∀ e ∈ kept.entries, e ∈ cache.entries) ∧
      kept.entries.length ≤ cache.entries.length ∧
      p.complete s cache r now = p.callInner s kept (p.cacheKey (p.inner.modelName s) r) r now := by
  unfold complete
  cases hlookup : AList.lookup (p.cacheKey (p.inner.modelName s) r) cache with
  | none => exact .inr ⟨cache, fun e he => he, Nat.le_refl _, by simp only [hlookup]⟩
  | some entry =>
    by_cases halive : now - entry.createdAt < p.config.ttl
    · refine .inl ⟨entry, AList.mem_lookup_iff.mp hlookup, halive, ?_⟩
      simp only [hlookup, halive, if_true]
    · refine .inr ⟨AList.erase (p.cacheKey (p.inner.modelName s) r) cache,
        fun e he => mem_entries_erase he, ?_, ?_⟩
      · exact (List.kerase_sublist _ cache.entries).length_le
      · simp only [hlookup, halive, if_false]

theorem Sound.step (h : p.Sound w) (act : CacheAct κ) : p.Sound (p.step w act) := by
  cases act with
  | setModel model => exact ⟨h.produced, h.bounded⟩
  | rehash cache =>
    show p.Sound (if cache.entries.Perm w.cache.entries then { w with cache := cache } else w)
    split
    next hperm =>
      constructor
      · intro e he
        exact h.produced e (hperm.subset he)
      · intro hmax
        rw [hperm.length_eq]
        exact h.bounded hmax
    next => exact h
  | complete r now =>
    show p.Sound (p.after w r now (p.complete w.inner w.cache r now))
    rcases p.complete_cases w.inner w.cache r now with
      ⟨entry, hentry, -, hdone⟩ | ⟨kept, hsub, hlength, hdone⟩
    · rw [hdone]
      constructor
      · intro e he
        rcases mem_entries_replace he with rfl | hold
        · exact h.produced ⟨_, entry⟩ hentry
        · exact h.produced e hold
      · intro hmax
        show (AList.replace _ _ w.cache).entries.length ≤ _
        rw [length_entries_replace]
        exact h.bounded hmax
    · rw [hdone]
      unfold callInner
      cases hinner : p.inner.complete w.inner r with
      | mk result s' =>
        cases result with
        | error err =>
          constructor
          · exact fun e he => h.produced e (hsub e he)
          · exact fun hmax => Nat.le_trans hlength (h.bounded hmax)
        | ok response =>
          constructor
          · intro e he
            rcases mem_entries_insert he with rfl | hold
            · exact ⟨_, List.mem_append_right _ (List.mem_singleton.mpr rfl), rfl, rfl, rfl⟩
            · have hmem := hsub e (ResponseCache.mem_retain (ResponseCache.mem_evict hold))
              obtain ⟨call, hcall, hproduced⟩ := h.produced e hmem
              exact ⟨call, List.mem_append_left _ hcall, hproduced⟩
          · intro hmax
            have hroom := ResponseCache.length_evict_lt hmax
              (Nat.le_refl (kept.retain p.config.ttl now).entries.length)
            exact Nat.le_trans length_entries_insert_le hroom

theorem Sound.servedRight (h : p.Sound w) (hhash : Function.Injective p.hash)
    {r : CompletionRequest} {now : Nat}
    (hjson : ∀ call ∈ w.calls, p.PrintsApart call.request.messages r.messages)
    (hr : p.Distinguished w r now) : p.ServedRight w r now := by
  intro hcached
  rcases p.complete_cases w.inner w.cache r now with
    ⟨entry, hentry, halive, hdone⟩ | ⟨kept, -, -, hdone⟩
  · obtain ⟨call, hcall, hkey, hresponse, htime⟩ := h.produced _ hentry
    rw [htime] at halive
    refine ⟨call, hcall, ?_, halive, ?_⟩
    · show (p.complete w.inner w.cache r now).result = _
      rw [hdone, ← hresponse]
    · have hapart := hr call hcall halive ⟨_, hentry, hresponse, htime⟩
      exact hapart.same (hjson call hcall) (hhash hkey).symm
  · -- the inner provider was called
    have hnot : (p.complete w.inner w.cache r now).fromCache = false := by
      rw [hdone]
      unfold callInner
      split
      · rfl
      · rfl
    exact absurd (hcached.symm.trans hnot) Bool.noConfusion

end CachedProvider

/-- In every run, a response from the cache answers the same request where the calls whose responses
are alive in the cache are told from the request by what is hashed; and the cache never holds more
entries than it may. -/
theorem cached_responses_transparent [DecidableEq κ] {p : CachedProvider σ κ} (hhash : Function.Injective p.hash)
    {inner : σ} {w : CacheWorld σ κ}
    (hw : Reached p.step (fun _ _ => True) ⟨inner, ∅, []⟩ w) :
    (∀ r now, (∀ call ∈ w.calls, p.PrintsApart call.request.messages r.messages) →
      p.Distinguished w r now → p.ServedRight w r now) ∧
      (1 ≤ p.config.maxEntries → w.cache.entries.length ≤ p.config.maxEntries) := by
  have hsound : p.Sound w := by
    apply hw.invariant p.Sound
    · exact ⟨fun e he => absurd he List.not_mem_nil, fun _ => Nat.zero_le _⟩
    · exact fun w act _ hsound => hsound.step act
  exact ⟨fun r now hjson hr => hsound.servedRight hhash hjson hr, hsound.bounded⟩

section Examples

/-- A provider whose model can be switched, and which tells what it was asked. -/
private def switchable : InnerProvider String where
  modelName _ := "base"
  activeModelName model := model
  setModel _ model := (.ok (), model)
  complete model r :=
    (.ok ⟨model ++ " answers " ++ (r.threadId.getD "no thread"), 10, 5, .stop, none⟩, model)

/-- The text of a conversation of one greeting; no other one is printed here. -/
private def greeting (messages : List ChatMessage) : Option (List UInt8) :=
  if messages = [.user "hello"] then
    some (textBytes "[\x7b\"role\":\"user\",\"content\":\"hello\"\x7d]")
  else none

private def cachedSwitchable : CachedProvider String (List UInt8) :=
  ⟨switchable, ⟨60, 2⟩, greeting, id⟩

private def asks (maxTokens temperature : Option UInt32) (stops : Option (List String))
    (thread : String) : CompletionRequest :=
  ⟨[.user "hello"], maxTokens, temperature, stops, [("thread_id", thread)]⟩

private def playCached (acts : List (CacheAct (List UInt8))) : CacheWorld String (List UInt8) :=
  acts.foldl cachedSwitchable.step ⟨"base", ∅, []⟩

private instance (m m' : List ChatMessage) : Decidable (cachedSwitchable.PrintsApart m m') :=
  inferInstanceAs (Decidable (_ ∧ _ ∧ ∀ x ∈ cachedSwitchable.json m,
    ∀ y ∈ cachedSwitchable.json m', x <+: y ∨ y <+: x → m = m'))

/-- Three requests with different parameters, of which two stay in the cache. -/
private def threeAsked : List (CacheAct (List UInt8)) :=
  [.complete (asks none none none "t") 1, .complete (asks (some 100) none (some ["end"]) "t") 2,
    .complete (asks (some 100) (some 0x3F000000) none "t") 3]

theorem cached_responses_transparent_three :
    (playCached threeAsked).cache.entries.length = 2 ∧
      cachedSwitchable.ServedRight (playCached threeAsked)
        (asks (some 100) none (some ["end"]) "t") 5 := by
  have hreached : Reached cachedSwitchable.step (fun _ _ => True) ⟨"base", ∅, []⟩
      (playCached threeAsked) :=
    .foldl threeAsked .start ⟨trivial, trivial, trivial, trivial⟩
  have hkept := cached_responses_transparent Function.injective_id hreached
  exact ⟨by decide +kernel, hkept.1 _ 5 (by decide +kernel) (by decide +kernel)⟩

/-- A greeting, and one more request after it. -/
private def askedFirst (first : CompletionRequest) (acts : List (CacheAct (List UInt8))) :
    CacheWorld String (List UInt8) :=
  playCached (.complete first 1 :: acts)

/-- After a switch of the model, on another thread, with two stop sequences for one that has a NUL in
it, and with a temperature for a limit of tokens, the response to another request is served. -/
theorem other_response_served :
    (¬ cachedSwitchable.ServedRight (askedFirst (asks none none none "t") [.setModel "other"])
      (asks none none none "t") 2) ∧
    (¬ cachedSwitchable.ServedRight (askedFirst (asks none none none "t") [])
      (asks none none none "u") 2) ∧
    (¬ cachedSwitchable.ServedRight (askedFirst (asks none none (some ["a\x00b"]) "t") [])
      (asks none none (some ["a", "b"]) "t") 2) ∧
    ¬ cachedSwitchable.ServedRight (askedFirst (asks (some 124) none none "t") [])
      (asks none (some 0x7C000000) none "t") 2 := by
  decide +kernel

end Examples

end Gyre.Llm
