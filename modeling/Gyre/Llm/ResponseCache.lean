/- digest: A provider whose responses are cached by a hash of the request. -/

import Mathlib.Data.List.AList
import Mathlib.Data.List.MinMax
import Mathlib.Order.Nat
import Gyre.Llm.Provider

set_option autoImplicit false
set_option relaxedAutoImplicit false

namespace Gyre.Llm

universe u v

inductive FinishReason where
  | stop
  | length
  | toolUse
  | contentFilter
  | unknown
  deriving DecidableEq, Repr

structure CompletionRequest where
  messages : List ChatMessage
  maxTokens : Option UInt32
  /-- The bits of an `f32`. -/
  temperature : Option UInt32
  stopSequences : Option (List String)
  /-- Passed through to the provider. -/
  metadata : List (String × String)
  deriving DecidableEq, Repr

/-- The thread whose response chain the request belongs to. -/
def CompletionRequest.threadId (r : CompletionRequest) : Option String :=
  r.metadata.lookup "thread_id"

/-- The stop sequences as a list; none is the empty list. -/
def CompletionRequest.stops (r : CompletionRequest) : List String := r.stopSequences.getD []

/-- The UTF-8 form of a text. -/
def textBytes (s : String) : List UInt8 := s.toUTF8.data.toList

/-- `u32::to_le_bytes`, and that of an `f32` from its bits. -/
def leBytes (n : UInt32) : List UInt8 :=
  [n.toUInt8, (n >>> 8).toUInt8, (n >>> 16).toUInt8, (n >>> 24).toUInt8]

/-- The parameters that affect the response, as they are hashed after the messages. -/
def CompletionRequest.parameterBytes (r : CompletionRequest) : List UInt8 :=
  (r.maxTokens.map leBytes).getD [] ++ 124 ::
    ((r.temperature.map leBytes).getD [] ++ 124 :: r.stops.flatMap fun s => textBytes s ++ [0])

structure CompletionResponse where
  content : String
  inputTokens : UInt32
  outputTokens : UInt32
  finishReason : FinishReason
  responseId : Option String
  deriving DecidableEq, Repr

/-- Durations are in nanoseconds. -/
structure ResponseCacheConfig where
  ttl : Nat
  maxEntries : Nat
  deriving DecidableEq, Repr

structure CacheEntry where
  response : CompletionResponse
  createdAt : Nat
  lastAccessed : Nat
  hitCount : Nat
  deriving DecidableEq, Repr

/-- What is called of the provider behind the cache. -/
structure InnerProvider (σ : Type u) where
  modelName : σ → String
  activeModelName : σ → String
  setModel : σ → String → Except LlmError Unit × σ
  complete : σ → CompletionRequest → Except LlmError CompletionResponse × σ

/-- A provider with a cache in front of it, the printer of messages (`serde_json::to_string`) and the
hash (SHA-256). -/
structure CachedProvider (σ : Type u) (κ : Type v) where
  inner : InnerProvider σ
  config : ResponseCacheConfig
  json : List ChatMessage → Option (List UInt8)
  hash : List UInt8 → κ

abbrev ResponseCache (κ : Type v) := AList fun _ : κ => CacheEntry

/-- What a call of `complete` leaves. -/
structure Completed (σ : Type u) (κ : Type v) where
  result : Except LlmError CompletionResponse
  fromCache : Bool
  inner : σ
  cache : ResponseCache κ

namespace ResponseCache

variable {κ : Type v} [DecidableEq κ]

/-- Removes all but the entries that are still alive. -/
def retain (cache : ResponseCache κ) (ttl now : Nat) : ResponseCache κ :=
  ⟨cache.entries.filter fun e => now - e.2.createdAt < ttl,
    cache.nodupKeys.sublist List.filter_sublist⟩

/-- The key of the entry that was accessed the longest ago. -/
def oldestKey (cache : ResponseCache κ) : Option κ :=
  (cache.entries.argmin fun e => e.2.lastAccessed).map fun e => e.1

/-- Removes the oldest entries while there are too many, for a number of rounds at most. -/
def evict (maxEntries : Nat) : Nat → ResponseCache κ → ResponseCache κ
  | rounds + 1, cache =>
    if maxEntries ≤ cache.entries.length then
      match cache.oldestKey with
      | some key => evict maxEntries rounds (AList.erase key cache)
      | none => cache
    else cache
  | 0, cache => cache

/-- Stores a response; every round of the eviction removes an entry. -/
def store (cache : ResponseCache κ) (config : ResponseCacheConfig) (key : κ)
    (response : CompletionResponse) (now : Nat) : ResponseCache κ :=
  let alive := cache.retain config.ttl now
  (evict config.maxEntries alive.entries.length alive).insert key ⟨response, now, now, 0⟩

end ResponseCache

namespace CachedProvider

variable {σ : Type u} {κ : Type v} [DecidableEq κ] (p : CachedProvider σ κ)

/-- What `cache_key` hashes. -/
def keyBytes (model : String) (request : CompletionRequest) : List UInt8 :=
  textBytes model ++ 124 :: ((p.json request.messages).getD [] ++ 124 :: request.parameterBytes)

def cacheKey (model : String) (request : CompletionRequest) : κ :=
  p.hash (p.keyBytes model request)

/-- A call of the inner provider, whose response is stored. -/
def callInner (s : σ) (cache : ResponseCache κ) (key : κ) (request : CompletionRequest) (now : Nat) :
    Completed σ κ :=
  match p.inner.complete s request with
  | (.ok response, s') => ⟨.ok response, false, s', cache.store p.config key response now⟩
  | (.error err, s') => ⟨.error err, false, s', cache⟩

def complete (s : σ) (cache : ResponseCache κ) (request : CompletionRequest) (now : Nat) :
    Completed σ κ :=
  let key := p.cacheKey (p.inner.modelName s) request
  match AList.lookup key cache with
  | some entry =>
    if now - entry.createdAt < p.config.ttl then
      ⟨.ok entry.response, true, s, AList.replace key
        { entry with lastAccessed := now, hitCount := entry.hitCount + 1 } cache⟩
    else p.callInner s (AList.erase key cache) key request now
  | none => p.callInner s cache key request now

end CachedProvider

end Gyre.Llm
