/- digest: The ways into the memory stream besides auto-memory: worker results, a tool, a channel. -/

import Gyre.Cognitive.AutoMemory

set_option autoImplicit false
set_option relaxedAutoImplicit false

namespace Gyre.Cognitive

open Gyre.Lib Gyre.Llm

section Worker

inductive WorkerJobStatus where
  | pending
  | running
  | completed (result : List Char)
  | failed (error : List Char)
  deriving DecidableEq, Repr

/-- The fields of a job that its result is stored from. -/
structure WorkerJob where
  task : List Char
  status : WorkerJobStatus
  deriving DecidableEq, Repr

def maxScanBytes : Nat := 4096

def maxEntitiesPerResult : Nat := 10

def maxEntityNameBytes : Nat := 128

/-- The words that are entered into the knowledge graph. -/
def entityNames (isAlphanumeric : Char → Bool) (resultText : List Char) : List (List Char) :=
  let length (w : List Char) : Nat := (w.map Char.utf8Size).sum
  let words := (Text.splitWhitespace (Text.cutBytes maxScanBytes resultText)).filter fun w =>
    decide (5 < length w) && decide (length w ≤ maxEntityNameBytes)
  (words.eraseDups.filter fun w =>
    w.all fun c => isAlphanumeric c || c == '-' || c == '_').take maxEntitiesPerResult

def contentToStore (task resultText : List Char) : List Char :=
  "Worker result for task \"".toList ++ task ++ "\": ".toList ++ resultText

/-- What `store_worker_result` writes: an entry, and names for the knowledge graph. -/
def workerResult (isAlphanumeric : Char → Bool) (draw : Draw) (job : WorkerJob) :
    Except String (MemoryEntry × List (List Char)) :=
  match job.status with
  | .completed resultText =>
    match sanitizeMemoryContent (contentToStore job.task resultText) with
    | none => .error "Worker result rejected by injection defense sanitizer"
    | some sanitized =>
      .ok (⟨draw.ids 0, sanitized, .observation, 7, draw.now, Namespaces.tribe⟩,
        entityNames isAlphanumeric resultText)
  | _ => .error "Cannot store result: job is not Completed"

def storeWorkerResult (isAlphanumeric : Char → Bool) (draw : Draw) (s : MemoryStream)
    (job : WorkerJob) : MemoryStream × Except String (List (List Char)) :=
  match workerResult isAlphanumeric draw job with
  | .error e => (s, .error e)
  | .ok (entry, names) => (s.add entry, .ok names)

end Worker

section Remember

/-- The entry of `cognitive_remember`. A number that is no float keeps the default importance. -/
def rememberEntry (asF64 : Json → Option Rat) (draw : Draw) (params : Json) :
    Except String MemoryEntry :=
  match (params.get "content").bind Json.asStr with
  | none => .error "missing 'content' parameter"
  | some content =>
    let kind := ((params.get "kind").bind Json.asStr).getD "observation"
    let importance := ((params.get "importance").bind asF64).getD 5
    .ok ⟨draw.ids 0, content.toList, MemoryKind.fromStr kind, importance, draw.now,
      Namespaces.personal⟩

def rememberExecute (asF64 : Json → Option Rat) (embed : Option (List Char → List UInt32))
    (draw : Draw) (s : MemoryStream) (params : Json) : MemoryStream × Except String String :=
  match rememberEntry asF64 draw params with
  | .error e => (s, .error e)
  | .ok entry =>
    (match embed with
      | some embed => s.addWithAutoEmbed embed entry
      | none => s.add entry,
      .ok ("Memory stored: " ++ entry.id.toString))

end Remember

section Bridge

/-- The user's message as an entry, behind those of the response. -/
def userEntry (draw : Draw) (i : Nat) (userMessage : List Char) : MemoryEntry :=
  ⟨draw.ids i, userMessage, .observation, 3, draw.now, Namespaces.personal⟩

/-- `CognitiveChannelBridge::post_turn`. -/
def bridgePostTurn (isUppercase : Char → Bool) (config : AutoMemoryConfig) (draw : Draw)
    (s : MemoryStream) (userMessage assistantResponse : List Char) : MemoryStream :=
  let stored := autoStoreMemories isUppercase config draw s assistantResponse
  if 100 < (assistantResponse.map Char.utf8Size).sum then
    stored.add (userEntry draw (extractMemoriesFromTurn isUppercase config draw assistantResponse).length
      userMessage)
  else stored

end Bridge

end Gyre.Cognitive
