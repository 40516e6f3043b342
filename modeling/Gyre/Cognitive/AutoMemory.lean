/- digest: The injection check on memory content, and what is remembered of an assistant's turn. -/

import Gyre.Cognitive.MemoryStream

/-!
A message is cut into sentences; each is checked, and kept when it speaks of one of eight things.
Where none does, the first sentence is kept.
-/

set_option autoImplicit false
set_option relaxedAutoImplicit false

namespace Gyre.Cognitive

open Gyre.Lib Gyre.Llm

section Sanitize

def maxMemoryContentBytes : Nat := 10 * 1024

def injectionPrefixes : List String :=
  ["system:", "assistant:", "human:", "user:", "<|", "[INST]", "<<SYS>>"]

def injectionSubstrings : List String :=
  ["ignore all previous", "ignore prior instructions", "disregard all previous",
    "disregard prior instructions", "ignore the above", "disregard the above",
    "forget your instructions", "override your instructions", "new instructions:", "you are now",
    "pretend you are", "act as if", "jailbreak", "do anything now", "bypass safety", "bypass your"]

def isInjectionAttempt (content : List Char) : Bool :=
  let trimmed := Text.trim content
  let lower := Text.toLowercase trimmed
  injectionPrefixes.any (fun p => p.toList.isPrefixOf lower) ||
    injectionSubstrings.any (fun p => Text.contains p.toList lower)

def sanitizeMemoryContent (content : List Char) : Option (List Char) :=
  let trimmed := Text.trim content
  if trimmed.isEmpty then none
  else if isInjectionAttempt trimmed then none
  else some (Text.cutBytes maxMemoryContentBytes trimmed)

end Sanitize

section Classify

/-- Beyond ASCII, what the standard library knows of a character. -/
structure CharTables where
  isUppercase : Char → Bool
  isAlphanumeric : Char → Bool

structure AutoMemoryConfig where
  enabled : Bool
  maxPerTurn : Nat
  minImportance : Rat
  deriving DecidableEq, Repr

def AutoMemoryConfig.default : AutoMemoryConfig := ⟨true, 3, 3⟩

def decisionPatterns : List String := ["decided", "chose", "going with", "selected"]

def lessonPatterns : List String := ["learned", "mistake", "never", "lesson", "realized"]

def personPatterns : List String := ["is a", "owns", "leads", "manages"]

def projectPatterns : List String := ["project", "client", "engagement", "milestone"]

def commitmentPatterns : List String := ["promised", "by friday", "committed to", "will deliver"]

def preferencePatterns : List String := ["prefers", "hates", "always wants", "never wants"]

def handoffPatterns : List String := ["session ended", "picking up from", "left off at"]

/-- Two words in a row that begin with a capital and are longer than a byte. -/
def hasNameLike (isUppercase : Char → Bool) (sentence : List Char) : Bool :=
  let words := Text.splitWhitespace sentence
  let proper (w : List Char) : Bool :=
    (w.head?.map isUppercase).getD false && decide (1 < (w.map Char.utf8Size).sum)
  (words.zip words.tail).any fun p => proper p.1 && proper p.2

/-- `patterns.iter().any(|p| lower.contains(&p.to_lowercase()))` -/
def mentions (patterns : List String) (lower : List Char) : Bool :=
  patterns.any fun p => Text.contains (Text.toLowercase p.toList) lower

def classifySentence (isUppercase : Char → Bool) (lower original : List Char) :
    Option (MemoryKind × Rat) :=
  if mentions handoffPatterns lower then some (.handoff, 19 / 2)
  else if mentions commitmentPatterns lower then some (.commitment, 9)
  else if mentions decisionPatterns lower then some (.decision, 17 / 2)
  else if mentions lessonPatterns lower then some (.lesson, 8)
  else if mentions preferencePatterns lower then some (.preference, 15 / 2)
  else if mentions personPatterns lower && hasNameLike isUppercase original then some (.person, 7)
  else if mentions projectPatterns lower then some (.project, 13 / 2)
  else none

end Classify

section Extract

/-- The ids and the time that a call draws. -/
structure Draw where
  ids : Nat → Uuid
  now : Int

variable (isUppercase : Char → Bool) (config : AutoMemoryConfig) (draw : Draw)

def sentencesOf (assistantMsg : List Char) : List (List Char) :=
  ((assistantMsg.splitOn '\n').flatMap (Text.splitOn ". ".toList)).map Text.trim
    |>.filter (!·.isEmpty)

def memoryOf (i : Nat) (content : List Char) (kind : MemoryKind) (importance : Rat) : MemoryEntry :=
  ⟨draw.ids i, content, kind, importance, draw.now, Namespaces.personal⟩

/-- One round of the loop over the sentences. -/
def extractOne (memories : List MemoryEntry) (sentence : List Char) : List MemoryEntry :=
  if config.maxPerTurn ≤ memories.length then memories
  else
    match sanitizeMemoryContent sentence with
    | none => memories
    | some sanitized =>
      match classifySentence isUppercase (Text.toLowercase sanitized) sanitized with
      | none => memories
      | some (kind, importance) =>
        if config.minImportance ≤ importance then
          memories ++ [memoryOf draw memories.length sanitized kind importance]
        else memories

def extractMemoriesFromTurn (assistantMsg : List Char) : List MemoryEntry :=
  if !config.enabled || assistantMsg.isEmpty then []
  else
    let sentences := sentencesOf assistantMsg
    let memories := sentences.foldl (extractOne isUppercase config draw) []
    if memories.isEmpty then
      match sentences.head?.bind sanitizeMemoryContent with
      | none => memories
      | some sanitized =>
        if config.minImportance ≤ 4 then [memoryOf draw 0 sanitized .observation 4] else memories
    else memories

def autoStoreMemories (s : MemoryStream) (assistantMsg : List Char) : MemoryStream :=
  (extractMemoriesFromTurn isUppercase config draw assistantMsg).foldl MemoryStream.add s

end Extract

end Gyre.Cognitive
