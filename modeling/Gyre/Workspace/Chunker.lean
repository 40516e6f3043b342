/- digest: Splitting a document into overlapping chunks of words. -/

import Gyre.Lib.Rounding
import Gyre.Lib.Text

set_option autoImplicit false
set_option relaxedAutoImplicit false

namespace Gyre.Workspace

open Gyre.Lib
open Gyre.Lib.Text

structure ChunkConfig where
  chunkSize : Nat
  overlapPercent : Single
  minChunkSize : Nat
  deriving DecidableEq, Repr

/-- The overlap is 0.15, as single precision has it. -/
def ChunkConfig.default : ChunkConfig := ⟨800, ⟨false, 10066330, 26⟩, 50⟩

def ChunkConfig.overlapSize (config : ChunkConfig) : Nat :=
  config.overlapPercent.scaled config.chunkSize

def ChunkConfig.stepSize (config : ChunkConfig) : Nat := config.chunkSize - config.overlapSize

def joinWords (words : List (List Char)) : List Char := [' '].intercalate words

/-- The loop of `chunk_document`: `start` is the first word of the next chunk. -/
def chunkLoop (config : ChunkConfig) (words : List (List Char)) :
    (fuel : Nat) → (start : Nat) → (chunks : List (List Char)) → List (List Char)
  | 0, _, chunks => chunks
  | fuel + 1, start, chunks =>
    if start < words.length then
      let stop := min (start + config.chunkSize) words.length
      let chunkWords := (words.take stop).drop start
      match chunks.getLast? with
      | some last =>
        -- a tiny trailing chunk is merged with the one before it
        if chunkWords.length < config.minChunkSize then
          chunks.dropLast ++ [last ++ ' ' :: joinWords chunkWords]
        else advance fuel stop (start + config.stepSize) (chunks ++ [joinWords chunkWords])
      | none => advance fuel stop (start + config.stepSize) (chunks ++ [joinWords chunkWords])
    else chunks
where
  advance (fuel stop next : Nat) (chunks : List (List Char)) : List (List Char) :=
    if words.length ≤ next + config.minChunkSize ∧ stop = words.length then chunks
    else chunkLoop config words fuel next chunks

def chunkDocument (content : List Char) (config : ChunkConfig) : List (List Char) :=
  let words := splitWhitespace content
  if content = [] then []
  else if words = [] then []
  else if words.length ≤ config.chunkSize then [content]
  else chunkLoop config words words.length 0 []

/-- A loop that moves on ends before its fuel does. -/
theorem chunkLoop_fuel {config : ChunkConfig} (hstep : 0 < config.stepSize)
    (words : List (List Char)) {fuel start : Nat} (h : words.length ≤ start + fuel) (more : Nat)
    (chunks : List (List Char)) :
    chunkLoop config words (fuel + more) start chunks = chunkLoop config words fuel start chunks := by
  induction fuel generalizing start chunks with
  | zero =>
    have hdone : ¬ start < words.length := by omega
    cases more with
    | zero => rfl
    | succ more =>
      rw [Nat.zero_add, chunkLoop, chunkLoop, if_neg hdone]
  | succ fuel ih =>
    have hnext (stop : Nat) (chunks : List (List Char)) :
        chunkLoop.advance config words (fuel + more) stop (start + config.stepSize) chunks =
          chunkLoop.advance config words fuel stop (start + config.stepSize) chunks := by
      rw [chunkLoop.advance, chunkLoop.advance, ih (by omega)]
    rw [show fuel + 1 + more = fuel + more + 1 from by omega, chunkLoop, chunkLoop]
    simp only [hnext]

end Gyre.Workspace
