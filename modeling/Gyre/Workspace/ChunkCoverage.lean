/- digest: Exactly when the chunks of a document cover its words, and when they are distinct windows. -/

import Mathlib.Data.List.Chain
import Mathlib.Data.List.Range
import Mathlib.Data.Nat.Find
import Gyre.Workspace.Chunker

/-!
The loop is followed once more on the positions of the words. What it comes to is one of two shapes:
windows only, or windows of which the last was put together from two.
-/

set_option autoImplicit false
set_option relaxedAutoImplicit false

namespace Gyre.Workspace

open Gyre.Lib
open Gyre.Lib.Text

/-- The loop of `chunk_document` on the positions of `n` words. -/
@[grind =] def positionLoop (config : ChunkConfig) (n : Nat) :
    (fuel : Nat) → (start : Nat) → (chunks : List (List Nat)) → List (List Nat)
  | 0, _, chunks => chunks
  | fuel + 1, start, chunks =>
    if start < n then
      let stop := min (start + config.chunkSize) n
      let window := List.range' start (stop - start)
      let pushed :=
        if n ≤ start + config.stepSize + config.minChunkSize ∧ stop = n then chunks ++ [window]
        else positionLoop config n fuel (start + config.stepSize) (chunks ++ [window])
      match chunks.getLast? with
      | some last =>
        if window.length < config.minChunkSize then chunks.dropLast ++ [last ++ window] else pushed
      | none => pushed
    else chunks

/-- The positions of the words in each chunk of a document of `n` words. -/
def chunkPositions (config : ChunkConfig) (n : Nat) : List (List Nat) :=
  if n = 0 then [] else if n ≤ config.chunkSize then [List.range n]
  else positionLoop config n n 0 []

section Words

/-- A word has no blank and is not empty. -/
def Solid (w : List Char) : Prop := w ≠ [] ∧ ∀ c ∈ w, isWhitespace c = false

private theorem free_of_mem_splitOnP {p : Char → Bool} {s w : List Char} (h : w ∈ s.splitOnP p) :
    ∀ c ∈ w, p c = false := by
  induction s generalizing w with
  | nil =>
    rw [List.splitOnP_nil, List.mem_singleton] at h
    simp [h]
  | cons x s ih =>
    rw [List.splitOnP_cons_eq_if_modifyHead] at h
    split at h
    · rcases List.mem_cons.mp h with rfl | h
      · simp
      · exact ih h
    · rename_i hx
      cases hs : s.splitOnP p with
      | nil => exact absurd hs (List.splitOnP_ne_nil p s)
      | cons first rest =>
        rw [hs] at h ih
        rcases List.mem_cons.mp h with rfl | h
        · intro c hc
          rcases List.mem_cons.mp hc with rfl | hc
          · exact Bool.not_eq_true _ ▸ hx
          · exact ih List.mem_cons_self c hc
        · exact ih (List.mem_cons_of_mem _ h)

theorem solid_of_mem_splitWhitespace {s w : List Char} (h : w ∈ splitWhitespace s) : Solid w := by
  obtain ⟨hmem, hne⟩ := List.mem_filter.mp h
  refine ⟨fun hnil => ?_, free_of_mem_splitOnP hmem⟩
  rw [hnil] at hne
  exact Bool.false_ne_true hne

theorem splitWhitespace_word {w : List Char} (h : Solid w) : splitWhitespace w = [w] := by
  unfold splitWhitespace
  rw [List.splitOnP_eq_singleton h.2]
  simp [h.1]

theorem splitWhitespace_append (s t : List Char) :
    splitWhitespace (s ++ ' ' :: t) = splitWhitespace s ++ splitWhitespace t := by
  have hblank : isWhitespace ' ' = true := by decide
  unfold splitWhitespace
  rw [List.splitOnP_append_cons s t hblank, List.filter_append]

theorem splitWhitespace_joinWords {ws : List (List Char)} (h : ∀ w ∈ ws, Solid w) :
    splitWhitespace (joinWords ws) = ws := by
  induction ws with
  | nil => rfl
  | cons w ws ih =>
    have hw := splitWhitespace_word (h w List.mem_cons_self)
    have hrest := ih fun v hv => h v (List.mem_cons_of_mem w hv)
    cases ws with
    | nil =>
      change splitWhitespace ([' '].intercalate [w]) = [w]
      rw [List.intercalate_singleton, hw]
    | cons v ws =>
      have hjoin : joinWords (w :: v :: ws) = w ++ ' ' :: joinWords (v :: ws) := by
        unfold joinWords
        rw [List.intercalate_cons_cons, List.append_assoc]
        rfl
      rw [hjoin, splitWhitespace_append, hw, hrest]
      rfl

/-- The words at given positions. -/
def wordsAt (words : List (List Char)) (positions : List Nat) : List (List Char) :=
  positions.map fun i => words.getD i []

theorem wordsAt_window {words : List (List Char)} {start stop : Nat} (hstop : stop ≤ words.length) :
    wordsAt words (List.range' start (stop - start)) = (words.take stop).drop start := by
  have hlength : (wordsAt words (List.range' start (stop - start))).length =
      ((words.take stop).drop start).length := by
    simp [wordsAt]
    omega
  refine List.ext_getElem hlength fun i hi hi' => ?_
  have hbound : start + i < words.length := by
    simp only [List.length_drop, List.length_take] at hi'
    omega
  simp [wordsAt, hbound]

theorem wordsAt_append (words : List (List Char)) (ps qs : List Nat) :
    wordsAt words (ps ++ qs) = wordsAt words ps ++ wordsAt words qs := List.map_append

variable {config : ChunkConfig} {words : List (List Char)}

/-- The loop on words and the loop on positions make the same chunks. -/
theorem chunkLoop_words (hsolid : ∀ w ∈ words, Solid w) {fuel start : Nat} {chunks : List (List Char)}
    {positions : List (List Nat)}
    (h : chunks.map splitWhitespace = positions.map (wordsAt words)) :
    (chunkLoop config words fuel start chunks).map splitWhitespace =
      (positionLoop config words.length fuel start positions).map (wordsAt words) := by
  induction fuel generalizing start chunks positions with
  | zero =>
    rw [chunkLoop, positionLoop]
    exact h
  | succ fuel ih =>
    rw [chunkLoop, positionLoop]
    by_cases hstart : start < words.length
    · rw [if_pos hstart, if_pos hstart]
      dsimp only
      generalize hstop : min (start + config.chunkSize) words.length = stop
      have hle : stop ≤ words.length := by omega
      have hwindow : splitWhitespace (joinWords ((words.take stop).drop start)) =
          wordsAt words (List.range' start (stop - start)) := by
        rw [wordsAt_window hle]
        exact splitWhitespace_joinWords fun w hw =>
          hsolid w (List.mem_of_mem_take (List.mem_of_mem_drop hw))
      have hpushed : (chunks ++ [joinWords ((words.take stop).drop start)]).map splitWhitespace =
          (positions ++ [List.range' start (stop - start)]).map (wordsAt words) := by
        rw [List.map_append, List.map_append, h, List.map_singleton, List.map_singleton, hwindow]
      have hadvance : (chunkLoop.advance config words fuel stop (start + config.stepSize)
            (chunks ++ [joinWords ((words.take stop).drop start)])).map splitWhitespace =
          (if words.length ≤ start + config.stepSize + config.minChunkSize ∧ stop = words.length then
              positions ++ [List.range' start (stop - start)]
            else positionLoop config words.length fuel (start + config.stepSize)
              (positions ++ [List.range' start (stop - start)])).map (wordsAt words) := by
        rw [chunkLoop.advance]
        split
        · exact hpushed
        · exact ih hpushed
      have hlength : ((words.take stop).drop start).length =
          (List.range' start (stop - start)).length := by
        rw [List.length_drop, List.length_take, List.length_range', Nat.min_eq_left hle]
      rcases List.eq_nil_or_concat chunks with rfl | ⟨front, last, rfl⟩
      · have hnil : positions = [] := List.map_eq_nil_iff.mp h.symm
        subst hnil
        exact hadvance
      · rcases List.eq_nil_or_concat positions with rfl | ⟨front', last', rfl⟩
        · simp at h
        · simp only [List.concat_eq_append, List.map_append, List.map_cons, List.map_nil] at h
          obtain ⟨hfront, hlast⟩ := List.append_inj' h rfl
          simp only [List.concat_eq_append, List.getLast?_concat, List.dropLast_concat]
          simp only [List.concat_eq_append] at hadvance
          rw [hlength]
          split
          · have hmerged : splitWhitespace (last ++ ' ' :: joinWords ((words.take stop).drop start)) =
                wordsAt words (last' ++ List.range' start (stop - start)) := by
              rw [splitWhitespace_append, hwindow, wordsAt_append, List.singleton_inj.mp hlast]
            rw [List.map_append, List.map_append, hfront, List.map_singleton, List.map_singleton,
              hmerged]
          · exact hadvance
    · rw [if_neg hstart, if_neg hstart]
      exact h

/-- The words of each chunk are the document's words at the chunk's positions. -/
theorem chunkDocument_words (content : List Char) (config : ChunkConfig) :
    (chunkDocument content config).map splitWhitespace =
      (chunkPositions config (splitWhitespace content).length).map
        (wordsAt (splitWhitespace content)) := by
  unfold chunkDocument chunkPositions
  dsimp only
  by_cases hcontent : content = []
  · subst hcontent
    rfl
  · rw [if_neg hcontent]
    by_cases hwords : splitWhitespace content = []
    · rw [if_pos hwords, hwords]
      rfl
    · have hlength : (splitWhitespace content).length ≠ 0 := by
        rwa [Ne, List.length_eq_zero_iff]
      rw [if_neg hwords, if_neg hlength]
      split
      · rw [List.map_singleton, List.map_singleton, List.range_eq_range']
        have hall : wordsAt (splitWhitespace content)
            (List.range' 0 ((splitWhitespace content).length - 0)) =
              ((splitWhitespace content).take (splitWhitespace content).length).drop 0 :=
          wordsAt_window le_rfl
        rw [Nat.sub_zero, List.take_length, List.drop_zero] at hall
        rw [hall]
      · exact chunkLoop_words (fun w hw => solid_of_mem_splitWhitespace hw) rfl

end Words

section Shapes

variable {config : ChunkConfig} {n : Nat}

/-- The `k`th window of a document of `n` words. -/
def window (config : ChunkConfig) (n k : Nat) : List Nat :=
  List.range' (k * config.stepSize)
    (min (k * config.stepSize + config.chunkSize) n - k * config.stepSize)

/-- The windows before the `k`th. -/
def windows (config : ChunkConfig) (n k : Nat) : List (List Nat) :=
  (List.range k).map (window config n)

/-- The loop went on after each of the windows before the `k`th, and none was too short. -/
structure GoesOn (config : ChunkConfig) (n k : Nat) : Prop where
  long : ∀ i, 0 < i → i < k → config.minChunkSize ≤ (window config n i).length
  open_end : ∀ i < k, n ≤ (i + 1) * config.stepSize + config.minChunkSize →
    i * config.stepSize + config.chunkSize < n

/-- What the loop ends with. -/
inductive Outcome (config : ChunkConfig) (n : Nat) : List (List Nat) → Prop
  | windows (k : Nat) (goesOn : GoesOn config n k)
      (long : 0 < k → config.minChunkSize ≤ (window config n k).length)
      (reaches : n ≤ k * config.stepSize + config.chunkSize)
      (last : n ≤ (k + 1) * config.stepSize + config.minChunkSize) :
      Outcome config n (windows config n (k + 1))
  | merged (k : Nat) (goesOn : GoesOn config n (k + 1))
      (inside : (k + 1) * config.stepSize < n)
      (short : (window config n (k + 1)).length < config.minChunkSize) :
      Outcome config n (windows config n k ++ [window config n k ++ window config n (k + 1)])

theorem windows_succ (k : Nat) :
    windows config n (k + 1) = windows config n k ++ [window config n k] := by
  unfold windows
  rw [List.range_succ, List.map_append, List.map_singleton]

theorem GoesOn.succ {k : Nat} (h : GoesOn config n k)
    (hlong : 0 < k → config.minChunkSize ≤ (window config n k).length)
    (hopen : n ≤ (k + 1) * config.stepSize + config.minChunkSize →
      k * config.stepSize + config.chunkSize < n) : GoesOn config n (k + 1) := by
  constructor
  · intro i hi hik
    rcases Nat.lt_succ_iff_lt_or_eq.mp hik with hik | rfl
    · exact h.long i hi hik
    · exact hlong hi
  · intro i hik
    rcases Nat.lt_succ_iff_lt_or_eq.mp hik with hik | rfl
    · exact h.open_end i hik
    · exact hopen

/-- From a state of the loop in which it has gone on, it ends with an outcome. -/
theorem positionLoop_outcome (hstep : 0 < config.stepSize) (hsize : config.stepSize ≤ config.chunkSize)
    {fuel k : Nat} (hfuel : n ≤ k * config.stepSize + fuel) (hinside : k * config.stepSize < n)
    (hgoes : GoesOn config n k) :
    Outcome config n (positionLoop config n fuel (k * config.stepSize) (windows config n k)) := by
  induction fuel generalizing k with
  | zero => omega
  | succ fuel ih =>
    have hnext : k * config.stepSize + config.stepSize = (k + 1) * config.stepSize := by
      rw [Nat.add_mul, Nat.one_mul]
    have hpushed (hlong : 0 < k → config.minChunkSize ≤ (window config n k).length) :
        Outcome config n
          (if n ≤ k * config.stepSize + config.stepSize + config.minChunkSize ∧
              min (k * config.stepSize + config.chunkSize) n = n then
            windows config n k ++ [window config n k]
          else positionLoop config n fuel (k * config.stepSize + config.stepSize)
            (windows config n k ++ [window config n k])) := by
      rw [hnext, ← windows_succ]
      split
      · rename_i hend
        exact .windows k hgoes hlong (by omega) hend.1
      · rename_i hend
        refine ih (by omega) (by omega) (hgoes.succ hlong fun hlast => ?_)
        omega
    rw [positionLoop, if_pos hinside]
    dsimp only
    cases k with
    | zero => exact hpushed fun h => absurd h (lt_irrefl 0)
    | succ k =>
      rw [windows_succ, List.getLast?_concat, List.dropLast_concat]
      dsimp only
      split
      · rename_i hshort
        exact .merged k hgoes hinside hshort
      · rename_i hlong
        rw [← windows_succ]
        exact hpushed fun _ => not_lt.mp hlong

theorem mem_window {k p : Nat} : p ∈ window config n k ↔
    k * config.stepSize ≤ p ∧ p < k * config.stepSize + config.chunkSize ∧ p < n := by
  unfold window
  rw [List.mem_range'_1]
  omega

theorem length_window (k : Nat) : (window config n k).length =
    min (k * config.stepSize + config.chunkSize) n - k * config.stepSize := List.length_range'

/-- A window that the loop has come to has its first word inside of the document. -/
theorem GoesOn.inside {k : Nat} (h : GoesOn config n k) (hn : 0 < n)
    (hsize : config.stepSize ≤ config.chunkSize) : k * config.stepSize < n := by
  cases k with
  | zero => omega
  | succ k =>
    by_contra hout
    have hopen := h.open_end k (Nat.lt_succ_self k) (by omega)
    rw [Nat.add_mul, Nat.one_mul] at hout
    omega

end Shapes

/-- The chunks cover the words in order, without a gap, and none is too long. -/
structure Covers (config : ChunkConfig) (n : Nat) (chunks : List (List Nat)) : Prop where
  covered : ∀ p < n, ∃ chunk ∈ chunks, p ∈ chunk
  nonempty : ∀ chunk ∈ chunks, chunk ≠ []
  increasing : (chunks.filterMap List.head?).Pairwise (· < ·)
  gapless : chunks.IsChain fun c d => ∀ first ∈ d.head?, ∃ p ∈ c, first ≤ p + 1
  bounded : ∀ chunk ∈ chunks, chunk.length ≤ config.chunkSize + config.minChunkSize

/-- Every chunk is a run of positions, and brings a position that the one before it has not. -/
structure Distinct (chunks : List (List Nat)) : Prop where
  contiguous : ∀ chunk ∈ chunks, ∃ first length, chunk = List.range' first length
  new : chunks.IsChain fun c d => ¬ d ⊆ c

section Coverage

variable {config : ChunkConfig} {n k : Nat} {f : Nat → List Nat}

private theorem filterMap_head? (hfirst : ∀ i ≤ k, (f i).head? = some (i * config.stepSize)) :
    ((List.range (k + 1)).map f).filterMap List.head? =
      (List.range (k + 1)).map (· * config.stepSize) := by
  rw [List.filterMap_map, ← List.filterMap_eq_map]
  refine List.filterMap_congr fun i hi => ?_
  exact hfirst i (Nat.lt_succ_iff.mp (List.mem_range.mp hi))

/-- Chunks that begin at the multiples of the step and hold their windows, the last to the end of the
document, cover it. -/
theorem covers_of_windows (hstep : 0 < config.stepSize) (hsize : config.stepSize ≤ config.chunkSize)
    (hfirst : ∀ i ≤ k, (f i).head? = some (i * config.stepSize))
    (hwindow : ∀ i ≤ k, window config n i ⊆ f i)
    (hend : ∀ p, k * config.stepSize ≤ p → p < n → p ∈ f k)
    (hlength : ∀ i ≤ k, (f i).length ≤ config.chunkSize + config.minChunkSize)
    (hinside : k * config.stepSize < n) : Covers config n ((List.range (k + 1)).map f) := by
  have hindex : ∀ {chunk : List Nat}, chunk ∈ (List.range (k + 1)).map f → ∃ i ≤ k, f i = chunk := by
    intro chunk hchunk
    obtain ⟨i, hi, rfl⟩ := List.mem_map.mp hchunk
    exact ⟨i, Nat.lt_succ_iff.mp (List.mem_range.mp hi), rfl⟩
  have hmem : ∀ i ≤ k, f i ∈ (List.range (k + 1)).map f :=
    fun i hi => List.mem_map.mpr ⟨i, List.mem_range.mpr (Nat.lt_succ_iff.mpr hi), rfl⟩
  constructor
  · intro p hp
    by_cases hk : k * config.stepSize ≤ p
    · exact ⟨f k, hmem k le_rfl, hend p hk hp⟩
    · have hlow : p / config.stepSize * config.stepSize ≤ p := Nat.div_mul_le_self p _
      have hhigh : p < p / config.stepSize * config.stepSize + config.stepSize :=
        Nat.lt_div_mul_add hstep
      have hik : p / config.stepSize ≤ k := by
        refine le_of_lt (Nat.lt_of_mul_lt_mul_right (a := config.stepSize) ?_)
        omega
      exact ⟨_, hmem _ hik, hwindow _ hik (mem_window.mpr ⟨hlow, by omega, hp⟩)⟩
  · intro chunk hchunk hnil
    obtain ⟨i, hi, rfl⟩ := hindex hchunk
    have hhead := hfirst i hi
    rw [hnil] at hhead
    cases hhead
  · rw [filterMap_head? hfirst]
    refine List.pairwise_map.mpr (List.Pairwise.imp ?_ List.pairwise_lt_range)
    intro i j hij
    exact Nat.mul_lt_mul_of_pos_right hij hstep
  · rw [List.isChain_map, List.isChain_range_succ]
    intro i hi first hhead
    have hnext : (i + 1) * config.stepSize = i * config.stepSize + config.stepSize := by
      rw [Nat.add_mul, Nat.one_mul]
    have hbefore : (i + 1) * config.stepSize ≤ k * config.stepSize := Nat.mul_le_mul_right _ hi
    rw [hfirst (i + 1) hi] at hhead
    cases hhead
    refine ⟨(i + 1) * config.stepSize - 1, hwindow i hi.le (mem_window.mpr ?_), by omega⟩
    omega
  · intro chunk hchunk
    obtain ⟨i, hi, rfl⟩ := hindex hchunk
    exact hlength i hi

private theorem head?_window (hpos : 0 < config.chunkSize) (hinside : k * config.stepSize < n) :
    (window config n k).head? = some (k * config.stepSize) := by
  unfold window
  rw [List.head?_range', if_neg (by omega)]

private theorem goesOn_le (hsize : config.stepSize ≤ config.chunkSize) (hn : 0 < n) {i k : Nat}
    (h : GoesOn config n k) (hik : i ≤ k) : i * config.stepSize < n :=
  lt_of_le_of_lt (Nat.mul_le_mul_right _ hik) (h.inside hn hsize)

/-- When the minimum is larger than a chunk, the second window is merged. -/
private theorem GoesOn.le_one (h : GoesOn config n k) (hmin : config.chunkSize < config.minChunkSize) :
    k ≤ 1 := by
  by_contra hk
  have hlong := h.long 1 (by omega) (by omega)
  rw [length_window] at hlong
  omega

/-- A merged window that reaches the end leaves nothing out. -/
theorem covers_merged (hstep : 0 < config.stepSize) (hsize : config.stepSize ≤ config.chunkSize)
    (hgoes : GoesOn config n (k + 1)) (hn : 0 < n)
    (hshort : (window config n (k + 1)).length < config.minChunkSize)
    (hend : n ≤ (k + 1) * config.stepSize + config.chunkSize) :
    Covers config n (windows config n k ++ [window config n k ++ window config n (k + 1)]) := by
  have hpos : 0 < config.chunkSize := lt_of_lt_of_le hstep hsize
  have hnext : (k + 1) * config.stepSize = k * config.stepSize + config.stepSize := by
    rw [Nat.add_mul, Nat.one_mul]
  have hshape : windows config n k ++ [window config n k ++ window config n (k + 1)] =
      (List.range (k + 1)).map fun i =>
        if i = k then window config n k ++ window config n (k + 1) else window config n i := by
    rw [List.range_succ, List.map_append, List.map_singleton, if_pos rfl]
    congr 1
    refine List.map_congr_left fun i hi => ?_
    rw [if_neg (List.mem_range.mp hi).ne]
  rw [hshape]
  refine covers_of_windows hstep hsize ?_ ?_ ?_ ?_ (goesOn_le hsize hn hgoes (Nat.le_succ k))
  · intro i hi
    have hhead := head?_window hpos (goesOn_le hsize hn hgoes (hi.trans (Nat.le_succ k)))
    split
    · rename_i hik
      rw [hik] at hhead ⊢
      rw [List.head?_append, hhead]
      rfl
    · exact hhead
  · intro i hi p hp
    split
    · rename_i hik
      rw [hik] at hp
      exact List.mem_append_left _ hp
    · exact hp
  · intro p hkp hpn
    rw [if_pos rfl, List.mem_append, mem_window, mem_window]
    omega
  · intro i hi
    split
    · rw [List.length_append]
      have hlength : (window config n k).length = _ := length_window k
      omega
    · rw [length_window]
      omega

theorem covers_windows (hstep : 0 < config.stepSize) (hsize : config.stepSize ≤ config.chunkSize)
    (hgoes : GoesOn config n k) (hn : 0 < n)
    (hreach : n ≤ k * config.stepSize + config.chunkSize) :
    Covers config n (windows config n (k + 1)) := by
  have hpos : 0 < config.chunkSize := lt_of_lt_of_le hstep hsize
  refine covers_of_windows hstep hsize (fun i hi => ?_) (fun i _ => List.Subset.refl _) ?_ ?_
    (goesOn_le hsize hn hgoes le_rfl)
  · exact head?_window hpos (goesOn_le hsize hn hgoes hi)
  · intro p hkp hpn
    exact mem_window.mpr ⟨hkp, by omega, hpn⟩
  · intro i hi
    rw [length_window]
    omega

theorem outcome_covers_iff (hstep : 0 < config.stepSize) (hsize : config.stepSize ≤ config.chunkSize)
    (hn : config.chunkSize < n) {chunks : List (List Nat)} (h : Outcome config n chunks) :
    Covers config n chunks ↔
      config.minChunkSize ≤ config.chunkSize ∨ n ≤ config.chunkSize + config.stepSize := by
  cases h with
  | windows k goesOn long reaches last =>
    refine iff_of_true (covers_windows hstep hsize goesOn (by omega) reaches) (.inl ?_)
    by_contra hmin
    have hk : 0 < k := by
      by_contra hzero
      have hk0 : k = 0 := by omega
      subst hk0
      omega
    have hlong := long hk
    rw [length_window] at hlong
    omega
  | merged k goesOn inside short =>
    have hnext : (k + 1) * config.stepSize = k * config.stepSize + config.stepSize := by
      rw [Nat.add_mul, Nat.one_mul]
    have hlength : (window config n (k + 1)).length = _ := length_window (k + 1)
    by_cases hmin : config.minChunkSize ≤ config.chunkSize
    · refine iff_of_true (covers_merged hstep hsize goesOn (by omega) short ?_) (.inl hmin)
      omega
    · have hk := goesOn.le_one (by omega)
      have hk0 : k = 0 := by omega
      subst hk0
      constructor
      · intro hcovers
        obtain ⟨chunk, hchunk, hlast⟩ := hcovers.covered (n - 1) (by omega)
        have hmem : n - 1 ∈ window config n 0 ++ window config n 1 := by
          rcases List.mem_append.mp hchunk with hnone | hone
          · cases hnone
          · rwa [List.mem_singleton.mp hone] at hlast
        rw [List.mem_append, mem_window, mem_window] at hmem
        omega
      · rintro (hle | hle)
        · exact absurd hle hmin
        · exact covers_merged hstep hsize goesOn (by omega) short (by omega)

/-- The length of the first window that reaches the end of the document. -/
def tailLength (config : ChunkConfig) (n : Nat) : Nat :=
  n - (n - config.chunkSize + (config.stepSize - 1)) / config.stepSize * config.stepSize

/-- Nothing is merged into overlapping words, and nothing is left after the first window that reaches
the end. -/
structure TailFits (config : ChunkConfig) (n : Nat) : Prop where
  size : config.minChunkSize ≤ config.chunkSize
  long : config.minChunkSize ≤ tailLength config n
  last : tailLength config n ≤ config.stepSize + config.minChunkSize

private theorem tailLength_eq (hstep : 0 < config.stepSize) (hn : config.chunkSize < n)
    (hreach : n ≤ k * config.stepSize + config.chunkSize)
    (hbefore : ∀ i < k, i * config.stepSize + config.chunkSize < n) :
    tailLength config n = n - k * config.stepSize := by
  have hlow := Nat.div_mul_le_self (n - config.chunkSize + (config.stepSize - 1)) config.stepSize
  have hhigh : n - config.chunkSize + (config.stepSize - 1) <
      (n - config.chunkSize + (config.stepSize - 1)) / config.stepSize * config.stepSize +
        config.stepSize := Nat.lt_div_mul_add hstep
  unfold tailLength
  generalize (n - config.chunkSize + (config.stepSize - 1)) / config.stepSize = j at hlow hhigh ⊢
  have hjk : j = k := by
    rcases Nat.lt_trichotomy j k with hlt | heq | hgt
    · have hshort := hbefore j hlt
      omega
    · exact heq
    · have hle : (k + 1) * config.stepSize ≤ j * config.stepSize := Nat.mul_le_mul_right _ hgt
      rw [Nat.add_mul, Nat.one_mul] at hle
      omega
  rw [hjk]

/-- Two neighbouring windows nest exactly if the first reaches the end. -/
theorem window_subset_iff (hsize : config.stepSize ≤ config.chunkSize) {i : Nat} :
    window config n (i + 1) ⊆ window config n i ↔
      n ≤ i * config.stepSize + config.chunkSize ∨ n ≤ (i + 1) * config.stepSize ∨
        config.stepSize = 0 := by
  have hnext : (i + 1) * config.stepSize = i * config.stepSize + config.stepSize := by
    rw [Nat.add_mul, Nat.one_mul]
  constructor
  · intro hsub
    by_contra hnot
    have hmem : i * config.stepSize + config.chunkSize ∈ window config n (i + 1) := by
      rw [mem_window]
      omega
    have hin := hsub hmem
    rw [mem_window] at hin
    omega
  · intro hreach p hp
    rw [mem_window] at hp ⊢
    omega

private theorem contiguous_windows {chunk : List Nat} (h : chunk ∈ windows config n k) :
    ∃ first length, chunk = List.range' first length := by
  obtain ⟨i, -, rfl⟩ := List.mem_map.mp h
  exact ⟨_, _, rfl⟩

theorem distinct_windows_iff (hstep : 0 < config.stepSize) (hsize : config.stepSize ≤ config.chunkSize)
    (hinside : k * config.stepSize < n) :
    Distinct (windows config n (k + 1)) ↔ ∀ i < k, i * config.stepSize + config.chunkSize < n := by
  have hchain : (windows config n (k + 1)).IsChain (fun c d => ¬ d ⊆ c) ↔
      ∀ i < k, i * config.stepSize + config.chunkSize < n := by
    unfold windows
    rw [List.isChain_map, List.isChain_range_succ]
    refine forall₂_congr fun i hi => ?_
    have hbefore : (i + 1) * config.stepSize ≤ k * config.stepSize := Nat.mul_le_mul_right _ hi
    rw [window_subset_iff hsize]
    omega
  exact ⟨fun h => hchain.mp h.new, fun h => ⟨fun _ hc => contiguous_windows hc, hchain.mpr h⟩⟩

/-- A merged window repeats no position exactly if the windows do not overlap. -/
theorem distinct_merged_iff (hstep : 0 < config.stepSize) (hsize : config.stepSize ≤ config.chunkSize)
    (hinside : (k + 1) * config.stepSize < n)
    (hbefore : k * config.stepSize + config.chunkSize < n) :
    Distinct (windows config n k ++ [window config n k ++ window config n (k + 1)]) ↔
      config.stepSize = config.chunkSize := by
  have hpos : 0 < config.chunkSize := lt_of_lt_of_le hstep hsize
  have hnext : (k + 1) * config.stepSize = k * config.stepSize + config.stepSize := by
    rw [Nat.add_mul, Nat.one_mul]
  constructor
  · intro h
    obtain ⟨first, length, hrange⟩ := h.contiguous (window config n k ++ window config n (k + 1))
      (List.mem_append_right _ (List.mem_singleton.mpr rfl))
    have hnodup : (window config n k ++ window config n (k + 1)).Nodup := by
      rw [hrange]
      exact List.nodup_range'
    by_contra hne
    have hleft : (k + 1) * config.stepSize ∈ window config n k := by
      rw [mem_window]
      omega
    have hright : (k + 1) * config.stepSize ∈ window config n (k + 1) := by
      rw [mem_window]
      omega
    exact (List.nodup_append.mp hnodup).2.2 _ hleft _ hright rfl
  · intro hsame
    constructor
    · intro chunk hchunk
      rcases List.mem_append.mp hchunk with hchunk | hchunk
      · exact contiguous_windows hchunk
      · rw [List.mem_singleton.mp hchunk]
        refine ⟨k * config.stepSize, config.chunkSize + (window config n (k + 1)).length, ?_⟩
        have hfirst : window config n k = List.range' (k * config.stepSize) config.chunkSize := by
          unfold window
          rw [Nat.min_eq_left hbefore.le, Nat.add_sub_cancel_left]
        have hsecond : window config n (k + 1) =
            List.range' (k * config.stepSize + config.chunkSize) (window config n (k + 1)).length := by
          rw [length_window, ← hsame, ← hnext]
          unfold window
          rw [hsame]
        rw [hfirst, hsecond, List.length_range', List.range'_append_1]
    · have hearlier : ∀ i ≤ k, i * config.stepSize + config.chunkSize < n := by
        intro i hi
        have hle : i * config.stepSize ≤ k * config.stepSize := Nat.mul_le_mul_right _ hi
        omega
      cases k with
      | zero => exact List.isChain_singleton _
      | succ k =>
        have hopen := hearlier k (by omega)
        have hfull := (distinct_windows_iff hstep hsize (k := k) (n := n) (by omega)).mpr
          fun i hi => hearlier i (by omega)
        rw [List.isChain_append]
        refine ⟨hfull.new, List.isChain_singleton _, ?_⟩
        rw [windows_succ, List.getLast?_concat]
        intro c hc d hd
        cases hc
        cases hd
        intro hsub
        have hnested : window config n (k + 1) ⊆ window config n k :=
          fun p hp => hsub (List.mem_append_left _ hp)
        have hreach := (window_subset_iff hsize).mp hnested
        omega

theorem outcome_distinct_iff (hstep : 0 < config.stepSize) (hsize : config.stepSize ≤ config.chunkSize)
    (hn : config.chunkSize < n) {chunks : List (List Nat)} (h : Outcome config n chunks) :
    Distinct chunks ↔ config.stepSize = config.chunkSize ∨ TailFits config n := by
  cases h with
  | windows k goesOn long reaches last =>
    have hnext : (k + 1) * config.stepSize = k * config.stepSize + config.stepSize := by
      rw [Nat.add_mul, Nat.one_mul]
    have hk : 0 < k := by
      by_contra hzero
      have hk0 : k = 0 := by omega
      subst hk0
      omega
    have hlong := long hk
    rw [length_window] at hlong
    rw [distinct_windows_iff hstep hsize (goesOn.inside (by omega) hsize)]
    constructor
    · intro hbefore
      have htail := tailLength_eq hstep hn reaches hbefore
      exact .inr ⟨by omega, by omega, by omega⟩
    · intro hfits i hi
      by_contra hnot
      have hexists : ∃ j, n ≤ j * config.stepSize + config.chunkSize := ⟨i, not_lt.mp hnot⟩
      obtain ⟨j, hj, hleast⟩ : ∃ j, n ≤ j * config.stepSize + config.chunkSize ∧
          ∀ m < j, m * config.stepSize + config.chunkSize < n :=
        ⟨Nat.find hexists, Nat.find_spec hexists, fun m hm => not_le.mp (Nat.find_min hexists hm)⟩
      have hji : j ≤ i := by
        by_contra hlt
        exact hnot (hleast i (not_le.mp hlt))
      have hafter : (j + 1) * config.stepSize = j * config.stepSize + config.stepSize := by
        rw [Nat.add_mul, Nat.one_mul]
      have htail := tailLength_eq hstep hn hj hleast
      have hopen := goesOn.open_end j (by omega)
      rcases hfits with hsame | hfits
      · omega
      · have hlast := hfits.last
        omega
  | merged k goesOn inside short =>
    have hnext : (k + 1) * config.stepSize = k * config.stepSize + config.stepSize := by
      rw [Nat.add_mul, Nat.one_mul]
    have hlength : (window config n (k + 1)).length = _ := length_window (k + 1)
    have hbefore : k * config.stepSize + config.chunkSize < n := by
      by_contra hnot
      have hopen := goesOn.open_end k (Nat.lt_succ_self k) (by omega)
      omega
    rw [distinct_merged_iff hstep hsize inside hbefore]
    refine (or_iff_left fun hfits => ?_).symm
    have hmin := hfits.size
    have htail : tailLength config n = n - (k + 1) * config.stepSize := by
      refine tailLength_eq hstep hn (by omega) fun i hi => ?_
      have hle : i * config.stepSize ≤ k * config.stepSize :=
        Nat.mul_le_mul_right _ (Nat.lt_succ_iff.mp hi)
      omega
    have hlong := hfits.long
    omega

theorem step_of_half (hsize : 1 ≤ config.chunkSize) (hhalf : config.overlapPercent.AtMostHalf) :
    0 < config.stepSize ∧ config.stepSize ≤ config.chunkSize ∧
      (config.stepSize = config.chunkSize ↔ config.overlapSize = 0) := by
  have hless : config.overlapSize < config.chunkSize := Single.scaled_lt hhalf hsize
  unfold ChunkConfig.stepSize
  omega

theorem chunkPositions_outcome (hstep : 0 < config.stepSize)
    (hsize : config.stepSize ≤ config.chunkSize) (hn : config.chunkSize < n) :
    Outcome config n (chunkPositions config n) := by
  have hgoes : GoesOn config n 0 := ⟨fun i _ hi => by omega, fun i hi => by omega⟩
  have houtcome : Outcome config n
      (positionLoop config n n (0 * config.stepSize) (windows config n 0)) :=
    positionLoop_outcome hstep hsize (by omega) (by omega) hgoes
  rw [Nat.zero_mul] at houtcome
  unfold chunkPositions
  rw [if_neg (by omega), if_neg (by omega)]
  exact houtcome

/-- A document that fits into one chunk is covered by it. -/
theorem covers_single (hstep : 0 < config.stepSize) (hsize : config.stepSize ≤ config.chunkSize)
    (hn : n ≤ config.chunkSize) : Covers config n (chunkPositions config n) := by
  unfold chunkPositions
  split
  · rename_i hzero
    subst hzero
    exact ⟨fun p hp => by omega, by simp, by simp, List.isChain_nil, by simp⟩
  · rename_i hpos
    have hshape : [List.range n] = (List.range (0 + 1)).map fun _ => List.range n := rfl
    rw [hshape]
    refine covers_of_windows hstep hsize ?_ ?_ ?_ ?_ (by omega)
    · intro i hi
      obtain rfl : i = 0 := by omega
      rw [List.head?_range, if_neg hpos, Nat.zero_mul]
    · intro i _ p hp
      exact List.mem_range.mpr (mem_window.mp hp).2.2
    · intro p _ hp
      exact List.mem_range.mpr hp
    · intro i _
      rw [List.length_range]
      omega

theorem distinct_single (hn : n ≤ config.chunkSize) : Distinct (chunkPositions config n) := by
  unfold chunkPositions
  split
  · exact ⟨by simp, List.isChain_nil⟩
  · refine ⟨fun chunk hchunk => ?_, List.isChain_singleton _⟩
    rw [List.mem_singleton.mp hchunk]
    exact ⟨0, n, List.range_eq_range'⟩

end Coverage

section Documents

variable (content : List Char) (config : ChunkConfig)

/-- The loop ends, and the chunks cover the words of the document exactly if it has one chunk, or the
minimum is no larger than a chunk, or it has no words beyond the second window. -/
theorem chunks_cover_iff (hsize : 1 ≤ config.chunkSize) (hhalf : config.overlapPercent.AtMostHalf) :
    let words := splitWhitespace content
    let chunks := chunkPositions config words.length
    (∀ more, chunkLoop config words (words.length + more) 0 [] =
        chunkLoop config words words.length 0 []) ∧
      (chunkDocument content config).map splitWhitespace = chunks.map (wordsAt words) ∧
      (Covers config words.length chunks ↔ words.length ≤ config.chunkSize ∨
        config.minChunkSize ≤ config.chunkSize ∨
        words.length ≤ config.chunkSize + config.stepSize) := by
  dsimp only
  obtain ⟨hstep, hle, -⟩ := step_of_half hsize hhalf
  refine ⟨fun more => chunkLoop_fuel hstep _ (by omega) more [], chunkDocument_words content config, ?_⟩
  by_cases hn : (splitWhitespace content).length ≤ config.chunkSize
  · exact iff_of_true (covers_single hstep hle hn) (.inl hn)
  · rw [outcome_covers_iff hstep hle (not_le.mp hn) (chunkPositions_outcome hstep hle (not_le.mp hn)),
      or_iff_right hn]

theorem chunks_cover_abc :
    let config : ChunkConfig := ⟨1, ⟨false, 0, 0⟩, 1⟩
    let words := splitWhitespace "a b c".toList
    Covers config words.length (chunkPositions config words.length) :=
  (chunks_cover_iff "a b c".toList ⟨1, ⟨false, 0, 0⟩, 1⟩ le_rfl
    (.inr (by decide))).2.2.mpr (.inr (.inl le_rfl))

/-- With a minimum above the size of a chunk, the second window is merged and the rest is lost. -/
theorem words_lost :
    let config : ChunkConfig := ⟨1, ⟨false, 0, 0⟩, 2⟩
    let words := splitWhitespace "a b c".toList
    (chunkDocument "a b c".toList config).map splitWhitespace = [["a".toList, "b".toList]] ∧
      ¬ Covers config words.length (chunkPositions config words.length) := by
  dsimp only
  rw [chunkDocument_words]
  refine ⟨by decide +kernel, fun hcovers => ?_⟩
  obtain ⟨chunk, hchunk, hlast⟩ := hcovers.covered 2 (by decide +kernel)
  have hnone : ∀ chunk ∈ chunkPositions ⟨1, ⟨false, 0, 0⟩, 2⟩ (splitWhitespace "a b c".toList).length,
      2 ∉ chunk := by
    decide +kernel
  exact hnone chunk hchunk hlast

/-- The chunks are distinct windows exactly if there is one chunk, or no overlap, or the first window
that reaches the end is long enough not to be merged and short enough to be the last. -/
theorem chunks_distinct_iff (hsize : 1 ≤ config.chunkSize)
    (hhalf : config.overlapPercent.AtMostHalf) :
    let words := splitWhitespace content
    let chunks := chunkPositions config words.length
    (chunkDocument content config).map splitWhitespace = chunks.map (wordsAt words) ∧
      (Distinct chunks ↔ words.length ≤ config.chunkSize ∨ config.overlapSize = 0 ∨
        TailFits config words.length) := by
  dsimp only
  obtain ⟨hstep, hle, hoverlap⟩ := step_of_half hsize hhalf
  refine ⟨chunkDocument_words content config, ?_⟩
  by_cases hn : (splitWhitespace content).length ≤ config.chunkSize
  · exact iff_of_true (distinct_single hn) (.inl hn)
  · rw [outcome_distinct_iff hstep hle (not_le.mp hn)
      (chunkPositions_outcome hstep hle (not_le.mp hn)), or_iff_right hn, hoverlap]

theorem chunks_distinct_abc :
    let config : ChunkConfig := ⟨2, ⟨false, 1, 1⟩, 1⟩
    let words := splitWhitespace "a b c".toList
    Distinct (chunkPositions config words.length) :=
  (chunks_distinct_iff "a b c".toList ⟨2, ⟨false, 1, 1⟩, 1⟩ (by decide)
    (.inr (by decide))).2.mpr (.inr (.inr ⟨by decide, by decide +kernel, by decide +kernel⟩))

/-- The last window is contained in the one before it. -/
theorem window_repeated :
    let config : ChunkConfig := ⟨2, ⟨false, 1, 1⟩, 0⟩
    let words := splitWhitespace "a b c".toList
    (chunkDocument "a b c".toList config).map splitWhitespace =
        [["a".toList, "b".toList], ["b".toList, "c".toList], ["c".toList]] ∧
      ¬ Distinct (chunkPositions config words.length) := by
  dsimp only
  rw [chunkDocument_words]
  refine ⟨by decide +kernel, fun hdistinct => ?_⟩
  have hpositions : chunkPositions ⟨2, ⟨false, 1, 1⟩, 0⟩ (splitWhitespace "a b c".toList).length =
      [[0, 1], [1, 2], [2]] := by
    decide +kernel
  have hnew := hdistinct.new
  rw [hpositions] at hnew
  simp at hnew

end Documents

end Gyre.Workspace
