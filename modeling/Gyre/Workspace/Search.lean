/- digest: The fusion of full-text and vector results by reciprocal ranks, and what it depends on. -/

import Mathlib.Algebra.Order.Field.Basic
import Mathlib.Data.List.Dedup
import Mathlib.Data.List.Perm.Basic
import Mathlib.Tactic.Positivity
import Gyre.Lib.Ranking
import Gyre.Lib.Shares
import Gyre.Llm.Value

/-!
Scores are exact. The order in which a hash map gives its entries is any order, and another one in
another run.
-/

set_option autoImplicit false
set_option relaxedAutoImplicit false

namespace Gyre.Workspace.Search

open Gyre.Lib Gyre.Llm

/-- What a fusion reads of the configuration for hybrid search. -/
structure SearchConfig where
  limit : Nat
  rrfK : Nat
  minScore : ℚ

/-- Raw result from a single search method; ranks start at one. -/
structure RankedResult where
  chunkId : Uuid
  documentId : Uuid
  content : List Char
  rank : Nat
  one_le_rank : 1 ≤ rank

/-- A search result with hybrid scoring. -/
structure SearchResult where
  documentId : Uuid
  chunkId : Uuid
  content : List Char
  score : ℚ
  ftsRank : Option Nat
  vectorRank : Option Nat
  deriving DecidableEq

structure ChunkInfo where
  documentId : Uuid
  content : List Char
  score : ℚ
  ftsRank : Option Nat
  vectorRank : Option Nat

/-- A raw result with the method that found it. -/
inductive Retrieved where
  | fts (result : RankedResult)
  | vector (result : RankedResult)

def rrfScore (k : Nat) (result : RankedResult) : ℚ := 1 / (k + result.rank)

namespace Retrieved

@[grind =] def result : Retrieved → RankedResult
  | fts result => result
  | vector result => result

/-- `and_modify` -/
@[grind =] def modify (k : Nat) : Retrieved → ChunkInfo → ChunkInfo
  | fts result, info =>
    { info with score := info.score + rrfScore k result, ftsRank := some result.rank }
  | vector result, info =>
    { info with score := info.score + rrfScore k result, vectorRank := some result.rank }

/-- `or_insert` -/
@[grind =] def insert (k : Nat) : Retrieved → ChunkInfo
  | fts result => ⟨result.documentId, result.content, rrfScore k result, some result.rank, none⟩
  | vector result => ⟨result.documentId, result.content, rrfScore k result, none, some result.rank⟩

end Retrieved

/-- The results of both methods, in the order in which they are processed. -/
def retrieved (ftsResults vectorResults : List RankedResult) : List Retrieved :=
  ftsResults.map .fts ++ vectorResults.map .vector

def chunkScores (k : Nat) (ftsResults vectorResults : List RankedResult) :
    AList fun _ : Uuid => ChunkInfo :=
  collect (fun r => r.result.chunkId) (Retrieved.modify k) (Retrieved.insert k)
    (retrieved ftsResults vectorResults)

/-- An entry of the hash map. -/
abbrev Chunk := Sigma fun _ : Uuid => ChunkInfo

def toSearchResult (e : Chunk) : SearchResult :=
  ⟨e.2.documentId, e.1, e.2.content, e.2.score, e.2.ftsRank, e.2.vectorRank⟩

/-- Scores divided by the highest, if that is positive. -/
def normalizeScores (results : List SearchResult) : List SearchResult :=
  match (results.map SearchResult.score).max? with
  | some maxScore =>
    if 0 < maxScore then results.map fun r => { r with score := r.score / maxScore } else results
  | none => results

/-- Only scores from the minimum on, if that is positive. -/
def retainMin (minScore : ℚ) (results : List SearchResult) : List SearchResult :=
  if 0 < minScore then results.filter fun r => decide (minScore ≤ r.score) else results

/-- What is done with the entries, in the order in which the hash map gives them. -/
def fuseIn (config : SearchConfig) (entries : List Chunk) : List SearchResult :=
  topBy SearchResult.score config.limit
    (retainMin config.minScore (normalizeScores (entries.map toSearchResult)))

/-- `reciprocal_rank_fusion` may give this result. -/
def ReciprocalRankFusion (ftsResults vectorResults : List RankedResult) (config : SearchConfig)
    (results : List SearchResult) : Prop :=
  ∃ entries, entries.Perm (chunkScores config.rrfK ftsResults vectorResults).entries ∧
    results = fuseIn config entries

/-- The chunks that were found, each once. -/
def chunkIds (ftsResults vectorResults : List RankedResult) : List Uuid :=
  ((ftsResults ++ vectorResults).map RankedResult.chunkId).dedup

/-- The sum of `1 / (k + rank)` over the lists in which a chunk occurs, at its first rank there. -/
def fusedScore (k : Nat) (ftsResults vectorResults : List RankedResult) (id : Uuid) : ℚ :=
  firstShares (rrfScore k) (fun r => decide (r.chunkId = id)) [ftsResults, vectorResults]

/-- The sum over all results for a chunk. -/
def totalScore (k : Nat) (ftsResults vectorResults : List RankedResult) (id : Uuid) : ℚ :=
  allShares (rrfScore k) (fun r => decide (r.chunkId = id)) (ftsResults ++ vectorResults)

/-- A score as a part of the highest score. -/
def normalized (score : Uuid → ℚ) (ids : List Uuid) (id : Uuid) : ℚ :=
  score id / (ids.map score).max?.getD 1

/-- A minimum that is not positive keeps everything. -/
def passes (minScore score : ℚ) : Bool := decide (0 < minScore → minScore ≤ score)

section Fusion

variable (ftsResults vectorResults : List RankedResult) (config : SearchConfig)

/-- The score that a chunk is meant to have. -/
def meantScore : Uuid → ℚ :=
  normalized (fusedScore config.rrfK ftsResults vectorResults) (chunkIds ftsResults vectorResults)

/-- The score that a chunk gets. -/
def chunkScore : Uuid → ℚ :=
  normalized (totalScore config.rrfK ftsResults vectorResults) (chunkIds ftsResults vectorResults)

/-- The chunks whose score passes. -/
abbrev passing (score : Uuid → ℚ) : List Uuid :=
  (chunkIds ftsResults vectorResults).filter fun id => passes config.minScore (score id)

/-- What a fusion is meant to be. -/
structure Fuses (results : List SearchResult) : Prop where
  distinct : (results.map SearchResult.chunkId).Nodup
  scores : ∀ r ∈ results, r.score = meantScore ftsResults vectorResults config r.chunkId
  ordered : results.Pairwise fun a b => b.score ≤ a.score
  best : BestOf (meantScore ftsResults vectorResults config) (passes config.minScore) config.limit
    (chunkIds ftsResults vectorResults) (results.map SearchResult.chunkId)

variable {ftsResults vectorResults config} {k : Nat}

theorem rrfScore_pos (result : RankedResult) : 0 < rrfScore k result := by
  unfold rrfScore
  have hrank : (0 : ℚ) < result.rank := by
    exact_mod_cast result.one_le_rank
  positivity

theorem map_result_retrieved :
    (retrieved ftsResults vectorResults).map Retrieved.result = ftsResults ++ vectorResults := by
  unfold retrieved
  rw [List.map_append, List.map_map, List.map_map]
  have hfts : Retrieved.result ∘ Retrieved.fts = id := rfl
  have hvector : Retrieved.result ∘ Retrieved.vector = id := rfl
  rw [hfts, hvector, List.map_id, List.map_id]

theorem chunkScores_entry {e : Chunk} (he : e ∈ (chunkScores k ftsResults vectorResults).entries) :
    e.2.score = totalScore k ftsResults vectorResults e.1 := by
  have hlookup : (chunkScores k ftsResults vectorResults).lookup e.1 = some e.2 :=
    AList.mem_lookup_iff.mpr he
  have hsum := collect_induction
    (P := fun before v => v.score = (before.map fun r => rrfScore k r.result).sum)
    (fun a _ => ?_) (fun before a v _ hv => ?_) hlookup
  · rw [hsum]
    unfold totalScore allShares
    rw [← map_result_retrieved, List.filter_map, List.map_map]
    rfl
  · cases a <;> exact (List.sum_singleton).symm
  · rw [List.map_append, List.sum_append, List.map_singleton, List.sum_singleton, ← hv]
    cases a <;> rfl

/-- Two entries for one chunk are one. -/
theorem chunk_unique {e e' : Chunk} (he : e ∈ (chunkScores k ftsResults vectorResults).entries)
    (he' : e' ∈ (chunkScores k ftsResults vectorResults).entries) (h : e.1 = e'.1) : e = e' := by
  have hlookup : (chunkScores k ftsResults vectorResults).lookup e.1 = some e.2 :=
    AList.mem_lookup_iff.mpr he
  have hlookup' : (chunkScores k ftsResults vectorResults).lookup e'.1 = some e'.2 :=
    AList.mem_lookup_iff.mpr he'
  obtain ⟨id, info⟩ := e
  obtain ⟨id', info'⟩ := e'
  obtain rfl : id = id' := h
  rw [hlookup] at hlookup'
  cases hlookup'
  rfl

theorem nodup_chunkIds : (chunkIds ftsResults vectorResults).Nodup := List.nodup_dedup _

theorem chunkScores_ids : ((chunkScores k ftsResults vectorResults).entries.map Sigma.fst).Perm
    (chunkIds ftsResults vectorResults) := by
  have hkeys : ((chunkScores k ftsResults vectorResults).entries.map Sigma.fst).Nodup :=
    (chunkScores k ftsResults vectorResults).nodupKeys
  refine (List.perm_ext_iff_of_nodup hkeys (List.nodup_dedup _)).mpr fun id => ?_
  have hmem : id ∈ (chunkScores k ftsResults vectorResults).entries.map Sigma.fst ↔
      id ∈ chunkScores k ftsResults vectorResults := Iff.rfl
  rw [hmem, chunkScores, mem_collect, List.mem_dedup, ← map_result_retrieved, List.map_map,
    List.mem_map]
  rfl

/-- A result with the score that its chunk gets. -/
def scored (ftsResults vectorResults : List RankedResult) (config : SearchConfig) (e : Chunk) :
    SearchResult :=
  { toSearchResult e with score := chunkScore ftsResults vectorResults config e.1 }

theorem totalScore_pos {id : Uuid} (h : id ∈ chunkIds ftsResults vectorResults) :
    0 < totalScore k ftsResults vectorResults id := by
  unfold chunkIds at h
  rw [List.mem_dedup, List.mem_map] at h
  obtain ⟨r, hr, hid⟩ := h
  exact allShares_pos (fun r _ => rrfScore_pos r) hr (decide_eq_true hid)

section Order

variable {entries entries' : List Chunk}
  (hperm : entries.Perm (chunkScores config.rrfK ftsResults vectorResults).entries)

include hperm

theorem ids_perm : (entries.map Sigma.fst).Perm (chunkIds ftsResults vectorResults) :=
  (hperm.map Sigma.fst).trans chunkScores_ids

theorem normalizeScores_entries : normalizeScores (entries.map toSearchResult) =
    entries.map (scored ftsResults vectorResults config) := by
  have htotal : ∀ e ∈ entries, e.2.score = totalScore config.rrfK ftsResults vectorResults e.1 :=
    fun e he => chunkScores_entry (hperm.mem_iff.mp he)
  have hscores : (entries.map toSearchResult).map SearchResult.score =
      (entries.map Sigma.fst).map (totalScore config.rrfK ftsResults vectorResults) := by
    rw [List.map_map, List.map_map]
    exact List.map_congr_left htotal
  have hmax : ((entries.map toSearchResult).map SearchResult.score).max? =
      ((chunkIds ftsResults vectorResults).map
        (totalScore config.rrfK ftsResults vectorResults)).max? := by
    rw [hscores]
    exact max?_perm ((ids_perm hperm).map _)
  unfold normalizeScores
  rw [hmax]
  cases hm : ((chunkIds ftsResults vectorResults).map
      (totalScore config.rrfK ftsResults vectorResults)).max? with
  | none =>
    rw [List.max?_eq_none_iff, List.map_eq_nil_iff] at hm
    have hnil := ids_perm hperm
    rw [hm, List.perm_nil, List.map_eq_nil_iff] at hnil
    rw [hnil]
    rfl
  | some m =>
    obtain ⟨id, hid, hpos⟩ := List.mem_map.mp (List.max?_eq_some_iff.mp hm).1
    have hm0 : 0 < m := by
      rw [← hpos]
      exact totalScore_pos hid
    have hsame : ∀ e ∈ entries, ({ toSearchResult e with score := (toSearchResult e).score / m } :
        SearchResult) = scored ftsResults vectorResults config e := by
      intro e he
      have hscore : (toSearchResult e).score / m =
          chunkScore ftsResults vectorResults config e.1 := by
        unfold chunkScore normalized
        rw [hm, Option.getD_some, ← htotal e he]
        rfl
      unfold scored
      rw [hscore]
    simp only [hm0, if_true]
    rw [List.map_map]
    exact List.map_congr_left hsame

omit hperm in
theorem retainMin_eq (minScore : ℚ) (results : List SearchResult) :
    retainMin minScore results = results.filter fun r => passes minScore r.score := by
  unfold retainMin passes
  split
  · rename_i hpos
    refine List.filter_congr fun r _ => decide_eq_decide.mpr ?_
    exact ⟨fun h _ => h, fun h => h hpos⟩
  · rename_i hneg
    exact (List.filter_eq_self.mpr fun r _ => decide_eq_true fun h => absurd h hneg).symm

theorem fuseIn_eq : fuseIn config entries =
    (topBy (fun e : Chunk => chunkScore ftsResults vectorResults config e.1) config.limit
      (entries.filter fun e => passes config.minScore (chunkScore ftsResults vectorResults config e.1))).map
        (scored ftsResults vectorResults config) := by
  unfold fuseIn
  rw [normalizeScores_entries hperm, retainMin_eq, List.filter_map]
  exact topBy_map fun _ _ => rfl

theorem fuseIn_ids : (fuseIn config entries).map SearchResult.chunkId =
    topBy (chunkScore ftsResults vectorResults config) config.limit
      ((entries.map Sigma.fst).filter fun id =>
        passes config.minScore (chunkScore ftsResults vectorResults config id)) := by
  rw [fuseIn_eq hperm, List.map_map, List.filter_map]
  exact (topBy_map fun _ _ => rfl).symm

theorem fuseIn_score {r : SearchResult} (hr : r ∈ fuseIn config entries) :
    r.score = chunkScore ftsResults vectorResults config r.chunkId := by
  rw [fuseIn_eq hperm] at hr
  obtain ⟨e, -, rfl⟩ := List.mem_map.mp hr
  rfl

/-- A fusion is as it should be exactly if its chunks are. -/
theorem fuses_fuseIn_iff : Fuses ftsResults vectorResults config (fuseIn config entries) ↔
    (∀ id ∈ (fuseIn config entries).map SearchResult.chunkId,
      chunkScore ftsResults vectorResults config id = meantScore ftsResults vectorResults config id) ∧
      BestOf (meantScore ftsResults vectorResults config) (passes config.minScore) config.limit
        (chunkIds ftsResults vectorResults) ((fuseIn config entries).map SearchResult.chunkId) := by
  constructor
  · intro h
    refine ⟨fun id hid => ?_, h.best⟩
    obtain ⟨r, hr, rfl⟩ := List.mem_map.mp hid
    rw [← fuseIn_score hperm hr]
    exact h.scores r hr
  · rintro ⟨hscores, hbest⟩
    refine ⟨?_, fun r hr => ?_, ?_, hbest⟩
    · rw [fuseIn_ids hperm]
      exact nodup_topBy (((ids_perm hperm).nodup_iff.mpr nodup_chunkIds).filter _)
    · rw [fuseIn_score hperm hr]
      exact hscores _ (List.mem_map_of_mem hr)
    · exact topBy_ordered _

/-- Two orders give one result exactly if they give the same chunks. -/
theorem fuseIn_eq_iff (hperm' : entries'.Perm (chunkScores config.rrfK ftsResults vectorResults).entries) :
    fuseIn config entries = fuseIn config entries' ↔
      (fuseIn config entries).map SearchResult.chunkId =
        (fuseIn config entries').map SearchResult.chunkId := by
  refine ⟨fun h => congrArg _ h, fun h => ?_⟩
  rw [fuseIn_eq hperm, fuseIn_eq hperm'] at h ⊢
  rw [List.map_map, List.map_map] at h
  have hmem : ∀ {p : List Chunk}, p.Perm (chunkScores config.rrfK ftsResults vectorResults).entries →
      ∀ e ∈ topBy (fun e : Chunk => chunkScore ftsResults vectorResults config e.1) config.limit
        (p.filter fun e => passes config.minScore (chunkScore ftsResults vectorResults config e.1)),
        e ∈ (chunkScores config.rrfK ftsResults vectorResults).entries :=
    fun hp e he => hp.mem_iff.mp (List.mem_of_mem_filter (inTop_of_mem he).1)
  exact congrArg _ (map_inj_of_mem (fun e e' he he' heq => chunk_unique he he' heq) (hmem hperm)
    (hmem hperm') h)

end Order

/-- A search gives the results that it is meant to give, and the same in every run, exactly if each
chunk that can be among the first has its score and ties with no other, and each that is left out and
should pass is outdone. -/
theorem fusion_fuses_iff (ftsResults vectorResults : List RankedResult) (config : SearchConfig) :
    ((∀ results, ReciprocalRankFusion ftsResults vectorResults config results →
        Fuses ftsResults vectorResults config results) ∧
      ∀ results results', ReciprocalRankFusion ftsResults vectorResults config results →
        ReciprocalRankFusion ftsResults vectorResults config results' → results = results') ↔
      (∀ id, InTop (chunkScore ftsResults vectorResults config) config.limit
          (passing ftsResults vectorResults config (chunkScore ftsResults vectorResults config)) id →
        chunkScore ftsResults vectorResults config id = meantScore ftsResults vectorResults config id ∧
          ∀ id' ∈ passing ftsResults vectorResults config
              (chunkScore ftsResults vectorResults config),
            chunkScore ftsResults vectorResults config id' =
              chunkScore ftsResults vectorResults config id → id' = id) ∧
      ∀ id ∈ passing ftsResults vectorResults config (meantScore ftsResults vectorResults config),
        InTop (chunkScore ftsResults vectorResults config) config.limit
            (passing ftsResults vectorResults config (chunkScore ftsResults vectorResults config)) id ∨
          Outdone (meantScore ftsResults vectorResults config) (passes config.minScore) config.limit
            (chunkScore ftsResults vectorResults config) (chunkIds ftsResults vectorResults) id := by
  refine Iff.trans ?_ (topBy_meant_iff nodup_chunkIds)
  constructor
  · rintro ⟨hfuses, hsame⟩
    refine ⟨fun p hp => ?_, fun p q hp hq => ?_⟩
    · obtain ⟨entries, hentries, rfl⟩ := exists_map_eq_of_perm (hp.trans chunkScores_ids.symm)
      rw [← fuseIn_ids hentries]
      exact (fuses_fuseIn_iff hentries).mp (hfuses _ ⟨entries, hentries, rfl⟩)
    · obtain ⟨entries, hentries, rfl⟩ := exists_map_eq_of_perm (hp.trans chunkScores_ids.symm)
      obtain ⟨entries', hentries', rfl⟩ := exists_map_eq_of_perm (hq.trans chunkScores_ids.symm)
      rw [← fuseIn_ids hentries, ← fuseIn_ids hentries', hsame _ _ ⟨entries, hentries, rfl⟩
        ⟨entries', hentries', rfl⟩]
  · rintro ⟨hall, hsame⟩
    constructor
    · rintro results ⟨entries, hentries, rfl⟩
      have hids := hall _ (ids_perm hentries)
      rw [← fuseIn_ids hentries] at hids
      exact (fuses_fuseIn_iff hentries).mpr hids
    · rintro results results' ⟨entries, hentries, rfl⟩ ⟨entries', hentries', rfl⟩
      rw [fuseIn_eq_iff hentries hentries', fuseIn_ids hentries, fuseIn_ids hentries']
      exact hsame _ _ (ids_perm hentries) (ids_perm hentries')

/-- Where no list has a chunk twice, a chunk has the score it is meant to have. -/
theorem chunkScore_of_distinct (hfts : (ftsResults.map RankedResult.chunkId).Nodup)
    (hvector : (vectorResults.map RankedResult.chunkId).Nodup) :
    chunkScore ftsResults vectorResults config = meantScore ftsResults vectorResults config := by
  have honce : ∀ {l : List RankedResult}, (l.map RankedResult.chunkId).Nodup → ∀ id : Uuid,
      l.countP (fun r => decide (r.chunkId = id)) ≤ 1 := by
    intro l hl id
    have hcount := List.nodup_iff_count_le_one.mp hl id
    rw [List.count_eq_countP, List.countP_map] at hcount
    calc l.countP (fun r => decide (r.chunkId = id))
        = l.countP ((fun x => x == id) ∘ RankedResult.chunkId) :=
          List.countP_congr fun r _ => by simp
      _ ≤ 1 := hcount
  have hscore : totalScore config.rrfK ftsResults vectorResults =
      fusedScore config.rrfK ftsResults vectorResults := by
    funext id
    have hpos : ∀ l ∈ [ftsResults, vectorResults], ∀ r ∈ l, 0 < rrfScore config.rrfK r :=
      fun _ _ r _ => rrfScore_pos r
    have hfused := (firstShares_le (p := fun r => decide (r.chunkId = id)) hpos).2.mpr fun l hl => ?_
    · rw [totalScore, fusedScore, hfused, List.flatten_cons, List.flatten_singleton]
    · rcases List.mem_cons.mp hl with rfl | hl
      · exact honce hfts id
      · obtain rfl := List.mem_singleton.mp hl
        exact honce hvector id
  unfold chunkScore meantScore
  rw [hscore]

/-- Where no list has a chunk twice, ties alone decide. -/
theorem fusion_fuses_iff_of_distinct (hfts : (ftsResults.map RankedResult.chunkId).Nodup)
    (hvector : (vectorResults.map RankedResult.chunkId).Nodup) :
    ((∀ results, ReciprocalRankFusion ftsResults vectorResults config results →
        Fuses ftsResults vectorResults config results) ∧
      ∀ results results', ReciprocalRankFusion ftsResults vectorResults config results →
        ReciprocalRankFusion ftsResults vectorResults config results' → results = results') ↔
      Separated (chunkScore ftsResults vectorResults config) config.limit
        (passing ftsResults vectorResults config (chunkScore ftsResults vectorResults config)) := by
  rw [fusion_fuses_iff, chunkScore_of_distinct hfts hvector]
  constructor
  · rintro ⟨htop, -⟩ id hid
    exact (htop id hid).2
  · intro h
    refine ⟨fun id hid => ⟨rfl, h id hid⟩, fun id hid => ?_⟩
    rcases Nat.lt_or_ge (above (meantScore ftsResults vectorResults config)
      (passing ftsResults vectorResults config (meantScore ftsResults vectorResults config)) id)
      config.limit with hlt | hge
    · exact Or.inl ⟨hid, hlt⟩
    · refine Or.inr (hge.trans (List.monotone_filter_right _ fun z hz => ?_).length_le)
      exact decide_eq_true (of_decide_eq_true hz).le

end Fusion

end Gyre.Workspace.Search
