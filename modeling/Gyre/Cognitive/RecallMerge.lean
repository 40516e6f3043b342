/- digest: The merge of recalled results by reciprocal ranks, and exactly when it is what it is meant to be. -/

import Gyre.Workspace.Search

/-!
Scores are exact. The order in which a hash map gives its values is any order, and another one in
another run.
-/

set_option autoImplicit false
set_option relaxedAutoImplicit false

namespace Gyre.Cognitive

open Gyre.Lib Gyre.Llm

/-- Source layer that produced a recall result. -/
inductive RecallSource where
  | memoryStream
  | knowledgeGraph
  | kgSemantic
  | fullTextSearch
  deriving DecidableEq, Repr

structure RecallResult where
  content : List Char
  source : RecallSource
  score : ℚ
  metadata : Json
  deriving DecidableEq

section Merge

variable (lowercase : List Char → List Char)

/-- `dedup_key`: the first 200 characters, lowercased. -/
def dedupKey (content : List Char) : List Char := lowercase (content.take 200)

/-- A result with its place in its list. -/
abbrev Placed := RecallResult × Nat

def Placed.key (e : Placed) : List Char := dedupKey lowercase e.1.content

/-- What a place in a list is worth. -/
def rrfContribution (k : Nat) (e : Placed) : ℚ := 1 / (k + e.2 + 1)

def placed (lists : List (List RecallResult)) : List (List Placed) := lists.map List.zipIdx

/-- The hash map of fused scores, each with the first result of its key. -/
def rrfScores (k : Nat) (lists : List (List RecallResult)) : AList fun _ : List Char => ℚ × RecallResult :=
  collect (Placed.key lowercase) (fun e v => (v.1 + rrfContribution k e, v.2))
    (fun e => (rrfContribution k e, e.1)) (placed lists).flatten

def finish (v : ℚ × RecallResult) : RecallResult := { v.2 with score := v.1 }

/-- An entry of the hash map. -/
abbrev Fused := Sigma fun _ : List Char => ℚ × RecallResult

/-- What is done with the values, in the order in which the hash map gives them. -/
def mergeIn (limit : Nat) (entries : List Fused) : List RecallResult :=
  topBy RecallResult.score limit (entries.map fun e => finish e.2)

/-- `rrf_merge` may give this result. -/
def RrfMerge (lists : List (List RecallResult)) (k limit : Nat) (merged : List RecallResult) : Prop :=
  ∃ entries, entries.Perm (rrfScores lowercase k lists).entries ∧ merged = mergeIn limit entries

/-- The keys of the results, each once. -/
def recallKeys (lists : List (List RecallResult)) : List (List Char) :=
  (lists.flatten.map fun r => dedupKey lowercase r.content).dedup

/-- The sum of `1 / (k + rank)` over the lists in which a key occurs, at its first rank there. -/
def fusedScore (k : Nat) (lists : List (List RecallResult)) (key : List Char) : ℚ :=
  firstShares (rrfContribution k) (fun e => decide (Placed.key lowercase e = key)) (placed lists)

/-- The sum over all results with a key. -/
def totalScore (k : Nat) (lists : List (List RecallResult)) (key : List Char) : ℚ :=
  allShares (rrfContribution k) (fun e => decide (Placed.key lowercase e = key)) (placed lists).flatten

/-- What a merge is meant to be. -/
structure Fuses (lists : List (List RecallResult)) (k limit : Nat) (merged : List RecallResult) :
    Prop where
  distinct : (merged.map fun r => dedupKey lowercase r.content).Nodup
  scores : ∀ r ∈ merged, r.score = fusedScore lowercase k lists (dedupKey lowercase r.content)
  ordered : merged.Pairwise fun a b => b.score ≤ a.score
  count : merged.length = min limit (recallKeys lowercase lists).length
  found : ∀ r ∈ merged, dedupKey lowercase r.content ∈ recallKeys lowercase lists
  best : ∀ key ∈ recallKeys lowercase lists, (∀ r ∈ merged, dedupKey lowercase r.content ≠ key) →
    ∀ r ∈ merged, fusedScore lowercase k lists key ≤ r.score

variable {lowercase} {k limit : Nat} {lists : List (List RecallResult)}

theorem rrfContribution_pos (e : Placed) : 0 < rrfContribution k e := by
  unfold rrfContribution
  positivity

theorem mem_placed_key {key : List Char} :
    (∃ e ∈ (placed lists).flatten, Placed.key lowercase e = key) ↔ key ∈ recallKeys lowercase lists := by
  unfold recallKeys placed
  rw [List.mem_dedup, List.mem_map]
  constructor
  · rintro ⟨e, he, rfl⟩
    obtain ⟨l, hl, hel⟩ := List.mem_flatten.mp he
    obtain ⟨list, hlist, rfl⟩ := List.mem_map.mp hl
    exact ⟨e.1, List.mem_flatten.mpr ⟨list, hlist, List.fst_mem_of_mem_zipIdx hel⟩, rfl⟩
  · rintro ⟨r, hr, rfl⟩
    obtain ⟨list, hlist, hrl⟩ := List.mem_flatten.mp hr
    obtain ⟨i, hi, rfl⟩ := List.mem_iff_getElem.mp hrl
    refine ⟨(list[i], i), List.mem_flatten.mpr ⟨list.zipIdx, List.mem_map_of_mem hlist, ?_⟩, rfl⟩
    exact List.mem_zipIdx_iff_getElem?.mpr (List.getElem?_eq_getElem hi)

/-- An entry of the map has the total of its key and a result with that key. -/
theorem rrfScores_entry {e : Fused} (he : e ∈ (rrfScores lowercase k lists).entries) :
    e.2.1 = totalScore lowercase k lists e.1 ∧ dedupKey lowercase e.2.2.content = e.1 := by
  have hlookup : (rrfScores lowercase k lists).lookup e.1 = some e.2 := AList.mem_lookup_iff.mpr he
  refine collect_induction
    (P := fun before v => v.1 = (before.map (rrfContribution k)).sum ∧
      dedupKey lowercase v.2.content = e.1) (fun a ha => ?_) (fun before a v ha hv => ?_) hlookup
  · exact ⟨by rw [List.map_singleton, List.sum_singleton], ha⟩
  · rw [List.map_append, List.sum_append, List.map_singleton, List.sum_singleton, hv.1]
    exact ⟨rfl, hv.2⟩

variable (lowercase k lists) in
theorem rrfScores_nodup : (rrfScores lowercase k lists).entries.Nodup :=
  List.NodupKeys.nodup (rrfScores lowercase k lists).nodupKeys

theorem rrfScores_keys :
    ((rrfScores lowercase k lists).entries.map Sigma.fst).Perm (recallKeys lowercase lists) := by
  have hkeys : ((rrfScores lowercase k lists).entries.map Sigma.fst).Nodup :=
    (rrfScores lowercase k lists).nodupKeys
  refine (List.perm_ext_iff_of_nodup hkeys (List.nodup_dedup _)).mpr fun key => ?_
  have hmem : key ∈ (rrfScores lowercase k lists).entries.map Sigma.fst ↔
      key ∈ rrfScores lowercase k lists := Iff.rfl
  rw [hmem, rrfScores, mem_collect, mem_placed_key]
  rfl

/-- Two entries with one key are one. -/
theorem rrfScores_unique {e e' : Fused} (he : e ∈ (rrfScores lowercase k lists).entries)
    (he' : e' ∈ (rrfScores lowercase k lists).entries) (h : e.1 = e'.1) : e = e' := by
  have hlookup : (rrfScores lowercase k lists).lookup e.1 = some e.2 := AList.mem_lookup_iff.mpr he
  have hlookup' : (rrfScores lowercase k lists).lookup e'.1 = some e'.2 := AList.mem_lookup_iff.mpr he'
  obtain ⟨key, v⟩ := e
  obtain ⟨key', v'⟩ := e'
  obtain rfl : key = key' := h
  rw [hlookup] at hlookup'
  cases hlookup'
  rfl

theorem mergeIn_eq (limit : Nat) (entries : List Fused) :
    mergeIn limit entries = (topBy (fun e : Fused => e.2.1) limit entries).map fun e => finish e.2 :=
  topBy_map fun _ _ => rfl

/-- An entry is among the first of the entries exactly if its key is among the first of the keys. -/
theorem inTop_entry_iff {e : Fused} (he : e ∈ (rrfScores lowercase k lists).entries) :
    InTop (fun e : Fused => e.2.1) limit (rrfScores lowercase k lists).entries e ↔
      InTop (totalScore lowercase k lists) limit (recallKeys lowercase lists) e.1 := by
  have habove : above (totalScore lowercase k lists)
      ((rrfScores lowercase k lists).entries.map Sigma.fst) e.1 =
        above (fun e : Fused => e.2.1) (rrfScores lowercase k lists).entries e :=
    above_map (fun c hc => (rrfScores_entry hc).1.symm) he
  unfold InTop
  rw [← habove, above_perm rrfScores_keys]
  exact and_congr_left' (iff_of_true he (rrfScores_keys.mem_iff.mp (List.mem_map_of_mem he)))

private theorem finish_inj {e e' : Fused} (he : e ∈ (rrfScores lowercase k lists).entries)
    (he' : e' ∈ (rrfScores lowercase k lists).entries) (h : finish e.2 = finish e'.2) : e = e' := by
  have hcontent : (finish e.2).content = (finish e'.2).content := congrArg RecallResult.content h
  refine rrfScores_unique he he' ?_
  rw [← (rrfScores_entry he).2, ← (rrfScores_entry he').2]
  exact congrArg (dedupKey lowercase) hcontent

/-- The total of a key is the fused score exactly if the key is at most once in each list. -/
theorem fusedScore_le (key : List Char) :
    fusedScore lowercase k lists key ≤ totalScore lowercase k lists key ∧
      (fusedScore lowercase k lists key = totalScore lowercase k lists key ↔
        ∀ list ∈ lists, list.countP (fun r => decide (dedupKey lowercase r.content = key)) ≤ 1) := by
  have hcount : ∀ list : List RecallResult,
      list.zipIdx.countP (fun e => decide (Placed.key lowercase e = key)) =
        list.countP fun r => decide (dedupKey lowercase r.content = key) := by
    intro list
    have hfst : list.zipIdx.map Prod.fst = list := List.zipIdx_map_fst 0 list
    conv_rhs => rw [← hfst, List.countP_map]
    rfl
  have hpos : ∀ l ∈ placed lists, ∀ e ∈ l, 0 < rrfContribution k e :=
    fun l _ e _ => rrfContribution_pos e
  obtain ⟨hle, heq⟩ := firstShares_le (p := fun e => decide (Placed.key lowercase e = key)) hpos
  refine ⟨hle, heq.trans ?_⟩
  unfold placed
  rw [List.forall_mem_map]
  exact forall₂_congr fun list _ => by rw [hcount]

/-- If each entry that can be among the first has its fused score, every merge is as it should be. -/
theorem fuses_of_agree {entries : List Fused}
    (hperm : entries.Perm (rrfScores lowercase k lists).entries)
    (hscore : ∀ e ∈ topBy (fun e : Fused => e.2.1) limit entries,
      e.2.1 = fusedScore lowercase k lists e.1) :
    Fuses lowercase lists k limit (mergeIn limit entries) := by
  have hmem : ∀ e ∈ topBy (fun e : Fused => e.2.1) limit entries,
      e ∈ (rrfScores lowercase k lists).entries :=
    fun e he => hperm.mem_iff.mp (inTop_of_mem he).1
  rw [mergeIn_eq]
  constructor
  · have hkeys : ((topBy (fun e : Fused => e.2.1) limit entries).map fun e => finish e.2).map
        (fun r => dedupKey lowercase r.content) =
          (topBy (fun e : Fused => e.2.1) limit entries).map Sigma.fst := by
      rw [List.map_map]
      exact List.map_congr_left fun e he => (rrfScores_entry (hmem e he)).2
    rw [hkeys]
    have hall : (entries.map Sigma.fst).Nodup :=
      ((hperm.map Sigma.fst).trans rrfScores_keys).nodup_iff.mpr (List.nodup_dedup _)
    exact nodup_map_topBy hall
  · intro r hr
    obtain ⟨e, he, rfl⟩ := List.mem_map.mp hr
    have hkey : dedupKey lowercase (finish e.2).content = e.1 := (rrfScores_entry (hmem e he)).2
    rw [hkey]
    exact hscore e he
  · rw [List.pairwise_map]
    exact topBy_ordered entries
  · rw [List.length_map, length_topBy, hperm.length_eq, ← rrfScores_keys.length_eq, List.length_map]
  · intro r hr
    obtain ⟨e, he, rfl⟩ := List.mem_map.mp hr
    have hkey : dedupKey lowercase (finish e.2).content = e.1 := (rrfScores_entry (hmem e he)).2
    rw [hkey]
    exact rrfScores_keys.mem_iff.mp (List.mem_map_of_mem (hmem e he))
  · intro key hkey hout r hr
    obtain ⟨e, he, rfl⟩ := List.mem_map.mp hr
    obtain ⟨e', he', rfl⟩ := List.mem_map.mp (rrfScores_keys.mem_iff.mpr hkey)
    have hnot : e' ∉ topBy (fun e : Fused => e.2.1) limit entries := by
      intro hin
      exact hout _ (List.mem_map_of_mem hin) (rrfScores_entry he').2
    have hbest := topBy_best he (hperm.mem_iff.mpr he') hnot
    have htotal := (rrfScores_entry he').1
    calc fusedScore lowercase k lists e'.1 ≤ totalScore lowercase k lists e'.1 := (fusedScore_le _).1
      _ = e'.2.1 := htotal.symm
      _ ≤ e.2.1 := hbest

/-- The keys of a merge are fused as they are meant to be, and the same in every run, exactly if each
key that can be among the first is at most once in each list and ties with no other. -/
theorem rrfMerge_fuses_iff (lowercase : List Char → List Char) (lists : List (List RecallResult))
    (k limit : Nat) :
    ((∀ merged, RrfMerge lowercase lists k limit merged → Fuses lowercase lists k limit merged) ∧
      ∀ merged merged', RrfMerge lowercase lists k limit merged →
        RrfMerge lowercase lists k limit merged' → merged = merged') ↔
      ∀ key, InTop (totalScore lowercase k lists) limit (recallKeys lowercase lists) key →
        (∀ list ∈ lists, list.countP (fun r => decide (dedupKey lowercase r.content = key)) ≤ 1) ∧
          ∀ key' ∈ recallKeys lowercase lists,
            totalScore lowercase k lists key' = totalScore lowercase k lists key → key' = key := by
  have hagree := topBy_agree_iff (fun e : Fused => e.2.1) limit
    (P := fun e => e.2.1 = fusedScore lowercase k lists e.1)
    (rrfScores_nodup lowercase k lists)
  constructor
  · rintro ⟨hfuses, hsame⟩ key hkey
    obtain ⟨e, he, rfl⟩ := List.mem_map.mp ((rrfScores_keys (k := k)).mem_iff.mpr hkey.1)
    have htop := (inTop_entry_iff he).mpr hkey
    have hin : ∀ {p : List Fused}, p.Perm (rrfScores lowercase k lists).entries →
        ∀ x ∈ topBy (fun e : Fused => e.2.1) limit p, x ∈ (rrfScores lowercase k lists).entries :=
      fun hp x hx => hp.mem_iff.mp (inTop_of_mem hx).1
    have hscores : ∀ p : List Fused, p.Perm (rrfScores lowercase k lists).entries →
        ∀ x ∈ topBy (fun e : Fused => e.2.1) limit p, x.2.1 = fusedScore lowercase k lists x.1 := by
      intro p hp x hx
      have hmem : finish x.2 ∈ mergeIn limit p := by
        rw [mergeIn_eq]
        exact List.mem_map_of_mem hx
      have hsum := (hfuses _ ⟨p, hp, rfl⟩).scores _ hmem
      have hcontent : dedupKey lowercase (finish x.2).content = x.1 :=
        (rrfScores_entry (hin hp x hx)).2
      rwa [hcontent] at hsum
    have horders : ∀ p q : List Fused, p.Perm (rrfScores lowercase k lists).entries →
        q.Perm (rrfScores lowercase k lists).entries →
          topBy (fun e : Fused => e.2.1) limit p = topBy (fun e : Fused => e.2.1) limit q := by
      intro p q hp hq
      have hmerge := hsame _ _ ⟨p, hp, rfl⟩ ⟨q, hq, rfl⟩
      rw [mergeIn_eq, mergeIn_eq] at hmerge
      exact map_inj_of_mem (fun _ _ hx hy => finish_inj hx hy) (hin hp) (hin hq) hmerge
    obtain ⟨hscore, htie⟩ := hagree.mp ⟨hscores, horders⟩ e htop
    rw [(rrfScores_entry he).1] at hscore
    refine ⟨(fusedScore_le e.1).2.mp hscore.symm, fun key' hkey' htotal => ?_⟩
    obtain ⟨e', he', rfl⟩ := List.mem_map.mp ((rrfScores_keys (k := k)).mem_iff.mpr hkey')
    rw [← (rrfScores_entry he).1, ← (rrfScores_entry he').1] at htotal
    rw [htie e' he' htotal]
  · intro h
    have hentries := hagree.mpr fun e he => ?_
    · refine ⟨?_, ?_⟩
      · rintro merged ⟨p, hp, rfl⟩
        exact fuses_of_agree hp (hentries.1 p hp)
      · rintro merged merged' ⟨p, hp, rfl⟩ ⟨q, hq, rfl⟩
        rw [mergeIn_eq, mergeIn_eq, hentries.2 p q hp hq]
    · obtain ⟨hcount, htie⟩ := h e.1 ((inTop_entry_iff he.1).mp he)
      refine ⟨(rrfScores_entry he.1).1.trans ((fusedScore_le e.1).2.mpr hcount).symm, ?_⟩
      intro e' he' hscore
      rw [(rrfScores_entry he.1).1, (rrfScores_entry he').1] at hscore
      exact rrfScores_unique he' he.1 (htie e'.1 (rrfScores_keys.mem_iff.mp (List.mem_map_of_mem he')) hscore)

end Merge

open Workspace.Search in
/-- Both fusions are what they are meant to be, and the same in every run, exactly if what can be among
the first has its score and ties with no other, and what a search leaves out is outdone. -/
theorem rank_fusion_meets_iff (lowercase : List Char → List Char) (lists : List (List RecallResult))
    (k limit : Nat) (ftsResults vectorResults : List RankedResult) (config : SearchConfig) :
    (((∀ merged, RrfMerge lowercase lists k limit merged → Fuses lowercase lists k limit merged) ∧
      ∀ merged merged', RrfMerge lowercase lists k limit merged →
        RrfMerge lowercase lists k limit merged' → merged = merged') ↔
      ∀ key, InTop (totalScore lowercase k lists) limit (recallKeys lowercase lists) key →
        (∀ list ∈ lists, list.countP (fun r => decide (dedupKey lowercase r.content = key)) ≤ 1) ∧
          ∀ key' ∈ recallKeys lowercase lists,
            totalScore lowercase k lists key' = totalScore lowercase k lists key → key' = key) ∧
    (((∀ results, ReciprocalRankFusion ftsResults vectorResults config results →
        Workspace.Search.Fuses ftsResults vectorResults config results) ∧
      ∀ results results', ReciprocalRankFusion ftsResults vectorResults config results →
        ReciprocalRankFusion ftsResults vectorResults config results' → results = results') ↔
      (∀ id, InTop (chunkScore ftsResults vectorResults config) config.limit
          (passing ftsResults vectorResults config (chunkScore ftsResults vectorResults config)) id →
        chunkScore ftsResults vectorResults config id = meantScore ftsResults vectorResults config id ∧
          ∀ id' ∈ passing ftsResults vectorResults config
              (chunkScore ftsResults vectorResults config),
            chunkScore ftsResults vectorResults config id' =
              chunkScore ftsResults vectorResults config id → id' = id) ∧
      ∀ id ∈ passing ftsResults vectorResults config (meantScore ftsResults vectorResults config),
        InTop (chunkScore ftsResults vectorResults config) config.limit
            (passing ftsResults vectorResults config (chunkScore ftsResults vectorResults config)) id ∨
          Outdone (meantScore ftsResults vectorResults config) (passes config.minScore) config.limit
            (chunkScore ftsResults vectorResults config) (chunkIds ftsResults vectorResults) id) :=
  ⟨rrfMerge_fuses_iff lowercase lists k limit, fusion_fuses_iff ftsResults vectorResults config⟩

private def tied (content : List Char) : List RecallResult := [⟨content, .memoryStream, 1, .null⟩]

private def found (n : Nat) : List Workspace.Search.RankedResult :=
  [⟨.ofNat n, .ofNat 0, [], 1, le_rfl⟩]

/-- Two results that are both first in their lists compete for one place; a result is in its list
twice. -/
theorem first_places_shared :
    (¬((∀ merged, RrfMerge id [tied ['a'], tied ['b']] 60 1 merged →
        Fuses id [tied ['a'], tied ['b']] 60 1 merged) ∧
      ∀ merged merged', RrfMerge id [tied ['a'], tied ['b']] 60 1 merged →
        RrfMerge id [tied ['a'], tied ['b']] 60 1 merged' → merged = merged')) ∧
    (¬((∀ merged, RrfMerge id [tied ['a'] ++ tied ['a']] 60 1 merged →
        Fuses id [tied ['a'] ++ tied ['a']] 60 1 merged) ∧
      ∀ merged merged', RrfMerge id [tied ['a'] ++ tied ['a']] 60 1 merged →
        RrfMerge id [tied ['a'] ++ tied ['a']] 60 1 merged' → merged = merged')) ∧
    ¬((∀ results, Workspace.Search.ReciprocalRankFusion (found 1) (found 2) ⟨1, 60, 0⟩ results →
        Workspace.Search.Fuses (found 1) (found 2) ⟨1, 60, 0⟩ results) ∧
      ∀ results results',
        Workspace.Search.ReciprocalRankFusion (found 1) (found 2) ⟨1, 60, 0⟩ results →
          Workspace.Search.ReciprocalRankFusion (found 1) (found 2) ⟨1, 60, 0⟩ results' →
            results = results') := by
  refine ⟨fun h => ?_, fun h => ?_, fun h => ?_⟩
  · have hplaces := (rrfMerge_fuses_iff id _ 60 1).mp h ['a'] ⟨by decide +kernel, by decide +kernel⟩
    have hsame := hplaces.2 ['b'] (by decide +kernel) (by decide +kernel)
    exact absurd hsame (by decide)
  · have hplaces := (rrfMerge_fuses_iff id _ 60 1).mp h ['a'] ⟨by decide +kernel, by decide +kernel⟩
    exact absurd (hplaces.1 _ List.mem_cons_self) (by decide +kernel)
  · have hplaces := (Workspace.Search.fusion_fuses_iff _ _ _).mp h
    have htie := (hplaces.1 (.ofNat 1) ⟨by decide +kernel, by decide +kernel⟩).2 (.ofNat 2)
      (by decide +kernel) (by decide +kernel)
    exact absurd htie (by decide +kernel)

end Gyre.Cognitive
