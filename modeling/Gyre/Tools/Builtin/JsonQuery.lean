/- digest: The query of the json tool, and what following a path step by step gives. -/

import Gyre.Lib.Decimal
import Gyre.Lib.Text
import Gyre.Tools.Builtin.Call

set_option autoImplicit false
set_option relaxedAutoImplicit false

namespace Gyre.Tools.Builtin.JsonQuery

open Gyre.Llm Gyre.Lib

section Querying

/-- `Value::get` with an index. -/
def item (v : Json) (index : Nat) : Option Json :=
  match v with
  | .array items => items[index]?
  | _ => none

/-- `trim_end_matches(']')` -/
def trimClosing (s : List Char) : List Char := (s.reverse.dropWhile (· == ']')).reverse

def getField (current : Json) (field : List Char) : Except CallError Json :=
  match current.get (String.ofList field) with
  | some v => .ok v
  | none => .error (.executionFailed s!"field not found: {String.ofList field}")

def getItem (current : Json) (indexStr : List Char) : Except CallError Json :=
  match Decimal.parse UInt64.size indexStr with
  | none => .error (.invalidParameters s!"invalid array index: {String.ofList indexStr}")
  | some index =>
    match item current index with
    | some v => .ok v
    | none => .error (.executionFailed s!"array index out of bounds: {index}")

/-- One segment: nothing, a field, or a field that may be empty with an index. -/
def querySegment (current : Json) (segment : List Char) : Except CallError Json :=
  if segment = [] then .ok current
  else match Text.splitFirst ['['] segment with
    | some (field, indexStr) => do
      let reached ← if field = [] then .ok current else getField current field
      getItem reached (trimClosing indexStr)
    | none => getField current segment

def queryJson (data : Json) (path : List Char) : Except CallError Json :=
  (path.splitOn '.').foldlM querySegment data

end Querying

section Paths

/-- A key without dots and brackets. -/
structure Key where
  text : List Char
  plain : '.' ∉ text ∧ '[' ∉ text ∧ ']' ∉ text

inductive PathStep where
  | key (k : Key)
  | index (i : Nat)

def PathStep.follow (v : Json) : PathStep → Option Json
  | .key k => v.get (String.ofList k.text)
  | .index i => item v i

/-- The value that the steps lead to, one by one. -/
def follow (v : Json) (path : List PathStep) : Option Json := path.foldlM PathStep.follow v

def indexText (i : Nat) : List Char := '[' :: Decimal.print i ++ [']']

/-- The text of the steps behind others. -/
def restText : List PathStep → List Char
  | [] => []
  | .key k :: rest => '.' :: k.text ++ restText rest
  | .index i :: rest => indexText i ++ restText rest

/-- The textual form of a path: a dot stands before every key but a first step. -/
def pathText : List PathStep → List Char
  | .key k :: rest => k.text ++ restText rest
  | path => restText path

/-- A step that is not a key without characters. -/
def PathStep.named : PathStep → Bool
  | .key k => !k.text.isEmpty
  | .index _ => true

def PathStep.isIndex : PathStep → Bool
  | .key _ => false
  | .index _ => true

/-- An index that follows an index, or one that is not of the machine's size. -/
def unreadable : List PathStep → Bool
  | [] => false
  | .key _ :: rest => unreadable rest
  | .index i :: rest => decide (UInt64.size ≤ i) || (rest.head?.any PathStep.isIndex) || unreadable rest

end Paths

section Segments

/-- A segment: a key that may be empty, with indexes. -/
def segmentText (key : List Char) (indexes : List Nat) : List Char := key ++ indexes.flatMap indexText

/-- The steps of a segment; an empty key is none. -/
def segmentSteps (k : Key) (indexes : List Nat) : List PathStep :=
  (if k.text.isEmpty then [] else [PathStep.key k]) ++ indexes.map .index

def emptyKey : Key := ⟨[], by simp⟩

/-- The segments of a path behind the one that has been begun. -/
def segments : Key → List Nat → List PathStep → List (Key × List Nat)
  | k, indexes, [] => [(k, indexes)]
  | k, indexes, .key k' :: rest => (k, indexes) :: segments k' [] rest
  | k, indexes, .index i :: rest => segments k (indexes ++ [i]) rest

theorem dot_notMem_indexText (i : Nat) : '.' ∉ indexText i := by
  unfold indexText
  intro hmem
  rcases List.mem_append.mp hmem with hmem | hmem
  · rcases List.mem_cons.mp hmem with hdot | hmem
    · exact absurd hdot (by decide)
    · exact absurd (Decimal.isDigit_of_mem_print hmem) (by decide)
  · exact absurd (List.mem_singleton.mp hmem) (by decide)

theorem dot_notMem_segmentText (k : Key) (indexes : List Nat) : '.' ∉ segmentText k.text indexes := by
  unfold segmentText
  intro hmem
  rcases List.mem_append.mp hmem with hmem | hmem
  · exact k.plain.1 hmem
  · obtain ⟨i, -, hi⟩ := List.mem_flatMap.mp hmem
    exact dot_notMem_indexText i hi

theorem segmentText_snoc (key : List Char) (indexes : List Nat) (i : Nat) :
    segmentText key indexes ++ indexText i = segmentText key (indexes ++ [i]) := by
  unfold segmentText
  rw [List.flatMap_append, List.flatMap_singleton, List.append_assoc]

/-- The text behind a segment that has been begun splits into the segments. -/
theorem splitOn_restText (k : Key) (indexes : List Nat) (path : List PathStep) :
    (segmentText k.text indexes ++ restText path).splitOn '.' =
      (segments k indexes path).map fun s => segmentText s.1.text s.2 := by
  induction path generalizing k indexes with
  | nil =>
    rw [restText, List.append_nil, List.splitOn_eq_singleton (dot_notMem_segmentText k indexes)]
    rfl
  | cons step rest ih =>
    cases step with
    | key k' =>
      have hkey : k'.text = segmentText k'.text [] := (List.append_nil _).symm
      have htext : restText (.key k' :: rest) = '.' :: (segmentText k'.text [] ++ restText rest) := by
        rw [← hkey]
        rfl
      rw [htext, List.splitOn_append_cons_self_of_not_mem (dot_notMem_segmentText k indexes), ih]
      rfl
    | index i =>
      rw [restText, ← List.append_assoc, segmentText_snoc, ih]
      rfl

/-- A path's text is that of its segments; one that is begun with a key has an empty one in front that
the query passes over. -/
theorem queryJson_pathText (v : Json) (path : List PathStep) :
    queryJson v (pathText path) =
      ((segments emptyKey [] path).map fun s => segmentText s.1.text s.2).foldlM querySegment v := by
  have hempty : ∀ s, s = segmentText emptyKey.text [] ++ s := fun s => rfl
  unfold queryJson
  cases path with
  | nil => rfl
  | cons step rest =>
    cases step with
    | key k =>
      have hkey : pathText (.key k :: rest) = segmentText k.text [] ++ restText rest := by
        unfold segmentText
        rw [List.flatMap_nil, List.append_nil]
        rfl
      rw [hkey, splitOn_restText]
      rfl
    | index i =>
      have htext : pathText (.index i :: rest) =
          segmentText emptyKey.text [] ++ restText (.index i :: rest) := rfl
      rw [htext, splitOn_restText]

end Segments

section Steps

variable {v : Json}

theorem follow_append (v : Json) (p q : List PathStep) :
    follow v (p ++ q) = (follow v p).bind fun w => follow w q := List.foldlM_append

theorem getField_toOption (v : Json) (field : List Char) :
    (getField v field).toOption = v.get (String.ofList field) := by
  unfold getField
  cases v.get (String.ofList field) with
  | none => rfl
  | some w => rfl

theorem getItem_toOption (v : Json) (s : List Char) :
    (getItem v s).toOption = (Decimal.parse UInt64.size s).bind (item v) := by
  unfold getItem
  cases Decimal.parse UInt64.size s with
  | none => rfl
  | some index =>
    dsimp only [Option.bind_some]
    cases item v index with
    | none => rfl
    | some w => rfl

theorem splitFirst_bracket {front rest : List Char} (h : '[' ∉ front) :
    Text.splitFirst ['['] (front ++ '[' :: rest) = some (front, rest) := by
  induction front with
  | nil => rw [List.nil_append, Text.splitFirst, if_pos (by simp)]; rfl
  | cons c front ih =>
    obtain ⟨hc, hfront⟩ := not_or.mp fun hmem => h (List.mem_cons.mpr hmem)
    rw [List.cons_append, Text.splitFirst, if_neg, ih hfront]
    · rfl
    · simp [hc]

theorem splitFirst_none {s : List Char} (h : '[' ∉ s) : Text.splitFirst ['['] s = none := by
  induction s with
  | nil => rfl
  | cons c s ih =>
    obtain ⟨hc, hs⟩ := not_or.mp fun hmem => h (List.mem_cons.mpr hmem)
    rw [Text.splitFirst, if_neg, ih hs]
    · rfl
    · simp [hc]

/-- What is not a closing bracket stays when closing brackets are trimmed from the end. -/
theorem mem_trimClosing {c : Char} {s : List Char} (hc : c ∈ s) (hne : c ≠ ']') : c ∈ trimClosing s := by
  unfold trimClosing
  rw [List.mem_reverse]
  have hmem : c ∈ s.reverse := List.mem_reverse.mpr hc
  rw [← List.takeWhile_append_dropWhile (p := (· == ']')) (l := s.reverse)] at hmem
  rcases List.mem_append.mp hmem with htaken | hrest
  · have hclose := List.mem_takeWhile_imp htaken
    exact absurd (beq_iff_eq.mp hclose) hne
  · exact hrest

theorem trimClosing_index (i : Nat) : trimClosing (Decimal.print i ++ [']']) = Decimal.print i := by
  have hclose : ∀ c ∈ Decimal.print i, (c == ']') = false := by
    intro c hc
    rw [beq_eq_false_iff_ne]
    rintro rfl
    exact absurd (Decimal.isDigit_of_mem_print hc) (by decide)
  unfold trimClosing
  rw [List.reverse_append, List.reverse_singleton, List.singleton_append, List.dropWhile_cons,
    if_pos (beq_self_eq_true ']')]
  have hstop : (Decimal.print i).reverse.dropWhile (· == ']') = (Decimal.print i).reverse := by
    cases hdigits : (Decimal.print i).reverse with
    | nil => rfl
    | cons c cs =>
      have hc : c ∈ Decimal.print i := List.mem_reverse.mp (hdigits ▸ List.mem_cons_self)
      rw [List.dropWhile_cons, hclose c hc]
      rfl
  rw [hstop, List.reverse_reverse]

/-- A segment with one index. -/
theorem querySegment_index (k : Key) (i : Nat) :
    (querySegment v (segmentText k.text [i])).toOption =
      if i < UInt64.size then follow v (segmentSteps k [i]) else none := by
  have htext : segmentText k.text [i] = k.text ++ '[' :: (Decimal.print i ++ [']']) := by
    unfold segmentText indexText
    simp
  have hne : k.text ++ '[' :: (Decimal.print i ++ [']']) ≠ [] := by simp
  have hparse := Decimal.parse_print UInt64.size i
  unfold querySegment
  rw [htext, if_neg hne, splitFirst_bracket k.plain.2.1]
  dsimp only
  rw [trimClosing_index]
  unfold segmentSteps
  by_cases hk : k.text = []
  · rw [if_pos hk, hk]
    change (getItem v _).toOption = _
    rw [getItem_toOption, hparse]
    split
    · change item v i = follow v [.index i]
      simp [follow, PathStep.follow]
    · rfl
  · have hkey : k.text.isEmpty = false := by simpa using hk
    rw [if_neg hk, hkey]
    have hfield := getField_toOption v k.text
    cases hget : getField v k.text with
    | error e =>
      rw [hget] at hfield
      have hnone : follow v (.key k :: [.index i]) = none := by
        have hstop : PathStep.follow v (.key k) = none := hfield.symm
        unfold follow
        rw [List.foldlM_cons, hstop]
        rfl
      change none = _
      split
      · exact hnone.symm
      · rfl
    | ok w =>
      rw [hget] at hfield
      have hstep : PathStep.follow v (.key k) = some w := hfield.symm
      change (getItem w _).toOption = _
      rw [getItem_toOption, hparse]
      split
      · have hpath : follow v (.key k :: [.index i]) = follow w [.index i] := by
          unfold follow
          rw [List.foldlM_cons, hstep]
          rfl
        change item w i = follow v (.key k :: [.index i])
        rw [hpath]
        simp [follow, PathStep.follow]
      · rfl

/-- A segment with several indexes is refused. -/
theorem querySegment_indexes (k : Key) (i j : Nat) (indexes : List Nat) :
    (querySegment v (segmentText k.text (i :: j :: indexes))).toOption = none := by
  have htext : segmentText k.text (i :: j :: indexes) =
      k.text ++ '[' :: (Decimal.print i ++ [']'] ++ (j :: indexes).flatMap indexText) := by
    unfold segmentText indexText
    simp
  have hne : k.text ++ '[' :: (Decimal.print i ++ [']'] ++ (j :: indexes).flatMap indexText) ≠ [] := by
    simp
  have hbracket : '[' ∈ Decimal.print i ++ [']'] ++ (j :: indexes).flatMap indexText := by
    simp [indexText]
  have hparse : Decimal.parse UInt64.size
      (trimClosing (Decimal.print i ++ [']'] ++ (j :: indexes).flatMap indexText)) = none :=
    Decimal.parse_of_mem (mem_trimClosing hbracket (by decide)) (by decide) (by decide)
  unfold querySegment
  rw [htext, if_neg hne, splitFirst_bracket k.plain.2.1]
  dsimp only
  have hitem : ∀ w, (getItem w
      (trimClosing (Decimal.print i ++ [']'] ++ (j :: indexes).flatMap indexText))).toOption = none := by
    intro w
    rw [getItem_toOption, hparse]
    rfl
  by_cases hk : k.text = []
  · rw [if_pos hk]
    exact hitem v
  · rw [if_neg hk]
    cases getField v k.text with
    | error e => rfl
    | ok w => exact hitem w

/-- A segment is queried as its steps are followed, unless it cannot be read. -/
theorem querySegment_toOption (k : Key) (indexes : List Nat) :
    (querySegment v (segmentText k.text indexes)).toOption =
      if unreadable (indexes.map .index) then none else follow v (segmentSteps k indexes) := by
  match indexes with
  | [] =>
    have htext : segmentText k.text [] = k.text := List.append_nil _
    rw [htext]
    unfold querySegment segmentSteps
    by_cases hk : k.text = []
    · rw [if_pos hk, hk]
      rfl
    · have hkey : k.text.isEmpty = false := by simpa using hk
      rw [if_neg hk, splitFirst_none k.plain.2.1, hkey]
      dsimp only
      rw [getField_toOption]
      change v.get _ = follow v [.key k]
      simp [follow, PathStep.follow]
  | [i] =>
    have hread : unreadable ([i].map PathStep.index) = decide (UInt64.size ≤ i) := by
      simp only [List.map_cons, List.map_nil, unreadable, List.head?_nil, Option.any_none, Bool.or_false]
    rw [querySegment_index, hread]
    by_cases hi : i < UInt64.size
    · rw [if_pos hi, decide_eq_false (Nat.not_le.mpr hi), if_neg Bool.false_ne_true]
    · rw [if_neg hi, decide_eq_true (Nat.le_of_not_lt hi), if_pos rfl]
  | i :: j :: indexes =>
    rw [querySegment_indexes]
    simp [unreadable, PathStep.isIndex]

end Steps

section Segmentation

theorem unreadable_append_key (indexes : List Nat) (k : Key) (rest : List PathStep) :
    unreadable (indexes.map .index ++ .key k :: rest) =
      (unreadable (indexes.map .index) || unreadable rest) := by
  induction indexes with
  | nil => rfl
  | cons i indexes ih =>
    rw [List.map_cons, List.cons_append, unreadable, unreadable, ih]
    cases indexes with
    | nil => simp [PathStep.isIndex, unreadable]
    | cons j indexes => simp [PathStep.isIndex]

theorem segmentSteps_snoc (k : Key) (indexes : List Nat) (i : Nat) :
    segmentSteps k (indexes ++ [i]) = segmentSteps k indexes ++ [.index i] := by
  unfold segmentSteps
  rw [List.map_append, List.append_assoc]
  rfl

/-- All segments: what cannot be read is refused, the rest is followed without empty keys. -/
theorem querySegments_toOption (v : Json) (k : Key) (indexes : List Nat) (path : List PathStep) :
    (((segments k indexes path).map fun s => segmentText s.1.text s.2).foldlM querySegment v).toOption =
      if unreadable (indexes.map .index ++ path) then none
      else follow v (segmentSteps k indexes ++ path.filter PathStep.named) := by
  induction path generalizing v k indexes with
  | nil =>
    have hone : ([(k, indexes)].map fun s => segmentText s.1.text s.2).foldlM querySegment v =
        querySegment v (segmentText k.text indexes) := by
      rw [List.map_singleton, List.foldlM_cons]
      exact bind_pure _
    rw [segments, hone, querySegment_toOption, List.append_nil, List.filter_nil, List.append_nil]
  | cons step rest ih =>
    cases step with
    | index i =>
      have hsteps : indexes.map PathStep.index ++ .index i :: rest =
          (indexes ++ [i]).map PathStep.index ++ rest := by simp
      rw [segments, ih, hsteps, segmentSteps_snoc, List.append_assoc]
      rfl
    | key k' =>
      have hfirst := querySegment_toOption (v := v) k indexes
      have hkeys : segmentSteps k' [] ++ rest.filter PathStep.named =
          (PathStep.key k' :: rest).filter PathStep.named := by
        have hnamed : PathStep.named (.key k') = !k'.text.isEmpty := rfl
        unfold segmentSteps
        rw [List.filter_cons, hnamed]
        cases k'.text.isEmpty with
        | true => rfl
        | false => rfl
      rw [segments, List.map_cons, List.foldlM_cons, unreadable_append_key, follow_append, ← hkeys]
      cases hquery : querySegment v (segmentText k.text indexes) with
      | error e =>
        rw [hquery] at hfirst
        change none = _
        cases hread : unreadable (indexes.map .index) with
        | true => rfl
        | false =>
          rw [hread, if_neg Bool.false_ne_true] at hfirst
          rw [← hfirst]
          exact (ite_self _).symm
      | ok w =>
        rw [hquery] at hfirst
        have hread : unreadable (indexes.map .index) = false := by
          by_contra htrue
          rw [if_pos (Bool.of_not_eq_false htrue)] at hfirst
          cases hfirst
        rw [hread, if_neg Bool.false_ne_true] at hfirst
        rw [hread, ← hfirst]
        exact ih w k' []

end Segmentation

/-- A path's text gives what following its steps gives, and fails where that does, exactly if this
holds: the path leads nowhere, if an index follows an index or is not below `2 ^ 64`; or else the steps
without empty keys lead to the same as all of them. -/
theorem queryJson_follows_iff (v : Json) (path : List PathStep) :
    (queryJson v (pathText path)).toOption = follow v path ↔
      if unreadable path then follow v path = none
      else follow v (path.filter PathStep.named) = follow v path := by
  have hquery := querySegments_toOption v emptyKey [] path
  rw [← queryJson_pathText, List.map_nil, List.nil_append] at hquery
  have hsteps : segmentSteps emptyKey [] ++ path.filter PathStep.named = path.filter PathStep.named := rfl
  rw [hquery, hsteps]
  split
  · exact eq_comm
  · exact Iff.rfl

/-- An index behind an index is refused. -/
theorem nested_index_refused :
    let v : Json := .object [("a", .array [.array [.null, .bool true]])]
    let path : List PathStep := [.key ⟨['a'], by decide⟩, .index 0, .index 1]
    pathText path = "a[0][1]".toList ∧ follow v path = some (.bool true) ∧
      queryJson v (pathText path) = .error (.invalidParameters "invalid array index: 0][1") := by
  refine ⟨by decide +kernel, by decide +kernel, by decide +kernel⟩

end Gyre.Tools.Builtin.JsonQuery
