/- digest: Searching a text for many words at once, without overlaps. -/

import Mathlib.Algebra.GroupWithZero.Nat
import Mathlib.Data.List.Basic

set_option autoImplicit false
set_option relaxedAutoImplicit false

namespace Gyre.Lib.PrefixSearch

/-- A word found in a text: its index, and where it starts and stops in bytes. -/
structure Hit where
  word : Nat
  start : Nat
  stop : Nat
  deriving DecidableEq, Repr

/-- The longest word that ends here, and the first of several equal ones; `seen` is the text so far,
from the last character back. -/
def wordEnding (words : List (List Char)) (seen : List Char) : Option (Nat × List Char) :=
  (words.zipIdx.filter fun w => w.1.reverse.isPrefixOf seen).foldl
    (fun best w =>
      match best with
      | none => some (w.2, w.1)
      | some b => if w.1.length > b.2.length then some (w.2, w.1) else some b)
    none

/-- Words in the order in which their ends come up; the search starts anew after each. -/
def hitsFrom (words : List (List Char)) :
    (seen : List Char) → (offset : Nat) → List Char → List Hit
  | _, _, [] => []
  | seen, offset, c :: rest =>
    let here := offset + c.utf8Size
    match wordEnding words (c :: seen) with
    | some (i, word) =>
      ⟨i, here - (word.map Char.utf8Size).sum, here⟩ :: hitsFrom words [] here rest
    | none => hitsFrom words (c :: seen) here rest

/-- `AhoCorasick::find_iter` with the standard kind of match. No word is empty. -/
def findIter (words : List (List Char)) (content : List Char) : List Hit :=
  hitsFrom words [] 0 content

section Endings

variable {words : List (List Char)} {seen : List Char}

private theorem keepLongest (ws : List (List Char × Nat)) (best : Option (Nat × List Char)) :
    let found := ws.foldl (fun best w =>
      match best with
      | none => some (w.2, w.1)
      | some b => if w.1.length > b.2.length then some (w.2, w.1) else some b) best
    (∀ f, found = some f → best = some f ∨ (f.2, f.1) ∈ ws) ∧
      (∀ w, (∃ b, best = some b ∧ w = b.2) ∨ w ∈ ws.map Prod.fst →
        ∃ f, found = some f ∧ w.length ≤ f.2.length) := by
  induction ws generalizing best with
  | nil =>
    refine ⟨fun f hf => .inl hf, fun w hw => ?_⟩
    rcases hw with ⟨b, hb, rfl⟩ | hw
    · exact ⟨b, hb, Nat.le_refl _⟩
    · cases hw
  | cons v ws ih =>
    rw [List.foldl_cons]
    cases best with
    | none =>
      obtain ⟨hmem, hlongest⟩ := ih (some (v.2, v.1))
      refine ⟨fun f hf => ?_, fun w hw => ?_⟩
      · rcases hmem f hf with heq | hin
        · cases heq
          exact .inr List.mem_cons_self
        · exact .inr (List.mem_cons_of_mem v hin)
      · apply hlongest
        rcases hw with ⟨b, hb, -⟩ | hw
        · cases hb
        · rcases List.mem_cons.mp hw with rfl | hw
          · exact .inl ⟨(v.2, v.1), rfl, rfl⟩
          · exact .inr hw
    | some b =>
      dsimp only
      by_cases hlonger : v.1.length > b.2.length
      · rw [if_pos hlonger]
        obtain ⟨hmem, hlongest⟩ := ih (some (v.2, v.1))
        refine ⟨fun f hf => ?_, fun w hw => ?_⟩
        · rcases hmem f hf with heq | hin
          · cases heq
            exact .inr List.mem_cons_self
          · exact .inr (List.mem_cons_of_mem v hin)
        · rcases hw with ⟨b', hb', rfl⟩ | hw
          · cases hb'
            obtain ⟨f, hf, hle⟩ := hlongest v.1 (.inl ⟨(v.2, v.1), rfl, rfl⟩)
            exact ⟨f, hf, by omega⟩
          · rcases List.mem_cons.mp hw with rfl | hw
            · exact hlongest v.1 (.inl ⟨(v.2, v.1), rfl, rfl⟩)
            · exact hlongest w (.inr hw)
      · rw [if_neg hlonger]
        obtain ⟨hmem, hlongest⟩ := ih (some b)
        refine ⟨fun f hf => ?_, fun w hw => ?_⟩
        · rcases hmem f hf with heq | hin
          · exact .inl heq
          · exact .inr (List.mem_cons_of_mem v hin)
        · rcases hw with ⟨b', hb', rfl⟩ | hw
          · exact hlongest _ (.inl ⟨b', hb', rfl⟩)
          · rcases List.mem_cons.mp hw with rfl | hw
            · obtain ⟨f, hf, hle⟩ := hlongest b.2 (.inl ⟨b, rfl, rfl⟩)
              exact ⟨f, hf, by omega⟩
            · exact hlongest w (.inr hw)

theorem mem_of_wordEnding {i : Nat} {w : List Char} (h : wordEnding words seen = some (i, w)) :
    words[i]? = some w ∧ w.reverse <+: seen := by
  rcases (keepLongest _ none).1 (i, w) h with hnone | hmem
  · cases hnone
  · obtain ⟨hzip, hends⟩ := List.mem_filter.mp hmem
    exact ⟨List.mem_zipIdx_iff_getElem?.mp hzip, List.isPrefixOf_iff_prefix.mp hends⟩

theorem wordEnding_of_mem {v : List Char} (hv : v ∈ words) (hends : v.reverse <+: seen) :
    ∃ i w, wordEnding words seen = some (i, w) ∧ v.length ≤ w.length := by
  obtain ⟨j, hj⟩ := List.mem_iff_getElem?.mp hv
  have hzip : (v, j) ∈ words.zipIdx := List.mem_zipIdx_iff_getElem?.mpr hj
  have hfilter : (v, j) ∈ words.zipIdx.filter fun w => w.1.reverse.isPrefixOf seen :=
    List.mem_filter.mpr ⟨hzip, List.isPrefixOf_iff_prefix.mpr hends⟩
  obtain ⟨f, hf, hle⟩ := (keepLongest _ none).2 v (.inr (List.mem_map_of_mem (f := Prod.fst) hfilter))
  exact ⟨f.1, f.2, hf, hle⟩

end Endings

section Hits

variable {words : List (List Char)}

/-- What is found stands in the text. -/
theorem infix_of_mem_hitsFrom {seen rest : List Char} {offset : Nat} {hit : Hit}
    (h : hit ∈ hitsFrom words seen offset rest) :
    ∃ w, words[hit.word]? = some w ∧ w <:+: seen.reverse ++ rest := by
  induction rest generalizing seen offset with
  | nil => cases h
  | cons c rest ih =>
    rw [hitsFrom] at h
    have hshift : (c :: seen).reverse ++ rest = seen.reverse ++ c :: rest := by simp
    cases hword : wordEnding words (c :: seen) with
    | none =>
      simp only [hword] at h
      obtain ⟨w, hw, hpart⟩ := ih h
      exact ⟨w, hw, hshift ▸ hpart⟩
    | some found =>
      simp only [hword] at h
      rcases List.mem_cons.mp h with rfl | h
      · obtain ⟨hw, hends⟩ := mem_of_wordEnding hword
        have hsuffix : found.2 <:+ (c :: seen).reverse := by
          rw [← List.reverse_prefix, List.reverse_reverse]
          exact hends
        refine ⟨found.2, hw, ?_⟩
        rw [← hshift]
        exact hsuffix.isInfix.trans (List.prefix_append _ _).isInfix
      · obtain ⟨w, hw, hpart⟩ := ih h
        have htail : [] ++ rest <:+: seen.reverse ++ c :: rest := by
          rw [List.nil_append]
          exact ((List.suffix_cons c rest).trans (List.suffix_append _ _)).isInfix
        exact ⟨w, hw, hpart.trans htail⟩

theorem infix_of_mem_findIter {content : List Char} {hit : Hit} (h : hit ∈ findIter words content) :
    ∃ w, words[hit.word]? = some w ∧ w <:+: content := infix_of_mem_hitsFrom h

def size (s : List Char) : Nat := (s.map Char.utf8Size).sum

theorem size_append (s t : List Char) : size (s ++ t) = size s + size t := by
  unfold size
  rw [List.map_append, List.sum_append]

/-- No word ends within a word that stands behind a text, and none that ends with it is longer. -/
structure Undisturbed (words : List (List Char)) (before w : List Char) : Prop where
  within : ∀ v ∈ words, ∀ x y, w = x ++ y → x ≠ [] → y ≠ [] → ¬ v <:+ before ++ x
  longest : ∀ v ∈ words, v <:+ before ++ w → v.length ≤ w.length

private theorem ends_of_reverse_begins {v seen before x : List Char}
    (hseen : seen.reverse <:+ before) (h : v.reverse <+: x.reverse ++ seen) : v <:+ before ++ x := by
  have hsuffix : v <:+ seen.reverse ++ x := by
    rw [← List.reverse_prefix, List.reverse_append, List.reverse_reverse]
    exact h
  obtain ⟨front, rfl⟩ := hseen
  rw [List.append_assoc]
  exact hsuffix.trans (List.suffix_append _ _)

/-- The end of an undisturbed word is found where it comes. -/
private theorem exists_hit_within {before w x y seen after : List Char} {offset : Nat} (hw : w ∈ words)
    (hclear : Undisturbed words before w) (hsplit : w = x ++ y) (hy : y ≠ [])
    (hseen : seen.reverse <:+ before) :
    ∃ hit ∈ hitsFrom words (x.reverse ++ seen) (offset + size x) (y ++ after),
      words[hit.word]? = some w ∧ hit.start = offset := by
  induction y generalizing x with
  | nil => exact absurd rfl hy
  | cons c y ih =>
    have hmore : c :: (x.reverse ++ seen) = (x ++ [c]).reverse ++ seen := by simp
    have hsize : offset + size x + c.utf8Size = offset + size (x ++ [c]) := by
      rw [size_append, Nat.add_assoc]
      rfl
    rw [List.cons_append, hitsFrom]
    cases y with
    | nil =>
      subst hsplit
      have hends : (x ++ [c]).reverse <+: c :: (x.reverse ++ seen) := by
        rw [hmore]
        exact List.prefix_append _ _
      obtain ⟨i, v, hfound, hle⟩ := wordEnding_of_mem hw hends
      obtain ⟨hv, hvends⟩ := mem_of_wordEnding hfound
      have hvsuffix : v <:+ before ++ (x ++ [c]) := by
        rw [hmore] at hvends
        exact ends_of_reverse_begins hseen hvends
      have hlength : v.length = (x ++ [c]).length :=
        Nat.le_antisymm (hclear.longest v (List.mem_of_getElem? hv) hvsuffix) hle
      have heq : v = x ++ [c] :=
        (List.suffix_of_suffix_length_le hvsuffix (List.suffix_append _ _)
          (Nat.le_of_eq hlength)).eq_of_length hlength
      simp only [hfound]
      refine ⟨_, List.mem_cons_self, by rw [hv, heq], ?_⟩
      have hword : (v.map Char.utf8Size).sum = size (x ++ [c]) := by
        rw [heq]
        rfl
      dsimp only
      rw [hword, hsize, Nat.add_sub_cancel]
    | cons d y =>
      have hsplit' : w = (x ++ [c]) ++ d :: y := by
        rw [hsplit]
        simp
      have hnone : wordEnding words (c :: (x.reverse ++ seen)) = none := by
        cases hfound : wordEnding words (c :: (x.reverse ++ seen)) with
        | none => rfl
        | some found =>
          obtain ⟨hv, hvends⟩ := mem_of_wordEnding hfound
          rw [hmore] at hvends
          exact absurd (ends_of_reverse_begins hseen hvends) (hclear.within _
            (List.mem_of_getElem? hv) _ _ hsplit' (by simp) (List.cons_ne_nil d y))
      simp only [hnone]
      rw [hmore, hsize]
      exact ih hsplit' (List.cons_ne_nil d y)

theorem exists_hit {before w seen front after : List Char} {offset : Nat} (hw : w ∈ words)
    (hne : w ≠ []) (hclear : Undisturbed words (before ++ front) w) (hseen : seen.reverse <:+ before) :
    ∃ hit ∈ hitsFrom words seen offset (front ++ (w ++ after)),
      words[hit.word]? = some w ∧ hit.start = offset + size front := by
  induction front generalizing before seen offset with
  | nil =>
    rw [List.append_nil] at hclear
    have hwithin : ∃ hit ∈ hitsFrom words (([] : List Char).reverse ++ seen) (offset + size [])
        (w ++ after), words[hit.word]? = some w ∧ hit.start = offset :=
      exists_hit_within hw hclear rfl hne hseen
    exact hwithin
  | cons c front ih =>
    have hbefore : before ++ c :: front = (before ++ [c]) ++ front := by simp
    rw [hbefore] at hclear
    have hsize : offset + size (c :: front) = offset + c.utf8Size + size front := by
      rw [Nat.add_assoc]
      rfl
    rw [List.cons_append, hitsFrom, hsize]
    cases hfound : wordEnding words (c :: seen) with
    | none =>
      have hseen' : (c :: seen).reverse <:+ before ++ [c] := by
        obtain ⟨start, rfl⟩ := hseen
        exact ⟨start, by simp⟩
      simp only
      exact ih hclear hseen'
    | some found =>
      have hnil : ([] : List Char).reverse <:+ before ++ [c] := List.nil_suffix
      obtain ⟨hit, hhit, hword, hstart⟩ := ih hclear hnil
      simp only
      exact ⟨hit, List.mem_cons_of_mem _ hhit, hword, hstart⟩

/-- A word that nothing disturbs is found where it stands. -/
theorem exists_mem_findIter {before w : List Char} (after : List Char) (hw : w ∈ words) (hne : w ≠ [])
    (hclear : Undisturbed words before w) :
    ∃ hit ∈ findIter words (before ++ (w ++ after)),
      words[hit.word]? = some w ∧ hit.start = size before := by
  have hhit : ∃ hit ∈ hitsFrom words [] 0 (before ++ (w ++ after)),
      words[hit.word]? = some w ∧ hit.start = 0 + size before :=
    exists_hit hw hne (List.nil_append before ▸ hclear) List.nil_suffix
  rw [Nat.zero_add] at hhit
  exact hhit

end Hits

end Gyre.Lib.PrefixSearch
