/- digest: Text as lists of characters: searching, trimming and lower-casing. -/

import Mathlib.Algebra.GroupWithZero.Nat
import Mathlib.Data.List.Basic
import Mathlib.Data.List.DropRight

set_option autoImplicit false
set_option relaxedAutoImplicit false

namespace Gyre.Lib.Text

/-- Texts are equal when they are compared as equal. -/
instance lawfulBEq : LawfulBEq (List Char) := inferInstance

section Literals

/-- The characters of a literal, which need not be decoded. -/
theorem toList_of_eq {s : String} {l : List Char} (h : s = String.ofList l) : s.toList = l := by
  rw [h, String.toList_ofList]

theorem toList_append_of_eq {s t : String} {l m : List Char} (hs : s.toList = l) (ht : t.toList = m) :
    (s ++ t).toList = l ++ m := by
  rw [String.toList_append, hs, ht]

theorem cons_toList_of_eq {s : String} {l : List Char} {rest chars : List (List Char)}
    (h : s = String.ofList l) (hrest : rest = chars) : s.toList :: rest = l :: chars := by
  rw [toList_of_eq h, hrest]

end Literals

/-- `char::is_whitespace`: the Unicode property `White_Space`. -/
def isWhitespace (c : Char) : Bool :=
  let n := c.toNat
  decide ((9 ≤ n ∧ n ≤ 13) ∨ n = 0x20 ∨ n = 0x85 ∨ n = 0xA0 ∨ n = 0x1680 ∨
    (0x2000 ≤ n ∧ n ≤ 0x200A) ∨ n = 0x2028 ∨ n = 0x2029 ∨ n = 0x202F ∨ n = 0x205F ∨ n = 0x3000)

/-- `str::trim`. -/
def trim (s : List Char) : List Char :=
  ((s.dropWhile isWhitespace).reverse.dropWhile isWhitespace).reverse

theorem trim_trim (s : List Char) : trim (trim s) = trim s := by
  have htrim (t : List Char) : trim t = (t.dropWhile isWhitespace).rdropWhile isWhitespace := rfl
  have hfront : (trim s).dropWhile isWhitespace = trim s := by
    rw [htrim, List.dropWhile_eq_self_iff]
    intro hlen
    have hfront := List.rdropWhile_prefix isWhitespace (s.dropWhile isWhitespace)
    have hpos := Nat.lt_of_lt_of_le hlen hfront.length_le
    rw [hfront.getElem hlen]
    exact List.dropWhile_get_zero_not isWhitespace s hpos
  rw [htrim (trim s), hfront, htrim s]
  exact List.rdropWhile_idempotent isWhitespace _

theorem trim_of_solid {s : List Char} (h : ∀ c ∈ s, isWhitespace c = false) : trim s = s := by
  have hfront : s.dropWhile isWhitespace = s := by
    rw [List.dropWhile_eq_self_iff]
    intro hlen
    simp [h _ (List.getElem_mem hlen)]
  have htrim : trim s = (s.dropWhile isWhitespace).rdropWhile isWhitespace := rfl
  rw [htrim, hfront, List.rdropWhile_eq_self_iff]
  intro hne
  simp [h _ (List.getLast_mem hne)]

/-- The text before and after the first occurrence of a pattern, as `str::find` locates it. -/
@[grind =] def splitFirst (pat : List Char) : List Char → Option (List Char × List Char)
  | [] => if pat.isEmpty then some ([], []) else none
  | c :: cs =>
    if pat.isPrefixOf (c :: cs) then some ([], (c :: cs).drop pat.length)
    else (splitFirst pat cs).map fun r => (c :: r.1, r.2)

/-- What comes before the first occurrence of a character does not have it. -/
theorem notMem_of_splitFirst {c : Char} {s before after : List Char}
    (h : splitFirst [c] s = some (before, after)) : c ∉ before := by
  induction s generalizing before with
  | nil => cases h
  | cons d s ih =>
    rw [splitFirst] at h
    split at h
    · cases h
      exact List.not_mem_nil
    · rename_i hbegin
      obtain ⟨⟨front, back⟩, hfront, heq⟩ := Option.map_eq_some_iff.mp h
      cases heq
      intro hmem
      rcases List.mem_cons.mp hmem with rfl | hmem
      · exact hbegin (by simp)
      · exact ih hfront hmem

/-- `str::contains`. -/
def contains (pat s : List Char) : Bool := (splitFirst pat s).isSome

/-- The capitals of ASCII. -/
theorem isUpper_iff {c : Char} : c.isUpper = true ↔ c.val ≥ 'A'.val ∧ c.val ≤ 'Z'.val :=
  decide_eq_true_iff

/-- The small letters of ASCII. -/
theorem isLower_iff {c : Char} : c.isLower = true ↔ c.val ≥ 'a'.val ∧ c.val ≤ 'z'.val :=
  (Bool.and_eq_true _ _).to_iff.trans (and_congr decide_eq_true_iff decide_eq_true_iff)

theorem toLower_eq_self {c : Char} (h : c.isUpper = false) : c.toLower = c := by
  unfold Char.toLower
  exact dif_neg fun hc => absurd (isUpper_iff.mpr hc) (by simp [h])

/-- A capital lowers to the letter 32 places behind it. -/
theorem toNat_toLower {c : Char} (h : c.isUpper = true) :
    c.toLower.toNat = c.toNat + 32 ∧ 65 ≤ c.toNat ∧ c.toNat ≤ 90 := by
  have hval : c.toLower.val = c.val + ('a'.val - 'A'.val) := by
    unfold Char.toLower
    rw [dif_pos (isUpper_iff.mp h)]
  have hsum : c.toLower.toNat = c.toLower.val.toNat := rfl
  have hnat : c.toNat = c.val.toNat := rfl
  rw [hsum, hval, hnat]
  simp only [isUpper_iff, Char.reduceVal, ge_iff_le, UInt32.le_iff_toNat_le,
    UInt32.toNat_add, UInt32.reduceToNat, UInt32.reduceSub] at h ⊢
  omega

/-- Lower-casing does not change how many bytes a character has. -/
theorem utf8Size_toLower (c : Char) : c.toLower.utf8Size = c.utf8Size := by
  cases h : c.isUpper with
  | false => rw [toLower_eq_self h]
  | true =>
    obtain ⟨hlower, hfirst, hlast⟩ := toNat_toLower h
    have hone : ∀ d : Char, d.toNat ≤ 127 → d.utf8Size = 1 := by
      intro d hd
      rw [Char.utf8Size_eq_one_iff, UInt32.le_iff_toNat_le]
      exact hd
    rw [hone c (by omega), hone c.toLower (by omega)]

/-- `str::to_lowercase` as far as a search for ASCII text can tell: besides the ASCII letters, only
the Kelvin sign and the dotted capital I lower to something with an ASCII letter in it. -/
def toLowercase (s : List Char) : List Char :=
  s.flatMap fun c =>
    if c = '\u212A' then ['k']
    else if c = '\u0130' then ['i', '\u0307']
    else [c.toLower]

/-- Lower-casing keeps the characters that are no capitals. -/
theorem mem_toLowercase {s : List Char} {c : Char} (hc : c ∈ s) (hupper : c.isUpper = false) :
    c ∈ toLowercase s ∨ 'k' ∈ toLowercase s ∨ '\u0307' ∈ toLowercase s := by
  have hsame : c.toLower = c := by
    unfold Char.toLower
    exact dif_neg fun hc => absurd (isUpper_iff.mpr hc) (by simp [hupper])
  unfold toLowercase
  by_cases hk : c = '\u212A'
  · exact .inr (.inl (List.mem_flatMap.mpr ⟨c, hc, by simp [hk]⟩))
  · by_cases hi : c = '\u0130'
    · exact .inr (.inr (List.mem_flatMap.mpr ⟨c, hc, by simp [hi]⟩))
    · exact .inl (List.mem_flatMap.mpr ⟨c, hc, by simp [hk, hi, hsame]⟩)

theorem toLowercase_append (s t : List Char) :
    toLowercase (s ++ t) = toLowercase s ++ toLowercase t := List.flatMap_append

/-- A lower-cased text has no capitals. -/
theorem not_isUpper_of_mem_toLowercase {s : List Char} {c : Char} (hc : c ∈ toLowercase s) :
    c.isUpper = false := by
  obtain ⟨d, -, hd⟩ := List.mem_flatMap.mp hc
  split at hd
  · rw [List.mem_singleton.mp hd]
    decide
  · split at hd
    · rcases List.mem_cons.mp hd with rfl | hd
      · decide
      · rw [List.mem_singleton.mp hd]
        decide
    · rw [List.mem_singleton.mp hd]
      by_cases hupper : d.isUpper = true
      · have hval : d.toLower.val = d.val + ('a'.val - 'A'.val) := by
          unfold Char.toLower
          rw [dif_pos (isUpper_iff.mp hupper)]
        rw [← Bool.not_eq_true]
        simp only [isUpper_iff, hval, Char.reduceVal, ge_iff_le, UInt32.le_iff_toNat_le,
          UInt32.toNat_add, UInt32.reduceToNat, UInt32.reduceSub] at hupper ⊢
        omega
      · have hsame : d.toLower = d := by
          unfold Char.toLower
          exact dif_neg fun hc => absurd (isUpper_iff.mpr hc) (by simp [hupper])
        rw [hsame]
        simpa using hupper

/-- `contains` finds a pattern wherever it stands. -/
theorem contains_eq_true_iff {pat s : List Char} : contains pat s = true ↔ pat <:+: s := by
  unfold contains
  induction s with
  | nil =>
    rw [splitFirst]
    cases pat <;> simp
  | cons c cs ih =>
    rw [splitFirst, List.infix_cons_iff, ← List.isPrefixOf_iff_prefix]
    split
    next hfront => simp [hfront]
    next hfront =>
      rw [Option.isSome_map, ih]
      simp [hfront]

/-- A longer text contains what a shorter one does. -/
theorem contains_mono {pat s t : List Char} (h : s <:+: t) (hs : contains pat s = true) :
    contains pat t = true := contains_eq_true_iff.mpr ((contains_eq_true_iff.mp hs).trans h)

theorem toLowercase_infix {s t : List Char} (h : s <:+: t) : toLowercase s <:+: toLowercase t := by
  obtain ⟨front, rest, rfl⟩ := h
  exact ⟨toLowercase front, toLowercase rest, by simp only [toLowercase_append]⟩

theorem toLowercase_prefix {s t : List Char} (h : s <+: t) : toLowercase s <+: toLowercase t := by
  obtain ⟨rest, rfl⟩ := h
  exact ⟨toLowercase rest, (toLowercase_append s rest).symm⟩

theorem trim_isInfix (s : List Char) : trim s <:+: s := by
  have hfront : trim s <+: s.dropWhile isWhitespace := List.rdropWhile_prefix _ _
  exact hfront.isInfix.trans (List.dropWhile_suffix _).isInfix

/-- The beginning of a trimmed text, trimmed, is still its beginning. -/
theorem trim_prefix_of_prefix_trim {s t : List Char} (h : t <+: trim s) : trim t <+: trim s := by
  cases t with
  | nil => exact List.nil_prefix
  | cons c cs =>
    have hsolid : isWhitespace c = false := by
      have hhead : (trim s).head? = some c := by
        obtain ⟨rest, hrest⟩ := h
        rw [← hrest]
        rfl
      have hfront : trim s <+: s.dropWhile isWhitespace := List.rdropWhile_prefix _ _
      obtain ⟨rest, hrest⟩ := hfront
      have hdrop : (s.dropWhile isWhitespace).head? = some c := by
        rw [← hrest]
        cases htrim : trim s with
        | nil => simp [htrim] at hhead
        | cons d ds => simpa [htrim] using hhead
      have hnot := List.head?_dropWhile_not isWhitespace s
      rw [hdrop] at hnot
      exact hnot
    have hfront : trim (c :: cs) = (c :: cs).rdropWhile isWhitespace := by
      have hdrop : (c :: cs).dropWhile isWhitespace = c :: cs := by simp [hsolid]
      have htrim : trim (c :: cs) = ((c :: cs).dropWhile isWhitespace).rdropWhile isWhitespace := rfl
      rw [htrim, hdrop]
    rw [hfront]
    exact (List.rdropWhile_prefix _ _).trans h

private theorem dropWhile_append_solid {p : Char → Bool} {c : Char} (hc : p c = false) (a b : List Char) :
    ∃ kept, (a ++ c :: b).dropWhile p = kept ++ c :: b := by
  induction a with
  | nil => exact ⟨[], by simp [hc]⟩
  | cons d a ih =>
    cases hd : p d with
    | true =>
      obtain ⟨kept, hkept⟩ := ih
      exact ⟨kept, by simpa [hd] using hkept⟩
    | false => exact ⟨d :: a, by simp [hd]⟩

private theorem dropWhile_of_trim {x : List Char} (hx : trim x = x) : x.dropWhile isWhitespace = x := by
  refine (List.dropWhile_suffix _).eq_of_length_le ?_
  have hlen : (trim x).length ≤ (x.dropWhile isWhitespace).length :=
    (List.rdropWhile_prefix _ _).length_le
  rwa [hx] at hlen

private theorem head_solid {c : Char} {cs : List Char} (h : (c :: cs).dropWhile isWhitespace = c :: cs) :
    isWhitespace c = false := by
  have hnot := List.head?_dropWhile_not isWhitespace (c :: cs)
  rw [h] at hnot
  exact hnot

/-- Trimming takes nothing away from what begins and ends with no white space. -/
theorem infix_trim {x s : List Char} (hx : trim x = x) (h : x <:+: s) : x <:+: trim s := by
  obtain ⟨a, b, rfl⟩ := h
  have htrim (t : List Char) :
      trim t = ((t.dropWhile isWhitespace).reverse.dropWhile isWhitespace).reverse := rfl
  have hlast : x.reverse.dropWhile isWhitespace = x.reverse := by
    rw [htrim, dropWhile_of_trim hx, List.reverse_eq_iff] at hx
    exact hx
  cases x with
  | nil => exact List.nil_infix
  | cons c cs =>
    have hfirst : isWhitespace c = false := head_solid (dropWhile_of_trim hx)
    obtain ⟨front, hfront⟩ := dropWhile_append_solid hfirst a (cs ++ b)
    have hwhole : (a ++ (c :: cs) ++ b).dropWhile isWhitespace = front ++ ((c :: cs) ++ b) := by
      simpa using hfront
    -- The same from the other end.
    obtain ⟨d, ds, hds⟩ := List.exists_cons_of_ne_nil (show (c :: cs).reverse ≠ [] by simp)
    have hd : isWhitespace d = false := head_solid (hds ▸ hlast)
    obtain ⟨back, hback⟩ := dropWhile_append_solid hd b.reverse (ds ++ front.reverse)
    have hturned : (front ++ ((c :: cs) ++ b)).reverse = b.reverse ++ (d :: (ds ++ front.reverse)) := by
      rw [List.reverse_append, List.reverse_append, hds]
      simp
    have hagain : (d :: (ds ++ front.reverse)).reverse = front ++ (c :: cs) := by
      rw [← List.cons_append, ← hds, ← List.reverse_append, List.reverse_reverse]
    refine ⟨front, back.reverse, ?_⟩
    rw [htrim, hwhole, hturned, hback, List.reverse_append, hagain]

/-- What of a text fits into a number of bytes, cut between two characters. -/
@[grind =] def cutBytes : Nat → List Char → List Char
  | _, [] => []
  | bytes, c :: cs => if c.utf8Size ≤ bytes then c :: cutBytes (bytes - c.utf8Size) cs else []

theorem cutBytes_prefix (bytes : Nat) (s : List Char) : cutBytes bytes s <+: s := by
  induction s generalizing bytes with
  | nil => exact List.nil_prefix
  | cons c cs ih =>
    rw [cutBytes]
    split
    · exact List.cons_prefix_cons.mpr ⟨rfl, ih _⟩
    · exact List.nil_prefix

theorem cutBytes_le (bytes : Nat) (s : List Char) : ((cutBytes bytes s).map Char.utf8Size).sum ≤ bytes := by
  induction s generalizing bytes with
  | nil => exact Nat.zero_le _
  | cons c cs ih =>
    rw [cutBytes]
    split
    · have hrest := ih (bytes - c.utf8Size)
      simp only [List.map_cons, List.sum_cons]
      omega
    · exact Nat.zero_le _

theorem cutBytes_of_le {bytes : Nat} {s : List Char} (h : (s.map Char.utf8Size).sum ≤ bytes) :
    cutBytes bytes s = s := by
  induction s generalizing bytes with
  | nil => rfl
  | cons c cs ih =>
    simp only [List.map_cons, List.sum_cons] at h
    rw [cutBytes, if_pos (by omega), ih (by omega)]

/-- The pieces of a text around a pattern: `used` characters still belong to its last occurrence. -/
def splitFrom (pat : List Char) : (used : Nat) → (piece : List Char) → List Char → List (List Char)
  | _, piece, [] => [piece.reverse]
  | used + 1, piece, _ :: cs => splitFrom pat used piece cs
  | 0, piece, c :: cs =>
    if pat.isPrefixOf (c :: cs) then piece.reverse :: splitFrom pat (pat.length - 1) [] cs
    else splitFrom pat 0 (c :: piece) cs

/-- `str::split`, for a pattern that is not empty. -/
def splitOn (pat s : List Char) : List (List Char) := splitFrom pat 0 [] s

/-- `split_whitespace`. -/
def splitWhitespace (s : List Char) : List (List Char) :=
  (s.splitOnP isWhitespace).filter (!·.isEmpty)

/-- What remains of a text after a number of characters that a replacement has used up, with every
further occurrence of a pattern replaced. -/
@[grind =] def replaceFrom (pat rep : List Char) : (used : Nat) → List Char → List Char
  | _, [] => []
  | used + 1, _ :: cs => replaceFrom pat rep used cs
  | 0, c :: cs =>
    if pat.isPrefixOf (c :: cs) then rep ++ replaceFrom pat rep (pat.length - 1) cs
    else c :: replaceFrom pat rep 0 cs

/-- `str::replace`, for a pattern that is not empty. -/
def replace (pat rep s : List Char) : List Char := replaceFrom pat rep 0 s

private theorem replaceFrom_skip (pat rep x s : List Char) :
    replaceFrom pat rep x.length (x ++ s) = replaceFrom pat rep 0 s := by
  induction x with
  | nil => rfl
  | cons c x ih => exact ih

theorem replace_append {pat : List Char} (hpat : pat ≠ []) (rep s : List Char) :
    replace pat rep (pat ++ s) = rep ++ replace pat rep s := by
  obtain ⟨c, pat', rfl⟩ := List.exists_cons_of_ne_nil hpat
  have hbegin : (c :: pat').isPrefixOf (c :: (pat' ++ s)) = true :=
    List.isPrefixOf_iff_prefix.mpr (List.prefix_append _ _)
  have hskip := replaceFrom_skip (c :: pat') rep pat' s
  unfold replace
  rw [List.cons_append, replaceFrom, if_pos hbegin]
  exact congrArg (rep ++ ·) hskip

theorem replace_cons_of_not_begins {pat rep s : List Char} {c : Char} (h : ¬ pat <+: c :: s) :
    replace pat rep (c :: s) = c :: replace pat rep s := by
  unfold replace
  rw [replaceFrom, if_neg fun hbegin => h (List.isPrefixOf_iff_prefix.mp hbegin)]

/-- Without the pattern there is nothing to replace. -/
theorem replace_of_not_infix {pat rep s : List Char} (h : ¬ pat <:+: s) : replace pat rep s = s := by
  induction s with
  | nil => rfl
  | cons c s ih =>
    rw [replace_cons_of_not_begins fun hbegin => h hbegin.isInfix,
      ih fun hpart => h (List.infix_cons hpart)]

/-- A text begins with some characters, or has a mark where it first departs from them. -/
def BeginsOrMarked (mark : Char) (front s : List Char) : Prop :=
  front <+: s ∨ ∃ kept, kept <+: front ∧ kept ++ [mark] <+: s

/-- A replacement that begins with a mark shows where it first changed the text. -/
theorem replace_beginsOrMarked {mark : Char} {pat rep front s : List Char}
    (h : BeginsOrMarked mark front s) : BeginsOrMarked mark front (replace pat (mark :: rep) s) := by
  induction s generalizing front with
  | nil => exact h
  | cons c cs ih =>
    unfold replace replaceFrom
    split
    next =>
      exact .inr ⟨[], List.nil_prefix, by simp⟩
    next =>
      cases front with
      | nil => exact .inl List.nil_prefix
      | cons d front =>
        rcases h with h | ⟨kept, hkept, h⟩
        · obtain ⟨rfl, hrest⟩ := List.cons_prefix_cons.mp h
          rcases ih (.inl hrest) with h' | ⟨kept', hkept', h'⟩
          · exact .inl (List.cons_prefix_cons.mpr ⟨rfl, h'⟩)
          · exact .inr ⟨d :: kept', List.cons_prefix_cons.mpr ⟨rfl, hkept'⟩,
              List.cons_prefix_cons.mpr ⟨rfl, h'⟩⟩
        · cases kept with
          | nil =>
            obtain ⟨rfl, -⟩ := List.cons_prefix_cons.mp h
            exact .inr ⟨[], List.nil_prefix, by simp⟩
          | cons k kept =>
            obtain ⟨rfl, hfront⟩ := List.cons_prefix_cons.mp hkept
            obtain ⟨rfl, hrest⟩ := List.cons_prefix_cons.mp h
            rcases ih (.inr ⟨kept, hfront, hrest⟩) with h' | ⟨kept', hkept', h'⟩
            · exact .inl (List.cons_prefix_cons.mpr ⟨rfl, h'⟩)
            · exact .inr ⟨k :: kept', List.cons_prefix_cons.mpr ⟨rfl, hkept'⟩,
                List.cons_prefix_cons.mpr ⟨rfl, h'⟩⟩

/-- Two texts with fronts that part ways differ, also when one of them is marked. -/
theorem beginsOrMarked_ne {mark : Char} {front other s t : List Char}
    (h : BeginsOrMarked mark front s) (ht : other <+: t) (hunmarked : mark ∉ other)
    (hfront : ¬ front <+: other) (hother : ¬ other <+: front) : s ≠ t := by
  rintro rfl
  rcases h with h | ⟨kept, hkept, h⟩
  · rcases List.prefix_or_prefix_of_prefix h ht with h' | h'
    · exact hfront h'
    · exact hother h'
  · rcases List.prefix_or_prefix_of_prefix h ht with h' | h'
    · exact hunmarked (h'.subset (by simp))
    · rcases (List.prefix_concat_iff.mp h') with h'' | h''
      · exact hunmarked (h'' ▸ by simp)
      · exact hother (h''.trans hkept)

/-- The tables of the standard library's text functions, where these go beyond ASCII. -/
structure Unicode where
  /-- `char::is_alphanumeric` and the other word characters of `\b`. -/
  isWord : Char → Bool
  /-- What `Debug` shows as it is, quotes and backslashes apart. -/
  isPrintable : Char → Bool
  lowercase : List Char → List Char
  uppercase : List Char → List Char

/-- One character as `Debug` shows it inside a text. -/
def debugChar (u : Unicode) (c : Char) : List Char :=
  if c = '\x00' then ['\\', '0']
  else if c = '\t' then ['\\', 't']
  else if c = '\r' then ['\\', 'r']
  else if c = '\n' then ['\\', 'n']
  else if c = '\\' || c = '"' then ['\\', c]
  else if u.isPrintable c then [c]
  else ['\\', 'u', '\x7b'] ++ Nat.toDigits 16 c.toNat ++ ['\x7d']

/-- A text as `Debug` shows it. -/
def debug (u : Unicode) (s : List Char) : List Char :=
  '"' :: (s.flatMap (debugChar u) ++ ['"'])

end Gyre.Lib.Text
