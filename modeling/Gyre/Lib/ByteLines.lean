/- digest: Lines of a byte stream that is decoded chunk by chunk, and what a reader hears in them. -/

import Mathlib.Data.List.ReduceOption
import Mathlib.Data.List.TakeWhile
import Gyre.Lib.Bytes
import Gyre.Lib.Lines

/-!
A reader decodes every chunk by itself, appends it to what it has, and then goes through all lines,
the unfinished last one included, until it accepts one.
-/

set_option autoImplicit false
set_option relaxedAutoImplicit false

namespace Gyre.Lib

universe u

namespace Bytes

private theorem takeWhile_append_ten (x y : List UInt8) :
    (x ++ 10 :: y).takeWhile isContinuation = x.takeWhile isContinuation := by
  have hten : isContinuation 10 = false := by decide
  induction x with
  | nil => rw [List.nil_append, List.takeWhile_cons, hten]; rfl
  | cons b x ih =>
    rw [List.cons_append, List.takeWhile_cons, List.takeWhile_cons, ih]

/-- What follows a first byte ends before a line ending. -/
private theorem following_append (first : UInt8) (n : Nat) (x y : List UInt8) :
    following first n (x ++ 10 :: y) = following first n x := by
  have hten : secondAllowed first 10 = false := by
    unfold secondAllowed
    split
    · rfl
    · split <;> rfl
  cases n with
  | zero => cases x <;> rfl
  | succ n =>
    cases x with
    | nil => simp [following, hten]
    | cons second rest =>
      simp only [List.cons_append, following]
      split
      · congr 1
        rw [List.take_append]
        cases hrest : n - rest.length with
        | zero => rw [List.take_zero, List.append_nil]
        | succ k => rw [List.take_succ_cons, takeWhile_append_ten]
      · rfl

private theorem length_following_le (first : UInt8) (n : Nat) (x : List UInt8) :
    (following first n x).length ≤ x.length := by
  cases n with
  | zero => cases x <;> exact Nat.zero_le _
  | succ n =>
    cases x with
    | nil => exact Nat.zero_le _
    | cons second rest =>
      simp only [following]
      split
      · have htaken := (List.takeWhile_prefix isContinuation (l := rest.take n)).length_le
        rw [List.length_take] at htaken
        rw [List.length_cons, List.length_cons]
        omega
      · exact Nat.zero_le _

/-- More fuel than bytes changes nothing. -/
private theorem parts_of_le (fuel : Nat) (bytes : List UInt8) (h : bytes.length ≤ fuel) :
    parts fuel bytes = parts bytes.length bytes := by
  induction fuel using Nat.strong_induction_on generalizing bytes with
  | h fuel ih =>
    cases bytes with
    | nil => cases fuel <;> rfl
    | cons first rest =>
      cases fuel with
      | zero => exact absurd h (Nat.not_succ_le_zero _)
      | succ fuel =>
        have hfuel : rest.length ≤ fuel := Nat.le_of_succ_le_succ h
        have hrest : ∀ k, parts fuel (rest.drop k) = parts rest.length (rest.drop k) := by
          intro k
          have hk : (rest.drop k).length ≤ rest.length := (List.drop_sublist k rest).length_le
          rw [ih fuel (Nat.lt_succ_self fuel) _ (hk.trans hfuel),
            ih rest.length (Nat.lt_succ_of_le hfuel) _ hk]
        rw [List.length_cons, parts, parts]
        cases announced first with
        | none => exact congrArg _ (hrest 0)
        | some n => exact congrArg _ (hrest _)

/-- A line ending is decoded by itself. -/
private theorem parts_append (x y : List UInt8) :
    parts (x ++ 10 :: y).length (x ++ 10 :: y) =
      parts x.length x ++ some '\n' :: parts y.length y := by
  induction hx : x.length using Nat.strong_induction_on generalizing x with
  | h n ih =>
    subst hx
    cases x with
    | nil =>
      have hten : announced 10 = some 0 := by decide
      rw [List.nil_append, List.length_cons, parts, hten]
      rfl
    | cons first rest =>
      have hrest : ∀ k ≤ rest.length, parts (rest ++ 10 :: y).length ((rest ++ 10 :: y).drop k) =
          parts rest.length (rest.drop k) ++ some '\n' :: parts y.length y := by
        intro k hk
        have hdrop : (rest ++ 10 :: y).drop k = rest.drop k ++ 10 :: y :=
          List.drop_append_of_le_length hk
        have hlength : (rest.drop k).length ≤ rest.length := (List.drop_sublist k rest).length_le
        have hlong := (List.drop_sublist k (rest ++ 10 :: y)).length_le
        rw [parts_of_le _ _ hlong, hdrop, parts_of_le _ _ hlength]
        exact ih _ (Nat.lt_succ_of_le hlength) (rest.drop k) rfl
      rw [List.cons_append, List.length_cons, List.length_cons, parts, parts]
      cases announced first with
      | none => exact congrArg (none :: ·) (hrest 0 (Nat.zero_le _))
      | some n =>
        dsimp only
        rw [following_append, hrest _ (length_following_le first n rest)]
        rfl

theorem fromUtf8Lossy_append (x y : List UInt8) :
    fromUtf8Lossy (x ++ 10 :: y) = fromUtf8Lossy x ++ '\n' :: fromUtf8Lossy y := by
  unfold fromUtf8Lossy
  rw [parts_append, List.map_append, List.map_cons]
  rfl

private theorem ofNat_ne_newline {n : Nat} (h : n ≠ 10) : Char.ofNat n ≠ '\n' := by
  intro heq
  by_cases hvalid : n.isValidChar
  · rw [Char.ofNat, dif_pos hvalid] at heq
    exact h (congrArg Char.toNat heq)
  · rw [Char.ofNat, dif_neg hvalid] at heq
    cases heq

private theorem le_foldl_continue (rest : List UInt8) (value : Nat) :
    value ≤ rest.foldl (fun value b => value * 64 + b.toNat % 64) value := by
  induction rest generalizing value with
  | nil => exact le_rfl
  | cons b rest ih =>
    have hstep := ih (value * 64 + b.toNat % 64)
    rw [List.foldl_cons]
    omega

/-- A character of several bytes is no line ending. -/
private theorem compose_ne_newline {first : UInt8} {n : Nat} (hn : announced first = some (n + 1))
    {x : List UInt8} (hfull : (following first (n + 1) x).length = n + 1) :
    compose first (following first (n + 1) x) ≠ '\n' := by
  cases x with
  | nil => cases hfull
  | cons second rest =>
    simp only [following] at hfull ⊢
    by_cases hallowed : secondAllowed first second = true
    · rw [if_pos hallowed] at hfull ⊢
      unfold compose
      refine ofNat_ne_newline (ne_of_gt ?_)
      rw [List.foldl_cons]
      refine lt_of_lt_of_le ?_ (le_foldl_continue _ _)
      rw [hfull]
      unfold announced at hn
      unfold secondAllowed at hallowed
      have hE0 : first = 0xE0 ↔ first.toNat = 0xE0 := UInt8.toNat_inj.symm
      have hF0 : first = 0xF0 ↔ first.toNat = 0xF0 := UInt8.toNat_inj.symm
      simp only [Bool.and_eq_true, decide_eq_true_eq] at hn hallowed
      have hhigh : second ≤ 0xBF := by
        refine UInt8.le_trans hallowed.2 ?_
        split
        · decide
        · split <;> decide
      have hlow := hallowed.1
      simp only [UInt8.le_iff_toNat_le, UInt8.lt_iff_toNat_lt, apply_ite UInt8.toNat, hE0, hF0,
        UInt8.reduceToNat] at hn hlow hhigh
      split at hn
      · cases hn
      · split at hn
        · cases hn
          simp only [Nat.reduceAdd]
          omega
        · split at hn
          · cases hn
            simp only [Nat.reduceAdd]
            split at hlow
            · omega
            · omega
          · split at hn
            · cases hn
              simp only [Nat.reduceAdd]
              split at hlow
              · omega
              · split at hlow
                · omega
                · omega
            · cases hn
    · rw [if_neg hallowed] at hfull
      cases hfull

private theorem newline_notMem_parts (fuel : Nat) {x : List UInt8} (h : 10 ∉ x) : some '\n' ∉ parts fuel x := by
  induction fuel generalizing x with
  | zero => exact List.not_mem_nil
  | succ fuel ih =>
    cases x with
    | nil => exact List.not_mem_nil
    | cons first rest =>
      obtain ⟨hfirst, hrest⟩ := not_or.mp fun hmem => h (List.mem_cons.mpr hmem)
      have hdrop : ∀ k, 10 ∉ rest.drop k := fun k hmem => hrest (List.mem_of_mem_drop hmem)
      rw [parts]
      cases hn : announced first with
      | none =>
        intro hmem
        rcases List.mem_cons.mp hmem with hnone | hmem
        · cases hnone
        · exact ih hrest hmem
      | some n =>
        intro hmem
        rcases List.mem_cons.mp hmem with hhead | hmem
        · split at hhead
          · rename_i hfull
            have hchar := (Option.some.inj hhead).symm
            cases n with
            | zero =>
              have hnil : following first 0 rest = [] := List.eq_nil_of_length_eq_zero hfull
              rw [hnil] at hchar
              refine ofNat_ne_newline (fun hten => hfirst ?_) hchar
              have hbyte : first.toNat = (10 : UInt8).toNat := hten
              exact (UInt8.toNat_inj.mp hbyte).symm
            | succ n => exact compose_ne_newline hn hfull hchar
          · cases hhead
        · exact ih (hdrop _) hmem

/-- Only a line ending is decoded to one. -/
theorem newline_notMem_fromUtf8Lossy {x : List UInt8} (h : 10 ∉ x) : '\n' ∉ fromUtf8Lossy x := by
  intro hmem
  obtain ⟨c, hc, hchar⟩ := List.mem_map.mp hmem
  cases c with
  | none => exact absurd hchar (by decide)
  | some c =>
    rw [Option.getD_some] at hchar
    rw [hchar] at hc
    exact newline_notMem_parts _ h hc

end Bytes

namespace Chunked

/-- Bytes, with `none` where a chunk ends and the next begins. -/
abbrev Cut := List (Option UInt8)

section Reading

variable {R : Type u} (decode : List UInt8 → List Char) (accept : (ended : Bool) → List Char → Option R)

/-- The first line that is accepted; the last one has not ended. -/
@[grind =] def scanLines : List (List Char) → Option R
  | [] => none
  | [last] => accept false last
  | line :: rest => (accept true line).or (scanLines rest)

def scan (buffer : List Char) : Option R := scanLines accept (buffer.splitOn '\n')

/-- The chunks are decoded one after the other, and all that has come is gone through after each. -/
@[grind =] def readChunks : List Char → List (List UInt8) → Option R
  | _, [] => none
  | buffer, chunk :: rest =>
    (scan accept (buffer ++ decode chunk)).or (readChunks (buffer ++ decode chunk) rest)

/-- What is heard in a line: at each end of a chunk in as much of it as has come, and in the whole. -/
@[grind =] def hearLine (ended : Bool) : List Char → List UInt8 → Cut → Option R
  | text, pending, [] => accept ended (text ++ decode pending)
  | text, pending, none :: cut =>
    (accept false (text ++ decode pending)).or (hearLine ended (text ++ decode pending) [] cut)
  | text, pending, some b :: cut => hearLine ended text (pending ++ [b]) cut

/-- What is heard in several lines. -/
@[grind =] def hear : List Char → List UInt8 → Cut → Option R
  | text, pending, [] => accept false (text ++ decode pending)
  | text, pending, none :: cut =>
    (accept false (text ++ decode pending)).or (hear (text ++ decode pending) [] cut)
  | text, pending, some b :: cut =>
    if b = 10 then (accept true (text ++ decode pending)).or (hear [] [] cut)
    else hear text (pending ++ [b]) cut

/-- What is heard in the first line in which something is heard. -/
@[grind =] def firstHeard : List Cut → Option R
  | [] => none
  | [last] => hearLine decode accept false [] [] last
  | line :: rest => (hearLine decode accept true [] [] line).or (firstHeard rest)

/-- However they are cut, lines are heard as a target: each as nothing or as the target, and if one
may go unheard, the ones after it as the target. -/
@[grind =] def Decides (target : Option R) : List (List UInt8) → Prop
  | [] => target = none
  | [last] => ∀ cut : Cut, cut.reduceOption = last → hearLine decode accept false [] [] cut = target
  | line :: rest =>
    (∀ cut : Cut, cut.reduceOption = line → hearLine decode accept true [] [] cut = none ∨
      hearLine decode accept true [] [] cut = target) ∧
    ((∃ cut : Cut, cut.reduceOption = line ∧ hearLine decode accept true [] [] cut = none) →
      Decides target rest)

/-- The cut that chunks make. -/
@[grind =] def marks : List (List UInt8) → Cut
  | [] => []
  | [chunk] => chunk.map some
  | chunk :: rest => chunk.map some ++ none :: marks rest

variable {decode accept}

theorem reduceOption_map_some (chunk : List UInt8) : (chunk.map some).reduceOption = chunk := by
  induction chunk with
  | nil => rfl
  | cons b chunk ih => rw [List.map_cons, List.reduceOption_cons_of_some, ih]

theorem reduceOption_marks (chunks : List (List UInt8)) : (marks chunks).reduceOption = chunks.flatten := by
  induction chunks with
  | nil => rfl
  | cons chunk rest ih =>
    cases rest with
    | nil =>
      rw [marks, reduceOption_map_some, List.flatten_singleton]
    | cons next rest =>
      have hmarks : marks (chunk :: next :: rest) = chunk.map some ++ none :: marks (next :: rest) := rfl
      rw [hmarks, List.reduceOption_append, List.reduceOption_cons_of_none, ih, reduceOption_map_some]
      rfl

/-- Every cut is made by chunks. -/
theorem exists_marks (m : Cut) : ∃ chunk rest, marks (chunk :: rest) = m := by
  induction m with
  | nil => exact ⟨[], [], rfl⟩
  | cons o m ih =>
    obtain ⟨chunk, rest, rfl⟩ := ih
    cases o with
    | none => exact ⟨[], chunk :: rest, rfl⟩
    | some b => exact ⟨b :: chunk, rest, by cases rest <;> rfl⟩

section Scanning

theorem scan_line {line : List Char} (h : '\n' ∉ line) (rest : List Char) :
    scan accept (line ++ '\n' :: rest) = (accept true line).or (scan accept rest) := by
  have hlines : ∀ l ∈ [line], '\n' ∉ l := List.forall_mem_singleton.mpr h
  have hsplit := Text.splitOn_terminated hlines rest
  simp only [List.flatMap_cons, List.flatMap_nil, List.append_nil, List.append_assoc,
    List.singleton_append] at hsplit
  unfold scan
  rw [hsplit]
  cases hpieces : rest.splitOn '\n' with
  | nil => exact absurd hpieces (List.splitOn_ne_nil '\n' rest)
  | cons piece pieces => rfl

theorem scan_open {line : List Char} (h : '\n' ∉ line) : scan accept line = accept false line := by
  have hlines : ∀ l ∈ [line], '\n' ∉ l := List.forall_mem_singleton.mpr h
  have hsplit := Text.splitOn_joinLines hlines (List.cons_ne_nil line [])
  have hjoin : Text.joinLines [line] = line := by simp [Text.joinLines, List.intercalate]
  rw [hjoin] at hsplit
  unfold scan
  rw [hsplit]
  rfl

end Scanning

section Streams

variable (hline : ∀ x y, decode (x ++ 10 :: y) = decode x ++ '\n' :: decode y)
  (hplain : ∀ x, 10 ∉ x → '\n' ∉ decode x)

include hline hplain

variable (accept) in
/-- What a chunk adds: what is heard in the lines that end in it, and the text of the one that does
not. -/
theorem hear_chunk (chunk : List UInt8) {text : List Char} (htext : '\n' ∉ text) {pending : List UInt8}
    (hpending : 10 ∉ pending) :
    ∃ (heard : Option R) (text' : List Char), '\n' ∉ text' ∧
      (∀ s, scan accept (text ++ decode (pending ++ chunk) ++ s) = heard.or (scan accept (text' ++ s))) ∧
      hear decode accept text pending (chunk.map some) = heard.or (accept false text') ∧
      ∀ m, hear decode accept text pending (chunk.map some ++ none :: m) =
        heard.or ((accept false text').or (hear decode accept text' [] m)) := by
  have hnow : ∀ {text : List Char} {pending : List UInt8}, '\n' ∉ text → 10 ∉ pending →
      '\n' ∉ text ++ decode pending := fun htext hpending hmem =>
    (List.mem_append.mp hmem).elim htext (hplain _ hpending)
  induction chunk generalizing text pending with
  | nil =>
    refine ⟨none, text ++ decode pending, hnow htext hpending, fun s => ?_, rfl, fun m => rfl⟩
    rw [List.append_nil, Option.none_or]
  | cons b chunk ih =>
    by_cases hb : b = 10
    · subst hb
      obtain ⟨heard, text', htext', hscan, hend, hmore⟩ := ih List.not_mem_nil (List.not_mem_nil (a := 10))
      refine ⟨(accept true (text ++ decode pending)).or heard, text', htext', fun s => ?_, ?_, fun m => ?_⟩
      · rw [hline, Option.or_assoc, ← hscan s, ← scan_line (hnow htext hpending)]
        simp only [List.nil_append, List.append_assoc, List.cons_append]
      · rw [List.map_cons, hear, if_pos rfl, hend, Option.or_assoc]
      · rw [List.map_cons, List.cons_append, hear, if_pos rfl, hmore, Option.or_assoc]
    · have hpending' : 10 ∉ pending ++ [b] := by
        intro hmem
        rcases List.mem_append.mp hmem with hmem | hmem
        · exact hpending hmem
        · exact hb (List.mem_singleton.mp hmem).symm
      obtain ⟨heard, text', htext', hscan, hend, hmore⟩ := ih htext hpending'
      refine ⟨heard, text', htext', fun s => ?_, ?_, fun m => ?_⟩
      · rw [← hscan s, List.append_assoc pending, List.singleton_append]
      · rw [List.map_cons, hear, if_neg hb, hend]
      · rw [List.map_cons, List.cons_append, hear, if_neg hb, hmore]

theorem readChunks_eq_hear (chunk : List UInt8) (rest : List (List UInt8)) {buffer text : List Char}
    (htext : '\n' ∉ text) (hbuffer : ∀ s, scan accept (buffer ++ s) = scan accept (text ++ s)) :
    readChunks decode accept buffer (chunk :: rest) =
      hear decode accept text [] (marks (chunk :: rest)) := by
  induction rest generalizing chunk buffer text with
  | nil =>
    obtain ⟨heard, text', htext', hscan, hend, -⟩ :=
      hear_chunk accept hline hplain chunk htext List.not_mem_nil
    have hnow := hscan []
    rw [List.append_nil, List.append_nil, List.nil_append, scan_open htext'] at hnow
    rw [readChunks, readChunks, marks, hend, hbuffer, hnow, Option.or_none]
  | cons next rest ih =>
    obtain ⟨heard, text', htext', hscan, -, hmore⟩ :=
      hear_chunk accept hline hplain chunk htext List.not_mem_nil
    have hnow := hscan []
    rw [List.append_nil, List.append_nil, List.nil_append, scan_open htext'] at hnow
    rw [readChunks, marks, hmore, hbuffer, hnow]
    cases heard with
    | some r => rfl
    | none =>
      rw [Option.none_or, Option.none_or]
      cases haccept : accept false text' with
      | some r => rfl
      | none =>
        rw [Option.none_or, Option.none_or]
        refine ih next htext' fun s => ?_
        have hafter := hscan s
        rw [Option.none_or, List.nil_append] at hafter
        rw [List.append_assoc, hbuffer, ← List.append_assoc, hafter]
    exact nofun

end Streams

section Lines

variable (decode accept)

/-- Lines put together again. -/
def joinCuts (cuts : List Cut) : Cut := [some 10].intercalate cuts

theorem reduceOption_joinCuts (cuts : List Cut) :
    (joinCuts cuts).reduceOption = [10].intercalate (cuts.map List.reduceOption) := by
  induction cuts with
  | nil => rfl
  | cons c cuts ih =>
    cases cuts with
    | nil => simp [joinCuts]
    | cons c' cuts =>
      unfold joinCuts at ih ⊢
      rw [List.intercalate_cons_cons, List.reduceOption_append, List.reduceOption_append, ih,
        List.map_cons, List.map_cons, List.map_cons, List.intercalate_cons_cons]
      rfl

/-- A body's lines are those of its cut. -/
theorem map_reduceOption_splitOn (m : Cut) :
    (m.splitOn (some 10)).map List.reduceOption = m.reduceOption.splitOn 10 := by
  induction m with
  | nil => rfl
  | cons o m ih =>
    obtain ⟨piece, pieces, hpieces⟩ := List.exists_cons_of_ne_nil (List.splitOn_ne_nil (some 10) m)
    rw [hpieces, List.map_cons] at ih
    rw [List.splitOn_cons_eq_if_modifyHead, hpieces]
    cases o with
    | none =>
      rw [List.reduceOption_cons_of_none, ← ih]
      rfl
    | some b =>
      rw [List.reduceOption_cons_of_some, List.splitOn_cons_eq_if_modifyHead, ← ih]
      by_cases hb : b = 10
      · subst hb
        rfl
      · have hsome : ¬(some b == some 10) = true := by simpa using hb
        have hbyte : ¬(b == 10) = true := by simpa using hb
        rw [if_neg hsome, if_neg hbyte, List.modifyHead_cons, List.modifyHead_cons, List.map_cons,
          List.reduceOption_cons_of_some]

theorem hear_append {first : Cut} (h : some 10 ∉ first) (text : List Char) (pending : List UInt8)
    (m : Cut) : hear decode accept text pending (first ++ some 10 :: m) =
      (hearLine decode accept true text pending first).or (hear decode accept [] [] m) := by
  induction first generalizing text pending with
  | nil => rfl
  | cons o first ih =>
    obtain ⟨ho, hfirst⟩ := not_or.mp fun hmem => h (List.mem_cons.mpr hmem)
    cases o with
    | none => rw [List.cons_append, hear, hearLine, ih hfirst, Option.or_assoc]
    | some b =>
      have hb : b ≠ 10 := fun hb => ho (congrArg some hb.symm)
      rw [List.cons_append, hear, if_neg hb, hearLine, ih hfirst]

theorem hear_eq_hearLine {last : Cut} (h : some 10 ∉ last) (text : List Char) (pending : List UInt8) :
    hear decode accept text pending last = hearLine decode accept false text pending last := by
  induction last generalizing text pending with
  | nil => rfl
  | cons o last ih =>
    obtain ⟨ho, hlast⟩ := not_or.mp fun hmem => h (List.mem_cons.mpr hmem)
    cases o with
    | none => rw [hear, hearLine, ih hlast]
    | some b =>
      have hb : b ≠ 10 := fun hb => ho (congrArg some hb.symm)
      rw [hear, if_neg hb, hearLine, ih hlast]

/-- A stream is heard line by line. -/
theorem hear_joinCuts {cuts : List Cut} (hne : cuts ≠ []) (h : ∀ c ∈ cuts, some 10 ∉ c) :
    hear decode accept [] [] (joinCuts cuts) = firstHeard decode accept cuts := by
  induction cuts with
  | nil => exact absurd rfl hne
  | cons c cuts ih =>
    obtain ⟨hc, hcuts⟩ := List.forall_mem_cons.mp h
    cases cuts with
    | nil =>
      have hjoin : joinCuts [c] = c := by simp [joinCuts, List.intercalate]
      rw [hjoin, hear_eq_hearLine decode accept hc]
      rfl
    | cons c' cuts =>
      have hjoin : joinCuts (c :: c' :: cuts) = c ++ some 10 :: joinCuts (c' :: cuts) := by
        simp [joinCuts, List.intercalate]
      rw [hjoin, hear_append decode accept hc, ih (by simp) hcuts]
      rfl

/-- Every line has a cut. -/
theorem exists_cuts (lines : List (List UInt8)) :
    ∃ cuts : List Cut, cuts.map List.reduceOption = lines := by
  refine ⟨lines.map fun line => line.map some, ?_⟩
  rw [List.map_map]
  exact (List.map_congr_left fun line _ => reduceOption_map_some line).trans (List.map_id lines)

theorem firstHeard_iff_decides (target : Option R) (lines : List (List UInt8)) :
    (∀ cuts : List Cut, cuts.map List.reduceOption = lines → firstHeard decode accept cuts = target) ↔
      Decides decode accept target lines := by
  induction lines with
  | nil =>
    constructor
    · intro h
      exact (h [] rfl).symm
    · intro h cuts hcuts
      obtain rfl := List.map_eq_nil_iff.mp hcuts
      exact Eq.symm h
  | cons line lines ih =>
    cases lines with
    | nil =>
      constructor
      · intro h cut hcut
        exact h [cut] (by rw [List.map_singleton, hcut])
      · intro h cuts hcuts
        obtain ⟨cut, rest, rfl, hcut, hrest⟩ := List.map_eq_cons_iff.mp hcuts
        obtain rfl := List.map_eq_nil_iff.mp hrest
        exact h cut hcut
    | cons next lines =>
      rw [Decides, ← ih]
      constructor
      · intro h
        have hfirst : ∀ cut : Cut, cut.reduceOption = line → ∀ cuts : List Cut,
            cuts.map List.reduceOption = next :: lines →
              (hearLine decode accept true [] [] cut).or (firstHeard decode accept cuts) = target := by
          intro cut hcut cuts hcuts
          have hall := h (cut :: cuts) (by rw [List.map_cons, hcut, hcuts])
          cases cuts with
          | nil => cases hcuts
          | cons c cuts => exact hall
        refine ⟨fun cut hcut => ?_, fun ⟨cut, hcut, hsilent⟩ cuts hcuts => ?_⟩
        · obtain ⟨cuts, hcuts⟩ := exists_cuts (next :: lines)
          have hheard := hfirst cut hcut cuts hcuts
          cases hline : hearLine decode accept true [] [] cut with
          | none => exact Or.inl rfl
          | some r =>
            rw [hline, Option.some_or] at hheard
            exact Or.inr hheard
        · have hheard := hfirst cut hcut cuts hcuts
          rwa [hsilent, Option.none_or] at hheard
      · rintro ⟨hline, hrest⟩ cuts hcuts
        obtain ⟨cut, cuts, rfl, hcut, hcuts⟩ := List.map_eq_cons_iff.mp hcuts
        cases cuts with
        | nil => cases hcuts
        | cons c cuts =>
          have hstep : firstHeard decode accept (cut :: c :: cuts) =
            (hearLine decode accept true [] [] cut).or (firstHeard decode accept (c :: cuts)) := rfl
          rw [hstep]
          cases hheard : hearLine decode accept true [] [] cut with
          | none => exact hrest ⟨cut, hcut, hheard⟩ (c :: cuts) hcuts
          | some r =>
            have htarget := (hline cut hcut).resolve_left (by rw [hheard]; exact nofun)
            rw [← htarget, hheard]
            rfl
      · exact nofun

end Lines

/-- However a body comes in chunks, reading it gives a target exactly if its lines, each however it is
cut, are heard as the target. -/
theorem readChunks_eq_iff (hline : ∀ x y, decode (x ++ 10 :: y) = decode x ++ '\n' :: decode y)
    (hplain : ∀ x, 10 ∉ x → '\n' ∉ decode x) (hempty : accept false (decode []) = none)
    (body : List UInt8) (target : Option R) :
    (∀ chunks : List (List UInt8), chunks.flatten = body →
        readChunks decode accept [] chunks = target) ↔
      Decides decode accept target (body.splitOn 10) := by
  rw [← firstHeard_iff_decides]
  have hread : ∀ chunk rest, readChunks decode accept [] (chunk :: rest) =
      hear decode accept [] [] (marks (chunk :: rest)) := fun chunk rest =>
    readChunks_eq_hear hline hplain chunk rest List.not_mem_nil fun _ => rfl
  have hsplit : ∀ m : Cut, m.reduceOption = body → ∃ cuts : List Cut,
      cuts.map List.reduceOption = body.splitOn 10 ∧
        hear decode accept [] [] m = firstHeard decode accept cuts := by
    rintro m rfl
    refine ⟨m.splitOn (some 10), map_reduceOption_splitOn m, ?_⟩
    rw [← hear_joinCuts decode accept (List.splitOn_ne_nil _ _) fun c hc => Text.notMem_of_mem_splitOn hc]
    exact congrArg _ (List.intercalate_splitOn (some 10)).symm
  constructor
  · intro h cuts hcuts
    have hne : cuts ≠ [] := by
      rintro rfl
      exact List.splitOn_ne_nil 10 body hcuts.symm
    have hlines : ∀ c ∈ cuts, some 10 ∉ c := by
      intro c hc hmem
      have hpiece : c.reduceOption ∈ body.splitOn 10 := hcuts ▸ List.mem_map_of_mem hc
      exact Text.notMem_of_mem_splitOn hpiece (List.reduceOption_mem_iff.mpr hmem)
    obtain ⟨chunk, rest, hmarks⟩ := exists_marks (joinCuts cuts)
    have hbody : (joinCuts cuts).reduceOption = body := by
      rw [reduceOption_joinCuts, hcuts]
      exact List.intercalate_splitOn 10
    rw [← hear_joinCuts decode accept hne hlines, ← hmarks, ← hread]
    refine h _ ?_
    rw [← reduceOption_marks, hmarks, hbody]
  · intro h chunks hchunks
    cases chunks with
    | nil =>
      obtain ⟨cuts, hcuts, hheard⟩ := hsplit [] hchunks
      rw [← h cuts hcuts, ← hheard]
      exact hempty.symm
    | cons chunk rest =>
      rw [hread]
      obtain ⟨cuts, hcuts, hheard⟩ := hsplit (marks (chunk :: rest)) (by rw [reduceOption_marks, hchunks])
      rw [hheard, h cuts hcuts]

end Reading

end Chunked

end Gyre.Lib
