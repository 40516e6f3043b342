/- digest: When the markdown files of memory entries agree with their rows, and what layered recall finds. -/

import Gyre.Cognitive.Uocs
import Mathlib.Data.List.Nodup

/-!
An entry's file gives back its content if no line of it is blank, indented or a fence, and the whole of
it fits into the file; two entries have one file if day, kind and the first digits of their ids agree.
-/

set_option autoImplicit false
set_option relaxedAutoImplicit false

namespace Gyre.Cognitive

open Gyre.Lib Gyre.Llm

section Bodies

/-- Every line of a content stands for itself: not blank, not indented, and no fence. -/
def Flat (content : List Char) : Prop :=
  content = [] ∨ ∀ line ∈ content.splitOn '\n', line ≠ [] ∧ Text.trim line = line ∧ line ≠ Uocs.fence

instance (content : List Char) : Decidable (Flat content) := inferInstanceAs (Decidable (_ ∨ _))

private theorem bodyLines_append (inFrontMatter : Bool) (ls : List (List Char)) (line : List Char)
    (h : Text.trim line = []) : bodyLines inFrontMatter (ls ++ [line]) = bodyLines inFrontMatter ls := by
  induction ls generalizing inFrontMatter with
  | nil =>
    have hfence : ([] : List Char) ≠ Uocs.fence := by decide
    simp [bodyLines, h, hfence]
  | cons l rest ih =>
    rw [List.cons_append]
    simp only [bodyLines, ih]

private theorem bodyLines_stripReturn (inFrontMatter : Bool) (ls rest : List (List Char)) :
    bodyLines inFrontMatter (ls.map Text.stripReturn ++ rest) = bodyLines inFrontMatter (ls ++ rest) := by
  induction ls generalizing inFrontMatter with
  | nil => rfl
  | cons l ls ih =>
    rw [List.map_cons, List.cons_append, List.cons_append]
    simp only [bodyLines, Text.trim_stripReturn, ih]

/-- The reader takes the endings off with the blanks. -/
private theorem bodyLines_lines (inFrontMatter : Bool) (s : List Char) :
    bodyLines inFrontMatter (Text.lines s) = bodyLines inFrontMatter (s.splitOn '\n') := by
  obtain ⟨front, last, hpieces⟩ := (List.eq_nil_or_concat' (s.splitOn '\n')).resolve_left
    (List.splitOn_ne_nil '\n' s)
  unfold Text.lines
  simp only [hpieces, List.dropLast_concat, List.getLast?_concat, Option.getD_some]
  rw [bodyLines_stripReturn]
  split
  · next hempty =>
    rw [List.isEmpty_iff.mp hempty, List.append_nil]
    exact (bodyLines_append inFrontMatter front [] rfl).symm
  · rfl

private theorem bodyLines_flat {ls : List (List Char)}
    (h : ∀ line ∈ ls, line ≠ [] ∧ Text.trim line = line ∧ line ≠ Uocs.fence) : bodyLines false ls = ls := by
  induction ls with
  | nil => rfl
  | cons l rest ih =>
    obtain ⟨⟨hne, htrim, hfence⟩, hrest⟩ := List.forall_mem_cons.mp h
    simp [bodyLines, htrim, hfence, hne, ih hrest]

private theorem mem_bodyLines {inFrontMatter : Bool} {ls : List (List Char)} {line : List Char}
    (h : line ∈ bodyLines inFrontMatter ls) :
    (line ≠ [] ∧ Text.trim line = line ∧ line ≠ Uocs.fence) ∧ ∃ l ∈ ls, line = Text.trim l := by
  induction ls generalizing inFrontMatter with
  | nil => cases h
  | cons l rest ih =>
    have hlater {inFrontMatter : Bool} (h : line ∈ bodyLines inFrontMatter rest) :
        (line ≠ [] ∧ Text.trim line = line ∧ line ≠ Uocs.fence) ∧
          ∃ l' ∈ l :: rest, line = Text.trim l' := by
      obtain ⟨hline, l', hl', hfrom⟩ := ih h
      exact ⟨hline, l', List.mem_cons_of_mem l hl', hfrom⟩
    simp only [bodyLines] at h
    split at h
    · exact hlater h
    · next hfence =>
      split at h
      · exact hlater h
      · next hkept =>
        rcases List.mem_cons.mp h with rfl | h
        · simp only [Bool.or_eq_true, List.isEmpty_iff, not_or] at hkept
          exact ⟨⟨hkept.2, Text.trim_trim l, hfence⟩, l, List.mem_cons_self, rfl⟩
        · exact hlater h

/-- A content is read back if and only if every line of it stands for itself. -/
private theorem body_eq_iff (content : List Char) :
    Text.joinLines (bodyLines false (content.splitOn '\n')) = content ↔ Flat content := by
  constructor
  · intro h
    by_cases hnone : bodyLines false (content.splitOn '\n') = []
    · rw [hnone] at h
      exact .inl h.symm
    · have hsplit : content.splitOn '\n' = bodyLines false (content.splitOn '\n') := by
        conv_lhs => rw [← h]
        refine Text.splitOn_joinLines (fun line hline => ?_) hnone
        obtain ⟨-, l, hl, rfl⟩ := mem_bodyLines hline
        exact fun hmem => Text.newline_notMem_of_mem_splitOn hl ((Text.trim_sublist l).subset hmem)
      refine .inr fun line hline => ?_
      rw [hsplit] at hline
      exact (mem_bodyLines hline).1
  · rintro (rfl | h)
    · rfl
    · rw [bodyLines_flat h]
      exact Text.joinLines_splitOn content

private theorem bodyLines_sublist (inFrontMatter : Bool) (ls : List (List Char)) :
    ((bodyLines inFrontMatter ls).flatMap ('\n' :: ·)).Sublist (ls.flatMap ('\n' :: ·)) := by
  induction ls generalizing inFrontMatter with
  | nil => exact List.Sublist.slnil
  | cons l rest ih =>
    simp only [bodyLines, List.flatMap_cons]
    split
    · exact (ih _).trans (List.sublist_append_right _ _)
    · split
      · exact (ih _).trans (List.sublist_append_right _ _)
      · rw [List.flatMap_cons]
        exact ((Text.trim_sublist l).cons_cons _).append (ih _)

/-- A body is part of the text it is read from. -/
private theorem body_sublist (content : List Char) :
    (Text.joinLines (bodyLines false (content.splitOn '\n'))).Sublist content := by
  by_cases hnone : bodyLines false (content.splitOn '\n') = []
  · rw [hnone]
    exact List.nil_sublist _
  · have hlines := bodyLines_sublist false (content.splitOn '\n')
    rw [← Text.cons_joinLines hnone, ← Text.cons_joinLines (List.splitOn_ne_nil '\n' content),
      Text.joinLines_splitOn] at hlines
    exact List.cons_sublist_cons.mp hlines

end Bodies

section Files

variable (r : Rendering)

/-- Front matter and content together fit into the file. -/
def Fits (entry : MemoryEntry) : Prop :=
  Text.byteLen (Uocs.frontMatter r entry) + Text.byteLen entry.content ≤ Uocs.maxFileContentBytes

instance (entry : MemoryEntry) : Decidable (Fits r entry) := inferInstanceAs (Decidable (_ ≤ _))

/-- A text contains a query, ignoring case. -/
def Mentions (l : Lowering) (query text : List Char) : Prop :=
  Text.contains (l.lower query) (l.lower text) = true

instance (l : Lowering) (query text : List Char) : Decidable (Mentions l query text) :=
  inferInstanceAs (Decidable (_ = true))

variable {r} {entry : MemoryEntry}

/-- A line that begins with something else is no fence. -/
private theorem trim_ne_fence {c : Char} {cs : List Char} (hsolid : Text.isWhitespace c = false)
    (hc : c ≠ '-') : Text.trim (c :: cs) ≠ Uocs.fence := by
  intro h
  have hfront : Text.trim (c :: cs) <+: (c :: cs).dropWhile Text.isWhitespace :=
    List.rdropWhile_prefix _ _
  rw [h, List.dropWhile_cons_of_neg (by simp [hsolid])] at hfront
  exact hc (List.cons_prefix_cons.mp hfront).1.symm

private theorem kind_line (kind : MemoryKind) :
    '\n' ∉ kind.asStr.toList ∧ Text.byteLen kind.asStr.toList ≤ 11 := by
  cases kind <;> decide

private theorem bodyLines_frontMatter (text : List Char) :
    bodyLines false ((Uocs.frontMatter r entry ++ text).splitOn '\n') =
      bodyLines false (text.splitOn '\n') := by
  have hlines : ∀ l ∈ Uocs.fence :: Uocs.frontLines r entry ++ [Uocs.fence, []], '\n' ∉ l := by
    have hfence : '\n' ∉ Uocs.fence := by decide
    have hlabels : '\n' ∉ "type: ".toList ∧ '\n' ∉ "importance: ".toList ∧ '\n' ∉ "date: ".toList := by
      decide
    simp only [Uocs.frontLines, List.cons_append, List.nil_append, List.forall_mem_cons, List.mem_append,
      not_or]
    exact ⟨hfence, ⟨hlabels.1, (kind_line entry.kind).1⟩, ⟨hlabels.2.1, r.importanceLine _⟩,
      ⟨hlabels.2.2, r.dateLine _⟩, hfence, List.not_mem_nil, fun l hl => absurd hl List.not_mem_nil⟩
  unfold Uocs.frontMatter
  rw [Text.splitOn_terminated hlines]
  have hfence : Text.trim Uocs.fence = Uocs.fence := by decide
  have hblank : Text.trim [] = [] := rfl
  have hkind : Text.trim ("type: ".toList ++ entry.kind.asStr.toList) ≠ Uocs.fence :=
    trim_ne_fence (by decide) (by decide)
  have himportance : Text.trim ("importance: ".toList ++ r.importance entry.importance) ≠ Uocs.fence :=
    trim_ne_fence (by decide) (by decide)
  have hdate : Text.trim ("date: ".toList ++ r.date entry.createdAt) ≠ Uocs.fence :=
    trim_ne_fence (by decide) (by decide)
  have hnone : [] ≠ Uocs.fence := by decide
  simp only [Uocs.frontLines, List.cons_append, List.nil_append, bodyLines, hfence, hblank, hkind,
    himportance, hdate, hnone, if_true, if_false, Bool.not_false, Bool.not_true, Bool.true_or,
    List.isEmpty_nil, Bool.or_true]

private theorem byteLen_frontMatter : 4 ≤ Text.byteLen (Uocs.frontMatter r entry) ∧
    Text.byteLen (Uocs.frontMatter r entry) ≤ Uocs.maxFileContentBytes := by
  have hkind := (kind_line entry.kind).2
  have hshort := r.short entry.createdAt entry.importance
  have hlen : Text.byteLen (Uocs.frontMatter r entry) = 36 + Text.byteLen entry.kind.asStr.toList +
      Text.byteLen (r.importance entry.importance) + Text.byteLen (r.date entry.createdAt) := by
    have hfence : Text.byteLen Uocs.fence = 3 := by decide
    have htype : Text.byteLen "type: ".toList = 6 := by decide
    have himportance : Text.byteLen "importance: ".toList = 12 := by decide
    have hdate : Text.byteLen "date: ".toList = 6 := by decide
    have hnewline : Text.byteLen ['\n'] = 1 := by decide
    simp only [Uocs.frontMatter, Uocs.frontLines, List.cons_append, List.nil_append, List.flatMap_cons,
      List.flatMap_nil, Text.byteLen_append, hfence, htype, himportance, hdate, hnewline]
    omega
  have hmax : Uocs.maxFileContentBytes = 10240 := rfl
  omega

/-- A file begins with the front matter, and has what fits of the content and its ending. -/
private theorem fileText_eq : Uocs.fileText r entry = Uocs.frontMatter r entry ++
    Text.cutBytes (Uocs.maxFileContentBytes - Text.byteLen (Uocs.frontMatter r entry))
      (entry.content ++ ['\n']) := by
  unfold Uocs.fileText
  rw [List.append_assoc, Text.cutBytes_append_of_le byteLen_frontMatter.2]

private theorem fileText_of_fits (h : Fits r entry) : Uocs.fileText r entry =
    Uocs.frontMatter r entry ++ entry.content ∨
      Uocs.fileText r entry = Uocs.frontMatter r entry ++ (entry.content ++ ['\n']) := by
  unfold Fits at h
  rw [fileText_eq, Text.cutBytes_append_of_le (by omega), Text.cutBytes]
  split
  · exact .inr rfl
  · rw [List.append_nil]
    exact .inl rfl

theorem columns_of_fits (h : Fits r entry) : (MemoryStream.columns entry).content = entry.content := by
  unfold Fits at h
  have hmax : Uocs.maxFileContentBytes = MemoryStream.maxContentBytes := rfl
  exact Text.cutBytes_of_le (show Text.byteLen entry.content ≤ _ by omega)

private theorem extract_eq (text : List Char) : extractBodyFromMd (Uocs.frontMatter r entry ++ text) =
    Text.joinLines (bodyLines false (text.splitOn '\n')) := by
  unfold extractBodyFromMd
  rw [bodyLines_lines, bodyLines_frontMatter]

/-- Of an entry that fits the whole content is read. -/
private theorem extract_of_fits (h : Fits r entry) : extractBodyFromMd (Uocs.fileText r entry) =
    Text.joinLines (bodyLines false (entry.content.splitOn '\n')) := by
  rcases fileText_of_fits h with htext | htext
  · rw [htext, extract_eq]
  · rw [htext, extract_eq, List.splitOn_append_cons_self, List.splitOn_nil, bodyLines_append _ _ _ rfl]

/-- Of an entry that does not fit less is read than is stored. -/
private theorem extract_of_not_fits (h : ¬ Fits r entry) :
    extractBodyFromMd (Uocs.fileText r entry) ≠ (MemoryStream.columns entry).content := by
  have hfront : 4 ≤ Text.byteLen (Uocs.frontMatter r entry) ∧ _ := byteLen_frontMatter
  have hmax : Uocs.maxFileContentBytes = MemoryStream.maxContentBytes := rfl
  unfold Fits at h
  intro hsame
  rw [fileText_eq, extract_eq, Text.cutBytes_append_of_lt (by omega)] at hsame
  have hread := Text.byteLen_le_of_sublist (body_sublist (Text.cutBytes
    (Uocs.maxFileContentBytes - Text.byteLen (Uocs.frontMatter r entry)) entry.content))
  have hroom := Text.byteLen_cutBytes_le
    (Uocs.maxFileContentBytes - Text.byteLen (Uocs.frontMatter r entry)) entry.content
  have hstored : Uocs.maxFileContentBytes - Text.byteLen (Uocs.frontMatter r entry) <
      Text.byteLen (MemoryStream.columns entry).content := by
    by_cases hcut : Text.byteLen entry.content ≤ MemoryStream.maxContentBytes
    · have hwhole : (MemoryStream.columns entry).content = entry.content := Text.cutBytes_of_le hcut
      rw [hwhole]
      omega
    · have hkept : MemoryStream.maxContentBytes < Text.byteLen (MemoryStream.columns entry).content + 4 :=
        Text.lt_byteLen_cutBytes (Nat.lt_of_not_le hcut)
      omega
  rw [hsame] at hread
  omega

/-- The file of an entry gives back the content that is stored for it if and only if every line of the
content stands for itself, and the content fits into the file. -/
theorem extract_fileText_iff : extractBodyFromMd (Uocs.fileText r entry) =
    (MemoryStream.columns entry).content ↔ Flat entry.content ∧ Fits r entry := by
  by_cases hfits : Fits r entry
  · rw [extract_of_fits hfits, columns_of_fits hfits, body_eq_iff]
    exact (and_iff_left hfits).symm
  · exact iff_of_false (extract_of_not_fits hfits) fun h => hfits h.2

/-- A query that the content mentions is mentioned by the file. -/
theorem mentions_fileText {l : Lowering} {query : List Char} (h : Fits r entry)
    (hmentions : Mentions l query entry.content) : Mentions l query (Uocs.fileText r entry) := by
  have hfront : ∃ front, Uocs.frontMatter r entry = front ++ ['\n'] :=
    ⟨(Uocs.fence :: Uocs.frontLines r entry ++ [Uocs.fence]).flatMap (· ++ ['\n']), by
      simp [Uocs.frontMatter]⟩
  obtain ⟨front, hfront⟩ := hfront
  refine Text.contains_mono ?_ hmentions
  rcases fileText_of_fits h with htext | htext
  · rw [htext, hfront, List.append_assoc, List.singleton_append, l.acrossLines]
    exact ⟨l.lower front ++ ['\n'], [], by simp⟩
  · rw [htext, hfront, List.append_assoc, List.singleton_append, l.acrossLines, l.acrossLines]
    exact ⟨l.lower front ++ ['\n'], '\n' :: l.lower [], by simp⟩

end Files

section Shared

variable {r : Rendering}

private theorem length_idShort (id : Uuid) : (Uocs.idShort id).length = 8 := by
  unfold Uocs.idShort Uuid.toString
  simp only [String.toList_ofList, List.intercalate_cons_cons, List.length_take, List.length_append,
    List.length_drop, List.length_replicate]
  omega

/-- Two entries have one file if and only if kind, day and the first digits of their ids agree. -/
theorem path_eq_iff (a b : MemoryEntry) : (Uocs.fileOf r a).path = (Uocs.fileOf r b).path ↔
    a.kind = b.kind ∧ r.date a.createdAt = r.date b.createdAt ∧ Uocs.idShort a.id = Uocs.idShort b.id := by
  have hkind : Uocs.kindDirName a.kind = Uocs.kindDirName b.kind ↔ a.kind = b.kind := by
    cases a.kind <;> cases b.kind <;> decide
  have hname : Uocs.fileName r a = Uocs.fileName r b ↔
      r.date a.createdAt = r.date b.createdAt ∧ Uocs.idShort a.id = Uocs.idShort b.id := by
    unfold Uocs.fileName
    constructor
    · intro h
      obtain ⟨hdate, hrest⟩ := List.append_inj' h (by simp [length_idShort])
      exact ⟨hdate, List.append_cancel_right (List.cons.inj hrest).2⟩
    · rintro ⟨hdate, hshort⟩
      rw [hdate, hshort]
  simp only [MemoryFile.path, Uocs.fileOf, Prod.mk.injEq, hkind, hname]

/-- The files that are there after entries were written. -/
@[grind =] def mirrored (r : Rendering) (entries : List MemoryEntry) : List MemoryFile :=
  entries.foldl (Uocs.writeMemory r) []

private theorem mirrored_concat (entries : List MemoryEntry) (e : MemoryEntry) :
    mirrored r (entries ++ [e]) = (mirrored r entries).filter (·.path ≠ (Uocs.fileOf r e).path) ++
      [Uocs.fileOf r e] := by
  rw [mirrored, List.foldl_append]
  rfl

theorem mem_mirrored {entries : List MemoryEntry} {f : MemoryFile} (h : f ∈ mirrored r entries) :
    ∃ e ∈ entries, Uocs.fileOf r e = f := by
  induction entries using List.reverseRecOn with
  | nil => cases h
  | append_singleton entries e ih =>
    rw [mirrored_concat] at h
    rcases List.mem_append.mp h with h | h
    · obtain ⟨e', he', hf⟩ := ih (List.mem_filter.mp h).1
      exact ⟨e', List.mem_append_left _ he', hf⟩
    · exact ⟨e, by simp, (List.mem_singleton.mp h).symm⟩

theorem mirrored_nodup (entries : List MemoryEntry) : (mirrored r entries).Nodup := by
  induction entries using List.reverseRecOn with
  | nil => exact List.nodup_nil
  | append_singleton entries e ih =>
    rw [mirrored_concat, List.nodup_append]
    refine ⟨ih.filter _, List.nodup_singleton _, fun f hf g hg heq => ?_⟩
    have hne := of_decide_eq_true (List.mem_filter.mp hf).2
    rw [heq, List.mem_singleton.mp hg] at hne
    exact hne rfl

/-- A file stays as it was written unless another one is written over it. -/
theorem fileOf_mem_mirrored {entries : List MemoryEntry} {e : MemoryEntry} (he : e ∈ entries)
    (halone : ∀ other ∈ entries, (Uocs.fileOf r other).path = (Uocs.fileOf r e).path →
      Uocs.fileOf r other = Uocs.fileOf r e) : Uocs.fileOf r e ∈ mirrored r entries := by
  induction entries using List.reverseRecOn with
  | nil => cases he
  | append_singleton entries last ih =>
    rw [mirrored_concat]
    by_cases hpath : (Uocs.fileOf r last).path = (Uocs.fileOf r e).path
    · rw [halone last (by simp) hpath]
      exact List.mem_append_right _ List.mem_cons_self
    · refine List.mem_append_left _ (List.mem_filter.mpr ⟨ih ?_ fun other ho => ?_, ?_⟩)
      · rcases List.mem_append.mp he with he | he
        · exact he
        · rw [List.mem_singleton.mp he] at hpath
          exact absurd rfl hpath
      · exact halone other (List.mem_append_left _ ho)
      · exact decide_eq_true fun h => hpath h.symm

end Shared

end Gyre.Cognitive
