/- digest: What layered recall returns, and which entries it cannot miss. -/

import Gyre.Cognitive.MarkdownMirror
import Mathlib.Data.List.Perm.Subperm
import Mathlib.Data.List.Sort

set_option autoImplicit false
set_option relaxedAutoImplicit false

namespace Gyre.Cognitive

open Gyre.Lib Gyre.Llm

namespace MemoryStream

section Results

variable {s : MemoryStream} {limit : Nat} {results : List MemoryEntry}

/-- Results so far: distinct stored entries, not too many. -/
structure Collected (s : MemoryStream) (limit : Nat) (results : List MemoryEntry) : Prop where
  few : results.length ≤ limit
  distinct : (results.map (·.id)).Nodup
  stored : ∀ e ∈ results, e ∈ s.entries

private theorem addUnseen_cases (results : List MemoryEntry) (e : MemoryEntry) :
    (addUnseen results e = results ∧ e.id ∈ results.map (·.id)) ∨
      (addUnseen results e = results ++ [e] ∧ e.id ∉ results.map (·.id)) := by
  have hseen : results.any (·.id == e.id) = true ↔ e.id ∈ results.map (·.id) := by
    simp [List.any_eq_true, List.mem_map, beq_iff_eq]
  unfold addUnseen
  by_cases h : results.any (·.id == e.id) = true
  · exact .inl ⟨if_pos h, hseen.mp h⟩
  · exact .inr ⟨if_neg h, fun hmem => h (hseen.mpr hmem)⟩

private theorem collected_addUnseen {e : MemoryEntry} (he : e ∈ s.entries) (hroom : results.length < limit)
    (h : Collected s limit results) : Collected s limit (addUnseen results e) := by
  rcases addUnseen_cases results e with ⟨hadd, -⟩ | ⟨hadd, hnew⟩
  · rw [hadd]
    exact h
  · rw [hadd]
    refine ⟨?_, ?_, fun x hx => ?_⟩
    · rw [List.length_append, List.length_singleton]
      omega
    · rw [List.map_append, List.map_singleton, List.nodup_append]
      refine ⟨h.distinct, List.nodup_singleton _, fun i hi j hj hij => hnew ?_⟩
      rw [← List.mem_singleton.mp hj, ← hij]
      exact hi
    · rcases List.mem_append.mp hx with hx | hx
      · exact h.stored x hx
      · rw [List.mem_singleton.mp hx]
        exact he

private theorem collected_addFound (founds : List (List Char)) (h : Collected s limit results) :
    Collected s limit (s.addFound limit results founds) := by
  induction founds generalizing results with
  | nil => exact h
  | cons found rest ih =>
    unfold addFound
    split
    · exact h
    · next hroom =>
      dsimp only
      split
      · exact ih h
      · split
        · exact ih h
        · next e hsome =>
          exact ih (collected_addUnseen (List.mem_of_find?_eq_some hsome) (Nat.lt_of_not_le hroom) h)

private theorem collected_addFallback {es : List MemoryEntry} (hes : ∀ e ∈ es, e ∈ s.entries)
    (h : Collected s limit results) : Collected s limit (addFallback limit results es) := by
  induction es generalizing results with
  | nil => exact h
  | cons e rest ih =>
    obtain ⟨he, hrest⟩ := List.forall_mem_cons.mp hes
    unfold addFallback
    split
    · exact h
    · next hroom => exact ih hrest (collected_addUnseen he (Nat.lt_of_not_le hroom) h)

private theorem mem_addFallback {es : List MemoryEntry} {x : MemoryEntry} (h : x ∈ results) :
    x ∈ addFallback limit results es := by
  induction es generalizing results with
  | nil => exact h
  | cons e rest ih =>
    unfold addFallback
    split
    · exact h
    · apply ih
      rcases addUnseen_cases results e with ⟨hadd, -⟩ | ⟨hadd, -⟩
      · rw [hadd]
        exact h
      · rw [hadd]
        exact List.mem_append_left _ h

/-- The fallback ends with enough results, or with all of its entries among them. -/
private theorem addFallback_full (es : List MemoryEntry) :
    limit ≤ (addFallback limit results es).length ∨
      ∀ e ∈ es, e.id ∈ (addFallback limit results es).map (·.id) := by
  induction es generalizing results with
  | nil => exact .inr fun e he => by cases he
  | cons e rest ih =>
    unfold addFallback
    split
    · next hfull => exact .inl hfull
    · rcases ih with hfull | hall
      · exact .inl hfull
      · refine .inr (List.forall_mem_cons.mpr ⟨?_, hall⟩)
        have hadded : ∃ x ∈ addUnseen results e, x.id = e.id := by
          rcases addUnseen_cases results e with ⟨hadd, hseen⟩ | ⟨hadd, -⟩
          · rw [hadd]
            exact List.mem_map.mp hseen
          · rw [hadd]
            exact ⟨e, by simp, rfl⟩
        obtain ⟨x, hx, hid⟩ := hadded
        exact List.mem_map.mpr ⟨x, mem_addFallback hx, hid⟩

end Results

section Recall

variable {order : RecencyOrder} {l : Lowering} {s : MemoryStream} {walk : List MemoryFile}
  {query : List Char} {limit : Nat}

/-- What the files lead to. -/
private def foundFor (l : Lowering) (s : MemoryStream) (walk : List MemoryFile) (query : List Char)
    (limit : Nat) : List MemoryEntry :=
  if 0 < limit then s.addFound limit [] (Uocs.searchContent l walk query (limit * 2)) else []

private theorem recallLayered_eq : s.recallLayered order l (some walk) query limit =
    if (foundFor l s walk query limit).length < limit then
      addFallback limit (foundFor l s walk query limit) (s.recallByRecency order limit)
    else foundFor l s walk query limit := by
  show (if (foundFor l s walk query limit).length < limit then
      addFallback limit (foundFor l s walk query limit) (s.recallByRecency order
        (limit - (foundFor l s walk query limit).length + (foundFor l s walk query limit).length))
    else foundFor l s walk query limit) = _
  by_cases hroom : (foundFor l s walk query limit).length < limit
  · rw [if_pos hroom, if_pos hroom, Nat.sub_add_cancel (Nat.le_of_lt hroom)]
  · rw [if_neg hroom, if_neg hroom]

private theorem collected_found : Collected s limit (foundFor l s walk query limit) := by
  have hnone : Collected s limit [] := ⟨Nat.zero_le _, List.nodup_nil, fun e he => by cases he⟩
  unfold foundFor
  split
  · exact collected_addFound _ hnone
  · exact hnone

private theorem mem_recallByRecency {e : MemoryEntry} (h : e ∈ s.recallByRecency order limit) : e ∈ s.entries :=
  (order.perm _).mem_iff.mp (List.mem_of_mem_take h)

/-- Layered recall returns distinct stored entries, at most as many as asked for. -/
theorem collected_recallLayered : Collected s limit (s.recallLayered order l (some walk) query limit) := by
  rw [recallLayered_eq]
  split
  · exact collected_addFallback (fun e he => mem_recallByRecency he) collected_found
  · exact collected_found

/-- And what the files lead to is part of it. -/
private theorem mem_recallLayered {e : MemoryEntry} (h : e ∈ foundFor l s walk query limit) :
    e ∈ s.recallLayered order l (some walk) query limit := by
  rw [recallLayered_eq]
  split
  · exact mem_addFallback h
  · exact h

private theorem eq_of_id_eq (hids : (s.entries.map (·.id)).Nodup) {a b : MemoryEntry} (ha : a ∈ s.entries)
    (hb : b ∈ s.entries) (h : a.id = b.id) : a = b :=
  List.inj_on_of_nodup_map hids ha hb h

/-- Layered recall returns as many entries as asked for, or all of them. -/
theorem recallLayered_full (hids : (s.entries.map (·.id)).Nodup) :
    limit ≤ (s.recallLayered order l (some walk) query limit).length ∨
      ∀ e ∈ s.entries, e ∈ s.recallLayered order l (some walk) query limit := by
  have hcollected : Collected s limit (s.recallLayered order l (some walk) query limit) :=
    collected_recallLayered
  by_cases hroom : (foundFor l s walk query limit).length < limit
  · have hfull : limit ≤ (s.recallLayered order l (some walk) query limit).length ∨
        ∀ e ∈ s.recallByRecency order limit,
          e.id ∈ (s.recallLayered order l (some walk) query limit).map (·.id) := by
      rw [recallLayered_eq, if_pos hroom]
      exact addFallback_full _
    rcases hfull with hfull | hall
    · exact .inl hfull
    by_cases hmany : limit ≤ s.entries.length
    · -- The newest entries are `limit` many, and their ids are distinct.
      refine .inl ?_
      have hlen : (s.recallByRecency order limit).length = limit := by
        rw [recallByRecency, List.length_take, (order.perm _).length_eq]
        omega
      have hdistinct : ((s.recallByRecency order limit).map (·.id)).Nodup :=
        (((order.perm _).map _).nodup_iff.mpr hids).sublist ((List.take_sublist _ _).map _)
      have hsub : (s.recallByRecency order limit).map (·.id) ⊆
          (s.recallLayered order l (some walk) query limit).map (·.id) := by
        intro i hi
        obtain ⟨e, he, rfl⟩ := List.mem_map.mp hi
        exact hall e he
      have hle := (List.subperm_of_subset hdistinct hsub).length_le
      rwa [List.length_map, List.length_map, hlen] at hle
    · refine .inr fun e he => ?_
      have hnewest : e ∈ s.recallByRecency order limit := by
        have hlen := (order.perm s.entries).length_eq
        rw [recallByRecency, List.take_of_length_le (by omega)]
        exact (order.perm _).mem_iff.mpr he
      obtain ⟨x, hx, hid⟩ := List.mem_map.mp (hall e hnewest)
      rwa [← eq_of_id_eq hids (hcollected.stored x hx) he hid]
  · rw [recallLayered_eq, if_neg hroom]
    exact .inl (Nat.le_of_not_lt hroom)

end Recall

end MemoryStream

section Clear

variable {r : Rendering} {l : Lowering} {order : RecencyOrder} {entries : List MemoryEntry}
  {query : List Char} {limit : Nat}

/-- The rows that are there after entries were added. -/
def stored (entries : List MemoryEntry) : MemoryStream := entries.foldl MemoryStream.add ⟨[]⟩

/-- The entries that mention a query have a content and a file of their own, which give it back, and no
other file mentions the query. -/
def Clear (r : Rendering) (l : Lowering) (entries : List MemoryEntry) (query : List Char) : Prop :=
  ∀ e ∈ entries,
    (Mentions l query (MemoryStream.columns e).content →
      e.content ≠ [] ∧ Flat e.content ∧ Fits r e ∧ ∀ other ∈ entries, other.id ≠ e.id →
        (MemoryStream.columns other).content ≠ e.content ∧
          (Uocs.fileOf r other).path ≠ (Uocs.fileOf r e).path) ∧
    (Mentions l query (Uocs.fileText r e) → Mentions l query (MemoryStream.columns e).content)

theorem stored_entries (entries : List MemoryEntry) :
    (stored entries).entries = entries.map MemoryStream.columns := by
  induction entries using List.reverseRecOn with
  | nil => rfl
  | append_singleton entries e ih =>
    rw [stored, List.foldl_append, List.foldl_cons, List.foldl_nil, MemoryStream.add, MemoryStream.entries,
      List.map_append, List.map_append]
    exact congrArg (· ++ [MemoryStream.columns e]) ih

private theorem stored_ids (entries : List MemoryEntry) :
    (stored entries).entries.map (·.id) = entries.map (·.id) := by
  rw [stored_entries, List.map_map]
  rfl

/-- The file of an entry leads to its row, and to no other. -/
private structure Leads (r : Rendering) (entries : List MemoryEntry) (e : MemoryEntry) : Prop where
  read : extractBodyFromMd (Uocs.fileText r e) = (MemoryStream.columns e).content
  nonempty : (MemoryStream.columns e).content ≠ []
  found : (stored entries).withContent (MemoryStream.columns e).content = some (MemoryStream.columns e)

private theorem leads_of_clear (hids : (entries.map (·.id)).Nodup) (h : Clear r l entries query)
    {e : MemoryEntry} (he : e ∈ entries) (hmentions : Mentions l query (MemoryStream.columns e).content) :
    Leads r entries e := by
  obtain ⟨hne, hflat, hfits, halone⟩ := (h e he).1 hmentions
  have hcontent := columns_of_fits hfits
  refine ⟨extract_fileText_iff.mpr ⟨hflat, hfits⟩, by rwa [hcontent], ?_⟩
  have hunique : ∀ x ∈ (stored entries).entries, x.content = (MemoryStream.columns e).content →
      x = MemoryStream.columns e := by
    intro x hx hsame
    rw [stored_entries] at hx
    obtain ⟨other, ho, rfl⟩ := List.mem_map.mp hx
    by_contra hother
    have hid : other.id ≠ e.id := fun hid =>
      hother (congrArg MemoryStream.columns (List.inj_on_of_nodup_map hids ho he hid))
    exact (halone other ho hid).1 (hsame.trans hcontent)
  have hthere : MemoryStream.columns e ∈ (stored entries).entries := by
    rw [stored_entries]
    exact List.mem_map_of_mem he
  unfold MemoryStream.withContent
  cases hfind : (stored entries).entries.find? (·.content == (MemoryStream.columns e).content) with
  | none => exact absurd (beq_self_eq_true _) (List.find?_eq_none.mp hfind _ hthere)
  | some x =>
    have hsame : (x.content == (MemoryStream.columns e).content) = true := by
      have hfits := List.find?_some hfind
      exact hfits
    rw [hunique x (List.mem_of_find?_eq_some hfind) (beq_iff_eq.mp hsame)]

/-- From files that lead to their rows come these rows, as many as are wanted. -/
private theorem addFound_leads {front es : List MemoryEntry} (hes : ∀ e ∈ es, Leads r entries e)
    (hids : ((front ++ es).map (·.id)).Nodup) (hfront : front.length ≤ limit) :
    (stored entries).addFound limit (front.map MemoryStream.columns) (es.map (Uocs.fileText r)) =
      ((front ++ es).map MemoryStream.columns).take limit := by
  induction es generalizing front with
  | nil =>
    rw [List.append_nil, List.take_of_length_le (by simpa using hfront)]
    rfl
  | cons e rest ih =>
    obtain ⟨hread, hne, hfound⟩ := hes e List.mem_cons_self
    rw [List.map_cons, MemoryStream.addFound, List.length_map]
    split
    · next hfull =>
      have hlen : limit = (front.map MemoryStream.columns).length := by
        rw [List.length_map]
        omega
      rw [List.map_append, hlen, List.take_left]
    · next hroom =>
      have hnew : MemoryStream.addUnseen (front.map MemoryStream.columns) (MemoryStream.columns e) =
          (front ++ [e]).map MemoryStream.columns := by
        rw [List.map_append, List.nodup_append] at hids
        rcases MemoryStream.addUnseen_cases (front.map MemoryStream.columns) (MemoryStream.columns e)
          with ⟨-, hseen⟩ | ⟨hadd, -⟩
        · rw [List.map_map] at hseen
          exact absurd rfl (hids.2.2 e.id hseen e.id List.mem_cons_self)
        · rw [hadd, List.map_append, List.map_singleton]
      have happend : front ++ e :: rest = front ++ [e] ++ rest := List.append_cons front e rest
      simp only [hread, hfound, List.isEmpty_iff, hne, if_false, hnew]
      rw [happend] at hids ⊢
      refine ih (fun x hx => hes x (List.mem_cons_of_mem e hx)) hids ?_
      rw [List.length_append, List.length_singleton]
      omega

private theorem exists_map_eq {α β : Type} {f : α → β} {p : α → Prop} {ys : List β}
    (h : ∀ y ∈ ys, ∃ x, p x ∧ f x = y) : ∃ xs : List α, xs.map f = ys ∧ ∀ x ∈ xs, p x := by
  induction ys with
  | nil => exact ⟨[], rfl, fun x hx => by cases hx⟩
  | cons y ys ih =>
    obtain ⟨⟨x, hx, rfl⟩, hrest⟩ := List.forall_mem_cons.mp h
    obtain ⟨xs, rfl, hxs⟩ := ih hrest
    exact ⟨x :: xs, rfl, List.forall_mem_cons.mpr ⟨hx, hxs⟩⟩

/-- No entry that mentions the query is missed, unless enough were found. -/
theorem recallLayered_clear (hids : (entries.map (·.id)).Nodup) {walk : List MemoryFile}
    (hwalk : walk.Perm (mirrored r entries)) (h : Clear r l entries query) :
    (∀ e ∈ (stored entries).entries, Mentions l query e.content →
      e ∈ (stored entries).recallLayered order l (some walk) query limit) ∨
    limit ≤ (((stored entries).recallLayered order l (some walk) query limit).filter
      fun e => decide (Mentions l query e.content)).length := by
  -- The files of the walk that mention the query, with their entries.
  let matching := walk.filter fun f => Text.contains (l.lower query) (l.lower f.text)
  have hfiles : ∀ f ∈ matching, ∃ e, (e ∈ entries ∧ Mentions l query (MemoryStream.columns e).content) ∧
      Uocs.fileOf r e = f := by
    intro f hf
    obtain ⟨hf, hmatch⟩ := List.mem_filter.mp hf
    obtain ⟨e, he, rfl⟩ := mem_mirrored (hwalk.mem_iff.mp hf)
    exact ⟨e, ⟨he, (h e he).2 hmatch⟩, rfl⟩
  obtain ⟨es, hes, hall⟩ := exists_map_eq hfiles
  have hnodup : (es.map (Uocs.fileOf r)).Nodup := by
    rw [hes]
    exact (hwalk.nodup_iff.mpr (mirrored_nodup entries)).filter _
  have hesIds : (es.map (·.id)).Nodup := by
    refine hnodup.of_map.map_on fun a ha b hb hid => ?_
    exact List.inj_on_of_nodup_map hids (hall a ha).1 (hall b hb).1 hid
  have hsearch : Uocs.searchContent l walk query (limit * 2) =
      (es.take (limit * 2)).map (Uocs.fileText r) := by
    show (matching.take (limit * 2)).map (·.text) = _
    rw [← hes, ← List.map_take, List.map_map]
    rfl
  have hfound : MemoryStream.foundFor l (stored entries) walk query limit =
      (es.map MemoryStream.columns).take limit := by
    unfold MemoryStream.foundFor
    split
    · have hleads : ∀ e ∈ es.take (limit * 2), Leads r entries e := fun e he =>
        leads_of_clear hids h (hall e (List.mem_of_mem_take he)).1 (hall e (List.mem_of_mem_take he)).2
      have hsome : ((([] : List MemoryEntry) ++ es.take (limit * 2)).map (·.id)).Nodup :=
        hesIds.sublist ((List.take_sublist _ _).map _)
      have hadded := addFound_leads hleads hsome (Nat.zero_le limit)
      rw [hsearch]
      refine hadded.trans ?_
      rw [List.nil_append, List.map_take, List.take_take, Nat.min_eq_left (by omega)]
    · next hzero =>
      rw [Nat.eq_zero_of_not_pos hzero, List.take_zero]
  by_cases hmany : limit ≤ es.length
  · right
    have hlen : ((es.map MemoryStream.columns).take limit).length = limit := by
      rw [List.length_take, List.length_map]
      omega
    rw [MemoryStream.recallLayered_eq, hfound, if_neg (by omega), List.filter_eq_self.mpr, hlen]
    intro x hx
    obtain ⟨e, he, rfl⟩ := List.mem_map.mp (List.mem_of_mem_take hx)
    exact decide_eq_true (hall e he).2
  · refine .inl fun x hx hmentions => MemoryStream.mem_recallLayered ?_
    rw [stored_entries] at hx
    obtain ⟨e, he, rfl⟩ := List.mem_map.mp hx
    obtain ⟨hne, hflat, hfits, halone⟩ := (h e he).1 hmentions
    have hsame : ∀ other ∈ entries, (Uocs.fileOf r other).path = (Uocs.fileOf r e).path → other = e := by
      intro other ho hpath
      by_contra hother
      exact (halone other ho fun hid => hother (List.inj_on_of_nodup_map hids ho he hid)).2 hpath
    have hthere : Uocs.fileOf r e ∈ matching := by
      refine List.mem_filter.mpr ⟨hwalk.mem_iff.mpr (fileOf_mem_mirrored he fun other ho hpath => ?_), ?_⟩
      · rw [hsame other ho hpath]
      · rw [columns_of_fits hfits] at hmentions
        exact mentions_fileText hfits hmentions
    rw [← hes] at hthere
    obtain ⟨e', he', hfile⟩ := List.mem_map.mp hthere
    have heq := hsame e' (hall e' he').1 (congrArg MemoryFile.path hfile)
    rw [hfound, List.take_of_length_le (by rw [List.length_map]; omega)]
    exact List.mem_map_of_mem (heq ▸ he')

end Clear

section Agreement

/-- Every entry that mentions the query is there, or enough of those that do are. -/
def Complete (l : Lowering) (entries : List MemoryEntry) (query : List Char) (limit : Nat)
    (got : List MemoryEntry) : Prop :=
  (∀ e ∈ (stored entries).entries, Mentions l query e.content → e ∈ got) ∨
    limit ≤ (got.filter fun e => decide (Mentions l query e.content)).length

instance (l : Lowering) (entries : List MemoryEntry) (query : List Char) (limit : Nat)
    (got : List MemoryEntry) : Decidable (Complete l entries query limit got) :=
  inferInstanceAs (Decidable (_ ∨ _))

/-- Distinct rows that are as many as there are rows are all of them. -/
private theorem mem_of_length_le {s : MemoryStream} {got : List MemoryEntry}
    (hids : (s.entries.map (·.id)).Nodup) (hdistinct : (got.map (·.id)).Nodup)
    (hthere : ∀ e ∈ got, e ∈ s.entries) (hlen : s.entries.length ≤ got.length) {e : MemoryEntry}
    (he : e ∈ s.entries) : e ∈ got := by
  have hsub : got.map (·.id) ⊆ s.entries.map (·.id) := List.map_subset _ hthere
  have hperm : (got.map (·.id)).Perm (s.entries.map (·.id)) :=
    (List.subperm_of_subset hdistinct hsub).perm_of_length_le (by simpa using hlen)
  obtain ⟨x, hx, hid⟩ := List.mem_map.mp (hperm.mem_iff.mpr (List.mem_map_of_mem he))
  rwa [← List.inj_on_of_nodup_map hids (hthere x hx) he hid]

/-- A file gives back the stored content exactly if every line of it stands for itself and it fits into
the file; entries have files of their own exactly if no two agree in kind, day and first digits of the
id; and layered recall, which returns few and distinct entries, is complete if the query is clear, if
there are no more entries than asked for, or if they all mention the query. -/
theorem markdown_mirror_iff (r : Rendering) (l : Lowering) (order : RecencyOrder)
    (entries : List MemoryEntry) (hids : (entries.map (·.id)).Nodup) :
    (∀ e ∈ entries, extractBodyFromMd (Uocs.fileText r e) = (MemoryStream.columns e).content ↔
      Flat e.content ∧ Fits r e) ∧
    ((entries.map fun e => (Uocs.fileOf r e).path).Nodup ↔ entries.Pairwise fun a b =>
      ¬ (a.kind = b.kind ∧ r.date a.createdAt = r.date b.createdAt ∧
        Uocs.idShort a.id = Uocs.idShort b.id)) ∧
    ∀ walk : List MemoryFile, walk.Perm (mirrored r entries) → ∀ query limit,
      ((stored entries).recallLayered order l (some walk) query limit).length ≤ limit ∧
      (((stored entries).recallLayered order l (some walk) query limit).map (·.id)).Nodup ∧
      (Clear r l entries query ∨ entries.length ≤ limit ∨
          (∀ e ∈ entries, Mentions l query (MemoryStream.columns e).content) →
        Complete l entries query limit
          ((stored entries).recallLayered order l (some walk) query limit)) := by
  refine ⟨fun e _ => extract_fileText_iff, ?_, fun walk hwalk query limit => ?_⟩
  · rw [List.Nodup, List.pairwise_map]
    simp only [ne_eq, path_eq_iff]
  · have hstored : ((stored entries).entries.map (·.id)).Nodup := by
      rw [stored_ids]
      exact hids
    obtain ⟨hfew, hdistinct, hthere⟩ :
        MemoryStream.Collected (stored entries) limit
          ((stored entries).recallLayered order l (some walk) query limit) :=
      MemoryStream.collected_recallLayered
    have hfull : limit ≤ ((stored entries).recallLayered order l (some walk) query limit).length ∨ _ :=
      MemoryStream.recallLayered_full hstored
    refine ⟨hfew, hdistinct, ?_⟩
    rintro (hclear | hmany | hall)
    · exact recallLayered_clear hids hwalk hclear
    · refine .inl fun e he _ => ?_
      rcases hfull with hfull | hcomplete
      · exact mem_of_length_le hstored hdistinct hthere (by rw [stored_entries, List.length_map]; omega) he
      · exact hcomplete e he
    · rcases hfull with hfull | hcomplete
      · right
        rwa [List.filter_eq_self.mpr]
        intro e he
        have hmem := hthere e he
        rw [stored_entries] at hmem
        obtain ⟨e', he', rfl⟩ := List.mem_map.mp hmem
        exact decide_eq_true (hall e' he')
      · exact .inl fun e he _ => hcomplete e he

end Agreement

section Examples

/-- The newest first, and those of one time as they were added. -/
def RecencyOrder.stable : RecencyOrder where
  sort := List.insertionSort fun a b => b.createdAt ≤ a.createdAt
  perm := List.perm_insertionSort _
  sorted rows := by
    have htotal : Std.Total fun a b : MemoryEntry => b.createdAt ≤ a.createdAt :=
      ⟨fun a b => Int.le_total _ _⟩
    have htrans : IsTrans MemoryEntry fun a b => b.createdAt ≤ a.createdAt :=
      ⟨fun a b c hab hbc => Int.le_trans hbc hab⟩
    exact List.pairwise_insertionSort _ rows

/-- The first of May 2024, and an importance of five. -/
private def mayDay : Rendering where
  date _ := "2024-05-01".toList
  importance _ := "5".toList
  dateLine _ := by decide
  importanceLine _ := by decide
  short _ _ := by decide

private def asciiLowering : Lowering where
  lower := Text.toLowercase
  acrossLines s t := by
    rw [Text.toLowercase_append]
    rfl

private def note (n : Nat) (content : String) : MemoryEntry :=
  ⟨Uuid.ofNat (n * 2 ^ 96), content.toList, .lesson, 5, 1714521600000000000, Namespaces.personal⟩

private def twoNotes : List MemoryEntry := [note 1 "tests first", note 2 "small steps"]

/-- Two notes with files of their own, of which a query finds the one that mentions it. -/
theorem markdown_mirror_iff_notes :
    extractBodyFromMd (Uocs.fileText mayDay (note 2 "small steps")) = "small steps".toList ∧
    (twoNotes.map fun e => (Uocs.fileOf mayDay e).path).Nodup ∧
    Complete asciiLowering twoNotes "Small".toList 1
      ((stored twoNotes).recallLayered .stable asciiLowering (some (mirrored mayDay twoNotes))
        "Small".toList 1) := by
  have h := markdown_mirror_iff mayDay asciiLowering .stable twoNotes (by decide)
  refine ⟨?_, ?_, ?_⟩
  · have hread := (h.1 (note 2 "small steps") (by decide)).mpr (by decide +kernel)
    exact hread.trans (by decide +kernel)
  · exact h.2.1.mpr (by decide +kernel)
  · exact (h.2.2 _ (List.Perm.refl _) _ _).2.2 (.inl (by unfold Clear; decide +kernel))

/-- A blank at the front of a line is not read back; two notes whose ids begin alike have one file; and a
query that every front matter has in it finds a note that does not mention it in place of one that does. -/
theorem notes_disagree :
    extractBodyFromMd (Uocs.fileText mayDay (note 1 " steps")) ≠
      (MemoryStream.columns (note 1 " steps")).content ∧
    (Uocs.fileOf mayDay { note 1 "tests first" with id := Uuid.ofNat 1 }).path =
      (Uocs.fileOf mayDay { note 1 "small steps" with id := Uuid.ofNat 2 }).path ∧
    ¬ Complete asciiLowering [note 1 "tests first", note 2 "types"] "type".toList 1
      ((stored [note 1 "tests first", note 2 "types"]).recallLayered .stable asciiLowering
        (some (mirrored mayDay [note 1 "tests first", note 2 "types"])) "type".toList 1) := by
  refine ⟨?_, ?_, ?_⟩ <;> decide +kernel

end Examples

end Gyre.Cognitive
