/- digest: Which concurrent appends to a document are kept, and when its index is up to date. -/

import Gyre.Workspace.Documents

set_option autoImplicit false
set_option relaxedAutoImplicit false

namespace Gyre.Workspace

open Gyre.Lib

section Calls

variable {calls : List Call} {i j : Nat} {old new call : Call}

/-- After a call has moved it is the one that moved, or one that was there before. -/
theorem getElem?_moved (h : (calls.set i new)[j]? = some call) :
    (j = i ∧ call = new) ∨ (j ≠ i ∧ calls[j]? = some call) := by
  by_cases hji : j = i
  · subst hji
    have hlt : j < calls.length := by
      have := (List.getElem?_eq_some_iff.mp h).1
      rwa [List.length_set] at this
    rw [List.getElem?_set_self hlt, Option.some.injEq] at h
    exact .inl ⟨rfl, h.symm⟩
  · rw [List.getElem?_set_ne (Ne.symm hji)] at h
    exact .inr ⟨hji, h⟩

theorem getElem?_begun (h : (calls ++ [new])[j]? = some call) : calls[j]? = some call ∨ call = new := by
  rw [List.getElem?_append] at h
  split at h
  · exact .inl h
  · have hnew := List.mem_of_getElem? h
    exact .inr (List.mem_singleton.mp hnew)

end Calls

section Appends

variable {s s' : DocumentState} {i : Nat} {request : Request} {phase next : Phase} {fails : Bool}

/-- The call has stored its content, and has not failed since. -/
def Phase.applied : Phase → Bool
  | .starting => false
  | .opened _ => false
  | .failed => false
  | _ => true

/-- The entries appended since the last write stored its content. -/
def standing : List Event → List (List Char)
  | [] => []
  | .opened _ :: log => standing log
  | .appended _ entry :: log => entry :: standing log
  | .replaced :: _ => []

theorem standing_or_replaced {entry : List Char} {log : List Event} (h : .appended i entry ∈ log) :
    entry ∈ standing log ∨ ReplacedSince i entry log := by
  induction log with
  | nil => cases h
  | cons event log ih =>
    rcases List.mem_cons.mp h with rfl | hlater
    · exact .inl List.mem_cons_self
    · have hmore (hreplaced : ReplacedSince i entry log) : ReplacedSince i entry (event :: log) := by
        obtain ⟨newer, older, rfl, hwrite⟩ := hreplaced
        exact ⟨event :: newer, older, rfl, List.mem_cons_of_mem _ hwrite⟩
      cases event with
      | opened call => exact (ih hlater).imp_right hmore
      | appended call other => exact (ih hlater).imp (List.mem_cons_of_mem _) hmore
      | replaced =>
        obtain ⟨newer, older, rfl⟩ := List.append_of_mem hlater
        exact .inr ⟨.replaced :: newer, older, rfl, List.mem_cons_self⟩

/-- An append stores what it has read, and its entry. -/
theorem infix_newContent {entry : List Char} (h : request.entry = some entry) (doc : List Char) :
    doc <:+: request.newContent doc ∧ entry <:+: request.newContent doc := by
  have happended (separator : List Char) :
      doc <:+: (if doc = [] then entry else doc ++ separator ++ entry) ∧
        entry <:+: (if doc = [] then entry else doc ++ separator ++ entry) := by
    by_cases hdoc : doc = []
    · rw [if_pos hdoc, hdoc]
      exact ⟨List.nil_infix, List.infix_rfl⟩
    · rw [if_neg hdoc]
      exact ⟨(List.prefix_append doc _).isInfix.trans (List.prefix_append _ entry).isInfix,
        (List.suffix_append _ entry).isInfix⟩
  cases request with
  | write content => cases h
  | append content =>
    cases h
    have hline := happended ['\n']
    rw [List.append_assoc] at hline
    exact hline
  | appendMemory content =>
    cases h
    have hline := happended ['\n', '\n']
    rw [List.append_assoc] at hline
    exact hline

/-- What the document and the copies of it that calls have read still hold of the entries. -/
structure Kept (s : DocumentState) : Prop where
  present : ∀ entry ∈ standing s.log, entry <:+: s.content
  read : ∀ (i : Nat) (request : Request) (doc : List Char), s.calls[i]? = some ⟨request, .opened doc⟩ →
    ∀ entry ∈ standing s.log, entry ∈ missed i s.log ∨ entry <:+: doc
  logged : ∀ (i : Nat) (request : Request) (phase : Phase) (entry : List Char),
    s.calls[i]? = some ⟨request, phase⟩ → phase.applied = true → request.entry = some entry →
      .appended i entry ∈ s.log

theorem kept_indexedDocument (content : List Char) : Kept (indexedDocument content) where
  present entry h := nomatch h
  read i request doc h := by simp [indexedDocument] at h
  logged i request phase entry h := by simp [indexedDocument] at h

theorem Kept.appendsPresent (h : Kept s) : AppendsPresent s := by
  intro i request entry hcall hentry
  have hlogged := h.logged i request .succeeded entry hcall rfl hentry
  exact (standing_or_replaced hlogged).imp_left (h.present entry)

theorem Kept.begun (h : Kept s) (request : Request) : Kept (documentStep s (.begin request)) where
  present := h.present
  read j other doc hcall := by
    rcases getElem?_begun hcall with hbefore | hnew
    · exact h.read j other doc hbefore
    · cases hnew
  logged j other phase entry hcall happlied := by
    rcases getElem?_begun hcall with hbefore | hnew
    · exact h.logged j other phase entry hbefore happlied
    · cases hnew
      cases happlied

/-- A step that neither reads the document nor stores it keeps the entries. -/
theorem Kept.moved (h : Kept s) (hcall : s.calls[i]? = some ⟨request, phase⟩)
    (hcontent : s'.content = s.content) (hlog : s'.log = s.log)
    (hcalls : s'.calls = s.calls.set i ⟨request, next⟩) (hnext : ∀ doc, next ≠ .opened doc)
    (happlied : next.applied = true → phase.applied = true) : Kept s' where
  present entry hentry := by
    rw [hlog] at hentry
    rw [hcontent]
    exact h.present entry hentry
  read j other doc hj entry hentry := by
    rw [hlog] at hentry ⊢
    rw [hcalls] at hj
    rcases getElem?_moved hj with ⟨-, hmoved⟩ | ⟨-, hbefore⟩
    · cases hmoved
      exact absurd rfl (hnext doc)
    · exact h.read j other doc hbefore entry hentry
  logged j other phase' entry hj hphase hentry := by
    rw [hcalls] at hj
    rw [hlog]
    rcases getElem?_moved hj with ⟨rfl, hmoved⟩ | ⟨-, hbefore⟩
    · cases hmoved
      exact h.logged j request phase entry hcall (happlied hphase) hentry
    · exact h.logged j other phase' entry hbefore hphase hentry

theorem Kept.opens (h : Kept s) : Kept
    { s.move i request (.opened s.content) with log := .opened i :: s.log } where
  present := h.present
  read j other doc hj entry hentry := by
    rcases getElem?_moved hj with ⟨-, hmoved⟩ | ⟨hji, hbefore⟩
    · cases hmoved
      exact .inr (h.present entry hentry)
    · rw [missed, if_neg (Ne.symm hji)]
      exact h.read j other doc hbefore entry hentry
  logged j other phase entry hj hphase hentry := by
    rcases getElem?_moved hj with ⟨-, hmoved⟩ | ⟨-, hbefore⟩
    · cases hmoved
      cases hphase
    · exact List.mem_cons_of_mem _ (h.logged j other phase entry hbefore hphase hentry)

/-- Whoever stores the document logs it; what is logged of the others stays. -/
theorem Kept.updated_logged (h : Kept s) (i : Nat) (request : Request) (s' : DocumentState)
    (hcalls : s'.calls = s.calls.set i ⟨request, .updated⟩)
    (hlog : s'.log = request.event i :: s.log) (j : Nat) (other : Request) (phase : Phase)
    (entry : List Char) (hj : s'.calls[j]? = some ⟨other, phase⟩) (hphase : phase.applied = true)
    (hentry : other.entry = some entry) : .appended j entry ∈ s'.log := by
  rw [hcalls] at hj
  rw [hlog]
  rcases getElem?_moved hj with ⟨rfl, hmoved⟩ | ⟨-, hbefore⟩
  · cases hmoved
    have hevent : request.event j = .appended j entry := by
      cases request <;> cases hentry <;> rfl
    rw [hevent]
    exact List.mem_cons_self
  · exact List.mem_cons_of_mem _ (h.logged j other phase entry hbefore hphase hentry)

theorem Kept.updates {doc : List Char} (h : Kept s)
    (hcall : s.calls[i]? = some ⟨request, .opened doc⟩)
    (hturn : request.entry = none ∨ missed i s.log = []) : Kept
    { s.move i request .updated with
      content := request.newContent doc, log := request.event i :: s.log } := by
  have hlogged := h.updated_logged i request { s.move i request .updated with
    content := request.newContent doc, log := request.event i :: s.log } rfl rfl
  cases hentry : request.entry with
  | none =>
    have hevent : request.event i = .replaced := by cases request <;> first | rfl | cases hentry
    refine ⟨?_, ?_, hlogged⟩
    · simp [hevent, standing]
    · simp [hevent, standing]
  | some entry =>
    have hevent : request.event i = .appended i entry := by
      cases request <;> cases hentry <;> rfl
    have hmissed : missed i s.log = [] := by
      rcases hturn with hnone | hmissed
      · rw [hnone] at hentry
        cases hentry
      · exact hmissed
    have hnew := infix_newContent hentry doc
    refine ⟨?_, ?_, hlogged⟩
    · intro e he
      simp only [hevent, standing, List.mem_cons] at he
      rcases he with rfl | hbefore
      · exact hnew.2
      · have hread := h.read i request doc hcall e hbefore
        rw [hmissed] at hread
        rcases hread with hnever | hdoc
        · cases hnever
        · exact hdoc.trans hnew.1
    · intro j other doc' hj e he
      simp only [hevent, standing, missed, List.mem_cons] at he ⊢
      rcases getElem?_moved hj with ⟨-, hmoved⟩ | ⟨-, hbefore⟩
      · cases hmoved
      · rcases he with rfl | hstanding
        · exact .inl (.inl rfl)
        · exact (h.read j other doc' hbefore e hstanding).imp_left .inr

theorem Kept.turn (h : Kept s) (hcall : s.calls[i]? = some ⟨request, phase⟩)
    (hturn : fails = false → ∀ doc, phase = .opened doc → request.entry = none ∨ missed i s.log = [])
    (ht : Turn s i request fails phase s') : Kept s' := by
  cases ht with
  | opens _ => exact h.opens
  | updates doc hok => exact h.updates hcall (hturn hok doc rfl)
  | reads _ => exact h.moved hcall rfl rfl rfl (fun _ => nofun) fun _ => rfl
  | deletes chunks _ => exact h.moved hcall rfl rfl rfl (fun _ => nofun) fun _ => rfl
  | inserts index text rest _ => exact h.moved hcall rfl rfl rfl (fun _ => nofun) fun _ => rfl
  | indexed index =>
    refine h.moved hcall rfl rfl rfl (fun doc => ?_) fun _ => rfl
    cases request <;> nofun
  | returns _ => exact h.moved hcall rfl rfl rfl (fun _ => nofun) fun _ => rfl
  | breaks _ _ => exact h.moved hcall rfl rfl rfl (fun _ => nofun) nofun
  | collides index text rest _ => exact h.moved hcall rfl rfl rfl (fun _ => nofun) nofun
  | rests _ _ => exact h

theorem Kept.step (h : Kept s) (a : Action) (hturn : AppendsInTurn s a) : Kept (documentStep s a) := by
  cases a with
  | begin request => exact h.begun request
  | advance i fails =>
    cases hcall : s.calls[i]? with
    | none =>
      rw [documentStep, hcall]
      exact h
    | some call =>
      obtain ⟨request, phase⟩ := call
      rw [documentStep, hcall]
      refine h.turn hcall ?_ (advanceCall_turn s i request fails phase)
      rintro rfl doc rfl
      rw [AppendsInTurn, hcall] at hturn
      rcases hturn with hnot | hfresh
      · cases hnot
      · exact hfresh

end Appends

section Index

variable {s s' : DocumentState} {i : Nat} {request : Request} {phase next : Phase} {fails : Bool}

/-- The stored chunks, with those a call has still to store, are the chunks of the content. -/
def Carries (s : DocumentState) : Phase → Prop
  | .indexing chunks => chunks = chunkDocument s.content .default
  | .inserting index rest =>
    s.chunks ++ rest.zipIdx index = (chunkDocument s.content .default).zipIdx
  | _ => False

theorem Carries.fresh (h : Carries s phase) (hrests : phase.reindexes = false) :
    s.chunks = (chunkDocument s.content .default).zipIdx := by
  cases phase with
  | indexing chunks => cases hrests
  | inserting index rest =>
    cases rest with
    | nil =>
      rw [Carries, List.zipIdx_nil, List.append_nil] at h
      exact h
    | cons text rest => cases hrests
  | _ => exact h.elim

/-- The chunks of the document are on their way: a call that has stored the content will index it, a
call stores the chunks of this content, or they are there and no call touches them. -/
structure Indexed (s : DocumentState) : Prop where
  alone : ∀ (i j : Nat) (a b : Call), s.calls[i]? = some a → s.calls[j]? = some b →
    a.phase.reindexes = true → b.phase.reindexes = true → i = j
  underWay : (∃ (i : Nat) (request : Request), s.calls[i]? = some ⟨request, .updated⟩) ∨
    (∃ (i : Nat) (call : Call), s.calls[i]? = some call ∧ call.phase.reindexes = true ∧
      Carries s call.phase) ∨
    ((∀ (i : Nat) (call : Call), s.calls[i]? = some call → call.phase.reindexes = false) ∧
      s.chunks = (chunkDocument s.content .default).zipIdx)

theorem indexed_indexedDocument (content : List Char) : Indexed (indexedDocument content) where
  alone i j a b ha := by simp [indexedDocument] at ha
  underWay := .inr (.inr ⟨fun i call hcall => by simp [indexedDocument] at hcall, rfl⟩)

theorem Phase.not_ended_of_reindexes (h : phase.reindexes = true) : phase.ended = false := by
  cases phase <;> first | rfl | cases h

theorem Indexed.indexFresh (h : Indexed s) : IndexFresh s := by
  intro hquiet
  rcases h.underWay with ⟨i, request, hcall⟩ | ⟨i, call, hcall, hreindexes, -⟩ | ⟨-, hchunks⟩
  · cases hquiet _ (List.mem_of_getElem? hcall)
  · have hended := hquiet call (List.mem_of_getElem? hcall)
    rw [Phase.not_ended_of_reindexes hreindexes] at hended
    cases hended
  · exact hchunks

theorem Indexed.begun (h : Indexed s) (request : Request) :
    Indexed (documentStep s (.begin request)) := by
  have hkept {j : Nat} {call : Call} (hj : s.calls[j]? = some call) :
      (s.calls ++ [⟨request, .starting⟩])[j]? = some call := by
    rw [List.getElem?_append_left (List.getElem?_eq_some_iff.mp hj).1]
    exact hj
  have hbefore {j : Nat} {call : Call} (hj : (s.calls ++ [⟨request, .starting⟩])[j]? = some call)
      (hreindexes : call.phase.reindexes = true) : s.calls[j]? = some call := by
    rcases getElem?_begun hj with hj | rfl
    · exact hj
    · cases hreindexes
  constructor
  · intro j k a b ha hb hra hrb
    exact h.alone j k a b (hbefore ha hra) (hbefore hb hrb) hra hrb
  · rcases h.underWay with ⟨j, other, hj⟩ | ⟨j, call, hj, hcall⟩ | ⟨hnone, hchunks⟩
    · exact .inl ⟨j, other, hkept hj⟩
    · exact .inr (.inl ⟨j, call, hkept hj, hcall⟩)
    · refine .inr (.inr ⟨fun j call hj => ?_, hchunks⟩)
      by_contra hreindexes
      rw [Bool.not_eq_false] at hreindexes
      exact Bool.false_ne_true ((hnone j call (hbefore hj hreindexes)).symm.trans hreindexes)

/-- Two calls never re-index at a time, when one that starts to finds no other at it. -/
theorem Indexed.moved_alone (h : Indexed s) (hcall : s.calls[i]? = some ⟨request, phase⟩)
    (hcalls : s'.calls = s.calls.set i ⟨request, next⟩)
    (hnext : next.reindexes = true → phase.reindexes = true ∨
      ∀ call ∈ s.calls, call.phase.reindexes = false)
    (j k : Nat) (a b : Call) (ha : s'.calls[j]? = some a) (hb : s'.calls[k]? = some b)
    (hra : a.phase.reindexes = true) (hrb : b.phase.reindexes = true) : j = k := by
  have hothers {l : Nat} {other : Call} (hl : s.calls[l]? = some other)
      (hreindexes : other.phase.reindexes = true) (hmoves : next.reindexes = true) : i = l := by
    rcases hnext hmoves with hphase | hnone
    · exact h.alone i l _ other hcall hl hphase hreindexes
    · rw [hnone other (List.mem_of_getElem? hl)] at hreindexes
      cases hreindexes
  rw [hcalls] at ha hb
  rcases getElem?_moved ha with ⟨hji, hmoves⟩ | ⟨-, hj⟩
  · rcases getElem?_moved hb with ⟨hki, -⟩ | ⟨-, hk⟩
    · rw [hji, hki]
    · rw [hmoves] at hra
      rw [hji]
      exact hothers hk hrb hra
  · rcases getElem?_moved hb with ⟨hki, hmoves⟩ | ⟨-, hk⟩
    · rw [hmoves] at hrb
      rw [hki]
      exact (hothers hj hra hrb).symm
    · exact h.alone j k a b hj hk hra hrb

theorem getElem?_other {calls : List Call} {j : Nat} {old new call : Call}
    (hj : calls[j]? = some call) (hi : calls[i]? = some old) (hne : call ≠ old) :
    (calls.set i new)[j]? = some call := by
  have hji : i ≠ j := by
    rintro rfl
    rw [hi, Option.some.injEq] at hj
    exact hne hj.symm
  rw [List.getElem?_set_ne hji]
  exact hj

/-- A step of a call that neither waits to index nor does so leaves the index where it was. -/
theorem Indexed.moved (h : Indexed s) (hcall : s.calls[i]? = some ⟨request, phase⟩)
    (hcontent : s'.content = s.content) (hchunks : s'.chunks = s.chunks)
    (hcalls : s'.calls = s.calls.set i ⟨request, next⟩) (hwaits : phase ≠ .updated)
    (hphase : phase.reindexes = false) (hnext : next.reindexes = false) : Indexed s' := by
  refine ⟨h.moved_alone hcall hcalls fun hmoves => ?_, ?_⟩
  · rw [hnext] at hmoves
    cases hmoves
  · rw [hcalls, hcontent, hchunks]
    rcases h.underWay with ⟨j, other, hj⟩ | ⟨j, call, hj, hreindexes, hcarries⟩ | ⟨hnone, hfresh⟩
    · refine .inl ⟨j, other, getElem?_other hj hcall ?_⟩
      rintro hsame
      cases hsame
      exact hwaits rfl
    · refine .inr (.inl ⟨j, call, getElem?_other hj hcall ?_, hreindexes, ?_⟩)
      · rintro rfl
        exact Bool.false_ne_true (hphase.symm.trans hreindexes)
      · have hsame : Carries s' call.phase = Carries s call.phase := by
          cases call.phase <;> simp only [Carries, hcontent, hchunks]
        rw [hsame]
        exact hcarries
    · refine .inr (.inr ⟨fun j call hj => ?_, hfresh⟩)
      rcases getElem?_moved hj with ⟨-, rfl⟩ | ⟨-, hbefore⟩
      · exact hnext
      · exact hnone j call hbefore

/-- A call that goes on re-indexing, or ends it, brings the index where it was to bring it. -/
theorem Indexed.continues (h : Indexed s) (hcall : s.calls[i]? = some ⟨request, phase⟩)
    (hcalls : s'.calls = s.calls.set i ⟨request, next⟩) (hphase : phase.reindexes = true)
    (hcarries : Carries s phase → Carries s' next) : Indexed s' := by
  refine ⟨h.moved_alone hcall hcalls fun _ => .inl hphase, ?_⟩
  rw [hcalls]
  rcases h.underWay with ⟨j, other, hj⟩ | ⟨j, call, hj, hreindexes, hmatches⟩ | ⟨hnone, -⟩
  · refine .inl ⟨j, other, getElem?_other hj hcall ?_⟩
    rintro hsame
    cases hsame
    cases hphase
  · obtain rfl := h.alone i j _ call hcall hj hphase hreindexes
    rw [hcall, Option.some.injEq] at hj
    subst hj
    have hnew := hcarries hmatches
    by_cases hgoes : next.reindexes = true
    · have hlt := (List.getElem?_eq_some_iff.mp hcall).1
      exact .inr (.inl ⟨i, ⟨request, next⟩, List.getElem?_set_self hlt, hgoes, hnew⟩)
    · rw [Bool.not_eq_true] at hgoes
      refine .inr (.inr ⟨fun k other hk => ?_, hnew.fresh hgoes⟩)
      rcases getElem?_moved hk with ⟨-, rfl⟩ | ⟨hki, hbefore⟩
      · exact hgoes
      · by_contra hother
        rw [Bool.not_eq_false] at hother
        exact hki (h.alone k i other _ hbefore hcall hother hphase)
  · have hidle := hnone i _ hcall
    rw [hphase] at hidle
    cases hidle

/-- The index of a chunk still to be inserted is not taken by a chunk of the same content. -/
theorem Carries.free {index : Nat} {text : List Char} {rest : List (List Char)}
    (h : Carries s (.inserting index (text :: rest))) : ∀ row ∈ s.chunks, row.2 ≠ index := by
  intro row hrow hindex
  have hkeys := congrArg (List.map Prod.snd) h
  rw [List.map_append, List.zipIdx_cons, List.map_cons] at hkeys
  have hdistinct : ((chunkDocument s.content .default).zipIdx.map Prod.snd).Nodup := by
    rw [List.zipIdx_map_snd]
    exact List.nodup_range'
  rw [← hkeys, List.nodup_append] at hdistinct
  exact hdistinct.2.2 row.2 (List.mem_map_of_mem hrow) index List.mem_cons_self hindex

theorem Indexed.turn (h : Indexed s) (hcall : s.calls[i]? = some ⟨request, phase⟩)
    (hreads : phase = .updated → fails = false ∧ ∀ call ∈ s.calls, call.phase.reindexes = false)
    (hinserts : phase.reindexes = true → fails = false) (ht : Turn s i request fails phase s') :
    Indexed s' := by
  cases ht with
  | opens _ => exact h.moved hcall rfl rfl rfl nofun rfl rfl
  | updates doc _ =>
    have hlt := (List.getElem?_eq_some_iff.mp hcall).1
    exact ⟨h.moved_alone hcall rfl nofun, .inl ⟨i, request, List.getElem?_set_self hlt⟩⟩
  | reads _ =>
    have hlt := (List.getElem?_eq_some_iff.mp hcall).1
    have hnone := (hreads rfl).2
    exact ⟨h.moved_alone hcall rfl fun _ => .inr hnone,
      .inr (.inl ⟨i, _, List.getElem?_set_self hlt, rfl, rfl⟩)⟩
  | deletes chunks _ =>
    refine h.continues hcall rfl rfl fun hcarries => ?_
    show [] ++ chunks.zipIdx 0 = _
    rw [List.nil_append, show chunks = _ from hcarries]
    rfl
  | inserts index text rest _ =>
    refine h.continues hcall rfl rfl fun hcarries => ?_
    show (s.chunks ++ [(text, index)]) ++ rest.zipIdx (index + 1) = _
    rw [List.append_assoc, List.singleton_append, ← List.zipIdx_cons]
    exact hcarries
  | indexed index =>
    have hends : request.afterIndex.reindexes = false := by cases request <;> rfl
    exact h.moved hcall rfl rfl rfl nofun rfl hends
  | returns _ => exact h.moved hcall rfl rfl rfl nofun rfl rfl
  | breaks _ hfails =>
    have hwaits : phase ≠ .updated := by
      intro hphase
      rw [(hreads hphase).1] at hfails
      cases hfails
    have hphase : phase.reindexes = false := by
      by_contra hreindexes
      rw [Bool.not_eq_false] at hreindexes
      rw [hinserts hreindexes] at hfails
      cases hfails
    exact h.moved hcall rfl rfl rfl hwaits hphase rfl
  | collides index text rest htaken =>
    refine h.continues hcall rfl rfl fun hcarries => ?_
    obtain ⟨row, hrow, hindex⟩ := htaken
    exact absurd hindex (hcarries.free row hrow)
  | rests _ _ => exact h

theorem Indexed.step (h : Indexed s) (a : Action) (hturn : IndexesInTurn s a) :
    Indexed (documentStep s a) := by
  cases a with
  | begin request => exact h.begun request
  | advance i fails =>
    cases hcall : s.calls[i]? with
    | none =>
      rw [documentStep, hcall]
      exact h
    | some call =>
      obtain ⟨request, phase⟩ := call
      rw [documentStep, hcall]
      rw [IndexesInTurn, hcall] at hturn
      refine h.turn hcall ?_ ?_ (advanceCall_turn s i request fails phase)
      · rintro rfl
        exact hturn
      · intro hreindexes
        cases phase with
        | indexing chunks => exact hturn rfl
        | inserting index rest => exact hturn hreindexes
        | _ => cases hreindexes

end Index

/-- Appends that take their turns are kept, and an index whose calls take theirs is up to date
whenever no call is in progress. -/
theorem appends_in_turn (content : List Char) (s : DocumentState) :
    (Reached documentStep AppendsInTurn (indexedDocument content) s → AppendsPresent s) ∧
      (Reached documentStep IndexesInTurn (indexedDocument content) s → IndexFresh s) := by
  constructor
  · intro hreached
    have hkept := hreached.invariant Kept (kept_indexedDocument content) fun _ a hturn h => h.step a hturn
    exact hkept.appendsPresent
  · intro hreached
    have hindexed := hreached.invariant Indexed (indexed_indexedDocument content)
      fun _ a hturn h => h.step a hturn
    exact hindexed.indexFresh

instance (s : DocumentState) (a : Action) : Decidable (AppendsInTurn s a) := by
  unfold AppendsInTurn
  split
  · infer_instance
  · split <;> infer_instance

instance (s : DocumentState) (a : Action) : Decidable (IndexesInTurn s a) := by
  unfold IndexesInTurn
  split
  · infer_instance
  · split <;> infer_instance

/-- Enough steps for a call to end, when its content is one chunk. -/
private def toItsEnd (i : Nat) : List Action := List.replicate 7 (.advance i false)

private def oneAfterTheOther : List Action :=
  .begin (.append ['a']) :: .begin (.append ['b']) :: (toItsEnd 0 ++ toItsEnd 1)

theorem appends_in_turn_two :
    let s := oneAfterTheOther.foldl documentStep (indexedDocument [])
    AppendsPresent s ∧ Quiet s ∧ s.content = ['a', '\n', 'b'] ∧
      s.chunks = [(['a', '\n', 'b'], 0)] := by
  have hlaw := appends_in_turn [] (oneAfterTheOther.foldl documentStep (indexedDocument []))
  have hkept := hlaw.1 (Reached.foldl _ .start (by decide +kernel))
  have hfresh := hlaw.2 (Reached.foldl _ .start (by decide +kernel))
  have hquiet : Quiet (oneAfterTheOther.foldl documentStep (indexedDocument [])) := by
    unfold Quiet
    decide +kernel
  refine ⟨hkept, hquiet, by decide +kernel, ?_⟩
  rw [hfresh hquiet]
  decide +kernel

/-- Both appends read the empty document before either stores its entry. -/
private def bothRead : List Action :=
  [.begin (.append ['a']), .begin (.append ['b']), .advance 0 false, .advance 1 false] ++
    toItsEnd 0 ++ toItsEnd 1

/-- A write has read its content to index when another one stores and indexes its own. -/
private def indexedLate : List Action :=
  [.begin (.write ['a']), .begin (.write ['b']), .advance 0 false, .advance 0 false,
    .advance 0 false] ++ toItsEnd 1 ++ toItsEnd 0

theorem append_overwritten :
    ¬ AppendsPresent (bothRead.foldl documentStep (indexedDocument [])) ∧
      ¬ IndexFresh (indexedLate.foldl documentStep (indexedDocument [])) := by
  constructor
  · intro hpresent
    have hentry := hpresent 0 (.append ['a']) ['a'] (by decide +kernel) rfl
    have hlost : ¬ ['a'] <:+: (bothRead.foldl documentStep (indexedDocument [])).content := by
      decide +kernel
    have hwrite : .replaced ∉ (bothRead.foldl documentStep (indexedDocument [])).log := by
      decide +kernel
    rcases hentry with hinfix | ⟨newer, older, hlog, hreplaced⟩
    · exact hlost hinfix
    · rw [hlog] at hwrite
      exact hwrite (List.mem_append_left _ hreplaced)
  · intro hfresh
    have hquiet : Quiet (indexedLate.foldl documentStep (indexedDocument [])) := by
      unfold Quiet
      decide +kernel
    have hstale : (indexedLate.foldl documentStep (indexedDocument [])).chunks ≠
        (chunkDocument (indexedLate.foldl documentStep (indexedDocument [])).content
          .default).zipIdx := by
      decide +kernel
    exact hstale (hfresh hquiet)
end Gyre.Workspace
