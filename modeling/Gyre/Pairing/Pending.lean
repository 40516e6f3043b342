/- digest: The pending requests of a channel, and who gets onto the list of allowed senders, in any interleaving. -/

import Mathlib.Data.List.Dedup
import Mathlib.Data.List.Perm.Subperm
import Gyre.Lib.Reach
import Gyre.Pairing.Store

/-!
Calls of any number of processes interleave here, with the read and the rewrite of `list_pending` outside
of the lock, and any file operation may fail.
-/

set_option autoImplicit false
set_option relaxedAutoImplicit false

namespace Gyre.Pairing

open Gyre.Lib

section Lists

/-- The requests that a call has in hand to store or to answer. -/
def Phase.requests : Phase → List PairingRequest
  | .listOpen requests | .listLock requests | .write _ requests _
  | .upsertUnlock (.ok (.pending requests)) | .returned (.ok (.pending requests)) => requests
  | _ => []

/-- Few requests, of different senders, with codes that `approve` tells apart. -/
structure Distinct (u : Text.Unicode) (requests : List PairingRequest) : Prop where
  few : requests.length ≤ pairingPendingMax
  ids : (requests.map (·.id)).Nodup
  codes : (requests.map fun r => u.uppercase r.code).Nodup
  drawn : ∀ r ∈ requests, r.code ≠ []

/-- As many codes are drawn as there can be requests. -/
def Draws.Varied (draws : Draws) : Prop :=
  pairingPendingMax ≤ ((draws.codes.take 500).map randomCode).dedup.length

def Section.Varied : Section → Prop
  | .start _ => True
  | .proceed _ env => env.draws.Varied

instance : DecidablePred Draws.Varied := fun _ => inferInstanceAs (Decidable (_ ≤ _))

instance : DecidablePred Section.Varied
  | .start _ => inferInstanceAs (Decidable True)
  | .proceed _ env => inferInstanceAs (Decidable env.draws.Varied)

/-- Somebody has asked for the sender to be paired. -/
def Asked (calls : List Call) (id : List Char) : Prop :=
  ∃ raw metadata, .upsertRequest raw metadata ∈ calls.map (·.operation) ∧ Text.trim raw = id

variable {u : Text.Unicode} {c : Channel} {call : Nat} {env : Encounter}

/-- What holds of the requests stored and of those in hand, if it is kept by leaving some out, by sorting
and by `upsert_request`. -/
structure Carried (u : Text.Unicode) (env : Encounter) (phase : Phase)
    (Q : List PairingRequest → Prop) : Prop where
  none : Q []
  fewer : ∀ {requests fewer : List PairingRequest}, fewer.Sublist requests → Q requests → Q fewer
  sorted : ∀ {requests}, Q requests → Q (sortPending requests)
  upsert : ∀ {requests id metadata}, phase = .upsertRead id metadata → Q requests →
    Q (upsert u requests id metadata env).requests

private theorem requests_takeApproved {requests : List PairingRequest} (code : List Char) (now : Nat) :
    (takeApproved u requests code now).requests.Sublist requests := by
  unfold takeApproved
  dsimp only
  split
  · exact List.erase_sublist.trans List.filter_sublist
  · exact List.nil_sublist _

private theorem carried_succeed {phase : Phase} {Q : List PairingRequest → Prop}
    (hQ : Carried u env phase Q) (hstored : Q c.stored) (h : Q phase.requests) :
    Q (succeed u c call env phase).1.stored ∧ Q (succeed u c call env phase).2.requests := by
  cases phase with
  | listRead =>
    have hfew : Q (c.stored.filter fun r => !isExpired r env.nowSecs) :=
      hQ.fewer List.filter_sublist hstored
    simp only [succeed]
    split
    · exact ⟨hstored, hQ.sorted hfew⟩
    · exact ⟨hstored, hfew⟩
  | listOpen requests => exact ⟨hQ.none, h⟩
  | listLock requests =>
    simp only [succeed]
    split
    · exact ⟨hstored, h⟩
    · exact ⟨hstored, h⟩
  | upsertOpen id metadata =>
    have hcreate : Q (c.pairing.create.getD []) := by
      rw [Content.getD_create]
      exact hstored
    exact ⟨hcreate, hQ.none⟩
  | upsertLock id metadata =>
    simp only [succeed]
    split
    · exact ⟨hstored, hQ.none⟩
    · exact ⟨hstored, hQ.none⟩
  | upsertRead id metadata => exact ⟨hstored, hQ.upsert rfl hstored⟩
  | approveRead code => exact ⟨hstored, hQ.fewer (requests_takeApproved code env.nowSecs) hstored⟩
  | write stage requests writer =>
    cases stage with
    | setLen => exact ⟨hQ.none, h⟩
    | writeAll => exact ⟨h, h⟩
    | finish =>
      refine ⟨hstored, ?_⟩
      cases writer with
      | list => exact hQ.sorted h
      | upsert code created => exact hQ.none
      | approve entry =>
        change Q (afterWrite requests (.approve entry)).requests
        unfold afterWrite
        dsimp only
        split
        · exact hQ.none
        · exact hQ.none
  | returned reply => exact ⟨hstored, h⟩
  | upsertUnlock reply =>
    refine ⟨hstored, ?_⟩
    cases reply with
    | error e => exact h
    | ok answer => cases answer <;> exact h
  | approveCheck code | approveOpen code | approveLock code | recordLock | allowLock entry | allowRead entry =>
    simp only [succeed]
    split
    · exact ⟨hstored, hQ.none⟩
    · exact ⟨hstored, hQ.none⟩
  | _ => exact ⟨hstored, hQ.none⟩

private theorem carried_fail {phase : Phase} {Q : List PairingRequest → Prop}
    (hQ : Carried u env phase Q) (hstored : Q c.stored) (h : Q phase.requests) :
    Q (fail u c call env phase).1.stored ∧ Q (fail u c call env phase).2.requests := by
  rcases fail_cases u c call env phase with ⟨-, hfail⟩ | ⟨hstays, hfail⟩
  · rw [hfail]
    exact ⟨hstored, hQ.none⟩
  · rw [hstays]
    refine ⟨hstored, ?_⟩
    rcases hfail with ⟨id, metadata, rfl⟩ | ⟨code, rfl⟩ | rfl | ⟨entry, rfl⟩ | ⟨reply, rfl⟩
    · exact hQ.upsert rfl hQ.none
    · have htaken : Q (takeApproved u [] code env.nowSecs).requests :=
        hQ.fewer (requests_takeApproved code env.nowSecs) hQ.none
      exact htaken
    · exact hQ.none
    · exact hQ.none
    · exact h

/-- A file operation takes requests from the file, and to the file, and adds those of `upsert_request`. -/
theorem carried_advance {phase : Phase} {Q : List PairingRequest → Prop}
    (hQ : Carried u env phase Q) (hstored : Q c.stored) (h : Q phase.requests) :
    Q (advance u c call env phase).1.stored ∧ Q (advance u c call env phase).2.requests := by
  unfold advance
  split
  · exact carried_succeed hQ hstored h
  · exact carried_fail hQ hstored h

end Lists

section Fresh

variable {u : Text.Unicode}

theorem distinct_nil : Distinct u [] :=
  ⟨Nat.zero_le _, List.nodup_nil, List.nodup_nil, fun _ h => absurd h List.not_mem_nil⟩

theorem Distinct.fewer {requests fewer : List PairingRequest} (h : Distinct u requests)
    (hsub : fewer.Sublist requests) : Distinct u fewer where
  few := hsub.length_le.trans h.few
  ids := h.ids.sublist (hsub.map _)
  codes := h.codes.sublist (hsub.map _)
  drawn r hr := h.drawn r (hsub.subset hr)

theorem Distinct.perm {requests others : List PairingRequest} (h : Distinct u requests)
    (hperm : others.Perm requests) : Distinct u others where
  few := hperm.length_eq.trans_le h.few
  ids := (hperm.map _).nodup_iff.mpr h.ids
  codes := (hperm.map _).nodup_iff.mpr h.codes
  drawn r hr := h.drawn r (hperm.subset hr)

/-- With enough codes drawn, one of them is new. -/
theorem generateUniqueCode_fresh {existing : List (List Char)} {draws : Draws} (hdraws : draws.Varied)
    (hfew : existing.length < pairingPendingMax) :
    ∃ draw, generateUniqueCode existing draws = randomCode draw ∧ randomCode draw ∉ existing := by
  have hfound : ((draws.codes.take 500).map randomCode).find? (fun code => !existing.contains code) ≠
      none := by
    intro hnone
    have hknown : ((draws.codes.take 500).map randomCode).dedup ⊆ existing := by
      intro code hcode
      have hold := List.find?_eq_none.mp hnone code (List.mem_dedup.mp hcode)
      simpa using hold
    have hle := ((List.nodup_dedup _).subperm hknown).length_le
    unfold Draws.Varied at hdraws
    omega
  obtain ⟨code, hcode⟩ := Option.ne_none_iff_exists'.mp hfound
  obtain ⟨draw, -, rfl⟩ := List.mem_map.mp (List.mem_of_find?_eq_some hcode)
  refine ⟨draw, ?_, ?_⟩
  · unfold generateUniqueCode
    rw [hcode]
  · simpa using List.find?_some hcode

theorem randomCode_ne_nil (draw : Draw) : randomCode draw ≠ [] := by
  intro hnil
  have hlength := congrArg List.length hnil
  rw [randomCode, List.length_ofFn] at hlength
  cases hlength

/-- A request that has been seen again keeps its sender and its code. -/
theorem map_replace {β : Type} {f : PairingRequest → β} {requests : List PairingRequest}
    {old new : PairingRequest} (h : f new = f old) :
    (requests.replace old new).map f = requests.map f := by
  induction requests with
  | nil => rfl
  | cons first rest ih =>
    rw [List.replace_cons]
    split
    · next hfirst =>
      have hold : old = first := by simpa using hfirst
      rw [List.map_cons, List.map_cons, h, hold]
    · rw [List.map_cons, List.map_cons, ih]

theorem distinct_upsert (hupper : ∀ draw, u.uppercase (randomCode draw) = randomCode draw) {env : Encounter}
    (hdraws : env.draws.Varied) {requests : List PairingRequest} (h : Distinct u requests)
    (id : List Char) (metadata : Option Gyre.Llm.Json) :
    Distinct u (upsert u requests id metadata env).requests := by
  have hkept : Distinct u (requests.filter fun r => !isExpired r env.nowSecs) :=
    h.fewer List.filter_sublist
  unfold upsert
  simp only
  generalize (requests.filter fun r => !isExpired r env.nowSecs) = kept at hkept ⊢
  split
  · exact distinct_nil
  · split
    · next req hreq =>
      have hmem := List.mem_of_find?_eq_some hreq
      rw [if_neg (hkept.drawn req hmem)]
      have hids : (kept.replace req ⟨req.id, req.code, req.createdAt, env.nowSecs,
          metadata.or req.metadata⟩).map (·.id) = kept.map (·.id) := map_replace rfl
      have hcodes : (kept.replace req ⟨req.id, req.code, req.createdAt, env.nowSecs,
          metadata.or req.metadata⟩).map (fun r => u.uppercase r.code) =
            kept.map fun r => u.uppercase r.code := map_replace rfl
      refine ⟨?_, ?_, ?_, ?_⟩
      · change (kept.replace req _).length ≤ _
        rw [List.length_replace]
        exact hkept.few
      · exact hids ▸ hkept.ids
      · exact hcodes ▸ hkept.codes
      · intro r hr
        rcases mem_or_eq_of_mem_replace hr with hr | rfl
        · exact hkept.drawn r hr
        · exact hkept.drawn req hmem
    · next hnew =>
      split
      · exact distinct_nil
      · next hroom =>
        have hfew : (kept.map fun r => u.uppercase r.code).length < pairingPendingMax := by
          rw [List.length_map]
          omega
        obtain ⟨draw, hcode, hfresh⟩ := generateUniqueCode_fresh hdraws hfew
        rw [hcode]
        refine ⟨?_, ?_, ?_, ?_⟩
        · change (kept ++ [_]).length ≤ _
          rw [List.length_append, List.length_singleton]
          omega
        · change ((kept ++ [_]).map _).Nodup
          rw [List.map_append, List.map_singleton]
          refine List.nodup_append.mpr ⟨hkept.ids, List.nodup_singleton _, ?_⟩
          intro a ha b hb heq
          obtain ⟨r, hr, rfl⟩ := List.mem_map.mp ha
          have hother := List.find?_eq_none.mp hnew r hr
          rw [List.mem_singleton] at hb
          exact hother (beq_iff_eq.mpr (heq.trans hb))
        · change ((kept ++ [_]).map _).Nodup
          rw [List.map_append, List.map_singleton]
          refine List.nodup_append.mpr ⟨hkept.codes, List.nodup_singleton _, ?_⟩
          intro a ha b hb heq
          rw [List.mem_singleton] at hb
          rw [heq, hb, hupper] at ha
          exact hfresh ha
        · intro r hr
          rcases List.mem_append.mp hr with hr | hr
          · exact hkept.drawn r hr
          · rw [List.mem_singleton.mp hr]
            exact randomCode_ne_nil draw

theorem distinct_carried (hupper : ∀ draw, u.uppercase (randomCode draw) = randomCode draw)
    {env : Encounter} (hdraws : env.draws.Varied) (phase : Phase) :
    Carried u env phase (Distinct u) where
  none := distinct_nil
  fewer hsub h := h.fewer hsub
  sorted h := h.perm (List.mergeSort_perm _ _)
  upsert _ h := distinct_upsert hupper hdraws h _ _

end Fresh

section Runs

variable {u : Text.Unicode} {w : PairingWorld}

/-- What holds of the requests in the file and of those that calls have in hand. -/
def Throughout (Q : List PairingRequest → Prop) (w : PairingWorld) : Prop :=
  Q w.channel.stored ∧ ∀ c ∈ w.calls, Q c.phase.requests

theorem requests_begin (operation : Operation) : (begin u operation).requests = [] := by
  cases operation with
  | approve code =>
    simp only [begin]
    split
    · rfl
    · rfl
  | _ => rfl

theorem throughout_start {Q : List PairingRequest → Prop} (hnone : Q []) (h : Throughout Q w)
    (operation : Operation) : Throughout Q (w.step u (.start operation)) := by
  refine ⟨h.1, fun c hc => ?_⟩
  rcases List.mem_append.mp hc with hc | hc
  · exact h.2 c hc
  · rw [List.mem_singleton.mp hc]
    exact (requests_begin operation).symm ▸ hnone

theorem throughout_proceed {Q : List PairingRequest → Prop} (h : Throughout Q w) (call : Nat)
    {env : Encounter} (hQ : ∀ c ∈ w.calls, Carried u env c.phase Q) :
    Throughout Q (w.step u (.proceed call env)) := by
  cases hc : w.calls[call]? with
  | none =>
    rw [PairingWorld.step_absent env hc]
    exact h
  | some c =>
    rw [PairingWorld.step_proceed env hc]
    have hmem := List.mem_of_getElem? hc
    obtain ⟨hstored, hphase⟩ :=
      @carried_advance u w.channel call env c.phase Q (hQ c hmem) h.1 (h.2 c hmem)
    refine ⟨hstored, fun other hother => ?_⟩
    rcases List.mem_or_eq_of_mem_set hother with hother | rfl
    · exact h.2 other hother
    · exact hphase

/-- However calls interleave and fail, the pending requests are few, from different senders and under
different codes, in the file and in every list that is answered, if the codes drawn vary. -/
theorem pending_distinct (u : Text.Unicode)
    (hupper : ∀ draw, u.uppercase (randomCode draw) = randomCode draw)
    (hw : Reached (PairingWorld.step u) (fun _ s => s.Varied) .new w) :
    Distinct u w.channel.stored ∧
      ∀ c ∈ w.calls, ∀ requests, c.phase = .returned (.ok (.pending requests)) → Distinct u requests := by
  have hthroughout : Throughout (Distinct u) w := by
    refine hw.invariant (Throughout (Distinct u)) ⟨distinct_nil, fun c hc => absurd hc List.not_mem_nil⟩ ?_
    intro w s hvaried h
    cases s with
    | start operation => exact throughout_start distinct_nil h operation
    | proceed call env => exact throughout_proceed h call fun c _ => distinct_carried hupper hvaried c.phase
  refine ⟨hthroughout.1, fun c hc requests hphase => ?_⟩
  have hrequests := hthroughout.2 c hc
  rw [hphase] at hrequests
  exact hrequests

private def letters : Text.Unicode where
  isWord c := c.isAlphanum
  isPrintable c := ' ' ≤ c && c ≤ '~'
  lowercase := List.map Char.toLower
  uppercase := List.map Char.toUpper

/-- The code of one letter. -/
private def ofLetter (letter : Fin 32) : Draw := fun _ => letter

private def drawing (nowSecs : Nat) : Encounter where
  succeeds := true
  nowSecs := nowSecs
  draws := ⟨[ofLetter (.last 31), ofLetter (Fin.last 30).castSucc, ofLetter (Fin.last 29).castSucc.castSucc],
    ofLetter (.last 31), .last 9999⟩

private def carol : List Char := ['c', 'a', 'r', 'o', 'l']

private def dave : List Char := ['d', 'a', 'v', 'e']

/-- Two senders ask at once, and the first one is approved. -/
private def twoAsk : List Section :=
  .start (.upsertRequest carol none) :: .start (.upsertRequest dave none) ::
    (List.replicate 6 [.proceed 0 (drawing 100), .proceed 1 (drawing 100)]).flatten ++
      List.replicate 4 (.proceed 1 (drawing 100)) ++ [.start .listPending, .proceed 2 (drawing 100)]

private theorem uppercase_drawn (draw : Draw) : letters.uppercase (randomCode draw) = randomCode draw := by
  have hupper : pairingAlphabet.all (fun c => c.toUpper == c) = true := by decide
  change (randomCode draw).map Char.toUpper = randomCode draw
  refine (List.map_congr_left fun c hc => ?_).trans (List.map_id _)
  obtain ⟨i, rfl⟩ := List.mem_ofFn.mp hc
  exact eq_of_beq (List.all_eq_true.mp hupper _ (List.get_mem _ _))

theorem pending_distinct_two :
    (PairingWorld.run letters twoAsk).channel.stored.length = 2 ∧
      Distinct letters (PairingWorld.run letters twoAsk).channel.stored :=
  ⟨by decide +kernel, (pending_distinct letters uppercase_drawn
    (Reached.foldl twoAsk .start (by decide +kernel))).1⟩

end Runs

section Approval

/-- What a call is about. -/
inductive Purpose where
  | asking (id : List Char)
  | entering (code : List Char)
  | allowing (entry : PairingRequest)

def Phase.purpose : Phase → Option Purpose
  | .upsertOpen id _ | .upsertLock id _ | .upsertRead id _ => some (.asking id)
  | .approveCheck code | .approveOpen code | .approveLock code | .approveRead code =>
    some (.entering code)
  | .write _ _ (.approve entry) | .allowOpen entry | .allowLock entry | .allowRead entry
  | .allowTruncate _ entry | .allowWrite _ entry => some (.allowing entry)
  | _ => none

/-- The senders that a call is about to store as allowed. -/
def Phase.names : Phase → List (List Char)
  | .allowTruncate entries _ | .allowWrite entries _ => entries
  | _ => []

/-- A call reads the code that it was given on a request of the sender that has not expired. -/
def ApprovesAt (u : Text.Unicode) (w : PairingWorld) (s : Section) (name : List Char) : Prop :=
  ∃ call env c raw r, s = .proceed call env ∧ w.calls[call]? = some c ∧ c.operation = .approve raw ∧
    r ∈ w.channel.stored ∧ isExpired r env.nowSecs = false ∧
      u.uppercase r.code = u.uppercase (Text.trim raw) ∧ Text.trim r.id = name

/-- A purpose is that of the operation, and what is to be allowed has been approved. -/
def Purpose.Vouched (u : Text.Unicode) (P : List Char → Prop) (operation : Operation) : Purpose → Prop
  | .asking id => ∃ metadata, operation = .upsertRequest id metadata
  | .entering code => ∃ raw, operation = .approve raw ∧ code = u.uppercase (Text.trim raw)
  | .allowing entry => P (Text.trim entry.id)

structure Call.Vouched (u : Text.Unicode) (P : List Char → Prop) (c : Call) : Prop where
  purpose : ∀ p, c.phase.purpose = some p → p.Vouched u P c.operation
  names : ∀ name ∈ c.phase.names, P name

variable {u : Text.Unicode} {c : Channel} {call : Nat} {env : Encounter} {phase : Phase}

private theorem takeApproved_purpose {requests : List PairingRequest} {code : List Char} {now : Nat}
    {p : Purpose} (h : (takeApproved u requests code now).purpose = some p) :
    ∃ entry ∈ requests, p = .allowing entry ∧ isExpired entry now = false ∧ u.uppercase entry.code = code := by
  unfold takeApproved at h
  dsimp only at h
  split at h
  · next found hfound =>
    cases h
    obtain ⟨hmem, hfresh⟩ := List.mem_filter.mp (List.mem_of_find?_eq_some hfound)
    exact ⟨found, hmem, rfl, by simpa using hfresh, by simpa using List.find?_some hfound⟩
  · cases h

private theorem takeApproved_names (requests : List PairingRequest) (code : List Char) (now : Nat) :
    (takeApproved u requests code now).names = [] := by
  unfold takeApproved
  dsimp only
  split
  · rfl
  · rfl

private theorem upsert_quiet (env : Encounter) (requests : List PairingRequest) (id : List Char)
    (metadata : Option Gyre.Llm.Json) :
    (upsert u requests id metadata env).purpose = none ∧ (upsert u requests id metadata env).names = [] := by
  unfold upsert
  simp only
  split
  · exact ⟨rfl, rfl⟩
  · split
    · exact ⟨rfl, rfl⟩
    · split
      · exact ⟨rfl, rfl⟩
      · exact ⟨rfl, rfl⟩

/-- What a file operation may do to the allowed senders, and to what its call is about. -/
private structure Moved (u : Text.Unicode) (env : Encounter) (c : Channel) (phase : Phase)
    (next : Channel × Phase) : Prop where
  purpose : ∀ p, next.2.purpose = some p → phase.purpose = some p ∨
    ∃ code, phase = .approveRead code ∧ ∃ entry ∈ c.stored, p = .allowing entry ∧
      isExpired entry env.nowSecs = false ∧ u.uppercase entry.code = code
  names : ∀ name ∈ next.2.names, name ∈ phase.names ∨ name ∈ c.allowed ∨
    ∃ entry, phase.purpose = some (.allowing entry) ∧ name = Text.trim entry.id
  allowed : ∀ name ∈ next.1.allowed, name ∈ c.allowed ∨ name ∈ phase.names

/-- An operation that takes nothing new in hand. -/
private theorem moved_quiet {next : Channel × Phase}
    (hallowed : next.1.allowed = c.allowed ∨ next.1.allowed = [] ∨ next.1.allowed = phase.names)
    (hpurpose : next.2.purpose = none ∨ next.2.purpose = phase.purpose)
    (hnames : next.2.names = [] ∨ next.2.names = phase.names) : Moved u env c phase next where
  purpose p h := by
    rcases hpurpose with hnone | hsame
    · rw [hnone] at h
      cases h
    · exact .inl (hsame ▸ h)
  names name h := by
    rcases hnames with hnone | hsame
    · rw [hnone] at h
      exact absurd h List.not_mem_nil
    · exact .inl (hsame ▸ h)
  allowed name h := by
    rcases hallowed with hsame | hnone | hnames
    · exact .inl (hsame ▸ h)
    · rw [hnone] at h
      exact absurd h List.not_mem_nil
    · exact .inr (hnames ▸ h)

private theorem moved_take {requests : List PairingRequest} (hsub : ∀ r ∈ requests, r ∈ c.stored)
    (code : List Char) :
    Moved u env c (.approveRead code) (c, takeApproved u requests code env.nowSecs) where
  purpose p h := by
    obtain ⟨entry, hmem, hp, hfresh, hcode⟩ := takeApproved_purpose h
    exact .inr ⟨code, rfl, entry, hsub entry hmem, hp, hfresh, hcode⟩
  names name h := by
    rw [takeApproved_names requests code env.nowSecs] at h
    exact absurd h List.not_mem_nil
  allowed _ h := .inl h

private theorem moved_upsert (requests : List PairingRequest) (id : List Char)
    (metadata : Option Gyre.Llm.Json) :
    Moved u env c (.upsertRead id metadata) (c, upsert u requests id metadata env) := by
  have hquiet : (upsert u requests id metadata env).purpose = none ∧
      (upsert u requests id metadata env).names = [] := upsert_quiet env requests id metadata
  exact moved_quiet (.inl rfl) (.inl hquiet.1) (.inl hquiet.2)

private theorem moved_allow (entry : PairingRequest) {entries : List (List Char)}
    (h : ∀ name ∈ entries, name ∈ c.allowed ∨ name = Text.trim entry.id) :
    Moved u env c (.allowRead entry) (c, .allowTruncate entries entry) where
  purpose _ h := .inl h
  names name hname := .inr ((h name hname).imp id fun heq => ⟨entry, rfl, heq⟩)
  allowed _ h := .inl h

private theorem moved_succeed : Moved u env c phase (succeed u c call env phase) := by
  cases phase with
  | upsertRead id metadata => exact moved_upsert c.stored id metadata
  | approveRead code => exact moved_take (fun r hr => hr) code
  | write stage requests writer =>
    cases stage with
    | setLen => exact moved_quiet (.inl rfl) (.inr (by cases writer <;> rfl)) (.inl rfl)
    | writeAll => exact moved_quiet (.inl rfl) (.inr (by cases writer <;> rfl)) (.inl rfl)
    | finish =>
      cases writer with
      | list => exact moved_quiet (.inl rfl) (.inl rfl) (.inl rfl)
      | upsert code created => exact moved_quiet (.inl rfl) (.inl rfl) (.inl rfl)
      | approve entry =>
        simp only [succeed, afterWrite]
        split
        · exact moved_quiet (.inl rfl) (.inl rfl) (.inl rfl)
        · exact moved_quiet (.inl rfl) (.inr rfl) (.inl rfl)
  | allowRead entry =>
    simp only [succeed]
    split
    · exact moved_quiet (.inl rfl) (.inl rfl) (.inl rfl)
    · refine moved_allow entry fun name hname => ?_
      rcases List.mem_append.mp hname with hname | hname
      · exact .inl hname
      · exact .inr (List.mem_singleton.mp hname)
  | allowOpen entry => exact moved_quiet (.inr (.inl rfl)) (.inr rfl) (.inl rfl)
  | allowTruncate entries entry => exact moved_quiet (.inr (.inl rfl)) (.inr rfl) (.inr rfl)
  | allowWrite entries entry => exact moved_quiet (.inr (.inr rfl)) (.inl rfl) (.inl rfl)
  | upsertOpen id metadata => exact moved_quiet (.inl rfl) (.inr rfl) (.inl rfl)
  | upsertLock id metadata | approveLock code | allowLock entry =>
    simp only [succeed]
    split
    · exact moved_quiet (.inl rfl) (.inr rfl) (.inl rfl)
    · exact moved_quiet (.inl rfl) (.inr rfl) (.inl rfl)
  | approveCheck code | approveOpen code =>
    simp only [succeed]
    split
    · exact moved_quiet (.inl rfl) (.inl rfl) (.inl rfl)
    · exact moved_quiet (.inl rfl) (.inr rfl) (.inl rfl)
  | listRead | listLock requests | recordLock =>
    simp only [succeed]
    split
    · exact moved_quiet (.inl rfl) (.inl rfl) (.inl rfl)
    · exact moved_quiet (.inl rfl) (.inl rfl) (.inl rfl)
  | _ => exact moved_quiet (.inl rfl) (.inl rfl) (.inl rfl)

private theorem moved_fail : Moved u env c phase (fail u c call env phase) := by
  rcases fail_cases u c call env phase with ⟨-, hfail⟩ | ⟨-, hfail⟩
  · rw [hfail]
    exact moved_quiet (.inl rfl) (.inl rfl) (.inl rfl)
  · rcases hfail with ⟨id, metadata, rfl⟩ | ⟨code, rfl⟩ | rfl | ⟨entry, rfl⟩ | ⟨reply, rfl⟩
    · exact moved_upsert [] id metadata
    · exact moved_take (fun r hr => absurd hr List.not_mem_nil) code
    · exact moved_quiet (.inl rfl) (.inl rfl) (.inl rfl)
    · exact moved_allow entry fun name hname => .inr (List.mem_singleton.mp hname)
    · exact moved_quiet (.inl rfl) (.inl rfl) (.inl rfl)

private theorem moved_advance : Moved u env c phase (advance u c call env phase) := by
  unfold advance
  split
  · exact moved_succeed
  · exact moved_fail

end Approval

section Vouching

variable {u : Text.Unicode} {w : PairingWorld}

theorem mem_upsert {requests : List PairingRequest} {id : List Char} {metadata : Option Gyre.Llm.Json}
    {env : Encounter} {r : PairingRequest} (h : r ∈ (upsert u requests id metadata env).requests) :
    (∃ known ∈ requests, known.id = r.id) ∨ r.id = Text.trim id := by
  unfold upsert at h
  simp only at h
  split at h
  · exact absurd h List.not_mem_nil
  · split at h
    · next req hreq =>
      have hmem : req ∈ requests := List.mem_of_mem_filter (List.mem_of_find?_eq_some hreq)
      rcases mem_or_eq_of_mem_replace h with h | rfl
      · exact .inl ⟨r, List.mem_of_mem_filter h, rfl⟩
      · exact .inl ⟨req, hmem, rfl⟩
    · split at h
      · exact absurd h List.not_mem_nil
      · rcases List.mem_append.mp h with h | h
        · exact .inl ⟨r, List.mem_of_mem_filter h, rfl⟩
        · rw [List.mem_singleton.mp h]
          exact .inr rfl

theorem asked_carried {calls : List Call} {phase : Phase} {env : Encounter}
    (hasking : ∀ id metadata, phase = .upsertRead id metadata → Asked calls (Text.trim id)) :
    Carried u env phase fun requests => ∀ r ∈ requests, Asked calls r.id where
  none r hr := absurd hr List.not_mem_nil
  fewer hsub h r hr := h r (hsub.subset hr)
  sorted h r hr := h r ((List.mergeSort_perm _ _).subset hr)
  upsert hphase h r hr := by
    rcases mem_upsert hr with ⟨known, hknown, heq⟩ | heq
    · exact heq ▸ h known hknown
    · exact heq ▸ hasking _ _ hphase

/-- Every allowed sender has been approved, and every pending one has asked. -/
structure Vouched (u : Text.Unicode) (P : List Char → Prop) (w : PairingWorld) : Prop where
  allowed : ∀ name ∈ w.channel.allowed, P name
  calls : ∀ c ∈ w.calls, c.Vouched u P
  asked : Throughout (fun requests => ∀ r ∈ requests, Asked w.calls r.id) w

theorem begin_vouched (P : List Char → Prop) (operation : Operation) :
    Call.Vouched u P ⟨operation, begin u operation, none⟩ := by
  cases operation with
  | upsertRequest id metadata =>
    refine ⟨fun p hp => ?_, fun name hname => absurd hname List.not_mem_nil⟩
    cases hp
    exact ⟨metadata, rfl⟩
  | approve code =>
    have hbegin : begin u (.approve code) = .returned (.ok (.approved none)) ∨
        begin u (.approve code) = .approveCheck (u.uppercase (Text.trim code)) := by
      simp only [begin]
      split
      · exact .inl rfl
      · exact .inr rfl
    rcases hbegin with hbegin | hbegin
    · rw [hbegin]
      exact ⟨fun p hp => (by cases hp), fun name hname => absurd hname List.not_mem_nil⟩
    · rw [hbegin]
      refine ⟨fun p hp => ?_, fun name hname => absurd hname List.not_mem_nil⟩
      cases hp
      exact ⟨code, rfl, rfl⟩
  | _ => exact ⟨fun p hp => (by cases hp), fun name hname => absurd hname List.not_mem_nil⟩

theorem vouched_start {P : List Char → Prop} (h : Vouched u P w) (operation : Operation) :
    Vouched u P (w.step u (.start operation)) where
  allowed := h.allowed
  calls c hc := by
    rcases List.mem_append.mp hc with hc | hc
    · exact h.calls c hc
    · rw [List.mem_singleton.mp hc]
      exact begin_vouched P operation
  asked := by
    have hmore : ∀ id, Asked w.calls id → Asked (w.step u (.start operation)).calls id := by
      rintro id ⟨raw, metadata, hmem, htrim⟩
      refine ⟨raw, metadata, ?_, htrim⟩
      rw [PairingWorld.step, List.map_append]
      exact List.mem_append_left _ hmem
    have hstart := throughout_start (u := u) (fun r hr => absurd hr List.not_mem_nil) h.asked operation
    exact ⟨fun r hr => hmore _ (hstart.1 r hr), fun c hc r hr => hmore _ (hstart.2 c hc r hr)⟩

theorem vouched_proceed {P : List Char → Prop} (h : Vouched u P w) {call : Nat} {env : Encounter}
    (hP : ∀ name, ApprovesAt u w (.proceed call env) name → Asked w.calls name → P name) :
    Vouched u P (w.step u (.proceed call env)) := by
  have hcarried : ∀ c ∈ w.calls, Carried u env c.phase fun requests =>
      ∀ r ∈ requests, Asked w.calls r.id := by
    intro c hc
    refine asked_carried fun id metadata hphase => ?_
    obtain ⟨metadata', hoperation⟩ := (h.calls c hc).purpose (.asking id) (by rw [hphase]; rfl)
    exact ⟨id, metadata', hoperation ▸ List.mem_map_of_mem hc, rfl⟩
  have hasked := throughout_proceed h.asked call hcarried
  cases hc : w.calls[call]? with
  | none =>
    rw [PairingWorld.step_absent env hc]
    exact h
  | some c =>
    have hmem := List.mem_of_getElem? hc
    have hmoved : Moved u env w.channel c.phase (advance u w.channel call env c.phase) := moved_advance
    rw [PairingWorld.step_proceed env hc] at hasked ⊢
    have hsame : (w.calls.set call (c.next env.nowSecs
        (advance u w.channel call env c.phase).2)).map (·.operation) = w.calls.map (·.operation) := by
      refine List.ext_getElem? fun i => ?_
      rw [List.map_set, List.getElem?_set]
      split
      · next heq =>
        subst heq
        rw [List.getElem?_map, hc]
        split
        · rfl
        · next hlength => exact absurd (List.getElem?_eq_some_iff.mp hc).1 (by simpa using hlength)
      · rfl
    refine ⟨fun name hname => ?_, fun other hother => ?_, ?_⟩
    · rcases hmoved.allowed name hname with hname | hname
      · exact h.allowed name hname
      · exact (h.calls c hmem).names name hname
    · rcases List.mem_or_eq_of_mem_set hother with hother | rfl
      · exact h.calls other hother
      · refine ⟨fun p hp => ?_, fun name hname => ?_⟩
        · rcases hmoved.purpose p hp with hbefore | ⟨code, hphase, entry, hentry, rfl, hfresh, hcode⟩
          · exact (h.calls c hmem).purpose p hbefore
          · obtain ⟨raw, hoperation, hraw⟩ := (h.calls c hmem).purpose (.entering code) (by rw [hphase]; rfl)
            have hask := h.asked.1 entry hentry
            have htrim : Text.trim entry.id = entry.id := by
              obtain ⟨id, -, -, hid⟩ := hask
              rw [← hid, Text.trim_trim]
            exact hP _ ⟨call, env, c, raw, entry, rfl, hc, hoperation, hentry, hfresh, hcode.trans hraw,
              rfl⟩ (htrim.symm ▸ hask)
        · rcases hmoved.names name hname with hname | hname | ⟨entry, hentry, rfl⟩
          · exact (h.calls c hmem).names name hname
          · exact h.allowed name hname
          · exact (h.calls c hmem).purpose _ hentry
    · unfold Asked at hasked ⊢
      rw [hsame]
      exact hasked

/-- However calls interleave and fail, a sender is on the list of allowed senders only if somebody had
asked for it and a call then read the code that it was given on a request of the sender. -/
theorem allowed_by_code (u : Text.Unicode) (sections : List Section) :
    ∀ name ∈ (PairingWorld.run u sections).channel.allowed, ∃ before s,
      ComesBy (PairingWorld.step u) .new sections before s ∧ ApprovesAt u before s name ∧
        Asked before.calls name := by
  have hvouched : Vouched u (fun name => ∃ before s,
      ComesBy (PairingWorld.step u) .new sections before s ∧ ApprovesAt u before s name ∧
        Asked before.calls name) (PairingWorld.run u sections) := by
    refine foldl_invariant_of _ sections ⟨?_, ?_, ?_, ?_⟩ ?_
    · exact fun name hname => absurd hname List.not_mem_nil
    · exact fun c hc => absurd hc List.not_mem_nil
    · exact fun r hr => absurd hr List.not_mem_nil
    · exact fun c hc => absurd hc List.not_mem_nil
    · intro w s hs h
      cases s with
      | start operation => exact vouched_start h operation
      | proceed call env => exact vouched_proceed h fun name happroves hasked => ⟨w, _, hs, happroves, hasked⟩
  exact hvouched.allowed

private def oneApproved : List Section :=
  twoAsk ++ .start (.approve (randomCode (ofLetter (.last 31)))) :: List.replicate 13 (.proceed 3 (drawing 100))

theorem carol_allowed_by_code :
    carol ∈ (PairingWorld.run letters oneApproved).channel.allowed ∧ ∃ before s,
      ComesBy (PairingWorld.step letters) .new oneApproved before s ∧ ApprovesAt letters before s carol ∧
        Asked before.calls carol :=
  ⟨by decide +kernel, allowed_by_code letters oneApproved carol (by decide +kernel)⟩

end Vouching

end Gyre.Pairing
