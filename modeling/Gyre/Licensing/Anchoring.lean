/- digest: Paid features rest on what the server accepted, and what makes the cache forget it. -/

import Gyre.Lib.Runs
import Gyre.Licensing.Validator

/-!
Every cached acceptance is one of the server, with its time, so that paid features are at most the grace
period away from it. An attempt that fails on an answer that is no rejection is to leave the cache
alone; where the body cannot be read it does not.
-/

set_option autoImplicit false
set_option relaxedAutoImplicit false

namespace Gyre.Licensing

open Gyre.Lib

/-- What the user or the system does with the license. -/
inductive Request where
  | validate (key : List Char)
  | load
  | activate (key : List Char)
  | deactivate
  | restart
  deriving DecidableEq, Repr

structure Attempt where
  request : Request
  io : Io
  answer : Answer
  deriving DecidableEq, Repr

/-- What happens to a key: the server accepts it, or an attempt with it ends in a status. -/
inductive Event where
  | accepted (now : Nat) (key : List Char) (license : License)
  | decided (now : Nat) (key : List Char) (status : LicenseStatus)
  deriving DecidableEq, Repr

def Event.key : Event → List Char
  | accepted _ key _ | decided _ key _ => key

/-- The response in which the server accepts the key. -/
def Answer.acceptance : Answer → Option ValidateResponse
  | .answered status body => if body.valid && isSuccess status then some body else none
  | _ => none

/-- The server rejects the key, and not because of an error of its own. -/
def Answer.rejects : Answer → Bool
  | .answered status body => !body.valid && status < 500
  | _ => false

section Runs

variable (u : Text.Unicode) (x : Library)

/-- The key of an attempt that asks the server. -/
def Attempt.key (a : Attempt) (disk : Disk) : Option (List Char) :=
  match a.request with
  | .validate key => some (normalizeKey u key)
  | .load => (loadKeyFile a.io disk).map (normalizeKey u)
  | .activate key => if isValidKeyFormat u (normalizeKey u key) then some (normalizeKey u key) else none
  | .deactivate | .restart => none

/-- The acceptance that an attempt meets. -/
def Attempt.accepted (a : Attempt) (disk : Disk) : List Event :=
  match a.key u disk, a.answer.acceptance with
  | some key, some body => [.accepted a.io.now key (buildLicense u a.io.now key body)]
  | _, _ => []

/-- The files after an attempt, and the status it returns. -/
def Attempt.result (a : Attempt) (disk : Disk) : Disk × Option LicenseStatus :=
  match a.request with
  | .validate key =>
    let validated := validateLicense u x a.io a.answer key disk
    (validated.1, some validated.2)
  | .load =>
    let loaded := loadAndValidate u x a.io a.answer disk
    (loaded.1, some loaded.2)
  | .activate key =>
    let activated := activateLicense u x a.io a.answer key disk
    (activated.1, activated.2.toOption)
  | .deactivate => (deactivateLicense a.io disk, none)
  | .restart => (disk, none)

/-- The status of an attempt with a key. -/
def Attempt.decided (a : Attempt) (disk : Disk) : List Event :=
  match a.key u disk, (a.result u x disk).2 with
  | some key, some status => [.decided a.io.now key status]
  | _, _ => []

def step (disk : Disk) (a : Attempt) : Disk × List Event :=
  ((a.result u x disk).1, a.accepted u disk ++ a.decided u x disk)

/-- The status opens something that is not free. -/
def PaidFeatures (status : LicenseStatus) : Prop :=
  status.isPaid = true ∨ status.featureGates ≠ .free

/-- Whenever an attempt opens paid features, the server accepted its key with them at most the grace
period before. -/
def Anchored (log : List Event) : Prop :=
  ∀ now key status, .decided now key status ∈ log → PaidFeatures status →
    ∃ t license, .accepted t key license ∈ log ∧ t ≤ now ∧ now ≤ t + gracePeriodSecs ∧
      status.effectiveTier = license.tier ∧ status.featureGates = license.gates

/-- An acceptance is cached for this machine, and not older than the grace period. -/
def CachedUnexpired (io : Io) (disk : Disk) : Prop :=
  ∃ cache, disk.cache = some cache ∧ cache.isHmacValid x io.machineId = true ∧
    io.now - cache.validatedAt ≤ gracePeriodSecs

/-- An attempt that fails without a rejection leaves an unexpired acceptance in the cache. -/
def KeepsAcceptance (disk : Disk) (a : Attempt) : Prop :=
  (a.key u disk).isSome → a.answer.acceptance = none → a.answer.rejects = false →
    CachedUnexpired x a.io disk → (step u x disk a).1.cache = disk.cache

/-- The response arrives and is neither an acceptance nor a rejection: its body cannot be read, or it
comes with a status that contradicts it. -/
def Answer.unclear (answer : Answer) : Bool :=
  match answer with
  | .unsent _ => false
  | .unread _ _ => true
  | .answered status body => if body.valid then !isSuccess status else 500 ≤ status

/-- A key is validated, the response is unclear, and the file of an unexpired acceptance can be
removed. -/
def MeetsUnclear (disk : Disk) (a : Attempt) : Prop :=
  (∀ key, a.request ≠ .activate key) ∧ (a.key u disk).isSome ∧ a.answer.unclear = true ∧
    a.io.removes = true ∧ CachedUnexpired x a.io disk

/-- No two keys of a run have the same hash. -/
def KeysApart (log : List Event) : Prop :=
  ∀ e ∈ log, ∀ f ∈ log, x.sha256Hex e.key = x.sha256Hex f.key → e.key = f.key

end Runs

section Answers

variable {u : Text.Unicode} {x : Library} {io : Io} {answer : Answer} {key : List Char} {disk : Disk}

private theorem acceptance_eq_some {body : ValidateResponse} (h : answer.acceptance = some body) :
    ∃ status, answer = .answered status body ∧ body.valid = true ∧ isSuccess status = true := by
  cases answer with
  | unsent error => cases h
  | unread status error => cases h
  | answered status other =>
    simp only [Answer.acceptance] at h
    cases hgood : other.valid && isSuccess status with
    | false =>
      rw [hgood] at h
      cases h
    | true =>
      rw [hgood] at h
      obtain rfl := Option.some.inj h
      exact ⟨status, rfl, Bool.and_eq_true_iff.mp hgood⟩

private theorem validateRemote_accepted {body : ValidateResponse} (h : answer.acceptance = some body) :
    validateRemote u x io answer key disk =
      (saveCache x io key (buildLicense u io.now key body) disk,
        .ok (.valid (buildLicense u io.now key body))) := by
  obtain ⟨status, rfl, hvalid, hsuccess⟩ := acceptance_eq_some h
  simp [validateRemote, hvalid, hsuccess]

/-- Without an acceptance the server is not reached, or the validation has failed. -/
private theorem validateRemote_refused (h : answer.acceptance = none) :
    (∃ e, answer = .unsent e ∧ validateRemote u x io answer key disk = (disk, .error (.networkError e))) ∨
      (∀ e, answer ≠ .unsent e) ∧ ∃ reason,
        validateRemote u x io answer key disk = (disk, .error (.validationFailed reason)) := by
  cases answer with
  | unsent error => exact .inl ⟨error, rfl, rfl⟩
  | unread status error => exact .inr ⟨fun e he => (by cases he), _, rfl⟩
  | answered status body =>
    refine .inr ⟨fun e he => (by cases he), ?_⟩
    cases hvalid : body.valid with
    | false =>
      refine ⟨(body.message.or body.reason).getD "License is not valid".toList, ?_⟩
      simp only [validateRemote, hvalid, Bool.not_false, if_true]
    | true =>
      have hfailed : isSuccess status = false := by
        simpa [Answer.acceptance, hvalid] using h
      refine ⟨"Server returned HTTP ".toList ++ x.statusText status, ?_⟩
      simp only [validateRemote, hvalid, hfailed, Bool.not_true, Bool.not_false, Bool.false_eq_true,
        if_false, if_true]

/-- What is neither an acceptance nor a rejection is unclear, unless nothing arrived. -/
private theorem unclear_iff (haccept : answer.acceptance = none) (hreject : answer.rejects = false) :
    answer.unclear = true ↔ ∀ e, answer ≠ .unsent e := by
  cases answer with
  | unsent error => simp [Answer.unclear]
  | unread status error => simp [Answer.unclear]
  | answered status body =>
    cases hvalid : body.valid with
    | false => simpa [Answer.unclear, Answer.rejects, hvalid] using hreject
    | true => simpa [Answer.unclear, Answer.acceptance, hvalid] using haccept

private theorem unclear_refused (h : answer.unclear = true) :
    answer.acceptance = none ∧ answer.rejects = false := by
  cases answer with
  | unsent error => cases h
  | unread status error => exact ⟨rfl, rfl⟩
  | answered status body =>
    cases hvalid : body.valid with
    | false => simpa [Answer.unclear, Answer.rejects, Answer.acceptance, hvalid] using h
    | true => simpa [Answer.unclear, Answer.rejects, Answer.acceptance, hvalid] using h

/-- How a validation ends, and what it leaves in the cache. -/
private theorem validateLicense_cases (key : List Char) :
    (∃ body, answer.acceptance = some body ∧ validateLicense u x io answer key disk =
      (saveCache x io (normalizeKey u key) (buildLicense u io.now (normalizeKey u key) body) disk,
        .valid (buildLicense u io.now (normalizeKey u key) body))) ∨
      (∃ e, answer = .unsent e ∧
        validateLicense u x io answer key disk = (disk, checkCache x io (normalizeKey u key) disk)) ∨
      answer.acceptance = none ∧ (∀ e, answer ≠ .unsent e) ∧ ∃ reason,
        validateLicense u x io answer key disk = (clearCache io disk, .invalid reason) := by
  unfold validateLicense
  cases haccept : answer.acceptance with
  | some body =>
    refine .inl ⟨body, rfl, ?_⟩
    dsimp only
    rw [validateRemote_accepted haccept]
  | none =>
    dsimp only
    have hrefused : (∃ e, answer = .unsent e ∧
        validateRemote u x io answer (normalizeKey u key) disk = (disk, .error (.networkError e))) ∨ _ :=
      validateRemote_refused haccept
    rcases hrefused with ⟨e, hanswer, hremote⟩ | ⟨hsent, reason, hremote⟩
    · rw [hremote]
      exact .inr (.inl ⟨e, hanswer, rfl⟩)
    · rw [hremote]
      exact .inr (.inr ⟨rfl, hsent, reason, rfl⟩)

end Answers

section Attempts

variable {u : Text.Unicode} {x : Library}

/-- How an attempt can end: with which files, and with which status. -/
private inductive Outcome (u : Text.Unicode) (x : Library) (disk : Disk) (a : Attempt) :
    Disk × Option LicenseStatus → Prop
  | accepted {key : List Char} {body : ValidateResponse} {after : Disk} {status : Option LicenseStatus}
      (hkey : a.key u disk = some key) (haccept : a.answer.acceptance = some body)
      (hcache : after.cache = (saveCache x a.io key (buildLicense u a.io.now key body) disk).cache)
      (hstatus : ∀ s ∈ status, s = .valid (buildLicense u a.io.now key body)) :
      Outcome u x disk a (after, status)
  | offline {key : List Char} {e : List Char} (hkey : a.key u disk = some key)
      (hunsent : a.answer = .unsent e) : Outcome u x disk a (disk, some (checkCache x a.io key disk))
  | failed {key reason : List Char} (hkey : a.key u disk = some key)
      (hvalidated : ∀ key, a.request ≠ .activate key) (hrefused : a.answer.acceptance = none)
      (hsent : ∀ e, a.answer ≠ .unsent e) :
      Outcome u x disk a (clearCache a.io disk, some (.invalid reason))
  | refused {key tried : List Char} (hkey : a.key u disk = some key)
      (hactivate : a.request = .activate tried) (hrefused : a.answer.acceptance = none) :
      Outcome u x disk a (disk, none)
  | idle {after : Disk} {status : Option LicenseStatus} (hkey : a.key u disk = none)
      (hcache : after.cache = disk.cache ∨ after.cache = none) : Outcome u x disk a (after, status)

private theorem clearCache_cache (io : Io) (disk : Disk) :
    (clearCache io disk).cache = disk.cache ∨ (clearCache io disk).cache = none := by
  unfold clearCache
  cases io.removes with
  | false => exact .inl rfl
  | true => exact .inr rfl

/-- A validation of some key ends so, whether the key was given or loaded. -/
private theorem outcome_of_validate {disk : Disk} {a : Attempt} {key : List Char}
    (hkey : a.key u disk = some (normalizeKey u key)) (hvalidated : ∀ key, a.request ≠ .activate key) :
    Outcome u x disk a ((validateLicense u x a.io a.answer key disk).1,
      some (validateLicense u x a.io a.answer key disk).2) := by
  have hcases : (∃ body, a.answer.acceptance = some body ∧ validateLicense u x a.io a.answer key disk = _) ∨
      _ := validateLicense_cases key
  rcases hcases with
    ⟨body, haccept, h⟩ | ⟨e, hunsent, h⟩ | ⟨hrefused, hsent, reason, h⟩
  · rw [h]
    exact .accepted hkey haccept rfl fun s hs => (Option.some.inj hs).symm
  · rw [h]
    exact .offline hkey hunsent
  · rw [h]
    exact .failed hkey hvalidated hrefused hsent

private theorem outcome (disk : Disk) (a : Attempt) : Outcome u x disk a (a.result u x disk) := by
  obtain ⟨request, io, answer⟩ := a
  cases request with
  | validate key => exact outcome_of_validate rfl (by simp)
  | load =>
    cases hloaded : loadKeyFile io disk with
    | none =>
      have hresult : (⟨.load, io, answer⟩ : Attempt).result u x disk = (disk, some .noLicense) := by
        simp [Attempt.result, loadAndValidate, hloaded]
      rw [hresult]
      exact .idle (by simp [Attempt.key, hloaded]) (.inl rfl)
    | some key =>
      have hkey : (⟨.load, io, answer⟩ : Attempt).key u disk = some (normalizeKey u key) := by
        simp [Attempt.key, hloaded]
      have hresult : (⟨.load, io, answer⟩ : Attempt).result u x disk =
          ((validateLicense u x io answer key disk).1,
            some (validateLicense u x io answer key disk).2) := by
        simp [Attempt.result, loadAndValidate, hloaded]
      rw [hresult]
      exact outcome_of_validate hkey (by simp)
  | activate tried =>
    cases hformat : isValidKeyFormat u (normalizeKey u tried) with
    | false =>
      have hresult : (⟨.activate tried, io, answer⟩ : Attempt).result u x disk = (disk, none) := by
        simp [Attempt.result, activateLicense, hformat, Except.toOption]
      rw [hresult]
      exact .idle (by simp [Attempt.key, hformat]) (.inl rfl)
    | true =>
      have hkey : (⟨.activate tried, io, answer⟩ : Attempt).key u disk = some (normalizeKey u tried) := by
        simp [Attempt.key, hformat]
      cases haccept : answer.acceptance with
      | none =>
        have hresult : (⟨.activate tried, io, answer⟩ : Attempt).result u x disk = (disk, none) := by
          have hrefused : (∃ e, answer = .unsent e ∧
              validateRemote u x io answer (normalizeKey u tried) disk = (disk, .error (.networkError e))) ∨
                _ := validateRemote_refused haccept
          rcases hrefused with ⟨e, -, h⟩ | ⟨-, reason, h⟩ <;>
            simp [Attempt.result, activateLicense, hformat, h, Except.toOption]
        rw [hresult]
        exact .refused hkey rfl haccept
      | some body =>
        have hremote : validateRemote u x io answer (normalizeKey u tried) disk = _ :=
          validateRemote_accepted haccept
        refine .accepted hkey haccept ?_ fun s hs => ?_
        · cases hsaved : io.keyWrites <;>
            simp [activateLicense, hformat, hremote, saveKeyFile, hsaved]
        · cases hsaved : io.keyWrites
          · simp [activateLicense, hformat, hremote, saveKeyFile, hsaved, Except.toOption] at hs
          · simp [activateLicense, hformat, hremote, saveKeyFile, hsaved, Except.toOption] at hs
            exact hs.symm
  | deactivate =>
    refine .idle rfl ?_
    unfold deactivateLicense
    cases hremoved : io.keyRemoves <;> simpa [hremoved] using clearCache_cache io disk
  | restart => exact .idle rfl (.inl rfl)

/-- Where an acceptance is kept, and where it is not. -/
private theorem keepsAcceptance_iff (disk : Disk) (a : Attempt) :
    KeepsAcceptance u x disk a ↔ ¬ MeetsUnclear u x disk a := by
  have hstep : (step u x disk a).1 = (a.result u x disk).1 := rfl
  have hout := outcome disk a (u := u) (x := x)
  unfold KeepsAcceptance MeetsUnclear
  rw [hstep]
  generalize a.result u x disk = result at hout ⊢
  cases hout with
  | accepted hkey haccept hcache hstatus =>
    refine iff_of_true (fun _ hrefused => ?_) ?_
    · rw [haccept] at hrefused
      cases hrefused
    · rintro ⟨-, -, hunclear, -⟩
      rw [(unclear_refused hunclear).1] at haccept
      cases haccept
  | offline hkey hunsent =>
    refine iff_of_true (fun _ _ _ _ => rfl) ?_
    rintro ⟨-, -, hunclear, -⟩
    rw [hunsent] at hunclear
    cases hunclear
  | failed hkey hvalidated hrefused hsent =>
    have hasked : (a.key u disk).isSome = true := by rw [hkey]; rfl
    constructor
    · rintro hkeeps ⟨-, -, hunclear, hremoves, hcached⟩
      have hsame := hkeeps hasked hrefused (unclear_refused hunclear).2 hcached
      obtain ⟨cache, hcache, -⟩ := hcached
      have hcleared : (clearCache a.io disk).cache = none := by simp [clearCache, hremoves]
      rw [hcleared, hcache] at hsame
      cases hsame
    · intro hnot _ _ hreject hcached
      cases hremoves : a.io.removes with
      | false => simp [clearCache, hremoves]
      | true =>
        have hunclear := (unclear_iff hrefused hreject).mpr hsent
        exact absurd ⟨hvalidated, hasked, hunclear, hremoves, hcached⟩ hnot
  | refused hkey hactivate hrefused =>
    refine iff_of_true (fun _ _ _ _ => rfl) ?_
    rintro ⟨hvalidated, -⟩
    exact hvalidated _ hactivate
  | idle hkey hcache =>
    rw [hkey]
    refine iff_of_true (fun h => by cases h) ?_
    rintro ⟨-, h, -⟩
    cases h

/-- What a run leaves behind: every cached acceptance is one of the server, and paid features rest on
one of a key with the same hash. -/
private structure Kept (x : Library) (attempts : List Attempt) (disk : Disk) (log : List Event) :
    Prop where
  cached : ∀ cache, disk.cache = some cache → ∃ key license machineId,
    .accepted cache.validatedAt key license ∈ log ∧
      cache = .new x cache.validatedAt key machineId license
  timed : ∀ cache, disk.cache = some cache → ∃ a ∈ attempts, a.io.now = cache.validatedAt
  anchored : ∀ now key status, .decided now key status ∈ log → PaidFeatures status →
    ∃ t other license, .accepted t other license ∈ log ∧ x.sha256Hex other = x.sha256Hex key ∧ t ≤ now ∧
      now ≤ t + gracePeriodSecs ∧ status.effectiveTier = license.tier ∧
      status.featureGates = license.gates

private theorem not_paid_of_license_none {status : LicenseStatus} (h : status.license = none) :
    ¬ PaidFeatures status := by
  obtain ⟨hgates, hpaid⟩ := LicenseStatus.featureGates_of_license_none h
  rintro (hp | hg)
  · exact Bool.false_ne_true (hpaid.symm.trans hp)
  · exact hg hgates

/-- Paid features from the cache are those of an unexpired acceptance of a key with the same hash. -/
private theorem checkCache_paid {io : Io} {key : List Char} {disk : Disk}
    (h : PaidFeatures (checkCache x io key disk)) :
    ∃ cache, disk.cache = some cache ∧ cache.keyHash = x.sha256Hex key ∧
      io.now - cache.validatedAt ≤ gracePeriodSecs ∧
      (checkCache x io key disk).effectiveTier = cache.response.tier ∧
      (checkCache x io key disk).featureGates = cache.response.gates := by
  unfold checkCache at h ⊢
  cases hloaded : loadCache x io disk with
  | none =>
    rw [hloaded] at h
    exact absurd h (not_paid_of_license_none rfl)
  | some cache =>
    rw [hloaded] at h
    have hcache : disk.cache = some cache := by
      unfold loadCache at hloaded
      cases hdisk : disk.cache with
      | none =>
        rw [hdisk] at hloaded
        cases hloaded
      | some other =>
        rw [hdisk] at hloaded
        dsimp only at hloaded
        split at hloaded
        next => cases hloaded
        next =>
          split at hloaded
          next => cases hloaded
          next => exact hloaded
    dsimp only at h ⊢
    by_cases hhash : cache.keyHash = x.sha256Hex key
    · rw [if_neg (not_not_intro hhash)] at h ⊢
      by_cases hage : gracePeriodSecs < io.now - cache.validatedAt
      · rw [if_pos hage] at h
        exact absurd h (not_paid_of_license_none rfl)
      · rw [if_neg hage]
        exact ⟨cache, hcache, hhash, Nat.le_of_not_lt hage, rfl, rfl⟩
    · rw [if_pos hhash] at h
      exact absurd h (not_paid_of_license_none rfl)

private theorem mem_events_decided {disk : Disk} {a : Attempt} {now : Nat} {key : List Char}
    {status : LicenseStatus} (h : .decided now key status ∈ a.accepted u disk ++ a.decided u x disk) :
    now = a.io.now ∧ a.key u disk = some key ∧ (a.result u x disk).2 = some status := by
  rcases List.mem_append.mp h with h | h
  · unfold Attempt.accepted at h
    split at h
    · cases List.mem_singleton.mp h
    · cases h
  · unfold Attempt.decided at h
    split at h
    next other found hkey hstatus =>
      cases List.mem_singleton.mp h
      exact ⟨rfl, hkey, hstatus⟩
    · cases h

/-- One attempt, not before the others, keeps what a run leaves behind. -/
private theorem Kept.step {attempts : List Attempt} {disk : Disk} {log : List Event} {a : Attempt}
    (h : Kept x attempts disk log) (hlater : ∀ b ∈ attempts, b.io.now ≤ a.io.now) :
    Kept x (attempts ++ [a]) (step u x disk a).1 (log ++ (step u x disk a).2) := by
  have hlast : a ∈ attempts ++ [a] := List.mem_append_right _ (List.mem_singleton.mpr rfl)
  have hout := outcome disk a (u := u) (x := x)
  have hnew {now : Nat} {key : List Char} {status : LicenseStatus}
      (hevent : .decided now key status ∈ a.accepted u disk ++ a.decided u x disk) :=
    mem_events_decided hevent
  have hbefore (cache : LicenseCache) (hcache : disk.cache = some cache) :
      cache.validatedAt ≤ a.io.now := by
    obtain ⟨b, hb, htime⟩ := h.timed cache hcache
    exact htime ▸ hlater b hb
  -- where the attempt brings no acceptance, the cache is an old one
  have hcached (hold : ∀ cache, (a.result u x disk).1.cache = some cache → disk.cache = some cache)
      (hstatus : ∀ key status, a.key u disk = some key → (a.result u x disk).2 = some status →
        status.license = none ∨ status = checkCache x a.io key disk) :
      Kept x (attempts ++ [a]) (Licensing.step u x disk a).1 (log ++ (Licensing.step u x disk a).2) := by
    refine ⟨fun cache hcache => ?_, fun cache hcache => ?_, fun now key status hmem hpaid => ?_⟩
    · obtain ⟨key, license, machineId, haccepted, heq⟩ := h.cached cache (hold cache hcache)
      exact ⟨key, license, machineId, List.mem_append_left _ haccepted, heq⟩
    · obtain ⟨b, hb, htime⟩ := h.timed cache (hold cache hcache)
      exact ⟨b, List.mem_append_left _ hb, htime⟩
    · rcases List.mem_append.mp hmem with hmem | hmem
      · obtain ⟨t, other, license, haccepted, hrest⟩ := h.anchored now key status hmem hpaid
        exact ⟨t, other, license, List.mem_append_left _ haccepted, hrest⟩
      · obtain ⟨rfl, hkey, hresult⟩ := hnew hmem
        rcases hstatus key status hkey hresult with hnone | rfl
        · exact absurd hpaid (not_paid_of_license_none hnone)
        · obtain ⟨cache, hcache, hhash, hage, htier, hgates⟩ := checkCache_paid hpaid
          obtain ⟨other, license, machineId, haccepted, heq⟩ := h.cached cache hcache
          have hresponse : cache.response = license := congrArg LicenseCache.response heq
          have hother : cache.keyHash = x.sha256Hex other := congrArg LicenseCache.keyHash heq
          have htime := hbefore cache hcache
          refine ⟨cache.validatedAt, other, license, List.mem_append_left _ haccepted,
            hother.symm.trans hhash, htime, by omega, ?_, ?_⟩
          · rw [htier, hresponse]
          · rw [hgates, hresponse]
  generalize hresult : a.result u x disk = result at hout
  cases hout with
  | @accepted key body after status hkey haccept hcache hstatus =>
    have hmem : .accepted a.io.now key (buildLicense u a.io.now key body) ∈
        log ++ (Licensing.step u x disk a).2 := by
      refine List.mem_append_right _ (List.mem_append_left _ ?_)
      unfold Attempt.accepted
      rw [hkey, haccept]
      exact List.mem_singleton.mpr rfl
    have hsaved (cache : LicenseCache) (hnow : (Licensing.step u x disk a).1.cache = some cache) :
        cache = .new x a.io.now key a.io.machineId (buildLicense u a.io.now key body) ∨
          disk.cache = some cache := by
      have hafter : (Licensing.step u x disk a).1.cache = after.cache := by
        unfold Licensing.step
        rw [hresult]
      rw [hafter, hcache] at hnow
      unfold saveCache at hnow
      cases hwrites : a.io.writes with
      | false =>
        rw [hwrites, if_neg Bool.false_ne_true] at hnow
        exact .inr hnow
      | true =>
        rw [hwrites, if_pos rfl] at hnow
        exact .inl (Option.some.inj hnow).symm
    refine ⟨fun cache hnow => ?_, fun cache hnow => ?_, fun now other status' hdecided hpaid => ?_⟩
    · rcases hsaved cache hnow with rfl | hold
      · exact ⟨key, _, a.io.machineId, hmem, rfl⟩
      · obtain ⟨other, license, machineId, haccepted, heq⟩ := h.cached cache hold
        exact ⟨other, license, machineId, List.mem_append_left _ haccepted, heq⟩
    · rcases hsaved cache hnow with rfl | hold
      · exact ⟨a, hlast, rfl⟩
      · obtain ⟨b, hb, htime⟩ := h.timed cache hold
        exact ⟨b, List.mem_append_left _ hb, htime⟩
    · rcases List.mem_append.mp hdecided with hdecided | hdecided
      · obtain ⟨t, third, license, haccepted, hrest⟩ := h.anchored now other status' hdecided hpaid
        exact ⟨t, third, license, List.mem_append_left _ haccepted, hrest⟩
      · obtain ⟨rfl, hother, hdone⟩ := hnew hdecided
        obtain rfl := Option.some.inj (hkey.symm.trans hother)
        rw [hresult] at hdone
        obtain rfl := hstatus status' hdone
        exact ⟨a.io.now, key, _, hmem, rfl, Nat.le_refl _, Nat.le_add_right _ _, rfl, rfl⟩
  | offline hkey hunsent =>
    refine hcached (fun cache hcache => ?_) fun key status hother hstatus => ?_
    · rwa [hresult] at hcache
    · rw [hresult] at hstatus
      cases hstatus
      obtain rfl := Option.some.inj (hkey.symm.trans hother)
      exact .inr rfl
  | failed hkey hvalidated hrefused hsent =>
    refine hcached (fun cache hcache => ?_) fun key status hother hstatus => ?_
    · rw [hresult] at hcache
      rcases clearCache_cache a.io disk with hsame | hnone
      · rwa [hsame] at hcache
      · rw [hnone] at hcache
        cases hcache
    · rw [hresult] at hstatus
      cases hstatus
      exact .inl rfl
  | refused hkey hactivate hrefused =>
    refine hcached (fun cache hcache => ?_) fun key status hother hstatus => ?_
    · rwa [hresult] at hcache
    · rw [hresult] at hstatus
      cases hstatus
  | idle hkey hcache =>
    refine hcached (fun cache hnow => ?_) fun key status hother hstatus => ?_
    · rw [hresult] at hnow
      rcases hcache with hsame | hnone
      · rwa [hsame] at hnow
      · rw [hnone] at hnow
        cases hnow
    · rw [hkey] at hother
      cases hother

private theorem kept_of_run {attempts : List Attempt}
    (hclock : attempts.Pairwise fun a b => a.io.now ≤ b.io.now) :
    Kept x attempts (run (step u x) .new attempts).1 (run (step u x) .new attempts).2 := by
  induction attempts using List.reverseRecOn with
  | nil =>
    refine ⟨fun cache h => ?_, fun cache h => ?_, fun now key status h => ?_⟩
    · cases h
    · cases h
    · cases h
  | append_singleton attempts a ih =>
    obtain ⟨hearlier, -, hlast⟩ := List.pairwise_append.mp hclock
    rw [run_concat]
    exact (ih hearlier).step fun b hb => hlast b hb a (List.mem_singleton.mpr rfl)

end Attempts

/-- Under a clock that does not go back, paid features always rest on an acceptance of the same key
within the grace period, and a run forgets no acceptance exactly if none of its validations gets an
unclear response while an unexpired acceptance can be removed from the cache. -/
theorem licence_anchored_iff (u : Text.Unicode) (x : Library) (attempts : List Attempt)
    (hclock : attempts.Pairwise fun a b => a.io.now ≤ b.io.now)
    (hkeys : KeysApart x (run (step u x) .new attempts).2) :
    (Anchored (run (step u x) .new attempts).2 ∧
        ∀ p ∈ visited (step u x) .new attempts, KeepsAcceptance u x p.1 p.2) ↔
      ∀ p ∈ visited (step u x) .new attempts, ¬ MeetsUnclear u x p.1 p.2 := by
  have hanchored : Anchored (run (step u x) .new attempts).2 := by
    intro now key status hmem hpaid
    obtain ⟨t, other, license, haccepted, hhash, hrest⟩ :=
      (kept_of_run hclock).anchored now key status hmem hpaid
    have hsame : other = key := hkeys _ haccepted _ hmem hhash
    exact ⟨t, license, hsame ▸ haccepted, hrest⟩
  constructor
  · rintro ⟨-, hkeeps⟩ p hp
    exact (keepsAcceptance_iff p.1 p.2).mp (hkeeps p hp)
  · intro hclear
    exact ⟨hanchored, fun p hp => (keepsAcceptance_iff p.1 p.2).mpr (hclear p hp)⟩

/-- The libraries on the one key and the one license below. -/
private def oneKey : Library where
  sha256Hex _ := "ea2233a8b702f67d5c4f8bdefdc10c3052a6f3113b242127f720f0cef5c88b6e".toList
  computeHmac _ _ _ _ := "a650adaf61da4f4ada7c2e4d6cbf53caec0eb132e97be0a36b1bc2462297abce".toList
  licenseJson _ :=
    ("\x7b\"created_at\":null,\"customer_email\":null,\"expires_at\":null," ++
      "\"gates\":\x7b\"curiosity_engine\":true,\"max_agents\":null," ++
      "\"memory_days\":null,\"multi_tenant\":true,\"priority_support\":true," ++
      "\"tribe_enabled\":true,\"white_label\":false\x7d," ++
      "\"key\":\"GYRE-A3F8-B2C9-D4E7-F3A2-B3C4\",\"seat_limit\":null," ++
      "\"seats_registered\":0,\"this_machine_registered\":false,\"tier\":\"pro\"," ++
      "\"validated_at\":1700000000\x7d").toList
  statusText _ := "200 OK".toList

private def ascii : Text.Unicode :=
  ⟨Char.isAlphanum, fun _ => true, List.map Char.toLower, List.map Char.toUpper⟩

/-- An hour on the clock, with every operation on the files successful. -/
private def hour (n : Nat) : Io :=
  ⟨"5f2c9a1e77b04d38".toList, 1700000000 + n * 3600, true, true, true, true, true, true⟩

private def proAnswer : Answer :=
  .answered 200 ⟨true, some "pro".toList, none, none, none, none, none⟩

private def check (n : Nat) (answer : Answer) : Attempt :=
  ⟨.validate "GYRE-A3F8-B2C9-D4E7-F3A2-B3C4".toList, hour n, answer⟩

theorem licence_anchored_offline :
    let attempts := [check 0 proAnswer, check 48 (.unsent "operation timed out".toList)]
    (Anchored (run (step ascii oneKey) .new attempts).2 ∧
        ∀ p ∈ visited (step ascii oneKey) .new attempts, KeepsAcceptance ascii oneKey p.1 p.2) ↔
      ∀ p ∈ visited (step ascii oneKey) .new attempts, ¬ MeetsUnclear ascii oneKey p.1 p.2 :=
  licence_anchored_iff ascii oneKey [check 0 proAnswer, check 48 (.unsent "operation timed out".toList)]
    (by decide +kernel) (by unfold KeysApart; decide +kernel)

/-- An hour after the server has accepted a key, a response that is not JSON makes the cache forget the
acceptance, and the key is called invalid. -/
theorem unread_body_forgets :
    let notJson := check 1 (.unread 200 "expected value at line 1 column 1".toList)
    let accepted := (run (step ascii oneKey) .new [check 0 proAnswer]).1
    CachedUnexpired oneKey notJson.io accepted ∧
      (run (step ascii oneKey) .new [check 0 proAnswer, notJson]).1.cache = none ∧
      ¬ KeepsAcceptance ascii oneKey accepted notJson := by
  intro notJson accepted
  have hcached : CachedUnexpired oneKey notJson.io accepted :=
    ⟨_, rfl, by decide +kernel, by decide +kernel⟩
  refine ⟨hcached, by decide +kernel, fun hkeeps => ?_⟩
  have hsame := hkeeps (by decide +kernel) rfl rfl hcached
  revert hsame
  decide +kernel

end Gyre.Licensing
