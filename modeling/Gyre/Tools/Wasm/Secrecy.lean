/- digest: Exactly when a guest cannot tell two stores apart that differ in their secrets. -/

import Gyre.Lib.Interaction
import Gyre.Tools.Wasm.Wrapper

/-!
A guest calls `http_request` again and again and chooses every call by the answers it has had. Two
stores differ only in the values of their credentials, and the outside answers both runs alike. The
texts of the early checks are built from the request with its credentials in and are not redacted.
-/

set_option autoImplicit false
set_option relaxedAutoImplicit false

namespace Gyre.Tools.Wasm

open Gyre.Lib Gyre.Safety

def ResolvedHostCredential.withoutSecret (c : ResolvedHostCredential) : ResolvedHostCredential where
  hostPatterns := c.hostPatterns
  headers := c.headers.map fun h => (h.1, [])
  queryParams := c.queryParams.map fun p => (p.1, [])
  secretValue := []

namespace StoreData

/-- The store with every secret value taken out. -/
def withoutSecrets (s : StoreData) : StoreData where
  hostState := s.hostState
  credentials := s.credentials.map fun c => (c.1, [])
  hostCredentials := s.hostCredentials.map ResolvedHostCredential.withoutSecret
  httpRuntime := s.httpRuntime

def SameExceptSecrets (s t : StoreData) : Prop := s.withoutSecrets = t.withoutSecrets

/-- The allowlist's verdict on the URL with its credentials in. -/
def allowlistCheck (lib : Libraries) (s : StoreData) (call : HttpCall) : Except (List Char) Unit :=
  s.hostState.checkHttpAllowed lib (s.injectCredentials call.url) call.method

/-- The leak scan's verdict on the request with its credentials in. -/
def leakCheck (lib : Libraries) (s : StoreData) (call : HttpCall) : Except (List Char) Unit :=
  let request := s.prepare lib call
  ((LeakDetector.new lib.unicode.isWord).scanHttpRequest request.2 request.1 call.body).mapError
    fun e => e.display.toList

/-- The verdict on the addresses behind the URL with its credentials in. -/
def addressCheck (lib : Libraries) (around : Surroundings) (s : StoreData) (call : HttpCall) :
    Except (List Char) Unit :=
  rejectPrivateIp lib around.resolve (s.prepare lib call).2

/-- What the client makes of the request with its credentials in. -/
def exchanged (lib : Libraries) (around : Surroundings) (s : StoreData) (call : HttpCall) :
    Except (List Char) HttpResponse :=
  let request := s.prepare lib call
  exchange lib around s.maxResponseBytes call request.2 request.1

/-- The text of the client's error, before it is redacted. -/
def clientError (lib : Libraries) (around : Surroundings) (s : StoreData) (call : HttpCall) :
    Option (List Char) :=
  match s.exchanged lib around call with
  | .error e => some e
  | .ok _ => none

def UnderLimit (s : StoreData) : Prop := s.hostState.recordHttpRequest.2 = .ok ()

def Admitted (lib : Libraries) (s : StoreData) (call : HttpCall) : Prop :=
  s.allowlistCheck lib call = .ok () ∧ s.UnderLimit

/-- The request is handed to the client. -/
def Reaches (lib : Libraries) (around : Surroundings) (s : StoreData) (call : HttpCall) : Prop :=
  s.Admitted lib call ∧ s.leakCheck lib call = .ok () ∧ s.addressCheck lib around call = .ok () ∧
    (s.httpRuntime = true ∨ around.runtimeError = none)

end StoreData

/-- The checks that a call gets to have the same verdicts on its two requests, and once redacted, the
client's errors read the same. -/
structure AnswersAlike (lib : Libraries) (around : Surroundings) (s t : StoreData)
    (call : HttpCall) : Prop where
  allowed : s.allowlistCheck lib call = t.allowlistCheck lib call
  scanned : s.Admitted lib call → s.leakCheck lib call = t.leakCheck lib call
  directed : s.Admitted lib call → s.leakCheck lib call = .ok () →
    s.addressCheck lib around call = t.addressCheck lib around call
  redacted : s.Reaches lib around call →
    (s.clientError lib around call).map s.redactCredentials =
      (t.clientError lib around call).map t.redactCredentials

section Stages

variable (lib : Libraries) (around : Surroundings) (s : StoreData) (call : HttpCall)

/-- The state in which a counted request goes on. -/
def StoreData.counted : StoreData := { s with hostState := s.hostState.recordHttpRequest.1 }

theorem recordHttpRequest_capabilities (h : HostState) :
    h.recordHttpRequest.1.capabilities = h.capabilities := by
  unfold HostState.recordHttpRequest
  split
  · rfl
  · simp only []
    split <;> rfl

private theorem counted_exchanged :
    s.counted.exchanged lib around call = s.exchanged lib around call := by
  have hlimit : s.counted.maxResponseBytes = s.maxResponseBytes := by
    unfold StoreData.maxResponseBytes StoreData.counted
    rw [recordHttpRequest_capabilities]
  unfold StoreData.exchanged
  rw [hlimit]
  rfl

/-- `http_request` by the verdicts of its checks. -/
theorem httpRequest_eq :
    s.httpRequest lib around call =
      match s.allowlistCheck lib call with
      | .error e => (s, .error ("HTTP not allowed: ".toList ++ e))
      | .ok _ =>
        match s.hostState.recordHttpRequest.2 with
        | .error e => (s.counted, .error ("Rate limit exceeded: ".toList ++ e))
        | .ok _ =>
          match s.leakCheck lib call with
          | .error e => (s.counted, .error ("Potential secret leak blocked: ".toList ++ e))
          | .ok _ =>
            match s.addressCheck lib around call with
            | .error e => (s.counted, .error e)
            | .ok _ =>
              match if s.httpRuntime then none else around.runtimeError with
              | some e => (s.counted, .error ("Failed to create HTTP runtime: ".toList ++ e))
              | none =>
                ({ s.counted with httpRuntime := true },
                  (s.exchanged lib around call).mapError s.redactCredentials) := by
  rw [← counted_exchanged]
  unfold StoreData.httpRequest StoreData.allowlistCheck
  dsimp only
  cases s.hostState.checkHttpAllowed lib (s.injectCredentials call.url) call.method with
  | error e => rfl
  | ok u =>
    dsimp only
    cases s.hostState.recordHttpRequest.2 with
    | error e => rfl
    | ok u =>
      have hprepare : StoreData.prepare lib { s with hostState := s.hostState.recordHttpRequest.1 }
          call = s.prepare lib call := rfl
      unfold StoreData.leakCheck
      dsimp only
      rw [hprepare]
      cases (LeakDetector.new lib.unicode.isWord).scanHttpRequest (s.prepare lib call).2
          (s.prepare lib call).1 call.body with
      | error e => rfl
      | ok u => rfl

end Stages

section Fronts

/-- How the client's errors begin. -/
def clientFronts : List (List Char) :=
  ["Failed to build HTTP client: ".toList, "Unsupported HTTP method: ".toList,
    "HTTP request failed: ".toList, "Response body too large: ".toList,
    "Failed to read response body: ".toList, "Potential secret leak in response: ".toList]

/-- How the errors of the address check begin. -/
def addressFronts : List (List Char) :=
  ["Failed to parse URL: ".toList, "Unsupported URL scheme: ".toList,
    "URL contains userinfo (@) which is not allowed".toList, "Failed to parse host from URL".toList,
    "HTTP request to private/internal IP ".toList, "DNS resolution failed for ".toList,
    "DNS resolution returned no addresses for ".toList, "DNS rebinding detected: ".toList]

/-- An error begins with one of some texts, up to a redaction in it. -/
def Opens (fronts : List (List Char)) (answer : Except (List Char) HttpResponse) : Prop :=
  ∀ text, answer = .error text → ∃ front ∈ fronts, Text.BeginsOrMarked '[' front text

variable {lib : Libraries} {around : Surroundings} {s t : StoreData} {call : HttpCall}

private theorem opens_error {fronts : List (List Char)} {front text : List Char}
    (hfront : front ∈ fronts) : Opens fronts (.error (front ++ text)) := by
  intro text' h
  obtain rfl := Except.error.inj h
  exact ⟨front, hfront, .inl (List.prefix_append _ _)⟩

private theorem opens_ok {fronts : List (List Char)} {r : HttpResponse} : Opens fronts (.ok r) := by
  intro text h
  cases h

private theorem Opens.mono {fronts more : List (List Char)} {answer : Except (List Char) HttpResponse}
    (h : Opens fronts answer) (hsub : fronts ⊆ more) : Opens more answer := by
  intro text htext
  obtain ⟨front, hfront, hbegins⟩ := h text htext
  exact ⟨front, hsub hfront, hbegins⟩

/-- An error that begins in another way is not the answer. -/
private theorem Opens.ne {fronts : List (List Char)} {answer : Except (List Char) HttpResponse}
    {other text : List Char} (h : Opens fronts answer) (hother : other <+: text)
    (hunmarked : '[' ∉ other) (hapart : ∀ front ∈ fronts, ¬ front <+: other ∧ ¬ other <+: front) :
    answer ≠ .error text := by
  intro hanswer
  obtain ⟨front, hfront, hbegins⟩ := h text hanswer
  obtain ⟨hleft, hright⟩ := hapart front hfront
  exact Text.beginsOrMarked_ne hbegins hother hunmarked hleft hright rfl

/-- Redaction shows where it first changed a text. -/
private theorem redact_beginsOrMarked {front text : List Char}
    (h : Text.BeginsOrMarked '[' front text) :
    Text.BeginsOrMarked '[' front (s.redactCredentials text) := by
  unfold StoreData.redactCredentials
  refine List.foldlRecOn s.hostCredentials _ ?_ ?_
  · refine List.foldlRecOn s.credentials _ h ?_
    intro result hresult credential _
    split
    · exact hresult
    · exact Text.replace_beginsOrMarked hresult
  · intro result hresult credential _
    split
    · exact hresult
    · exact Text.replace_beginsOrMarked hresult

private theorem Opens.redacted {fronts : List (List Char)}
    {answer : Except (List Char) HttpResponse} (h : Opens fronts answer) :
    Opens fronts (answer.mapError s.redactCredentials) := by
  intro text htext
  cases answer with
  | ok r => cases htext
  | error e =>
    obtain rfl := Except.error.inj htext
    obtain ⟨front, hfront, hbegins⟩ := h e rfl
    exact ⟨front, hfront, redact_beginsOrMarked hbegins⟩

private theorem receive_opens {maxResponse : Nat} {request : Request} {r : Response} :
    Opens clientFronts (receive lib maxResponse request r) := by
  unfold receive tooLarge
  simp only [List.append_assoc]
  split
  · exact opens_error (List.mem_of_getElem? (i := 3) rfl)
  · split
    · exact opens_error (List.mem_of_getElem? (i := 4) rfl)
    · split
      · exact opens_error (List.mem_of_getElem? (i := 3) rfl)
      · split
        · exact opens_ok
        · split
          · exact opens_error (List.mem_of_getElem? (i := 5) rfl)
          · exact opens_ok

private theorem exchange_opens {maxResponse : Nat} {url : List Char}
    {headers : List (String × List Char)} :
    Opens clientFronts (exchange lib around maxResponse call url headers) := by
  unfold exchange SendError.display
  simp only [List.append_assoc]
  split
  · exact opens_error (List.mem_of_getElem? (i := 0) rfl)
  · split
    · exact opens_error (List.mem_of_getElem? (i := 1) rfl)
    · split
      · exact opens_error (List.mem_of_getElem? (i := 2) rfl)
      · split
        · exact opens_error (List.mem_of_getElem? (i := 2) rfl)
        · exact receive_opens

/-- A complaint begins with one of some texts. -/
def Complains (fronts : List (List Char)) (verdict : Except (List Char) Unit) : Prop :=
  ∀ text, verdict = .error text → ∃ front ∈ fronts, front <+: text

private theorem complains_error {fronts : List (List Char)} {front text : List Char}
    (hfront : front ∈ fronts) : Complains fronts (.error (front ++ text)) := by
  intro text' h
  obtain rfl := Except.error.inj h
  exact ⟨front, hfront, List.prefix_append _ _⟩

private theorem complains_front {fronts : List (List Char)} {front : List Char}
    (hfront : front ∈ fronts) : Complains fronts (.error front) := by
  intro text' h
  obtain rfl := Except.error.inj h
  exact ⟨front, hfront, List.prefix_rfl⟩

private theorem complains_ok {fronts : List (List Char)} : Complains fronts (.ok ()) := by
  intro text h
  cases h

private theorem rejectResolved_complains {host : List Char}
    {resolved : Except (List Char) (List IpAddr)} :
    Complains addressFronts (rejectResolved host resolved) := by
  unfold rejectResolved
  simp only [List.append_assoc]
  split
  · exact complains_error (List.mem_of_getElem? (i := 5) rfl)
  · split
    · exact complains_error (List.mem_of_getElem? (i := 6) rfl)
    · split
      · exact complains_error (List.mem_of_getElem? (i := 7) rfl)
      · exact complains_ok

private theorem addressCheck_complains :
    Complains addressFronts (s.addressCheck lib around call) := by
  unfold StoreData.addressCheck rejectPrivateIp
  simp only [List.append_assoc]
  split
  · exact complains_error (List.mem_of_getElem? (i := 0) rfl)
  · split
    · exact complains_error (List.mem_of_getElem? (i := 1) rfl)
    · split
      · exact complains_front (List.mem_of_getElem? (i := 2) rfl)
      · split
        · exact complains_front (List.mem_of_getElem? (i := 3) rfl)
        · split
          · split
            · exact complains_error (List.mem_of_getElem? (i := 4) rfl)
            · exact complains_ok
          · exact rejectResolved_complains

/-- How the errors of a request begin that passed the address check, the leak scan, the limit, and
the allowlist. -/
def routedFronts : List (List Char) := "Failed to create HTTP runtime: ".toList :: clientFronts

def scannedFronts : List (List Char) := addressFronts ++ routedFronts

def admittedFronts : List (List Char) := "Potential secret leak blocked: ".toList :: scannedFronts

def allowedFronts : List (List Char) := "Rate limit exceeded: ".toList :: admittedFronts

private theorem routed_opens (hadmitted : s.Admitted lib call)
    (hleak : s.leakCheck lib call = .ok ()) (hto : s.addressCheck lib around call = .ok ()) :
    Opens routedFronts (s.httpRequest lib around call).2 := by
  obtain ⟨hallowed, hlimit⟩ := hadmitted
  unfold StoreData.UnderLimit at hlimit
  rw [httpRequest_eq]
  simp only [hallowed, hlimit, hleak, hto]
  split
  · exact opens_error List.mem_cons_self
  · exact (exchange_opens.redacted).mono (List.subset_cons_self _ _)

private theorem scanned_opens (hadmitted : s.Admitted lib call)
    (hleak : s.leakCheck lib call = .ok ()) :
    Opens scannedFronts (s.httpRequest lib around call).2 := by
  cases hto : s.addressCheck lib around call with
  | ok u => exact (routed_opens hadmitted hleak hto).mono (List.subset_append_right _ _)
  | error e =>
    obtain ⟨hallowed, hlimit⟩ := hadmitted
    unfold StoreData.UnderLimit at hlimit
    rw [httpRequest_eq]
    simp only [hallowed, hlimit, hleak, hto]
    intro text htext
    obtain rfl := Except.error.inj htext
    obtain ⟨front, hfront, hbegins⟩ := addressCheck_complains e hto
    exact ⟨front, List.mem_append_left _ hfront, .inl hbegins⟩

private theorem admitted_opens (hadmitted : s.Admitted lib call) :
    Opens admittedFronts (s.httpRequest lib around call).2 := by
  cases hleak : s.leakCheck lib call with
  | ok u => exact (scanned_opens hadmitted hleak).mono (List.subset_cons_self _ _)
  | error e =>
    obtain ⟨hallowed, hlimit⟩ := hadmitted
    unfold StoreData.UnderLimit at hlimit
    rw [httpRequest_eq]
    simp only [hallowed, hlimit, hleak]
    exact opens_error List.mem_cons_self

private theorem allowed_opens (hallowed : s.allowlistCheck lib call = .ok ()) :
    Opens allowedFronts (s.httpRequest lib around call).2 := by
  cases hlimit : s.hostState.recordHttpRequest.2 with
  | ok u => exact (admitted_opens ⟨hallowed, hlimit⟩).mono (List.subset_cons_self _ _)
  | error e =>
    rw [httpRequest_eq]
    simp only [hallowed, hlimit]
    exact opens_error List.mem_cons_self

private theorem fronts_apart :
    (∀ other ∈ addressFronts,
      '[' ∉ other ∧ ∀ front ∈ routedFronts, ¬ front <+: other ∧ ¬ other <+: front) ∧
    (∀ other ∈ ["Potential secret leak blocked: ".toList, "HTTP not allowed: ".toList],
      '[' ∉ other ∧ ∀ front ∈ scannedFronts, ¬ front <+: other ∧ ¬ other <+: front) ∧
    ∀ front ∈ ["Rate limit exceeded: ".toList, "Potential secret leak blocked: ".toList],
      ¬ front <+: "HTTP not allowed: ".toList ∧ ¬ "HTTP not allowed: ".toList <+: front := by
  have haddress : addressFronts = _ :=
    Text.cons_toList_of_eq rfl <| Text.cons_toList_of_eq rfl <| Text.cons_toList_of_eq rfl <|
      Text.cons_toList_of_eq rfl <| Text.cons_toList_of_eq rfl <| Text.cons_toList_of_eq rfl <|
        Text.cons_toList_of_eq rfl <| Text.cons_toList_of_eq rfl rfl
  have hrouted : routedFronts = _ :=
    Text.cons_toList_of_eq rfl <| Text.cons_toList_of_eq rfl <| Text.cons_toList_of_eq rfl <|
      Text.cons_toList_of_eq rfl <| Text.cons_toList_of_eq rfl <| Text.cons_toList_of_eq rfl <|
        Text.cons_toList_of_eq rfl rfl
  rw [scannedFronts, haddress, hrouted, Text.toList_of_eq (s := "Rate limit exceeded: ") rfl,
    Text.toList_of_eq (s := "Potential secret leak blocked: ") rfl, Text.toList_of_eq (s := "HTTP not allowed: ") rfl]
  decide

private theorem allowed_not_denied (hallowed : s.allowlistCheck lib call = .ok ())
    (e : List Char) : (s.httpRequest lib around call).2 ≠ .error ("HTTP not allowed: ".toList ++ e) := by
  obtain ⟨-, hscanned, hfirst⟩ := fronts_apart
  obtain ⟨hunmarked, hapart⟩ := hscanned _ (List.mem_of_getElem? (i := 1) rfl)
  refine (allowed_opens hallowed).ne (List.prefix_append _ _) hunmarked ?_
  intro front hfront
  rcases List.mem_cons.mp hfront with rfl | hfront
  · exact hfirst _ (List.mem_of_getElem? (i := 0) rfl)
  · rcases List.mem_cons.mp hfront with rfl | hfront
    · exact hfirst _ (List.mem_of_getElem? (i := 1) rfl)
    · exact hapart front hfront

private theorem scanned_not_leaking (hadmitted : s.Admitted lib call)
    (hleak : s.leakCheck lib call = .ok ()) (e : List Char) :
    (s.httpRequest lib around call).2 ≠ .error ("Potential secret leak blocked: ".toList ++ e) := by
  obtain ⟨hunmarked, hapart⟩ := fronts_apart.2.1 _ (List.mem_of_getElem? (i := 0) rfl)
  exact (scanned_opens hadmitted hleak).ne (List.prefix_append _ _) hunmarked hapart

private theorem routed_not_misdirected (hadmitted : s.Admitted lib call)
    (hleak : s.leakCheck lib call = .ok ()) (hto : s.addressCheck lib around call = .ok ())
    {e : List Char} (he : t.addressCheck lib around call = .error e) :
    (s.httpRequest lib around call).2 ≠ .error e := by
  obtain ⟨other, hother, hbegins⟩ := addressCheck_complains e he
  obtain ⟨hunmarked, hapart⟩ := fronts_apart.1 other hother
  exact (routed_opens hadmitted hleak hto).ne hbegins hunmarked hapart

end Fronts

section TwoStores

variable {lib : Libraries} {around : Surroundings} {s t : StoreData} {call : HttpCall}

private theorem answer_denied {e : List Char} (h : s.allowlistCheck lib call = .error e) :
    s.httpRequest lib around call = (s, .error ("HTTP not allowed: ".toList ++ e)) := by
  rw [httpRequest_eq, h]

private theorem answer_limited {e : List Char} (h : s.allowlistCheck lib call = .ok ())
    (hlimit : s.hostState.recordHttpRequest.2 = .error e) :
    s.httpRequest lib around call =
      (s.counted, .error ("Rate limit exceeded: ".toList ++ e)) := by
  rw [httpRequest_eq, h]
  simp only [hlimit]

private theorem answer_leaking {e : List Char} (h : s.Admitted lib call)
    (hleak : s.leakCheck lib call = .error e) :
    s.httpRequest lib around call =
      (s.counted, .error ("Potential secret leak blocked: ".toList ++ e)) := by
  obtain ⟨hallowed, hlimit⟩ := h
  unfold StoreData.UnderLimit at hlimit
  rw [httpRequest_eq, hallowed]
  simp only [hlimit, hleak]

private theorem answer_misdirected {e : List Char} (h : s.Admitted lib call)
    (hleak : s.leakCheck lib call = .ok ()) (hto : s.addressCheck lib around call = .error e) :
    s.httpRequest lib around call = (s.counted, .error e) := by
  obtain ⟨hallowed, hlimit⟩ := h
  unfold StoreData.UnderLimit at hlimit
  rw [httpRequest_eq, hallowed]
  simp only [hlimit, hleak, hto]

private theorem answer_unstarted {e : List Char} (h : s.Admitted lib call)
    (hleak : s.leakCheck lib call = .ok ()) (hto : s.addressCheck lib around call = .ok ())
    (hruntime : (if s.httpRuntime then none else around.runtimeError) = some e) :
    s.httpRequest lib around call =
      (s.counted, .error ("Failed to create HTTP runtime: ".toList ++ e)) := by
  obtain ⟨hallowed, hlimit⟩ := h
  unfold StoreData.UnderLimit at hlimit
  rw [httpRequest_eq, hallowed]
  simp only [hlimit, hleak, hto, hruntime]

private theorem started_iff :
    (if s.httpRuntime then none else around.runtimeError) = none ↔
      s.httpRuntime = true ∨ around.runtimeError = none := by
  cases s.httpRuntime <;> simp

private theorem answer_reaching (h : s.Reaches lib around call) :
    s.httpRequest lib around call =
      ({ s.counted with httpRuntime := true },
        (s.exchanged lib around call).mapError s.redactCredentials) := by
  obtain ⟨⟨hallowed, hlimit⟩, hleak, hto, hruntime⟩ := h
  unfold StoreData.UnderLimit at hlimit
  rw [httpRequest_eq, hallowed]
  simp only [hlimit, hleak, hto, started_iff.mpr hruntime]

private theorem verdicts_agree {a b : Except (List Char) Unit}
    (hab : ∀ e, a = .error e → b = .error e) (hba : ∀ e, b = .error e → a = .error e) : a = b := by
  cases a with
  | error e => exact (hab e rfl).symm
  | ok u =>
    cases b with
    | error e => exact hba e rfl
    | ok v => rfl

private theorem denial_transfers
    (h : (s.httpRequest lib around call).2 = (t.httpRequest lib around call).2) {e : List Char}
    (hs : s.allowlistCheck lib call = .error e) : t.allowlistCheck lib call = .error e := by
  rw [answer_denied hs] at h
  cases ht : t.allowlistCheck lib call with
  | ok u => exact absurd h.symm (allowed_not_denied ht e)
  | error e' =>
    rw [answer_denied ht] at h
    rw [List.append_cancel_left (Except.error.inj h)]

private theorem leak_transfers
    (h : (s.httpRequest lib around call).2 = (t.httpRequest lib around call).2) {e : List Char}
    (hs : s.Admitted lib call) (ht : t.Admitted lib call) (hleak : s.leakCheck lib call = .error e) :
    t.leakCheck lib call = .error e := by
  rw [answer_leaking hs hleak] at h
  cases hleak' : t.leakCheck lib call with
  | ok u => exact absurd h.symm (scanned_not_leaking ht hleak' e)
  | error e' =>
    rw [answer_leaking ht hleak'] at h
    rw [List.append_cancel_left (Except.error.inj h)]

private theorem misdirection_transfers
    (h : (s.httpRequest lib around call).2 = (t.httpRequest lib around call).2) {e : List Char}
    (hs : s.Admitted lib call) (ht : t.Admitted lib call) (hleak : s.leakCheck lib call = .ok ())
    (hleak' : t.leakCheck lib call = .ok ()) (hto : s.addressCheck lib around call = .error e) :
    t.addressCheck lib around call = .error e := by
  have hanswer := h
  rw [answer_misdirected hs hleak hto] at hanswer
  cases hto' : t.addressCheck lib around call with
  | ok u => exact absurd hanswer.symm (routed_not_misdirected ht hleak' hto' hto)
  | error e' =>
    rw [answer_misdirected ht hleak' hto'] at hanswer
    rw [Except.error.inj hanswer]

private theorem receive_ok {maxResponse : Nat} {request : Request} {response : Response}
    {r : HttpResponse} (h : receive lib maxResponse request response = .ok r) :
    ∃ body, response.body = .ok body ∧
      r = ⟨response.status, lib.showHeaders (response.headers.filterMap fun h =>
        h.2.map fun v => (h.1, v)), body⟩ := by
  unfold receive at h
  simp only [] at h
  split at h
  · cases h
  · split at h
    · cases h
    · next body hbody =>
      refine ⟨body, hbody, ?_⟩
      split at h
      · cases h
      · split at h
        · exact (Except.ok.inj h).symm
        · split at h
          · cases h
          · exact (Except.ok.inj h).symm

private theorem receive_ok_same {maxResponse : Nat} {request request' : Request}
    {response : Response} {r r' : HttpResponse}
    (h : receive lib maxResponse request response = .ok r)
    (h' : receive lib maxResponse request' response = .ok r') : r = r' := by
  obtain ⟨body, hbody, rfl⟩ := receive_ok h
  obtain ⟨body', hbody', rfl⟩ := receive_ok h'
  obtain rfl := Except.ok.inj (hbody.symm.trans hbody')
  rfl

/-- What a guest gets back from a request that worked depends on the response alone. -/
theorem exchange_ok_same {maxResponse : Nat} {url url' : List Char}
    {headers headers' : List (String × List Char)} {r r' : HttpResponse}
    (h : exchange lib around maxResponse call url headers = .ok r)
    (h' : exchange lib around maxResponse call url' headers' = .ok r') : r = r' := by
  unfold exchange at h h'
  cases hclient : around.clientError with
  | some e => simp [hclient] at h
  | none =>
    simp only [hclient] at h h'
    split at h
    · cases h
    · next hmethod =>
      rw [if_neg hmethod] at h'
      split at h
      · cases h
      · split at h'
        · cases h'
        · cases hreply : around.reply with
          | failure describe => simp [hreply] at h
          | response response =>
            simp only [hreply] at h h'
            exact receive_ok_same h h'

private theorem same_hostState (h : s.SameExceptSecrets t) : s.hostState = t.hostState := by
  have hpublic : s.withoutSecrets = t.withoutSecrets := h
  have hstate := congrArg StoreData.hostState hpublic
  exact hstate

private theorem same_httpRuntime (h : s.SameExceptSecrets t) : s.httpRuntime = t.httpRuntime := by
  have hpublic : s.withoutSecrets = t.withoutSecrets := h
  have hruntime := congrArg StoreData.httpRuntime hpublic
  exact hruntime

private theorem same_counted (h : s.SameExceptSecrets t) : s.counted.SameExceptSecrets t.counted := by
  have hpublic : s.withoutSecrets = t.withoutSecrets := h
  exact congrArg StoreData.counted hpublic

private theorem same_started (h : s.SameExceptSecrets t) :
    ({ s with httpRuntime := true } : StoreData).SameExceptSecrets { t with httpRuntime := true } := by
  have hpublic : s.withoutSecrets = t.withoutSecrets := h
  exact congrArg (fun r : StoreData => { r with httpRuntime := true }) hpublic

private theorem admitted_iff (h : s.SameExceptSecrets t)
    (hallowed : s.allowlistCheck lib call = t.allowlistCheck lib call) :
    s.Admitted lib call ↔ t.Admitted lib call := by
  unfold StoreData.Admitted StoreData.UnderLimit
  rw [hallowed, same_hostState h]

private theorem exchanged_agree (h : s.SameExceptSecrets t)
    (herror : (s.clientError lib around call).map s.redactCredentials =
      (t.clientError lib around call).map t.redactCredentials) :
    (s.exchanged lib around call).mapError s.redactCredentials =
      (t.exchanged lib around call).mapError t.redactCredentials := by
  have hlimit : s.maxResponseBytes = t.maxResponseBytes := by
    unfold StoreData.maxResponseBytes
    rw [same_hostState h]
  unfold StoreData.clientError at herror
  cases hs : s.exchanged lib around call with
  | error e =>
    cases ht : t.exchanged lib around call with
    | error e' =>
      rw [hs, ht] at herror
      exact congrArg Except.error (Option.some.inj herror)
    | ok r =>
      rw [hs, ht] at herror
      cases herror
  | ok r =>
    cases ht : t.exchanged lib around call with
    | error e =>
      rw [hs, ht] at herror
      cases herror
    | ok r' =>
      unfold StoreData.exchanged at hs ht
      rw [← hlimit] at ht
      exact congrArg Except.ok (exchange_ok_same hs ht)

/-- Two calls that are answered alike leave stores that still differ in their secrets only. -/
theorem alike_round (h : s.SameExceptSecrets t) (alike : AnswersAlike lib around s t call) :
    (s.httpRequest lib around call).2 = (t.httpRequest lib around call).2 ∧
      (s.httpRequest lib around call).1.SameExceptSecrets (t.httpRequest lib around call).1 := by
  cases hs : s.allowlistCheck lib call with
  | error e =>
    rw [answer_denied hs, answer_denied (alike.allowed ▸ hs)]
    exact ⟨rfl, h⟩
  | ok u =>
    cases hlimit : s.hostState.recordHttpRequest.2 with
    | error e =>
      have ht : t.allowlistCheck lib call = .ok () := alike.allowed ▸ hs
      have hlimit' : t.hostState.recordHttpRequest.2 = .error e := same_hostState h ▸ hlimit
      rw [answer_limited hs hlimit, answer_limited ht hlimit']
      exact ⟨rfl, same_counted h⟩
    | ok u =>
      have hadmitted : s.Admitted lib call := ⟨hs, hlimit⟩
      have hadmitted' := (admitted_iff h alike.allowed).mp hadmitted
      cases hleak : s.leakCheck lib call with
      | error e =>
        rw [answer_leaking hadmitted hleak,
          answer_leaking hadmitted' (alike.scanned hadmitted ▸ hleak)]
        exact ⟨rfl, same_counted h⟩
      | ok u =>
        have hleak' : t.leakCheck lib call = .ok () := alike.scanned hadmitted ▸ hleak
        cases hto : s.addressCheck lib around call with
        | error e =>
          rw [answer_misdirected hadmitted hleak hto,
            answer_misdirected hadmitted' hleak' (alike.directed hadmitted hleak ▸ hto)]
          exact ⟨rfl, same_counted h⟩
        | ok u =>
          have hto' : t.addressCheck lib around call = .ok () := alike.directed hadmitted hleak ▸ hto
          cases hruntime : if s.httpRuntime then none else around.runtimeError with
          | some e =>
            have hruntime' := hruntime
            rw [same_httpRuntime h] at hruntime'
            rw [answer_unstarted hadmitted hleak hto hruntime,
              answer_unstarted hadmitted' hleak' hto' hruntime']
            exact ⟨rfl, same_counted h⟩
          | none =>
            have hreach : s.Reaches lib around call :=
              ⟨hadmitted, hleak, hto, started_iff.mp hruntime⟩
            have hreach' : t.Reaches lib around call :=
              ⟨hadmitted', hleak', hto', same_httpRuntime h ▸ started_iff.mp hruntime⟩
            rw [answer_reaching hreach, answer_reaching hreach']
            exact ⟨exchanged_agree h (alike.redacted hreach), same_started (same_counted h)⟩

/-- Two stores with the same public part answer a call in the same way exactly when its two requests
fare alike. -/
theorem answers_same_iff (h : s.SameExceptSecrets t) :
    (s.httpRequest lib around call).2 = (t.httpRequest lib around call).2 ↔
      AnswersAlike lib around s t call := by
  constructor
  · intro hsame
    have hallowed : s.allowlistCheck lib call = t.allowlistCheck lib call :=
      verdicts_agree (fun _ => denial_transfers hsame) (fun _ => denial_transfers hsame.symm)
    have hadmitted := admitted_iff h hallowed
    have hscanned : s.Admitted lib call → s.leakCheck lib call = t.leakCheck lib call := fun hs =>
      verdicts_agree (fun _ => leak_transfers hsame hs (hadmitted.mp hs))
        (fun _ => leak_transfers hsame.symm (hadmitted.mp hs) hs)
    have hdirected : s.Admitted lib call → s.leakCheck lib call = .ok () →
        s.addressCheck lib around call = t.addressCheck lib around call := by
      intro hs hleak
      have hleak' : t.leakCheck lib call = .ok () := hscanned hs ▸ hleak
      exact verdicts_agree
        (fun _ => misdirection_transfers hsame hs (hadmitted.mp hs) hleak hleak')
        (fun _ => misdirection_transfers hsame.symm (hadmitted.mp hs) hs hleak' hleak)
    refine ⟨hallowed, hscanned, hdirected, ?_⟩
    rintro hreach
    obtain ⟨hs, hleak, hto, hruntime⟩ := hreach
    have hreach' : t.Reaches lib around call :=
      ⟨hadmitted.mp hs, hscanned hs ▸ hleak, hdirected hs hleak ▸ hto,
        same_httpRuntime h ▸ hruntime⟩
    rw [answer_reaching ⟨hs, hleak, hto, hruntime⟩, answer_reaching hreach'] at hsame
    unfold StoreData.clientError
    cases hex : s.exchanged lib around call with
    | error e =>
      cases hex' : t.exchanged lib around call with
      | error e' =>
        rw [hex, hex'] at hsame
        exact congrArg some (Except.error.inj hsame)
      | ok r =>
        rw [hex, hex'] at hsame
        cases hsame
    | ok r =>
      cases hex' : t.exchanged lib around call with
      | error e =>
        rw [hex, hex'] at hsame
        cases hsame
      | ok r' => rfl
  · intro alike
    exact (alike_round h alike).1

end TwoStores

section Guests

/-- What a guest observes of a call: its answer and the log. -/
abbrev Observation := Except (List Char) HttpResponse × List LogEntry

/-- A guest's next call by what it has observed. -/
abbrev Guest := List Observation → HttpCall

/-- A call of the guest, in the surroundings of its round. -/
def guestCall (lib : Libraries) (around : Nat → Surroundings) (round : Nat) (s : StoreData)
    (call : HttpCall) : StoreData × Observation :=
  let r := s.httpRequest lib (around round) call
  (r.1, r.2, r.1.hostState.logs)

/-- The store and the observations after a number of calls. -/
def guestRun (lib : Libraries) (around : Nat → Surroundings) (guest : Guest) (s : StoreData)
    (n : Nat) : StoreData × List Observation :=
  interact (guestCall lib around) guest s n

/-- `http_request` writes no log entries. -/
theorem httpRequest_logs (lib : Libraries) (around : Surroundings) (s : StoreData)
    (call : HttpCall) : (s.httpRequest lib around call).1.hostState.logs = s.hostState.logs := by
  have hcounted : s.counted.hostState.logs = s.hostState.logs := by
    unfold StoreData.counted HostState.recordHttpRequest
    split
    · rfl
    · simp only []
      split <;> rfl
  rw [httpRequest_eq]
  repeat' split
  all_goals first | rfl | exact hcounted

/-- Credentials that go into headers only leave the first and the last of the checks alone. -/
theorem checks_alike_of_public_url {lib : Libraries} {around : Surroundings} {s t : StoreData}
    {call : HttpCall} (h : s.SameExceptSecrets t)
    (hinjected : s.injectCredentials call.url = t.injectCredentials call.url)
    (hprepared : (s.prepare lib call).2 = (t.prepare lib call).2) :
    s.allowlistCheck lib call = t.allowlistCheck lib call ∧
      s.addressCheck lib around call = t.addressCheck lib around call := by
  constructor
  · unfold StoreData.allowlistCheck
    rw [same_hostState h, hinjected]
  · unfold StoreData.addressCheck
    rw [hprepared]

end Guests

section SecretInDenial

/-- The tables of the standard library on ASCII. -/
def asciiTables : Text.Unicode where
  isWord c := isAlnum c || c == '_'
  isPrintable c := 32 ≤ c.toNat && c.toNat < 127
  lowercase s := s.map Char.toLower
  uppercase s := s.map Char.toUpper

/-- A parser for URLs that are a scheme, a host name and a plain path. -/
def plainUrl (url : List Char) : Except (List Char) Url :=
  match Text.splitFirst "://".toList url with
  | none => .error "relative URL without a base".toList
  | some (scheme, rest) =>
    .ok ⟨scheme, [], none, some (rest.takeWhile (· != '/')), rest.dropWhile (· != '/')⟩

def plainLibraries : Libraries where
  unicode := asciiTables
  parseUrl := plainUrl
  parseHeaders _ := some []
  showHeaders _ := "\x7b\x7d".toList
  refuses _ := none

def respondingServer : Surroundings where
  resolve _ := .ok [.v4 #v[93, 184, 216, 34]]
  runtimeError := none
  clientError := none
  reply := .response ⟨200, [], none, .ok []⟩

/-- A store with one credential, for a tool that may reach one part of one host. -/
def tokenStore (token : List Char) : StoreData where
  hostState := ⟨[], ⟨some ⟨[⟨"api.example.com".toList, some "/v1/".toList, []⟩], 1024⟩⟩, 0⟩
  credentials := [("API_TOKEN", token)]
  hostCredentials := []
  httpRuntime := false

/-- Asks for a URL outside of that part, with the placeholder of the credential in it. -/
def probingGuest : Guest := fun _ =>
  ⟨"GET".toList, "https://api.example.com/\x7bAPI_TOKEN\x7d".toList, "\x7b\x7d".toList, none, none⟩

end SecretInDenial

end Gyre.Tools.Wasm
