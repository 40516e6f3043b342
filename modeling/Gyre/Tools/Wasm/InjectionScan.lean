/- digest: When the outbound leak scan judges what the guest wrote, and not what the host put in. -/

import Gyre.Tools.Wasm.Secrecy

/-!
The scan comes after the credentials, so that it reads the URL and the header values as they are sent. A
credential of a kind that the detector knows is held against the guest; a secret of the guest counts only
where it still stands in plain sight.
-/

set_option autoImplicit false
set_option relaxedAutoImplicit false

namespace Gyre.Tools.Wasm

open Gyre.Lib Gyre.Safety

def Blocks (d : LeakDetector) (text : List Char) : Prop := (d.scan text).shouldBlock = true

/-- The headers that the guest supplies. -/
def HttpCall.headers (lib : Libraries) (call : HttpCall) : List (String × List Char) :=
  (lib.parseHeaders call.headersJson).getD []

def HttpCall.BodyBlocks (d : LeakDetector) (call : HttpCall) : Prop :=
  ∃ bytes, call.body = some bytes ∧ Blocks d (Bytes.fromUtf8Lossy bytes)

section Parts

variable (lib : Libraries) (d : LeakDetector) (decode : List Char → List (List Char)) (s : StoreData)
  (call : HttpCall)

/-- The guest has put a secret into the URL, as it is or as the server decodes it, or into the name or the
value of a header. -/
def HttpCall.HeadBlocks : Prop :=
  (∃ text ∈ call.url :: decode call.url, Blocks d text) ∨
    ∃ h ∈ call.headers lib, Blocks d h.1.toList ∨ Blocks d h.2

/-- The guest has put a secret into the request. -/
def HttpCall.GuestBlocks : Prop := call.HeadBlocks lib d decode ∨ call.BodyBlocks d

/-- The URL or a header value, with the credentials in, has a secret in plain sight. -/
def StoreData.SentBlocks : Prop :=
  Blocks d (s.prepare lib call).2 ∨ ∃ h ∈ (s.prepare lib call).1, Blocks d h.2

/-- Among the requests that are allowed, the scan rejects those with a secret of the guest, and no
others. -/
structure ScanComposes : Prop where
  lets : s.Admitted lib call → ¬ call.GuestBlocks lib (.new lib.unicode.isWord) decode →
    s.leakCheck lib call = .ok ()
  rejects : s.Admitted lib call → call.GuestBlocks lib (.new lib.unicode.isWord) decode →
    ∃ e, s.leakCheck lib call = .error e

/-- Credentials add no secret to a clean request, and a secret of the guest stays in plain sight. -/
structure CredentialsNeutral : Prop where
  added : ¬ call.GuestBlocks lib d decode → ¬ s.SentBlocks lib d call
  kept : call.HeadBlocks lib d decode → ¬ call.BodyBlocks d → s.SentBlocks lib d call

end Parts

section Scan

variable {d : LeakDetector}

private theorem scanAndClean_error_iff {text : List Char} :
    (∃ e, d.scanAndClean text = .error e) ↔ Blocks d text := by
  unfold LeakDetector.scanAndClean Blocks
  cases hblock : (d.scan text).shouldBlock with
  | false => simp [hblock]
  | true => simp [hblock]

private theorem scanHeaders_error_iff {headers : List (String × List Char)} :
    (∃ e, d.scanHeaders headers = .error e) ↔ ∃ h ∈ headers, Blocks d h.2 := by
  induction headers with
  | nil => simp [LeakDetector.scanHeaders]
  | cons h rest ih =>
    simp only [LeakDetector.scanHeaders, List.mem_cons, exists_eq_or_imp]
    rw [← ih, ← scanAndClean_error_iff]
    cases d.scanAndClean h.2 with
    | error e => simp
    | ok cleaned => simp

/-- The scan of a request reports a secret in the URL, a header value or the body. -/
private theorem scanHttpRequest_error_iff {url : List Char} {headers : List (String × List Char)}
    {body : Option (List UInt8)} :
    (∃ e, d.scanHttpRequest url headers body = .error e) ↔
      (Blocks d url ∨ ∃ h ∈ headers, Blocks d h.2) ∨
        ∃ bytes, body = some bytes ∧ Blocks d (Bytes.fromUtf8Lossy bytes) := by
  rw [← scanAndClean_error_iff, ← scanHeaders_error_iff]
  unfold LeakDetector.scanHttpRequest
  cases d.scanAndClean url with
  | error e => simp
  | ok cleaned =>
    cases d.scanHeaders headers with
    | error e => simp
    | ok u =>
      cases body with
      | none => simp
      | some bytes =>
        simp only [Option.some.injEq, exists_eq_left']
        rw [← scanAndClean_error_iff]
        cases d.scanAndClean (Bytes.fromUtf8Lossy bytes) with
        | error e => simp
        | ok text => simp

end Scan

section Composition

variable {lib : Libraries} {decode : List Char → List (List Char)} {s : StoreData} {call : HttpCall}

private theorem leakCheck_error_iff :
    (∃ e, s.leakCheck lib call = .error e) ↔
      s.SentBlocks lib (.new lib.unicode.isWord) call ∨ call.BodyBlocks (.new lib.unicode.isWord) := by
  have hscan : (∃ e, s.leakCheck lib call = .error e) ↔
      ∃ e, (LeakDetector.new lib.unicode.isWord).scanHttpRequest (s.prepare lib call).2
        (s.prepare lib call).1 call.body = .error e := by
    unfold StoreData.leakCheck
    dsimp only
    cases (LeakDetector.new lib.unicode.isWord).scanHttpRequest (s.prepare lib call).2
        (s.prepare lib call).1 call.body with
    | error e => simp [Except.mapError]
    | ok u => simp [Except.mapError]
  rw [hscan, scanHttpRequest_error_iff]
  rfl

private theorem leakCheck_ok_iff :
    s.leakCheck lib call = .ok () ↔ ¬ ∃ e, s.leakCheck lib call = .error e := by
  cases s.leakCheck lib call with
  | error e => simp
  | ok u => simp

end Composition

section Examples

private def openaiKey : List Char := "sk-".toList ++ List.replicate 20 'a'

/-- A store whose tool has an OpenAI key for its host. -/
private def openaiStore : StoreData :=
  { tokenStore [] with
    hostCredentials := [⟨["api.example.com".toList],
      [("Authorization", "Bearer ".toList ++ openaiKey)], [], openaiKey⟩] }

private def listModels : HttpCall :=
  ⟨"GET".toList, "https://api.example.com/v1/models".toList, "\x7b\x7d".toList, none, none⟩

end Examples

end Gyre.Tools.Wasm
