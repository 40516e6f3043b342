/- digest: When the response that a WASM guest is handed is what the leak scan leaves of it. -/

import Gyre.Tools.Wasm.Secrecy

/-!
The scan of a response body decides whether the response is handed over, and its cleaned copy is
dropped. Header names and values, and bodies that are not UTF-8, are not scanned at all.
-/

set_option autoImplicit false
set_option relaxedAutoImplicit false

namespace Gyre.Tools.Wasm

open Gyre.Lib Gyre.Safety

/-- The scan finds nothing to block and nothing to redact. -/
structure Spotless (d : LeakDetector) (text : List Char) : Prop where
  unblocked : (d.scan text).shouldBlock = false
  unredacted : (d.scan text).redactedContent = none

/-- A text is handed over as the scan leaves it, and the scan finds nothing in it any more. -/
def Cleaned (d : LeakDetector) (original handed : List Char) : Prop :=
  d.scanAndClean original = .ok handed ∧ Spotless d handed

/-- The headers whose values are text. -/
def Response.textHeaders (r : Response) : List (String × List Char) :=
  r.headers.filterMap fun h => h.2.map fun v => (h.1, v)

/-- The scan of a response takes effect on each part that the guest is handed; bytes that are no UTF-8 are
read as the scan of requests reads them. -/
structure ScanTakesEffect (lib : Libraries) (d : LeakDetector) (r : Response) (handed : HttpResponse) :
    Prop where
  status : handed.status = r.status
  headers : ∀ headers, lib.parseHeaders handed.headersJson = some headers →
    List.Forall₂ (fun original h => Cleaned d original.1.toList h.1.toList ∧ Cleaned d original.2 h.2)
      r.textHeaders headers
  body : ∀ bytes, r.body = .ok bytes →
    Cleaned d (Bytes.fromUtf8Lossy bytes) (Bytes.fromUtf8Lossy handed.body)

/-- A response has nothing that the scan would have to change: its headers, and a body that is not UTF-8,
have nothing to block either. -/
structure Response.NeedsNoScan (d : LeakDetector) (r : Response) : Prop where
  headers : ∀ h ∈ r.textHeaders, Spotless d h.1.toList ∧ Spotless d h.2
  body : ∀ bytes, r.body = .ok bytes → (d.scan (Bytes.fromUtf8Lossy bytes)).redactedContent = none ∧
    (Bytes.fromUtf8 bytes = none → (d.scan (Bytes.fromUtf8Lossy bytes)).shouldBlock = false)

/-- What is handed over unchanged is what the scan leaves if the scan finds nothing in it. -/
private theorem cleaned_self_iff {d : LeakDetector} {text : List Char} :
    Cleaned d text text ↔ Spotless d text := by
  refine and_iff_right_of_imp fun h => ?_
  unfold LeakDetector.scanAndClean
  simp only [h.unblocked, h.unredacted, Bool.false_eq_true, if_false, Option.getD_none]

private theorem scanAndClean_ok {d : LeakDetector} {text cleaned : List Char}
    (h : d.scanAndClean text = .ok cleaned) : (d.scan text).shouldBlock = false := by
  unfold LeakDetector.scanAndClean at h
  cases hblock : (d.scan text).shouldBlock with
  | false => rfl
  | true =>
    simp only [hblock, if_true] at h
    cases h

private theorem mapM_id_eq_some {parts : List (Option Char)} {text : List Char}
    (h : parts.mapM id = some text) : parts.map (fun c => c.getD '\uFFFD') = text := by
  induction parts generalizing text with
  | nil =>
    cases h
    rfl
  | cons part rest ih =>
    rw [List.mapM_cons] at h
    obtain ⟨c, hc, h⟩ := Option.bind_eq_some_iff.mp h
    obtain ⟨cs, hcs, h⟩ := Option.bind_eq_some_iff.mp h
    cases h
    have hpart : part = some c := hc
    rw [List.map_cons, ih hcs, hpart]
    rfl

/-- A text in UTF-8 reads the same either way. -/
theorem fromUtf8Lossy_of_fromUtf8 {bytes : List UInt8} {text : List Char}
    (h : Bytes.fromUtf8 bytes = some text) : Bytes.fromUtf8Lossy bytes = text := mapM_id_eq_some h

section Handed

variable {lib : Libraries} {around : Surroundings} {s : StoreData} {call : HttpCall} {r : Response}
  {handed : HttpResponse}

/-- A response that is received is handed over as it came; if its body is UTF-8, it has nothing to
block. -/
private theorem receive_scanned {limit : Nat} {request : Request} (h : receive lib limit request r = .ok handed) :
    ∃ bytes, r.body = .ok bytes ∧ handed = ⟨r.status, lib.showHeaders r.textHeaders, bytes⟩ ∧
      (Bytes.fromUtf8 bytes ≠ none →
        ((LeakDetector.new lib.unicode.isWord).scan (Bytes.fromUtf8Lossy bytes)).shouldBlock = false) := by
  unfold receive at h
  split at h
  · cases h
  · split at h
    · cases h
    · next bytes hbody =>
      refine ⟨bytes, hbody, ?_⟩
      split at h
      · cases h
      · dsimp only at h
        split at h
        · next hnone =>
          cases h
          exact ⟨rfl, fun hsome => absurd hnone hsome⟩
        · next text htext =>
          split at h
          · cases h
          · next cleaned hscan =>
            cases h
            refine ⟨rfl, fun _ => ?_⟩
            rw [fromUtf8Lossy_of_fromUtf8 htext]
            exact scanAndClean_ok hscan

/-- A response that the guest is handed has been received. -/
private theorem httpRequest_ok (hreply : around.reply = .response r)
    (h : (s.httpRequest lib around call).2 = .ok handed) :
    ∃ request, receive lib s.maxResponseBytes request r = .ok handed := by
  rw [httpRequest_eq] at h
  split at h
  · cases h
  · split at h
    · cases h
    · split at h
      · cases h
      · split at h
        · cases h
        · split at h
          · cases h
          · cases hexchanged : s.exchanged lib around call with
            | error e =>
              rw [hexchanged] at h
              cases h
            | ok response =>
              rw [hexchanged] at h
              cases h
              unfold StoreData.exchanged exchange at hexchanged
              dsimp only at hexchanged
              split at hexchanged
              · cases hexchanged
              · split at hexchanged
                · cases hexchanged
                · split at hexchanged
                  · cases hexchanged
                  · rw [hreply] at hexchanged
                    exact ⟨_, hexchanged⟩

end Handed

section Examples

private def answering (body : String) : Surroundings :=
  { respondingServer with reply := .response ⟨200, [], none, .ok (Bytes.ofText body.toList)⟩ }

private def fetchStatus : HttpCall :=
  ⟨"GET".toList, "https://api.example.com/v1/status".toList, "\x7b\x7d".toList, none, none⟩

end Examples

end Gyre.Tools.Wasm
