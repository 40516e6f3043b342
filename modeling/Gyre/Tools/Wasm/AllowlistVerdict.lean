/- digest: When the endpoint allowlist allows a request, and what its denials name. -/

import Gyre.Tools.Wasm.Allowlist

/-!
A request is to be allowed if one pattern fits its host, path and method; a denial is to name the first
of the three that no pattern fits. The host of a URL is lower-cased before it is compared, the host of
a pattern is not, so that a pattern written in capitals fits nothing.
-/

set_option autoImplicit false
set_option relaxedAutoImplicit false

namespace Gyre.Tools.Wasm

open Gyre.Lib

/-- A percent-decoded segment; a malformed escape or text that is not UTF-8 has none. -/
def decodedSegment (raw : List Char) : Option (List Char) :=
  if Bytes.validPercentEncoding raw then Bytes.percentDecode raw else none

/-- One segment of a path after the others: a dot stays, two dots go back. -/
def enter (segments : List (List Char)) (segment : List Char) : List (List Char) :=
  if segment = [] ∨ segment = ['.'] then segments
  else if segment = ['.', '.'] then segments.dropLast
  else segments ++ [segment]

/-- A path stands for another: its segments are decoded first, none of them has a separator in it, and
the dots are resolved then. -/
def PathReads (raw path : List Char) : Prop :=
  ∃ segments, (raw.splitOn '/').mapM decodedSegment = some segments ∧
    (∀ s ∈ segments, '/' ∉ s ∧ '\\' ∉ s) ∧
    let resolved := '/' :: List.intercalate ['/'] (segments.foldl enter [])
    path = if 1 < raw.length && ['/'].isSuffixOf raw && !(['/'].isSuffixOf resolved) then
      resolved ++ ['/'] else resolved

/-- A URL that can be allowed, and how the library took it apart. -/
structure UrlReads (u : Text.Unicode) (url : Url) (parsed : ParsedUrl) : Prop where
  scheme : parsed.scheme = u.lowercase url.scheme
  web : parsed.scheme = "http".toList ∨ parsed.scheme = "https".toList
  userinfo : url.hasUserinfo = false
  host : ∃ host, url.host = some host ∧ parsed.host = u.lowercase (stripBrackets host)
  path : PathReads url.path parsed.path

section Readings

private theorem normalizeSegments_ok_iff {raws segments resolved : List (List Char)} :
    normalizeSegments segments raws = .ok resolved ↔
      ∃ decoded, raws.mapM decodedSegment = some decoded ∧
        (∀ s ∈ decoded, '/' ∉ s ∧ '\\' ∉ s) ∧ resolved = decoded.foldl enter segments := by
  induction raws generalizing segments with
  | nil => simp [normalizeSegments, eq_comm]
  | cons raw raws ih =>
    unfold normalizeSegments
    rw [List.mapM_cons]
    cases hvalid : Bytes.validPercentEncoding raw with
    | false => simp [decodedSegment, hvalid]
    | true =>
      have hdecoded : decodedSegment raw = Bytes.percentDecode raw := by simp [decodedSegment, hvalid]
      rw [hdecoded]
      cases hsegment : Bytes.percentDecode raw with
      | none => simp
      | some segment =>
        have hcons : (∃ decoded, (do
            let first ← some segment
            let rest ← raws.mapM decodedSegment
            pure (first :: rest)) = some decoded ∧ (∀ s ∈ decoded, '/' ∉ s ∧ '\\' ∉ s) ∧
              resolved = decoded.foldl enter segments) ↔
            ('/' ∉ segment ∧ '\\' ∉ segment) ∧ ∃ rest, raws.mapM decodedSegment = some rest ∧
              (∀ s ∈ rest, '/' ∉ s ∧ '\\' ∉ s) ∧ resolved = rest.foldl enter (enter segments segment) := by
          cases raws.mapM decodedSegment <;> simp [and_assoc]
        rw [hcons]
        by_cases hseparator : '/' ∈ segment ∨ '\\' ∈ segment
        · have hplain : ¬ ('/' ∉ segment ∧ '\\' ∉ segment) := by
            rintro ⟨hslash, hback⟩
            exact hseparator.elim hslash hback
          simp [hseparator, hplain]
        · have hplain : '/' ∉ segment ∧ '\\' ∉ segment := not_or.mp hseparator
          have hnext : (if segment = [] || segment = ['.'] then normalizeSegments segments raws
              else if segment = ['.', '.'] then normalizeSegments segments.dropLast raws
              else normalizeSegments (segments ++ [segment]) raws) =
              normalizeSegments (enter segments segment) raws := by
            unfold enter
            by_cases hsame : segment = [] ∨ segment = ['.']
            · simp [hsame]
            · by_cases hback : segment = ['.', '.']
              · simp [hback]
              · simp [hsame, hback]
          have hfree : (segment.contains '/' || segment.contains '\\') = false := by
            simp [hplain]
          simp only [Bool.not_true, Bool.false_eq_true, if_false, hfree, hnext, ih, hplain, true_and,
            not_false_eq_true]

private theorem normalizePath_ok_iff {raw path : List Char} :
    normalizePath raw = .ok path ↔ PathReads raw path := by
  have hsegments (resolved : List (List Char)) :
      normalizeSegments [] (raw.splitOn '/') = .ok resolved ↔
        ∃ decoded, (raw.splitOn '/').mapM decodedSegment = some decoded ∧
          (∀ s ∈ decoded, '/' ∉ s ∧ '\\' ∉ s) ∧ resolved = decoded.foldl enter [] :=
    normalizeSegments_ok_iff
  unfold normalizePath PathReads
  cases hnormal : normalizeSegments [] (raw.splitOn '/') with
  | error e =>
    constructor
    · intro h
      cases h
    · rintro ⟨segments, hdecoded, hplain, -⟩
      have hok := (hsegments (segments.foldl enter [])).mpr ⟨segments, hdecoded, hplain, rfl⟩
      rw [hnormal] at hok
      cases hok
  | ok resolved =>
    obtain ⟨decoded, hdecoded, hplain, rfl⟩ := (hsegments resolved).mp hnormal
    constructor
    · intro h
      exact ⟨decoded, hdecoded, hplain, (Except.ok.inj h).symm⟩
    · rintro ⟨segments, hother, -, hpath⟩
      obtain rfl := Option.some.inj (hdecoded.symm.trans hother)
      rw [hpath]

/-- `parse_url` succeeds on the URLs that can be allowed. -/
private theorem parseUrl_ok_iff {u : Text.Unicode} {parse : UrlParser} {text : List Char}
    {parsed : ParsedUrl} :
    parseUrl u parse text = .ok parsed ↔ ∃ url, parse text = .ok url ∧ UrlReads u url parsed := by
  unfold parseUrl
  cases hparse : parse text with
  | error e => simp
  | ok url =>
    have hone : (∃ url', Except.ok url = (.ok url' : Except (List Char) Url) ∧ UrlReads u url' parsed) ↔
        UrlReads u url parsed := by simp
    rw [hone]
    dsimp only
    by_cases hweb : u.lowercase url.scheme = "http".toList ∨ u.lowercase url.scheme = "https".toList
    · have hscheme : (decide (u.lowercase url.scheme ≠ "http".toList) &&
          decide (u.lowercase url.scheme ≠ "https".toList)) = false := by
        rcases hweb with h | h <;> simp [h]
      rw [hscheme, if_neg Bool.false_ne_true]
      cases huser : url.hasUserinfo with
      | true =>
        constructor
        · intro h
          cases h
        · intro h
          exact absurd (huser.symm.trans h.userinfo) (by simp)
      | false =>
        rw [if_neg Bool.false_ne_true]
        cases hhost : url.host with
        | none =>
          constructor
          · intro h
            cases h
          · intro h
            obtain ⟨host, hsome, -⟩ := h.host
            exact absurd (hhost.symm.trans hsome) (by simp)
        | some host =>
          cases hpath : normalizePath url.path with
          | error e =>
            constructor
            · intro h
              cases h
            · intro h
              have hok := normalizePath_ok_iff.mpr h.path
              exact absurd (hpath.symm.trans hok) (by simp)
          | ok path =>
            constructor
            · intro h
              obtain rfl := Except.ok.inj h
              exact ⟨rfl, hweb, huser, ⟨host, hhost, rfl⟩, normalizePath_ok_iff.mp hpath⟩
            · intro h
              obtain ⟨other, hsome, hother⟩ := h.host
              obtain rfl := Option.some.inj (hhost.symm.trans hsome)
              have hsame := Except.ok.inj (hpath.symm.trans (normalizePath_ok_iff.mpr h.path))
              show Except.ok (⟨u.lowercase url.scheme, u.lowercase (stripBrackets host), path⟩ : ParsedUrl) =
                .ok parsed
              rw [← h.scheme, ← hother, hsame]
    · have hscheme : (decide (u.lowercase url.scheme ≠ "http".toList) &&
          decide (u.lowercase url.scheme ≠ "https".toList)) = true := by
        obtain ⟨hhttp, hhttps⟩ := not_or.mp hweb
        rw [decide_eq_true hhttp, decide_eq_true hhttps]
        rfl
      rw [hscheme, if_pos rfl]
      constructor
      · intro h
        cases h
      · intro h
        exact absurd (h.scheme ▸ h.web) hweb

end Readings

section Verdicts

variable (u : Text.Unicode) (parse : UrlParser)

/-- A URL reads as its parts, and its scheme is one the validator takes. -/
def AllowlistValidator.Reads (v : AllowlistValidator) (text : List Char) (parsed : ParsedUrl) : Prop :=
  (∃ url, parse text = .ok url ∧ UrlReads u url parsed) ∧
    (parsed.scheme = "https".toList ∨ v.requireHttps = false)

/-- The host of a pattern matches, the case of letters ignored on both sides. -/
def HostFits (host : List Char) (p : EndpointPattern) : Prop :=
  hostMatchesPattern (host.map Char.toLower) (p.host.map Char.toLower) = true

instance (host : List Char) (p : EndpointPattern) : Decidable (HostFits host p) :=
  inferInstanceAs (Decidable (_ = true))

/-- How far a pattern whose host matches goes: no further, to the path, or to the method as well. -/
def EndpointPattern.reach (p : EndpointPattern) (path method : List Char) : Nat :=
  if p.pathMatches path then if p.methodMatches u method then 2 else 1 else 0

/-- The answer to a request is the claimed one. -/
structure AllowlistValidator.AnswersRight (v : AllowlistValidator) (text method : List Char) : Prop where
  allowed : v.validate u parse text method = .allowed ↔
    ∃ parsed, v.Reads u parse text parsed ∧ ∃ p ∈ v.patterns, HostFits parsed.host p ∧
      p.pathMatches parsed.path = true ∧ p.methodMatches u method = true
  host : v.patterns ≠ [] →
    ((∃ host, v.validate u parse text method = .denied (.hostNotAllowed host)) ↔
      ∃ parsed, v.Reads u parse text parsed ∧ ∀ p ∈ v.patterns, ¬ HostFits parsed.host p)
  path : v.patterns ≠ [] →
    ((∃ host path, v.validate u parse text method = .denied (.pathNotAllowed host path)) ↔
      ∃ parsed, v.Reads u parse text parsed ∧ (∃ p ∈ v.patterns, HostFits parsed.host p) ∧
        ∀ p ∈ v.patterns, HostFits parsed.host p → p.pathMatches parsed.path = false)
  method : v.patterns ≠ [] →
    ((∃ method' host, v.validate u parse text method = .denied (.methodNotAllowed method' host)) ↔
      ∃ parsed, v.Reads u parse text parsed ∧
        (∃ p ∈ v.patterns, HostFits parsed.host p ∧ p.pathMatches parsed.path = true) ∧
        ∀ p ∈ v.patterns, HostFits parsed.host p → p.pathMatches parsed.path = true →
          p.methodMatches u method = false)

/-- Where a pattern's host matches in other letters, some pattern whose host matches as it is written
goes at least as far. -/
def AllowlistValidator.CaseCovered (v : AllowlistValidator) (text method : List Char) : Prop :=
  ∀ parsed, v.Reads u parse text parsed → ∀ p ∈ v.patterns, HostFits parsed.host p →
    ∃ q ∈ v.patterns, q.hostMatches parsed.host = true ∧
      p.reach u parsed.path method ≤ q.reach u parsed.path method

end Verdicts

section Proofs

variable {u : Text.Unicode} {parse : UrlParser} {v : AllowlistValidator} {text method : List Char}
  {parsed : ParsedUrl}

/-- Some pattern with a matching host goes at least so far. -/
private def Reaches (u : Text.Unicode) (v : AllowlistValidator) (parsed : ParsedUrl) (method : List Char)
    (fits : EndpointPattern → Prop) (n : Nat) : Prop :=
  ∃ p ∈ v.patterns, fits p ∧ n ≤ p.reach u parsed.path method

private theorem reach_pos_iff {p : EndpointPattern} {path : List Char} :
    1 ≤ p.reach u path method ↔ p.pathMatches path = true := by
  unfold EndpointPattern.reach
  cases p.pathMatches path <;> cases p.methodMatches u method <;> simp

private theorem reach_full_iff {p : EndpointPattern} {path : List Char} :
    2 ≤ p.reach u path method ↔ p.pathMatches path = true ∧ p.methodMatches u method = true := by
  unfold EndpointPattern.reach
  cases p.pathMatches path <;> cases p.methodMatches u method <;> simp

private theorem reach_le_two (p : EndpointPattern) (path : List Char) : p.reach u path method ≤ 2 := by
  unfold EndpointPattern.reach
  split
  · split
    · exact Nat.le_refl 2
    · exact Nat.le_succ 1
  · exact Nat.zero_le 2

private theorem reads_iff : v.Reads u parse text parsed ↔
    parseUrl u parse text = .ok parsed ∧ (parsed.scheme = "https".toList ∨ v.requireHttps = false) := by
  unfold AllowlistValidator.Reads
  rw [parseUrl_ok_iff]

/-- A URL that cannot be allowed is answered so. -/
private theorem validate_unread (hne : v.patterns ≠ []) (hunread : ∀ parsed, ¬ v.Reads u parse text parsed) :
    (∃ e, v.validate u parse text method = .denied (.invalidUrl e)) ∨
      ∃ scheme, v.validate u parse text method = .denied (.insecureScheme scheme) := by
  have hnonempty : v.patterns.isEmpty = false := List.isEmpty_eq_false_iff.mpr hne
  unfold AllowlistValidator.validate
  rw [hnonempty, if_neg Bool.false_ne_true]
  cases hparse : parseUrl u parse text with
  | error e => exact .inl ⟨e, rfl⟩
  | ok parsed =>
    have hinsecure : ¬ (parsed.scheme = "https".toList ∨ v.requireHttps = false) :=
      fun h => hunread parsed (reads_iff.mpr ⟨hparse, h⟩)
    obtain ⟨hscheme, hrequired⟩ := not_or.mp hinsecure
    have hcheck : (v.requireHttps && decide (parsed.scheme ≠ "https".toList)) = true := by
      rw [eq_true_of_ne_false hrequired, decide_eq_true hscheme]
      rfl
    exact .inr ⟨parsed.scheme, if_pos hcheck⟩

/-- The answer to a readable URL follows how far the patterns go whose hosts match. -/
private theorem validate_read (hne : v.patterns ≠ []) (hread : v.Reads u parse text parsed) :
    let reaches := Reaches u v parsed method fun p => p.hostMatches parsed.host = true
    (reaches 2 ∧ v.validate u parse text method = .allowed) ∨
      (¬ reaches 0 ∧ v.validate u parse text method = .denied (.hostNotAllowed parsed.host)) ∨
      (reaches 0 ∧ ¬ reaches 1 ∧
        v.validate u parse text method = .denied (.pathNotAllowed parsed.host parsed.path)) ∨
      reaches 1 ∧ ¬ reaches 2 ∧
        v.validate u parse text method = .denied (.methodNotAllowed method parsed.host) := by
  intro reaches
  obtain ⟨hparse, hsecure⟩ := reads_iff.mp hread
  have hnonempty : v.patterns.isEmpty = false := List.isEmpty_eq_false_iff.mpr hne
  have hcheck : (v.requireHttps && decide (parsed.scheme ≠ "https".toList)) = false := by
    rcases hsecure with h | h <;> simp [h]
  have hany : (v.patterns.any fun p => p.isMatch u parsed.host parsed.path method) = true ↔
      reaches 2 := by
    rw [List.any_eq_true]
    refine exists_congr fun p => and_congr_right fun _ => ?_
    rw [reach_full_iff]
    unfold EndpointPattern.isMatch
    rw [Bool.and_eq_true, Bool.and_eq_true, and_assoc]
  have hhosts : (v.patterns.filter fun p => p.hostMatches parsed.host).isEmpty = true ↔
      ¬ reaches 0 := by
    rw [List.isEmpty_iff, List.filter_eq_nil_iff]
    constructor
    · rintro hnone ⟨p, hp, hhost, -⟩
      exact hnone p hp hhost
    · intro hnone p hp hhost
      exact hnone ⟨p, hp, hhost, Nat.zero_le _⟩
  have hpaths : ((v.patterns.filter fun p => p.hostMatches parsed.host).filter
      fun p => p.pathMatches parsed.path).isEmpty = true ↔ ¬ reaches 1 := by
    rw [List.isEmpty_iff, List.filter_eq_nil_iff]
    constructor
    · rintro hnone ⟨p, hp, hhost, hpath⟩
      exact hnone p (List.mem_filter.mpr ⟨hp, hhost⟩) (reach_pos_iff.mp hpath)
    · intro hnone p hp hpath
      obtain ⟨hp, hhost⟩ := List.mem_filter.mp hp
      exact hnone ⟨p, hp, hhost, reach_pos_iff.mpr hpath⟩
  unfold AllowlistValidator.validate
  simp only [hnonempty, hparse, hcheck, Bool.false_eq_true, if_false]
  by_cases hfull : reaches 2
  · exact .inl ⟨hfull, if_pos (hany.mpr hfull)⟩
  · rw [if_neg (mt hany.mp hfull)]
    by_cases hhost : reaches 0
    · rw [if_neg fun h => hhosts.mp h hhost]
      by_cases hpath : reaches 1
      · exact .inr (.inr (.inr ⟨hpath, hfull, if_neg fun h => hpaths.mp h hpath⟩))
      · exact .inr (.inr (.inl ⟨hhost, hpath, if_pos (hpaths.mpr hpath)⟩))
    · exact .inr (.inl ⟨hhost, if_pos (hhosts.mpr hhost)⟩)

/-- A pattern that matches as it is written fits. -/
private theorem hostFits_of_matches {p : EndpointPattern} {host : List Char}
    (h : p.hostMatches host = true) : HostFits host p := by
  unfold HostFits
  rw [hostMatchesPattern_iff]
  rcases (hostMatchesPattern_iff p.host host).mp h with rfl | ⟨suffix, hsuffix, label, rfl⟩
  · exact .inl rfl
  · refine .inr ⟨suffix.map Char.toLower, ?_, label.map Char.toLower, ?_⟩
    · rw [HostNames.wildcardSuffix_lower, hsuffix]
      rfl
    · rw [List.map_append, List.map_cons]
      rfl

/-- The cases are covered exactly if a reach in any letters is one as written. -/
private theorem covered_iff (hread : v.Reads u parse text parsed) :
    v.CaseCovered u parse text method ↔ ∀ n ≤ 2, Reaches u v parsed method (HostFits parsed.host) n →
      Reaches u v parsed method (fun p => p.hostMatches parsed.host = true) n := by
  constructor
  · rintro hcovered n - ⟨p, hp, hfits, hreach⟩
    obtain ⟨q, hq, hmatches, hfar⟩ := hcovered parsed hread p hp hfits
    exact ⟨q, hq, hmatches, Nat.le_trans hreach hfar⟩
  · intro hreaches other hother p hp hfits
    have hsame : other = parsed :=
      Except.ok.inj ((reads_iff.mp hother).1.symm.trans (reads_iff.mp hread).1)
    subst hsame
    exact hreaches _ (reach_le_two p _) ⟨p, hp, hfits, Nat.le_refl _⟩

private theorem exists_read_iff (hread : v.Reads u parse text parsed) {P : ParsedUrl → Prop} :
    (∃ parsed, v.Reads u parse text parsed ∧ P parsed) ↔ P parsed := by
  constructor
  · rintro ⟨other, hother, h⟩
    have hsame : other = parsed :=
      Except.ok.inj ((reads_iff.mp hother).1.symm.trans (reads_iff.mp hread).1)
    exact hsame ▸ h
  · intro h
    exact ⟨parsed, hread, h⟩

/-- What the claimed answer is, as reaches of patterns whose hosts fit. -/
private theorem answersRight_iff (hread : v.Reads u parse text parsed) (hne : v.patterns ≠ []) :
    let fits := Reaches u v parsed method (HostFits parsed.host)
    v.AnswersRight u parse text method ↔
      (v.validate u parse text method = .allowed ↔ fits 2) ∧
      ((∃ host, v.validate u parse text method = .denied (.hostNotAllowed host)) ↔ ¬ fits 0) ∧
      ((∃ host path, v.validate u parse text method = .denied (.pathNotAllowed host path)) ↔
        fits 0 ∧ ¬ fits 1) ∧
      ((∃ method' host, v.validate u parse text method = .denied (.methodNotAllowed method' host)) ↔
        fits 1 ∧ ¬ fits 2) := by
  intro fits
  have hnone : fits 0 ↔ ∃ p ∈ v.patterns, HostFits parsed.host p := by
    refine exists_congr fun p => and_congr_right fun _ => ?_
    simp
  have hpath : fits 1 ↔
      ∃ p ∈ v.patterns, HostFits parsed.host p ∧ p.pathMatches parsed.path = true := by
    refine exists_congr fun p => and_congr_right fun _ => ?_
    rw [reach_pos_iff]
  have hfull : fits 2 ↔ ∃ p ∈ v.patterns, HostFits parsed.host p ∧
      p.pathMatches parsed.path = true ∧ p.methodMatches u method = true := by
    refine exists_congr fun p => and_congr_right fun _ => ?_
    rw [reach_full_iff]
  have hnohost : (∀ p ∈ v.patterns, ¬ HostFits parsed.host p) ↔ ¬ fits 0 := by
    rw [hnone]
    simp
  have hnopath : (∀ p ∈ v.patterns, HostFits parsed.host p → p.pathMatches parsed.path = false) ↔
      ¬ fits 1 := by
    rw [hpath]
    simp
  have hnomethod : (∀ p ∈ v.patterns, HostFits parsed.host p → p.pathMatches parsed.path = true →
      p.methodMatches u method = false) ↔ ¬ fits 2 := by
    rw [hfull]
    simp
  constructor
  · intro h
    refine ⟨?_, ?_, ?_, ?_⟩
    · rw [h.allowed, exists_read_iff hread, hfull]
    · rw [h.host hne, exists_read_iff hread, hnohost]
    · rw [h.path hne, exists_read_iff hread, hnone, hnopath]
    · rw [h.method hne, exists_read_iff hread, hpath, hnomethod]
  · rintro ⟨hallowed, hhost, hpaths, hmethods⟩
    refine ⟨?_, fun _ => ?_, fun _ => ?_, fun _ => ?_⟩
    · rw [hallowed, exists_read_iff hread, hfull]
    · rw [hhost, exists_read_iff hread, hnohost]
    · rw [hpaths, exists_read_iff hread, hnone, hnopath]
    · rw [hmethods, exists_read_iff hread, hpath, hnomethod]

/-- A pattern that goes far goes less far as well. -/
private theorem Reaches.mono {fits : EndpointPattern → Prop} {m n : Nat} (hle : m ≤ n)
    (h : Reaches u v parsed method fits n) : Reaches u v parsed method fits m := by
  obtain ⟨p, hp, hfits, hreach⟩ := h
  exact ⟨p, hp, hfits, Nat.le_trans hle hreach⟩

/-- An empty allowlist denies before it looks at the URL. -/
private theorem answersRight_of_empty (hempty : v.patterns = []) :
    v.AnswersRight u parse text method := by
  have hdenied : v.validate u parse text method = .denied .emptyAllowlist := by
    unfold AllowlistValidator.validate
    rw [hempty]
    rfl
  refine ⟨?_, absurd hempty, absurd hempty, absurd hempty⟩
  rw [hdenied]
  refine iff_of_false AllowlistResult.noConfusion ?_
  rintro ⟨parsed, -, p, hp, -⟩
  rw [hempty] at hp
  exact List.not_mem_nil hp

/-- A URL that cannot be allowed gets none of the answers that are about patterns. -/
private theorem answersRight_of_unread (hne : v.patterns ≠ [])
    (hunread : ∀ parsed, ¬ v.Reads u parse text parsed) : v.AnswersRight u parse text method := by
  have hvacuous (P : ParsedUrl → Prop) : ¬ ∃ parsed, v.Reads u parse text parsed ∧ P parsed := by
    rintro ⟨parsed, hread, -⟩
    exact hunread parsed hread
  have hdenied : (∃ e, v.validate u parse text method = .denied (.invalidUrl e)) ∨
      ∃ scheme, v.validate u parse text method = .denied (.insecureScheme scheme) :=
    validate_unread hne hunread
  rcases hdenied with ⟨e, h⟩ | ⟨scheme, h⟩ <;>
    refine ⟨?_, fun _ => ?_, fun _ => ?_, fun _ => ?_⟩ <;>
    refine iff_of_false ?_ (hvacuous _) <;>
    simp [h]

/-- With a readable URL the answer is right if the hosts that fit go no further than those that match. -/
private theorem answersRight_iff_covered (hread : v.Reads u parse text parsed) (hne : v.patterns ≠ []) :
    v.AnswersRight u parse text method ↔ v.CaseCovered u parse text method := by
  have hright : v.AnswersRight u parse text method ↔ _ := answersRight_iff hread hne
  have hcovered : v.CaseCovered u parse text method ↔ _ := covered_iff hread
  have hcases : (Reaches u v parsed method (fun p => p.hostMatches parsed.host = true) 2 ∧
      v.validate u parse text method = .allowed) ∨ _ := validate_read hne hread
  have hfits (n : Nat) (h : Reaches u v parsed method (fun p => p.hostMatches parsed.host = true) n) :
      Reaches u v parsed method (HostFits parsed.host) n := by
    obtain ⟨p, hp, hmatches, hreach⟩ := h
    exact ⟨p, hp, hostFits_of_matches hmatches, hreach⟩
  have hless {m n : Nat} (hle : m ≤ n) (h : Reaches u v parsed method (HostFits parsed.host) n) :
      Reaches u v parsed method (HostFits parsed.host) m := h.mono hle
  have hdown {m n : Nat} (hle : m ≤ n)
      (h : Reaches u v parsed method (fun p => p.hostMatches parsed.host = true) n) :
      Reaches u v parsed method (fun p => p.hostMatches parsed.host = true) m := h.mono hle
  rw [hright, hcovered]
  -- the answer tells how far the hosts go that match as they are written, and it is to tell how far
  -- those go that fit
  generalize Reaches u v parsed method (HostFits parsed.host) = fits at *
  generalize Reaches u v parsed method (fun p => p.hostMatches parsed.host = true) = written at *
  constructor
  · rintro ⟨-, hhost, hpath, hmethod⟩ n hn hfit
    rcases hcases with ⟨hfull, -⟩ | ⟨-, hanswer⟩ | ⟨hzero, -, hanswer⟩ | ⟨hone, -, hanswer⟩
    · exact hdown hn hfull
    · exact absurd (hless (Nat.zero_le n) hfit) (hhost.mp ⟨_, hanswer⟩)
    · obtain ⟨-, hstops⟩ := hpath.mp ⟨_, _, hanswer⟩
      have hn0 : n ≤ 0 := Nat.le_of_lt_succ (Nat.lt_of_not_le fun hle => hstops (hless hle hfit))
      exact hdown hn0 hzero
    · obtain ⟨-, hstops⟩ := hmethod.mp ⟨_, _, hanswer⟩
      have hn1 : n ≤ 1 := Nat.le_of_lt_succ (Nat.lt_of_not_le fun hle => hstops (hless hle hfit))
      exact hdown hn1 hone
  · intro hcover
    have hsame (n : Nat) (hn : n ≤ 2) : fits n ↔ written n := ⟨hcover n hn, hfits n⟩
    rw [hsame 0 (by omega), hsame 1 (by omega), hsame 2 (by omega)]
    rcases hcases with ⟨hfull, hanswer⟩ | ⟨hnone, hanswer⟩ | ⟨hzero, hstops, hanswer⟩ |
      ⟨hone, hstops, hanswer⟩
    · have hone := hdown (Nat.le_succ 1) hfull
      have hzero := hdown (Nat.zero_le 1) hone
      simp [hanswer, hfull, hone, hzero]
    · have hnotone := mt (hdown (Nat.zero_le 1)) hnone
      have hnotfull := mt (hdown (Nat.zero_le 2)) hnone
      simp [hanswer, hnone, hnotone, hnotfull]
    · have hnotfull := mt (hdown (Nat.le_succ 1)) hstops
      simp [hanswer, hzero, hstops, hnotfull]
    · have hzero := hdown (Nat.zero_le 1) hone
      simp [hanswer, hzero, hone, hstops]

end Proofs

/-- The allowlist answers as claimed exactly where every pattern that matches a host in other letters is
covered by one that matches it as it is written. -/
theorem allowlist_answers_right_iff (u : Text.Unicode) (parse : UrlParser) (v : AllowlistValidator)
    (text method : List Char) :
    v.AnswersRight u parse text method ↔ v.CaseCovered u parse text method := by
  by_cases hread : ∃ parsed, v.Reads u parse text parsed
  · obtain ⟨parsed, hread⟩ := hread
    by_cases hne : v.patterns = []
    · refine iff_of_true (answersRight_of_empty hne) fun parsed _ p hp => ?_
      rw [hne] at hp
      exact absurd hp List.not_mem_nil
    · exact answersRight_iff_covered hread hne
  · have hunread : ∀ parsed, ¬ v.Reads u parse text parsed := fun parsed h => hread ⟨parsed, h⟩
    have hvacuous : v.CaseCovered u parse text method := fun parsed h => absurd h (hunread parsed)
    by_cases hne : v.patterns = []
    · exact iff_of_true (answersRight_of_empty hne) hvacuous
    · exact iff_of_true (answersRight_of_unread hne hunread) hvacuous

/-- An allowlist whose host is written with a capital letter. -/
private def capitals : AllowlistValidator := .new [⟨"API.example.com".toList, none, []⟩]

/-- A library that takes this one URL apart, and folds ASCII letters. -/
private def oneUrl : UrlParser := fun text =>
  if text = "https://api.example.com/".toList then
    .ok ⟨"https".toList, [], none, some "api.example.com".toList, "/".toList⟩
  else .error "relative URL without a base".toList

private def asciiFolding : Text.Unicode :=
  ⟨Char.isAlphanum, fun _ => true, List.map Char.toLower, List.map Char.toUpper⟩

/-- A pattern `API.example.com` is to allow `https://api.example.com/`, and its host is denied. -/
theorem capital_host_denied :
    capitals.Reads asciiFolding oneUrl "https://api.example.com/".toList
        ⟨"https".toList, "api.example.com".toList, "/".toList⟩ ∧
      (∃ p ∈ capitals.patterns, HostFits "api.example.com".toList p ∧ p.pathMatches "/".toList = true ∧
        p.methodMatches asciiFolding "GET".toList = true) ∧
      capitals.validate asciiFolding oneUrl "https://api.example.com/".toList "GET".toList =
        .denied (.hostNotAllowed "api.example.com".toList) ∧
      ¬ capitals.AnswersRight asciiFolding oneUrl "https://api.example.com/".toList "GET".toList := by
  have hread : capitals.Reads asciiFolding oneUrl "https://api.example.com/".toList
      ⟨"https".toList, "api.example.com".toList, "/".toList⟩ :=
    reads_iff.mpr (by decide +kernel)
  have hfits : ∃ p ∈ capitals.patterns, HostFits "api.example.com".toList p ∧
      p.pathMatches "/".toList = true ∧ p.methodMatches asciiFolding "GET".toList = true :=
    ⟨_, List.mem_singleton.mpr rfl, by decide +kernel, by decide +kernel, by decide +kernel⟩
  have hdenied : capitals.validate asciiFolding oneUrl "https://api.example.com/".toList "GET".toList =
      .denied (.hostNotAllowed "api.example.com".toList) := by decide +kernel
  refine ⟨hread, hfits, hdenied, fun hright => ?_⟩
  have hallowed := hright.allowed.mpr ⟨_, hread, hfits⟩
  rw [hdenied] at hallowed
  cases hallowed

end Gyre.Tools.Wasm
