/- digest: Axioms, the filter that decides which of them may be shared, and their anonymized export. -/

import Gyre.Lib.Bytes
import Gyre.Lib.Regex
import Gyre.Lib.Text

/-!
`is_shareable` and `filter` look at the lower-cased domain and at three text fields, each in its own
words; the export scrubs those fields once more before it hashes the statement.
-/

set_option autoImplicit false
set_option relaxedAutoImplicit false

namespace Gyre.Template

open Gyre.Lib

structure Axiom where
  id : List Char
  name : List Char
  statement : List Char
  domain : List Char
  evidence : List Char
  createdAt : Int
  deriving DecidableEq, Repr

/-- A row of the `axioms` table, in the order in which the table is read. -/
structure AxiomRow where
  id : List Char
  name : List Char
  statement : List Char
  domain : List Char
  evidence : List Char
  createdAt : List Char
  active : Int
  deriving DecidableEq, Repr

/-- What the code takes from elsewhere: the digits of `\d` beyond ASCII, the digest, and how ids and
times are read. -/
structure Surroundings where
  isDigit : Char → Bool
  sha256 : List UInt8 → List UInt8
  parseUuid : List Char → Option (List Char)
  parseTime : List Char → Option Int
  now : Int

def nilUuid : List Char := "00000000-0000-0000-0000-000000000000".toList

/-- A row as it is read: an id that is none becomes the nil id, a time that is none the present. -/
def readAxiom (env : Surroundings) (row : AxiomRow) : Axiom where
  id := (env.parseUuid row.id).getD nilUuid
  name := row.name
  statement := row.statement
  domain := row.domain
  evidence := row.evidence
  createdAt := (env.parseTime row.createdAt).getD env.now

/-- `list_active`: the axioms in force. -/
def listActive (env : Surroundings) (rows : List AxiomRow) : List Axiom :=
  (rows.filter (·.active == 1)).map (readAxiom env)

section Pii

/-- A letter or a digit of ASCII. -/
def alphanumeric (c : Char) : Bool := c.isAlpha || c.isDigit

/-- The digits of a pattern without Unicode's own. -/
def digit (isDigit : Char → Bool) (c : Char) : Bool :=
  if c.toNat < 128 then c.isDigit else isDigit c

/-- `[A-Za-z0-9._%+\-]+@[A-Za-z0-9.\-]+\.[A-Za-z]{2,}` -/
def emailRe : Regex :=
  .seqs [.plus (.set fun c => alphanumeric c || c == '.' || c == '_' || c == '%' || c == '+' || c == '-'),
    .char '@', .plus (.set fun c => alphanumeric c || c == '.' || c == '-'), .char '.',
    .atLeast (.set Char.isAlpha) 2]

/-- `\+?\d[\d\-\s().]{7,}\d` -/
def phoneRe (isDigit : Char → Bool) : Regex :=
  .seqs [.opt (.char '+'), .set (digit isDigit),
    .atLeast (.set fun c =>
      digit isDigit c || c == '-' || Text.isWhitespace c || c == '(' || c == ')' || c == '.') 7,
    .set (digit isDigit)]

variable (isDigit : Char → Bool)

def containsPii (text : List Char) : Bool := emailRe.isMatch text || (phoneRe isDigit).isMatch text

/-- The text fields that the detectors look at, under their labels. -/
def labelled (a : Axiom) : List (String × List Char) :=
  [("name", a.name), ("statement", a.statement), ("evidence", a.evidence)]

def piiFindings (a : Axiom) : List String :=
  (labelled a).flatMap fun p =>
    (if emailRe.isMatch p.2 then ["email in " ++ p.1] else []) ++
      (if (phoneRe isDigit).isMatch p.2 then ["phone in " ++ p.1] else [])

def detectPiiDetail (a : Axiom) : Option String :=
  let findings := piiFindings isDigit a
  if findings.isEmpty then none else some (", ".intercalate findings)

def scrubPii (text : List Char) : List Char :=
  (phoneRe isDigit).replaceAll "[REDACTED_PHONE]".toList
    (emailRe.replaceAll "[REDACTED_EMAIL]".toList text)

end Pii

section Filter

def shareableDomains : List (List Char) := ["universal".toList, "general".toList]

def blockedDomains : List (List Char) := ["personal".toList, "contextual".toList]

inductive FilterReason where
  | blockedDomain (domain : List Char)
  | nonShareableDomain (domain : List Char)
  | containsPii (detail : String)
  deriving DecidableEq, Repr

structure FilteredAxiom where
  name : List Char
  reason : FilterReason
  deriving DecidableEq, Repr

variable (isDigit : Char → Bool)

def isShareable (a : Axiom) : Bool :=
  let domain := Text.toLowercase a.domain
  if blockedDomains.any (· == domain) then false
  else if !shareableDomains.any (· == domain) then false
  else !containsPii isDigit a.name && !containsPii isDigit a.statement &&
    !containsPii isDigit a.evidence

/-- One round of the loop of `filter`. -/
def filterOne (acc : List Axiom × List FilteredAxiom) (a : Axiom) : List Axiom × List FilteredAxiom :=
  let domain := Text.toLowercase a.domain
  if blockedDomains.any (· == domain) then
    (acc.1, acc.2 ++ [⟨a.name, .blockedDomain a.domain⟩])
  else if !shareableDomains.any (· == domain) then
    (acc.1, acc.2 ++ [⟨a.name, .nonShareableDomain a.domain⟩])
  else
    match detectPiiDetail isDigit a with
    | some detail => (acc.1, acc.2 ++ [⟨a.name, .containsPii detail⟩])
    | none => (acc.1 ++ [a], acc.2)

/-- `AxiomShareFilter::filter`: the axioms to share, and a log of the others. -/
def filter (axioms : List Axiom) : List Axiom × List FilteredAxiom :=
  axioms.foldl (filterOne isDigit) ([], [])

end Filter

section Export

structure AnonymizedAxiom where
  contentHash : List Char
  name : List Char
  statement : List Char
  domain : List Char
  evidence : List Char
  createdAt : Int
  deriving DecidableEq, Repr

def hexDigits (n : Nat) : List Char := [Nat.digitChar (n / 16), Nat.digitChar (n % 16)]

/-- `hex::encode`. -/
def encodeHex (bytes : List UInt8) : List Char := bytes.flatMap fun b => hexDigits b.toNat

/-- `compute_content_hash`, for a confidence given in tenths. -/
def computeContentHash (sha256 : List UInt8 → List UInt8) (statement domain : List Char)
    (confidence : Nat) : List Char :=
  let bin := Nat.toDigits 10 (confidence / 10) ++ '.' :: Nat.toDigits 10 (confidence % 10)
  encodeHex (sha256 (Bytes.ofText (statement ++ '\n' :: domain ++ '\n' :: bin)))

variable (env : Surroundings)

def anonymizeAxiom (a : Axiom) : AnonymizedAxiom :=
  let statement := scrubPii env.isDigit a.statement
  { contentHash := computeContentHash env.sha256 statement a.domain 10
    name := scrubPii env.isDigit a.name
    statement := statement
    domain := a.domain
    evidence := scrubPii env.isDigit a.evidence
    createdAt := a.createdAt }

def exportShareable (rows : List AxiomRow) : List AnonymizedAxiom :=
  ((filter env.isDigit (listActive env rows)).1).map (anonymizeAxiom env)

end Export

end Gyre.Template
