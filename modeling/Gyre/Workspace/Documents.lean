/- digest: Writes and appends to one workspace document that run at the same time, and its index. -/

import Gyre.Lib.Reach
import Gyre.Workspace.Chunker

/-!
A call is a series of storage steps, between which the other calls may take theirs. A storage step
that fails leaves no effect and ends its call with the error.
-/

set_option autoImplicit false
set_option relaxedAutoImplicit false

namespace Gyre.Workspace

inductive Request where
  | write (content : List Char)
  | append (content : List Char)
  | appendMemory (entry : List Char)
  deriving DecidableEq, Repr

/-- The content a request stores, from the content it has read. -/
def Request.newContent (doc : List Char) : Request → List Char
  | .write content => content
  | .append content => if doc = [] then content else doc ++ '\n' :: content
  | .appendMemory entry => if doc = [] then entry else doc ++ '\n' :: '\n' :: entry

def Request.entry : Request → Option (List Char)
  | .write _ => none
  | .append content => some content
  | .appendMemory entry => some entry

/-- How far a call is: what it waits to do next, with what it has read. -/
inductive Phase where
  | starting
  | opened (doc : List Char)
  | updated
  | indexing (chunks : List (List Char))
  | inserting (index : Nat) (rest : List (List Char))
  | returning
  | succeeded
  | failed
  deriving DecidableEq, Repr

/-- A write reads the document once more after it has been indexed. -/
def Request.afterIndex : Request → Phase
  | .write _ => .returning
  | _ => .succeeded

/-- From reading the content to index until the last chunk is inserted. -/
def Phase.reindexes : Phase → Bool
  | .indexing _ => true
  | .inserting _ (_ :: _) => true
  | _ => false

def Phase.ended : Phase → Bool
  | .succeeded => true
  | .failed => true
  | _ => false

structure Call where
  request : Request
  phase : Phase
  deriving DecidableEq, Repr

/-- What has happened to the document: a call read it, or stored what it made of it. -/
inductive Event where
  | opened (call : Nat)
  | appended (call : Nat) (entry : List Char)
  | replaced
  deriving DecidableEq, Repr

def Request.event (call : Nat) : Request → Event
  | .write _ => .replaced
  | .append content => .appended call content
  | .appendMemory entry => .appended call entry

/-- The document with the rows of its chunks, the calls there were, and the events, newest first. -/
structure DocumentState where
  content : List Char
  chunks : List (List Char × Nat)
  calls : List Call
  log : List Event
  deriving DecidableEq, Repr

def DocumentState.move (s : DocumentState) (i : Nat) (request : Request) (phase : Phase) :
    DocumentState :=
  { s with calls := s.calls.set i ⟨request, phase⟩ }

inductive Action where
  | begin (request : Request)
  | advance (call : Nat) (fails : Bool)
  deriving DecidableEq, Repr

/-- The next storage step of a call. An index that is taken makes the insert fail. -/
def advanceCall (s : DocumentState) (i : Nat) (request : Request) (fails : Bool) :
    Phase → DocumentState
  | .starting =>
    if fails then s.move i request .failed
    else { s.move i request (.opened s.content) with log := .opened i :: s.log }
  | .opened doc =>
    if fails then s.move i request .failed
    else
      { s.move i request .updated with
        content := request.newContent doc, log := request.event i :: s.log }
  | .updated =>
    if fails then s.move i request .failed
    else s.move i request (.indexing (chunkDocument s.content .default))
  | .indexing chunks =>
    if fails then s.move i request .failed
    else { s.move i request (.inserting 0 chunks) with chunks := [] }
  | .inserting _ [] => s.move i request request.afterIndex
  | .inserting index (text :: rest) =>
    if fails || s.chunks.any (·.2 == index) then s.move i request .failed
    else
      { s.move i request (.inserting (index + 1) rest) with chunks := s.chunks ++ [(text, index)] }
  | .returning => if fails then s.move i request .failed else s.move i request .succeeded
  | .succeeded => s
  | .failed => s

def documentStep (s : DocumentState) : Action → DocumentState
  | .begin request => { s with calls := s.calls ++ [⟨request, .starting⟩] }
  | .advance i fails =>
    match s.calls[i]? with
    | some call => advanceCall s i call.request fails call.phase
    | none => s

/-- A document no call works on, with its index. A document that is not there yet is an empty one. -/
def indexedDocument (content : List Char) : DocumentState :=
  ⟨content, (chunkDocument content .default).zipIdx, [], []⟩

def Quiet (s : DocumentState) : Prop := ∀ call ∈ s.calls, call.phase.ended = true

/-- A write has replaced the document since a call appended to it. -/
def ReplacedSince (i : Nat) (entry : List Char) (log : List Event) : Prop :=
  ∃ newer older, log = newer ++ .appended i entry :: older ∧ .replaced ∈ newer

/-- The entry of every append that has succeeded is in the document, unless a later write has
replaced the document. -/
def AppendsPresent (s : DocumentState) : Prop :=
  ∀ (i : Nat) (request : Request) (entry : List Char), s.calls[i]? = some ⟨request, .succeeded⟩ →
    request.entry = some entry → entry <:+: s.content ∨ ReplacedSince i entry s.log

/-- While no call is in progress, the stored chunks are those of the content. -/
def IndexFresh (s : DocumentState) : Prop :=
  Quiet s → s.chunks = (chunkDocument s.content .default).zipIdx

/-- The entries appended since a call read the document, without those a write has replaced. -/
def missed (i : Nat) : List Event → List (List Char)
  | [] => []
  | .opened j :: log => if j = i then [] else missed i log
  | .appended _ entry :: log => entry :: missed i log
  | .replaced :: _ => []

/-- An append stores its text only when no other append has stored one since it read the document. -/
def AppendsInTurn (s : DocumentState) : Action → Prop
  | .begin _ => True
  | .advance i fails =>
    match s.calls[i]? with
    | some ⟨request, .opened _⟩ => fails = true ∨ request.entry = none ∨ missed i s.log = []
    | _ => True

/-- No storage step fails from the update of the document to the last insert of its chunks, and no
call reads the content to index while another one is between its own read and its last insert. -/
def IndexesInTurn (s : DocumentState) : Action → Prop
  | .begin _ => True
  | .advance i fails =>
    match s.calls[i]? with
    | some ⟨_, .updated⟩ => fails = false ∧ ∀ call ∈ s.calls, call.phase.reindexes = false
    | some ⟨_, phase⟩ => phase.reindexes = true → fails = false
    | none => True

/-- What a storage step of a call does. -/
inductive Turn (s : DocumentState) (i : Nat) (request : Request) (fails : Bool) :
    Phase → DocumentState → Prop
  | opens (h : fails = false) : Turn s i request fails .starting
      { s.move i request (.opened s.content) with log := .opened i :: s.log }
  | updates (doc : List Char) (h : fails = false) : Turn s i request fails (.opened doc)
      { s.move i request .updated with
        content := request.newContent doc, log := request.event i :: s.log }
  | reads (h : fails = false) : Turn s i request fails .updated
      (s.move i request (.indexing (chunkDocument s.content .default)))
  | deletes (chunks : List (List Char)) (h : fails = false) :
      Turn s i request fails (.indexing chunks)
        { s.move i request (.inserting 0 chunks) with chunks := [] }
  | inserts (index : Nat) (text : List Char) (rest : List (List Char)) (h : fails = false) :
      Turn s i request fails (.inserting index (text :: rest))
        { s.move i request (.inserting (index + 1) rest) with
          chunks := s.chunks ++ [(text, index)] }
  | indexed (index : Nat) :
      Turn s i request fails (.inserting index []) (s.move i request request.afterIndex)
  | returns (h : fails = false) : Turn s i request fails .returning (s.move i request .succeeded)
  | breaks (phase : Phase) (h : fails = true) : Turn s i request fails phase (s.move i request .failed)
  | collides (index : Nat) (text : List Char) (rest : List (List Char))
      (h : ∃ row ∈ s.chunks, row.2 = index) :
      Turn s i request fails (.inserting index (text :: rest)) (s.move i request .failed)
  | rests (phase : Phase) (h : phase.ended = true) : Turn s i request fails phase s

theorem advanceCall_turn (s : DocumentState) (i : Nat) (request : Request) (fails : Bool)
    (phase : Phase) : Turn s i request fails phase (advanceCall s i request fails phase) := by
  cases fails with
  | true =>
    cases phase with
    | inserting index rest =>
      cases rest with
      | nil => exact .indexed index
      | cons text rest => exact .breaks _ rfl
    | succeeded => exact .rests _ rfl
    | failed => exact .rests _ rfl
    | _ => exact .breaks _ rfl
  | false =>
    cases phase with
    | starting => exact .opens rfl
    | opened doc => exact .updates doc rfl
    | updated => exact .reads rfl
    | indexing chunks => exact .deletes chunks rfl
    | inserting index rest =>
      cases rest with
      | nil => exact .indexed index
      | cons text rest =>
        by_cases htaken : s.chunks.any (·.2 == index) = true
        · have hrow : ∃ row ∈ s.chunks, row.2 = index := by simpa using htaken
          rw [advanceCall, htaken, Bool.or_true, if_pos rfl]
          exact .collides index text rest hrow
        · rw [advanceCall, Bool.eq_false_iff.mpr htaken, Bool.or_false, if_neg Bool.false_ne_true]
          exact .inserts index text rest rfl
    | returning => exact .returns rfl
    | succeeded => exact .rests _ rfl
    | failed => exact .rests _ rfl

end Gyre.Workspace
