/- digest: Answers of an MCP server that come as a stream of events, in chunks. -/

import Gyre.Lib.ByteLines
import Gyre.Tools.Mcp.Wire
import Mathlib.Algebra.Group.Int.Defs

/-!
A chunk ends wherever the network ends it. What the stream should give is said over its events, without
chunks.
-/

set_option autoImplicit false
set_option relaxedAutoImplicit false

namespace Gyre.Tools.Mcp.EventStream

open Gyre.Llm Gyre.Lib Gyre.Tools.Mcp.Wire

section Responses

def asU64 : Json → Option UInt64
  | .number (.int n) => if 0 ≤ n ∧ n < 2 ^ 64 then some (UInt64.ofNat n.toNat) else none
  | _ => none

def asI32 : Json → Option Int32
  | .number (.int n) => if -2 ^ 31 ≤ n ∧ n < 2 ^ 31 then some (Int32.ofInt n) else none
  | _ => none

/-- A field that is given twice is an error. -/
def unrepeated (names : List String) : Json → Bool
  | .object fields => names.all fun name => fields.countP (·.1 == name) ≤ 1
  | _ => true

structure McpError where
  code : Int32
  message : String
  data : Option Json
  deriving DecidableEq

def McpError.read (v : Json) : Option McpError :=
  if fitsIn v 3 && unrepeated ["code", "message", "data"] v then do
    let code ← required asI32 (field v 0 ["code"])
    let message ← required Json.asStr (field v 1 ["message"])
    let data ← optionField v 2 "data" some
    some ⟨code, message, data⟩
  else none

structure McpResponse where
  jsonrpc : String
  id : UInt64
  result : Option Json
  error : Option McpError
  deriving DecidableEq

def McpResponse.read (v : Json) : Option McpResponse :=
  if fitsIn v 4 && unrepeated ["jsonrpc", "id", "result", "error"] v then do
    let jsonrpc ← required Json.asStr (field v 0 ["jsonrpc"])
    let id ← required asU64 (field v 1 ["id"])
    let result ← optionField v 2 "result" some
    let error ← optionField v 3 "error" McpError.read
    some ⟨jsonrpc, id, result, error⟩
  else none

end Responses

/-- What the HTTP client hands over: the whole body is in `text` and `json`, its chunks are in
`stream`. -/
structure HttpResponse where
  status : Nat
  statusText : String
  contentType : Option (List Char)
  text : String
  json : Except String McpResponse
  stream : List (Except String (List UInt8))

namespace HttpResponse

def isSuccess (r : HttpResponse) : Bool := decide (200 ≤ r.status) && decide (r.status < 300)

def isEventStream (r : HttpResponse) : Bool :=
  Text.contains "text/event-stream".toList (r.contentType.getD [])

end HttpResponse

section Reading

variable (readJson : List Char → Option Json)

/-- `strip_prefix` -/
def strip (start line : List Char) : Option (List Char) :=
  if start.isPrefixOf line then some (line.drop start.length) else none

/-- A line with a response in it. -/
def responseIn (line : List Char) : Option McpResponse :=
  (strip "data: ".toList line).bind fun json => (readJson json).bind McpResponse.read

@[grind =] def readStream : List Char → List (Except String (List UInt8)) → Except String McpResponse
  | buffer, [] => .error ("No valid data in SSE response: " ++ String.ofList buffer)
  | _, .error e :: _ => .error ("Failed to read SSE chunk: " ++ e)
  | buffer, .ok chunk :: rest =>
    match (Text.lines (buffer ++ Bytes.fromUtf8Lossy chunk)).findSome? (responseIn readJson) with
    | some response => .ok response
    | none => readStream (buffer ++ Bytes.fromUtf8Lossy chunk) rest

def parseResponse (r : HttpResponse) : Except String McpResponse :=
  if !r.isSuccess then .error ("MCP server returned status: " ++ r.statusText ++ " - " ++ r.text)
  else if r.isEventStream then readStream readJson [] r.stream
  else match r.json with
    | .ok response => .ok response
    | .error e => .error ("Failed to parse MCP response: " ++ e)

end Reading

section Events

variable (readJson : List Char → Option Json)

/-- The lines of an event stream: they end with `\r\n`, `\n` or `\r`. -/
@[grind =] def eventLines : List Char → List (List Char)
  | [] => []
  | '\r' :: '\n' :: rest => [] :: eventLines rest
  | c :: rest =>
    if c = '\r' ∨ c = '\n' then [] :: eventLines rest
    else match eventLines rest with
      | [] => [[c]]
      | line :: lines => (c :: line) :: lines

/-- The value of a line's field `data`. -/
def dataOf (line : List Char) : Option (List Char) :=
  if line = "data".toList then some []
  else (strip "data:".toList line).map fun value => (strip [' '] value).getD value

/-- The data of each event: an empty line ends it, and the end of the stream does. -/
@[grind =] def events : List (List Char) → List (List Char) → List (List Char)
  | data, [] => if data = [] then [] else [Text.joinLines data]
  | data, line :: rest =>
    if line = [] then (if data = [] then [] else [Text.joinLines data]) ++ events [] rest
    else events (data ++ (dataOf line).toList) rest

/-- What a stream says: one byte order mark may begin it. -/
def eventsOf (body : List UInt8) : List (List Char) :=
  let said := Bytes.fromUtf8Lossy body
  events [] (eventLines ((strip ['\uFEFF'] said).getD said))

/-- A response to a request: it has a result or an error. -/
def responseTo (id : UInt64) (v : Json) : Option McpResponse :=
  if (v.get "result").isSome || (v.get "error").isSome then
    (McpResponse.read v).filter fun response => response.id == id
  else none

/-- The first event with a response to the request. -/
def answer (id : UInt64) (body : List UInt8) : Option McpResponse :=
  (eventsOf body).findSome? fun data => (readJson data).bind (responseTo id)

end Events

section Chunks

variable (readJson : List Char → Option Json)

/-- What is heard in a line: a carriage return belongs to the ending, not to a line that has none. -/
def heardIn (ended : Bool) (line : List Char) : Option McpResponse :=
  responseIn readJson (if ended then Text.stripReturn line else line)

theorem responseIn_nil : responseIn readJson [] = none := rfl

theorem scanLines_heardIn {pieces : List (List Char)} (hne : pieces ≠ []) :
    Chunked.scanLines (heardIn readJson) pieces =
      (pieces.dropLast.map Text.stripReturn ++
        if (pieces.getLast?.getD []).isEmpty then [] else [pieces.getLast?.getD []]).findSome?
          (responseIn readJson) := by
  induction pieces with
  | nil => exact absurd rfl hne
  | cons piece pieces ih =>
    cases pieces with
    | nil =>
      cases piece with
      | nil => exact responseIn_nil readJson
      | cons c piece =>
        have hlast : [c :: piece].findSome? (responseIn readJson) = responseIn readJson (c :: piece) := by
          simp
        exact hlast.symm
    | cons next pieces =>
      have hrest := ih (List.cons_ne_nil next pieces)
      have hlast : (piece :: next :: pieces).getLast? = (next :: pieces).getLast? := by
        rw [List.getLast?_cons_cons]
      rw [Chunked.scanLines, hrest, hlast, List.dropLast_cons_cons, List.map_cons, List.cons_append,
        List.findSome?_cons]
      unfold heardIn
      rw [if_pos rfl]
      cases responseIn readJson (Text.stripReturn piece) with
      | none => rfl
      | some response => rfl
      exact nofun

/-- Going through the lines is the same as going through the pieces between line endings. -/
theorem findSome?_lines (buffer : List Char) :
    (Text.lines buffer).findSome? (responseIn readJson) = Chunked.scan (heardIn readJson) buffer :=
  (scanLines_heardIn readJson (List.splitOn_ne_nil '\n' buffer)).symm

/-- The loop over the chunks is the generic one. -/
theorem readStream_toOption (buffer : List Char) (chunks : List (List UInt8)) :
    (readStream readJson buffer (chunks.map .ok)).toOption =
      Chunked.readChunks Bytes.fromUtf8Lossy (heardIn readJson) buffer chunks := by
  induction chunks generalizing buffer with
  | nil => rfl
  | cons chunk chunks ih =>
    rw [List.map_cons, readStream, Chunked.readChunks, ← findSome?_lines, ← ih]
    cases (Text.lines (buffer ++ Bytes.fromUtf8Lossy chunk)).findSome? (responseIn readJson) with
    | none => rfl
    | some response => rfl

theorem parseResponse_stream {r : HttpResponse} (hsuccess : r.isSuccess = true)
    (hevents : r.isEventStream = true) : parseResponse readJson r = readStream readJson [] r.stream := by
  unfold parseResponse
  rw [hsuccess, hevents]
  rfl

end Chunks

/-- However a stream of events comes in chunks, the answer to a request is read from it exactly if each
of its lines, decoded in any pieces, is heard as nothing or as the answer, and as the answer where the
lines before it may go unheard. -/
theorem streamed_answer_iff (readJson : List Char → Option Json) {r : HttpResponse}
    (hsuccess : r.isSuccess = true) (hevents : r.isEventStream = true) (id : UInt64)
    (body : List UInt8) :
    (∀ chunks : List (List UInt8), chunks.flatten = body →
        (parseResponse readJson { r with stream := chunks.map .ok }).toOption =
          answer readJson id body) ↔
      Chunked.Decides Bytes.fromUtf8Lossy (heardIn readJson) (answer readJson id body)
        (body.splitOn 10) := by
  have hread : ∀ chunks : List (List UInt8),
      (parseResponse readJson { r with stream := chunks.map .ok }).toOption =
        Chunked.readChunks Bytes.fromUtf8Lossy (heardIn readJson) [] chunks := by
    intro chunks
    have hstream := parseResponse_stream readJson (r := { r with stream := chunks.map .ok }) hsuccess hevents
    rw [hstream]
    exact readStream_toOption readJson [] chunks
  rw [← Chunked.readChunks_eq_iff Bytes.fromUtf8Lossy_append
    (fun x => Bytes.newline_notMem_fromUtf8Lossy) (responseIn_nil readJson)]
  exact forall₂_congr fun chunks _ => by rw [hread]

section Samples

/-- A server's request and the response to request 1, as they are written. -/
def sampleTexts : List (List Char × Json) :=
  [("\x7b\"jsonrpc\":\"2.0\",\"id\":7,\"method\":\"ping\"\x7d".toList,
      .object [("jsonrpc", .string "2.0"), ("id", .number (.int 7)), ("method", .string "ping")]),
    ("\x7b\"jsonrpc\":\"2.0\",\"id\":1,\"result\":\x7b\x7d\x7d".toList,
      .object [("jsonrpc", .string "2.0"), ("id", .number (.int 1)), ("result", .object [])])]

def sampleJson (s : List Char) : Option Json := sampleTexts.lookup s

/-- One event for each text. -/
def sampleBody (texts : List (List Char)) : List UInt8 :=
  Bytes.ofText (texts.flatMap fun s => "data: ".toList ++ s ++ "\n\n".toList)

def sampleResponse : HttpResponse where
  status := 200
  statusText := "200 OK"
  contentType := some "text/event-stream".toList
  text := ""
  json := .error ""
  stream := []

end Samples

theorem streamed_answer_iff_sample :
    (∀ chunks : List (List UInt8), chunks.flatten = sampleBody (sampleTexts.map (·.1)) →
        (parseResponse sampleJson { sampleResponse with stream := chunks.map .ok }).toOption =
          answer sampleJson 1 (sampleBody (sampleTexts.map (·.1)))) ↔
      Chunked.Decides Bytes.fromUtf8Lossy (heardIn sampleJson)
        (answer sampleJson 1 (sampleBody (sampleTexts.map (·.1))))
        ((sampleBody (sampleTexts.map (·.1))).splitOn 10) :=
  streamed_answer_iff sampleJson (by decide) (by decide) 1 _

/-- A server's request that comes first is returned as the answer to another request. -/
theorem ping_returned :
    (parseResponse sampleJson
        { sampleResponse with stream := [.ok (sampleBody (sampleTexts.map (·.1)))] }).toOption =
        some ⟨"2.0", 7, none, none⟩ ∧
      answer sampleJson 1 (sampleBody (sampleTexts.map (·.1))) =
        some ⟨"2.0", 1, some (.object []), none⟩ := by
  decide +kernel

end Gyre.Tools.Mcp.EventStream
