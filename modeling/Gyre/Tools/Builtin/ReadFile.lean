/- digest: Exactly when reading a range of a file's lines gives that range. -/

import Gyre.Lib.Lines
import Gyre.Tools.Builtin.Call

/-!
The range is cut out of the list of lines with a start that is not compared with its length, and the
end of the range is a sum that can leave the 64 bits.
-/

set_option autoImplicit false
set_option relaxedAutoImplicit false

namespace Gyre.Tools.Builtin

open Gyre.Lib Gyre.Llm

/-- Maximum file size for reading (1MB). -/
def maxReadSize : Nat := 1024 * 1024

/-- What a call meets: the validated path, the size and the text of the file there, and whether the
build checks sums for overflow. -/
structure ReadWorld where
  validatePath : String → Except CallError String
  metadata : String → Except String Nat
  readToString : String → Except String (List Char)
  overflowChecks : Bool

/-- The result of the tool. -/
structure ReadOutput where
  content : List Char
  totalLines : Nat
  linesShown : Nat
  path : String
  deriving DecidableEq, Repr

/-- The sum of two `usize`; where overflow is checked there is none beyond the type. -/
def addUsize (overflowChecks : Bool) (a b : Nat) : Option Nat :=
  if a + b < 2 ^ 64 then some (a + b) else if overflowChecks then none else some ((a + b) % 2 ^ 64)

/-- `&lines[start..stop]`, which panics when the range is out of order or leaves the list. -/
def sliceLines (lines : List (List Char)) (start stop : Nat) : Option (List (List Char)) :=
  if start ≤ stop ∧ stop ≤ lines.length then some ((lines.take stop).drop start) else none

/-- `{:>6}│ {}`. -/
def numberedLine (number : Nat) (line : List Char) : List Char :=
  let digits := Nat.toDigits 10 number
  List.replicate (6 - digits.length) ' ' ++ digits ++ "│ ".toList ++ line

/-- The first line of a range, counted from 0. -/
def startLine (offset : Nat) : Nat := if offset > 0 then offset - 1 else 0

/-- The end of a range of lines, counted from 0. -/
def endLine (overflowChecks : Bool) (offset : Nat) (limit : Option Nat) (totalLines : Nat) : Option Nat :=
  match limit with
  | some lim => (addUsize overflowChecks (startLine offset) lim).map (min · totalLines)
  | none => some totalLines

/-- The range of a text's lines that is shown, or a panic. -/
def showLines (overflowChecks : Bool) (offset : Nat) (limit : Option Nat) (content : List Char)
    (path : String) : Option ReadOutput := do
  let lines := Text.lines content
  let start := startLine offset
  let stop ← endLine overflowChecks offset limit lines.length
  let selected ← sliceLines lines start stop
  some ⟨Text.joinLines (selected.mapIdx fun i line => numberedLine (start + i + 1) line),
    lines.length, stop - start, path⟩

/-- `ReadFileTool::execute`; a panic gives nothing. -/
def readFile (w : ReadWorld) (params : Json) : Option (Except CallError ReadOutput) :=
  match requireStr params "path" with
  | .error e => some (.error e)
  | .ok pathStr =>
    let offset := ((params.get "offset").bind asU64).getD 0
    let limit := (params.get "limit").bind asU64
    match w.validatePath pathStr with
    | .error e => some (.error e)
    | .ok path =>
      match w.metadata path with
      | .error e => some (.error (.executionFailed s!"Cannot access file: {e}"))
      | .ok size =>
        if size > maxReadSize then
          some (.error (.executionFailed
            s!"File too large ({size} bytes). Maximum is {maxReadSize} bytes. Use offset/limit for partial reads."))
        else
          match w.readToString path with
          | .error e => some (.error (.executionFailed s!"Failed to read file: {e}"))
          | .ok content => (showLines w.overflowChecks offset limit content path).map .ok

/-- The lines a range asks for, with their numbers, which start at 1. -/
def linesInRange (offset : Nat) (limit : Option Nat) (content : List Char) : List (List Char × Nat) :=
  ((Text.lines content).zipIdx 1).filter fun l =>
    max offset 1 ≤ l.2 ∧ ∀ lim ∈ limit, l.2 < max offset 1 + lim

/-- The output is the lines asked for, each with its number, and their count. -/
structure ShowsRange (offset : Nat) (limit : Option Nat) (text : List Char) (out : ReadOutput) :
    Prop where
  content : out.content =
    Text.joinLines ((linesInRange offset limit text).map fun l => numberedLine l.2 l.1)
  totalLines : out.totalLines = (Text.lines text).length
  linesShown : out.linesShown = (linesInRange offset limit text).length

/-- The range starts no later than behind the last line, and its end can be written in 64 bits. -/
def RangeFits (offset : Nat) (limit : Option Nat) (text : List Char) : Prop :=
  startLine offset ≤ (Text.lines text).length ∧ ∀ lim ∈ limit, startLine offset + lim < 2 ^ 64

section Ranges

private theorem zipIdx_filter_range {α : Type} (items : List α) {start stop : Nat} (hle : start ≤ stop)
    (hstop : stop ≤ items.length) :
    (items.zipIdx 1).filter (fun l => start < l.2 ∧ l.2 ≤ stop) =
      ((items.take stop).drop start).zipIdx (start + 1) := by
  have hsplit : items = items.take start ++ ((items.take stop).drop start ++ items.drop stop) := by
    rw [← List.append_assoc]
    have hfront : items.take start ++ (items.take stop).drop start = items.take stop := by
      have htake : (items.take stop).take start = items.take start := by
        rw [List.take_take, Nat.min_eq_left hle]
      rw [← htake, List.take_append_drop]
    rw [hfront, List.take_append_drop]
  have hlength : (items.take start).length = start := by
    rw [List.length_take]
    omega
  have hmiddle : ((items.take stop).drop start).length = stop - start := by
    rw [List.length_drop, List.length_take]
    omega
  conv_lhs => rw [hsplit]
  rw [List.zipIdx_append, List.zipIdx_append, hlength, hmiddle, List.filter_append, List.filter_append]
  have hbefore : ((items.take start).zipIdx 1).filter (fun l => start < l.2 ∧ l.2 ≤ stop) = [] := by
    refine List.filter_eq_nil_iff.mpr fun l hl => ?_
    have hplace := List.snd_lt_add_of_mem_zipIdx hl
    have hout : ¬ (start < l.2 ∧ l.2 ≤ stop) := by omega
    simpa using hout
  have hin : (((items.take stop).drop start).zipIdx (1 + start)).filter
      (fun l => start < l.2 ∧ l.2 ≤ stop) = ((items.take stop).drop start).zipIdx (1 + start) := by
    refine List.filter_eq_self.mpr fun l hl => ?_
    have hplace := List.snd_lt_add_of_mem_zipIdx hl
    have hfirst := List.le_snd_of_mem_zipIdx hl
    have hin : start < l.2 ∧ l.2 ≤ stop := by omega
    simpa using hin
  have hafter : ((items.drop stop).zipIdx (1 + start + (stop - start))).filter
      (fun l => start < l.2 ∧ l.2 ≤ stop) = [] := by
    refine List.filter_eq_nil_iff.mpr fun l hl => ?_
    have hfirst := List.le_snd_of_mem_zipIdx hl
    have hout : ¬ (start < l.2 ∧ l.2 ≤ stop) := by omega
    simpa using hout
  rw [hbefore, hin, hafter, List.nil_append, List.append_nil, Nat.add_comm 1 start]

variable {overflowChecks : Bool} {offset : Nat} {limit : Option Nat} {text : List Char} {path : String}

/-- Where a range fits, it ends where it should, or with the last line. -/
theorem endLine_of_fits (overflowChecks : Bool) (hfits : RangeFits offset limit text) :
    ∃ stop, endLine overflowChecks offset limit (Text.lines text).length = some stop ∧
      startLine offset ≤ stop ∧ stop ≤ (Text.lines text).length ∧
      ∀ n ≤ (Text.lines text).length, n ≤ stop ↔ ∀ lim ∈ limit, n ≤ startLine offset + lim := by
  obtain ⟨hstart, hsum⟩ := hfits
  cases limit with
  | none => exact ⟨_, rfl, hstart, Nat.le_refl _, fun n hn => by simpa using hn⟩
  | some lim =>
    have hlt := hsum lim rfl
    refine ⟨min (startLine offset + lim) (Text.lines text).length, ?_, by omega, Nat.min_le_right _ _, ?_⟩
    · rw [endLine, addUsize, if_pos hlt]
      rfl
    · intro n hn
      simp only [Option.mem_some_iff, forall_eq']
      omega

/-- Where it does not, the call panics. -/
theorem showLines_of_not_fits (hlimit : ∀ lim ∈ limit, lim < 2 ^ 64) (hoffset : offset < 2 ^ 64)
    (hnot : ¬ RangeFits offset limit text) : showLines overflowChecks offset limit text path = none := by
  have hstart : startLine offset < 2 ^ 64 := by
    unfold startLine
    split <;> omega
  have hslice (stop : Nat) (hstop : endLine overflowChecks offset limit (Text.lines text).length = some stop) :
      ¬ (startLine offset ≤ stop ∧ stop ≤ (Text.lines text).length) := by
    rintro ⟨hle, hlast⟩
    refine hnot ⟨Nat.le_trans hle hlast, fun lim hlim => ?_⟩
    have hsize := hlimit lim hlim
    rw [Option.mem_def] at hlim
    subst hlim
    refine Nat.lt_of_not_le fun hover => ?_
    rw [endLine, addUsize, if_neg (Nat.not_lt.mpr hover)] at hstop
    split at hstop
    · cases hstop
    · -- the sum wraps to less than the start
      cases hstop
      have hwrapped := Nat.le_trans hle (Nat.min_le_left _ _)
      omega
  unfold showLines
  dsimp only
  cases hstop : endLine overflowChecks offset limit (Text.lines text).length with
  | none => rfl
  | some stop =>
    have hnone : sliceLines (Text.lines text) (startLine offset) stop = none := if_neg (hslice stop hstop)
    simp [hnone]

theorem showLines_of_fits (overflowChecks : Bool) (path : String) (hfits : RangeFits offset limit text) :
    ∃ out, showLines overflowChecks offset limit text path = some out ∧ ShowsRange offset limit text out := by
  obtain ⟨stop, hstop, hle, hlast, hin⟩ := endLine_of_fits overflowChecks hfits
  have hslice : sliceLines (Text.lines text) (startLine offset) stop =
      some (((Text.lines text).take stop).drop (startLine offset)) := if_pos ⟨hle, hlast⟩
  have hfirst : max offset 1 = startLine offset + 1 := by
    unfold startLine
    split <;> omega
  have hrange : linesInRange offset limit text =
      (((Text.lines text).take stop).drop (startLine offset)).zipIdx (startLine offset + 1) := by
    rw [← zipIdx_filter_range _ hle hlast, linesInRange]
    refine List.filter_congr fun l hl => ?_
    have hplace := List.snd_lt_add_of_mem_zipIdx hl
    have hsame := hin l.2 (by omega)
    rw [hfirst, Bool.eq_iff_iff, decide_eq_true_iff, decide_eq_true_iff, hsame]
    refine and_congr Nat.lt_iff_add_one_le.symm (forall₂_congr fun lim _ => ?_)
    omega
  refine ⟨⟨Text.joinLines ((((Text.lines text).take stop).drop (startLine offset)).mapIdx fun i line =>
    numberedLine (startLine offset + i + 1) line), (Text.lines text).length,
    stop - startLine offset, path⟩, ?_, ?_, rfl, ?_⟩
  · simp [showLines, hstop, hslice]
  · rw [hrange]
    refine congrArg Text.joinLines (List.mapIdx_eq_iff.mpr fun i => ?_)
    rw [List.getElem?_map, List.getElem?_zipIdx, Option.map_map]
    refine Option.map_congr fun line _ => ?_
    rw [Function.comp_apply, Nat.add_right_comm]
  · rw [hrange, List.length_zipIdx, List.length_drop, List.length_take]
    dsimp only
    omega

end Ranges

section Calls

variable {w : ReadWorld} {params : Json} {pathStr path : String} {text : List Char}

/-- Reading a range of a file that can be accessed shows exactly that range, without a panic, if and
only if the file is small enough and the range fits. -/
theorem read_file_iff (hpath : requireStr params "path" = .ok pathStr)
    (hvalid : w.validatePath pathStr = .ok path) (hsize : w.metadata path = .ok (Text.byteLen text))
    (hread : w.readToString path = .ok text) :
    let offset := ((params.get "offset").bind asU64).getD 0
    let limit := (params.get "limit").bind asU64
    (∃ out, readFile w params = some (.ok out) ∧ ShowsRange offset limit text out) ↔
      Text.byteLen text ≤ maxReadSize ∧ RangeFits offset limit text := by
  intro offset limit
  have hlimit : ∀ lim ∈ limit, lim < 2 ^ 64 := fun lim hlim => by
    obtain ⟨v, -, hv⟩ := Option.bind_eq_some_iff.mp hlim
    exact asU64_lt hv
  have hoffset : offset < 2 ^ 64 := by
    have hread (v : Option Nat) (hv : v = (params.get "offset").bind asU64) : v.getD 0 < 2 ^ 64 := by
      cases v with
      | none => exact Nat.two_pow_pos 64
      | some n =>
        obtain ⟨field, -, hfield⟩ := Option.bind_eq_some_iff.mp hv.symm
        exact asU64_lt hfield
    exact hread _ rfl
  unfold readFile
  simp only [hpath, hvalid, hsize, hread]
  by_cases hlarge : Text.byteLen text > maxReadSize
  · rw [if_pos hlarge]
    refine iff_of_false ?_ fun h => by omega
    rintro ⟨out, hout, -⟩
    cases hout
  · rw [if_neg hlarge]
    by_cases hfits : RangeFits offset limit text
    · obtain ⟨out, hout, hshows⟩ := showLines_of_fits w.overflowChecks path hfits
      refine iff_of_true ⟨out, ?_, hshows⟩ ⟨by omega, hfits⟩
      rw [hout]
      rfl
    · refine iff_of_false ?_ fun h => hfits h.2
      rintro ⟨out, hout, -⟩
      rw [showLines_of_not_fits hlimit hoffset hfits] at hout
      cases hout

end Calls

section Example

private def twoLines : List Char := "one\ntwo\n".toList

/-- A world with one file. -/
private def oneFile : ReadWorld where
  validatePath path := .ok path
  metadata _ := .ok (Text.byteLen twoLines)
  readToString _ := .ok twoLines
  overflowChecks := false

private def call (offset : Int) : Json :=
  .object [("path", .string "a.txt"), ("offset", .number (.int offset))]

theorem read_file_second_line :
    (∃ out, readFile oneFile (call 2) = some (.ok out) ∧ ShowsRange 2 none twoLines out) ↔
      Text.byteLen twoLines ≤ maxReadSize ∧ RangeFits 2 none twoLines :=
  read_file_iff rfl rfl rfl rfl

/-- An offset behind the end is a panic. -/
theorem read_file_behind_end :
    readFile oneFile (call 4) = none ∧
      ¬ ∃ out, readFile oneFile (call 4) = some (.ok out) ∧ ShowsRange 4 none twoLines out := by
  have hnone : readFile oneFile (call 4) = none := by decide +kernel
  refine ⟨hnone, ?_⟩
  rintro ⟨out, hout, -⟩
  rw [hnone] at hout
  cases hout

end Example

end Gyre.Tools.Builtin
