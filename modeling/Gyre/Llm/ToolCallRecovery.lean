/- digest: Which tool calls are recovered from the text of an answer, and in what order. -/

import Gyre.Lib.Blocks
import Gyre.Llm.Reasoning
import Mathlib.Data.List.Nodup

/-!
A call is recovered from every block of a known form whose body names a tool. The forms are looked
for one after another, and the calls of every answer are numbered from zero.
-/

set_option autoImplicit false
set_option relaxedAutoImplicit false

namespace Gyre.Llm.ToolCallRecovery

open Gyre.Lib Gyre.Lib.Blocks

/-- The name and arguments that a block asks for. An empty body names nothing. -/
def namedCall (serde : Serde) (tools : List ToolDefinition) (b : Block) : Option (String × Json) :=
  let inner := Text.trim b.body
  if inner.isEmpty then none
  else recoveredCall serde (tools.map (·.name)) (String.ofList inner)

/-- `recoverBlock`, with the block from which a call is read. -/
def traceBlock (serde : Serde) (tools : List ToolDefinition) (calls : List (Block × ToolCall))
    (b : Block) : List (Block × ToolCall) :=
  match namedCall serde tools b with
  | some (name, arguments) => calls ++ [(b, ⟨s!"recovered_{calls.length}", name, arguments⟩)]
  | none => calls

def formBlocks (content : String) (tags : String × String) : List Block :=
  blocksFrom tags.1.toList tags.2.toList (content.toList.length + 1) 0 content.toList

/-- `recoverToolCallsFromContent`, with the block from which each call is read. -/
def recoverTraced (serde : Serde) (content : String) (tools : List ToolDefinition) :
    List (Block × ToolCall) :=
  toolCallTags.foldl (fun calls tags =>
    (formBlocks content tags).foldl (traceBlock serde tools) calls) []

/-- A block of one form. -/
def IsBlockOf (content : String) (tags : String × String) (b : Block) : Prop :=
  ∃ blocks, Scan tags.1.toList tags.2.toList 0 content.toList blocks ∧ b ∈ blocks

/-- A block of some form whose body names a tool. -/
def NamesTool (serde : Serde) (content : String) (tools : List ToolDefinition)
    (tags : String × String) (b : Block) : Prop :=
  IsBlockOf content tags b ∧ (namedCall serde tools b).isSome = true

/-- The calls of an answer are those of its blocks, one for each and in the order of the text. -/
structure AnswersBlocks (serde : Serde) (content : String) (tools : List ToolDefinition) : Prop where
  calls : (recoverTraced serde content tools).map Prod.snd =
    recoverToolCallsFromContent serde content tools
  blocks : ∀ b, b ∈ (recoverTraced serde content tools).map Prod.fst ↔
    ∃ tags ∈ toolCallTags, NamesTool serde content tools tags b
  named : ∀ read ∈ recoverTraced serde content tools,
    namedCall serde tools read.1 = some (read.2.name, read.2.arguments)
  inOrder : ((recoverTraced serde content tools).map Prod.fst).Pairwise fun b b' =>
    b.start < b'.start

def recoveredIds (serde : Serde) (answer : String × List ToolDefinition) : List String :=
  (recoverToolCallsFromContent serde answer.1 answer.2).map (·.id)

/-- Recovery from the answers of a conversation, each with the tools that were on offer. -/
structure FaithfulRecovery (serde : Serde) (answers : List (String × List ToolDefinition)) : Prop where
  answered : ∀ answer ∈ answers, AnswersBlocks serde answer.1 answer.2
  distinct : (answers.flatMap (recoveredIds serde)).Nodup

/-- Of two forms, the blocks of the one that is looked for first come first. -/
def FormsInOrder (serde : Serde) (answer : String × List ToolDefinition) : Prop :=
  toolCallTags.Pairwise fun tags tags' => ∀ b b',
    NamesTool serde answer.1 answer.2 tags b → NamesTool serde answer.1 answer.2 tags' b' →
      b.start < b'.start

def HasCall (serde : Serde) (answer : String × List ToolDefinition) : Prop :=
  ∃ tags ∈ toolCallTags, ∃ b, NamesTool serde answer.1 answer.2 tags b

section Traces

variable {serde : Serde} {content : String} {tools : List ToolDefinition}
  {calls : List (Block × ToolCall)}

/-- The bodies of the blocks are what the search for tags gives. -/
theorem map_body_blocksFrom (opening closing : List Char) (fuel position : Nat) (text : List Char) :
    (blocksFrom opening closing fuel position text).map (fun b => Text.trim b.body) =
      taggedBodies opening closing fuel text := by
  induction fuel generalizing position text with
  | zero => rfl
  | succ fuel ih =>
    rw [blocksFrom, taggedBodies]
    cases Text.splitFirst opening text with
    | none => rfl
    | some parts =>
      obtain ⟨before, after⟩ := parts
      dsimp only
      cases Text.splitFirst closing after with
      | none => rfl
      | some inner =>
        obtain ⟨body, rest⟩ := inner
        dsimp only
        rw [List.map_cons, ih]

/-- Reading a block without its trace. -/
theorem map_traceBlock (b : Block) :
    (traceBlock serde tools calls b).map Prod.snd =
      recoverBlock serde (tools.map (·.name)) (calls.map Prod.snd) (Text.trim b.body) := by
  unfold traceBlock namedCall recoverBlock
  by_cases hempty : (Text.trim b.body).isEmpty = true
  · rw [if_pos hempty, if_pos hempty]
  · rw [if_neg hempty, if_neg hempty]
    cases recoveredCall serde (tools.map (·.name)) (String.ofList (Text.trim b.body)) with
    | none => rfl
    | some call => simp

theorem map_foldl_traceBlock (blocks : List Block) :
    (blocks.foldl (traceBlock serde tools) calls).map Prod.snd =
      (blocks.map fun b => Text.trim b.body).foldl (recoverBlock serde (tools.map (·.name)))
        (calls.map Prod.snd) := by
  induction blocks generalizing calls with
  | nil => rfl
  | cons b blocks ih => rw [List.foldl_cons, ih, map_traceBlock, List.map_cons, List.foldl_cons]

/-- The trace does not change what is recovered. -/
theorem map_recoverTraced (serde : Serde) (content : String) (tools : List ToolDefinition) :
    (recoverTraced serde content tools).map Prod.snd =
      recoverToolCallsFromContent serde content tools := by
  have hforms : ∀ (forms : List (String × String)) (calls : List (Block × ToolCall)),
      (forms.foldl (fun calls tags =>
        (formBlocks content tags).foldl (traceBlock serde tools) calls) calls).map Prod.snd =
      forms.foldl (fun calls tags =>
        (taggedBodies tags.1.toList tags.2.toList (content.toList.length + 1) content.toList).foldl
          (recoverBlock serde (tools.map (·.name))) calls) (calls.map Prod.snd) := by
    intro forms
    induction forms with
    | nil => exact fun calls => rfl
    | cons tags forms ih =>
      intro calls
      rw [List.foldl_cons, ih, map_foldl_traceBlock, List.foldl_cons]
      unfold formBlocks
      rw [map_body_blocksFrom]
  exact hforms toolCallTags []

/-- What reading some blocks adds: the calls they name, in the order of the blocks. -/
structure Reads (serde : Serde) (tools : List ToolDefinition) (blocks : List Block)
    (calls calls' : List (Block × ToolCall)) : Prop where
  blocks : calls'.map Prod.fst =
    calls.map Prod.fst ++ blocks.filter fun b => (namedCall serde tools b).isSome
  named : (∀ read ∈ calls, namedCall serde tools read.1 = some (read.2.name, read.2.arguments)) →
    ∀ read ∈ calls', namedCall serde tools read.1 = some (read.2.name, read.2.arguments)
  ids : (calls.map (·.2.id)) = (List.range calls.length).map (fun n => s!"recovered_{n}") →
    calls'.map (·.2.id) = (List.range calls'.length).map fun n => s!"recovered_{n}"

theorem Reads.refl : Reads serde tools [] calls calls where
  blocks := (List.append_nil _).symm
  named h := h
  ids h := h

theorem Reads.trans {blocks blocks' : List Block} {calls' calls'' : List (Block × ToolCall)}
    (h : Reads serde tools blocks calls calls') (h' : Reads serde tools blocks' calls' calls'') :
    Reads serde tools (blocks ++ blocks') calls calls'' where
  blocks := by rw [h'.blocks, h.blocks, List.filter_append, List.append_assoc]
  named hcalls := h'.named (h.named hcalls)
  ids hcalls := h'.ids (h.ids hcalls)

theorem reads_traceBlock (b : Block) :
    Reads serde tools [b] calls (traceBlock serde tools calls b) := by
  unfold traceBlock
  cases hnamed : namedCall serde tools b with
  | none =>
    refine ⟨?_, fun h => h, fun h => h⟩
    simp [hnamed]
  | some call =>
    refine ⟨?_, fun hcalls read hread => ?_, fun hcalls => ?_⟩
    · simp [hnamed]
    · rcases List.mem_append.mp hread with hread | hread
      · exact hcalls read hread
      · rw [List.mem_singleton.mp hread]
        exact hnamed
    · rw [List.map_append, hcalls, List.length_append, List.length_singleton, List.range_succ,
        List.map_append]
      rfl

theorem reads_foldl (blocks : List Block) :
    Reads serde tools blocks calls (blocks.foldl (traceBlock serde tools) calls) := by
  induction blocks generalizing calls with
  | nil => exact Reads.refl
  | cons b blocks ih => exact (reads_traceBlock b).trans ih

/-- All forms are read one after another. -/
theorem reads_recoverTraced (serde : Serde) (content : String) (tools : List ToolDefinition) :
    Reads serde tools (toolCallTags.flatMap (formBlocks content)) []
      (recoverTraced serde content tools) := by
  have hforms : ∀ (forms : List (String × String)) (calls : List (Block × ToolCall)),
      Reads serde tools (forms.flatMap (formBlocks content)) calls
        (forms.foldl (fun calls tags =>
          (formBlocks content tags).foldl (traceBlock serde tools) calls) calls) := by
    intro forms
    induction forms with
    | nil => exact fun calls => Reads.refl
    | cons tags forms ih =>
      intro calls
      rw [List.flatMap_cons]
      exact (reads_foldl (formBlocks content tags)).trans (ih _)
  exact hforms toolCallTags []

end Traces

section Forms

variable {serde : Serde} {content : String} {tools : List ToolDefinition}
  {tags : String × String} {b : Block}

theorem opening_ne_nil (h : tags ∈ toolCallTags) : tags.1.toList ≠ [] := by
  have hall : toolCallTags.all (fun tags => !tags.1.toList.isEmpty) = true := by decide
  have hone := List.all_eq_true.mp hall tags h
  simpa using hone

theorem formBlocks_scan (h : tags ∈ toolCallTags) :
    Scan tags.1.toList tags.2.toList 0 content.toList (formBlocks content tags) :=
  blocksFrom_scan (opening_ne_nil h) _ (Nat.lt_succ_self _)

theorem isBlockOf_iff (h : tags ∈ toolCallTags) :
    IsBlockOf content tags b ↔ b ∈ formBlocks content tags := by
  constructor
  · rintro ⟨blocks, hscan, hmem⟩
    rwa [← hscan.unique (formBlocks_scan h)]
  · intro hmem
    exact ⟨formBlocks content tags, formBlocks_scan h, hmem⟩

/-- The blocks that name a tool, form by form. -/
def namingBlocks (serde : Serde) (content : String) (tools : List ToolDefinition)
    (tags : String × String) : List Block :=
  (formBlocks content tags).filter fun b => (namedCall serde tools b).isSome

theorem mem_namingBlocks (h : tags ∈ toolCallTags) :
    b ∈ namingBlocks serde content tools tags ↔ NamesTool serde content tools tags b := by
  unfold namingBlocks NamesTool
  rw [List.mem_filter, isBlockOf_iff h]

theorem blocks_recoverTraced (serde : Serde) (content : String) (tools : List ToolDefinition) :
    (recoverTraced serde content tools).map Prod.fst =
      toolCallTags.flatMap (namingBlocks serde content tools) := by
  rw [(reads_recoverTraced serde content tools).blocks, List.map_nil, List.nil_append,
    List.filter_flatMap]
  rfl

theorem mem_blocks_recoverTraced :
    b ∈ (recoverTraced serde content tools).map Prod.fst ↔
      ∃ tags ∈ toolCallTags, NamesTool serde content tools tags b := by
  rw [blocks_recoverTraced, List.mem_flatMap]
  constructor
  · rintro ⟨tags, htags, hb⟩
    exact ⟨tags, htags, (mem_namingBlocks htags).mp hb⟩
  · rintro ⟨tags, htags, hb⟩
    exact ⟨tags, htags, (mem_namingBlocks htags).mpr hb⟩

/-- The blocks are read in the order of the text exactly when the forms come in order. -/
theorem inOrder_iff :
    ((recoverTraced serde content tools).map Prod.fst).Pairwise (fun b b' => b.start < b'.start) ↔
      FormsInOrder serde (content, tools) := by
  rw [blocks_recoverTraced, List.pairwise_flatMap]
  have hform : ∀ tags ∈ toolCallTags,
      (namingBlocks serde content tools tags).Pairwise fun b b' => b.start < b'.start := by
    intro tags htags
    exact ((formBlocks_scan htags).sorted (opening_ne_nil htags)).filter _
  rw [and_iff_right hform]
  unfold FormsInOrder
  constructor
  · intro h
    refine h.imp_of_mem fun htags htags' hlt b b' hb hb' => ?_
    exact hlt b ((mem_namingBlocks htags).mpr hb) b' ((mem_namingBlocks htags').mpr hb')
  · intro h
    refine h.imp_of_mem fun htags htags' hlt b hb b' hb' => ?_
    exact hlt b b' ((mem_namingBlocks htags).mp hb) ((mem_namingBlocks htags').mp hb')

theorem answersBlocks_iff :
    AnswersBlocks serde content tools ↔ FormsInOrder serde (content, tools) := by
  constructor
  · intro h
    exact inOrder_iff.mp h.inOrder
  · intro h
    exact
      { calls := map_recoverTraced serde content tools
        blocks := fun b => mem_blocks_recoverTraced
        named := (reads_recoverTraced serde content tools).named fun read hread =>
          absurd hread List.not_mem_nil
        inOrder := inOrder_iff.mpr h }

end Forms

section Ids

variable {serde : Serde} {answer answer' : String × List ToolDefinition}

theorem recoveredIds_eq (serde : Serde) (answer : String × List ToolDefinition) :
    recoveredIds serde answer =
      (List.range (recoverTraced serde answer.1 answer.2).length).map fun n => s!"recovered_{n}" := by
  have hids := (reads_recoverTraced serde answer.1 answer.2).ids rfl
  rw [← hids, recoveredIds, ← map_recoverTraced, List.map_map]
  rfl

theorem recovered_inj {m n : Nat} (h : s!"recovered_{m}" = s!"recovered_{n}") : m = n := by
  have htext : "recovered_" ++ toString m = "recovered_" ++ toString n := h
  have hlists := congrArg String.toList htext
  rw [String.toList_append, String.toList_append] at hlists
  have hdigits : (toString m).toList = (toString n).toList := List.append_cancel_left hlists
  rw [Nat.toString_eq_ofList_toDigits, Nat.toString_eq_ofList_toDigits, String.toList_ofList,
    String.toList_ofList] at hdigits
  have hvalues := congrArg (Nat.ofDigitChars 10 · 0) hdigits
  simpa only [Nat.ofDigitChars_ten_toDigits] using hvalues

/-- Within an answer no two calls have one identifier. -/
theorem nodup_recoveredIds (serde : Serde) (answer : String × List ToolDefinition) :
    (recoveredIds serde answer).Nodup := by
  rw [recoveredIds_eq]
  apply List.Nodup.map _ List.nodup_range
  intro m n h
  exact recovered_inj h

theorem hasCall_iff : HasCall serde answer ↔ recoverTraced serde answer.1 answer.2 ≠ [] := by
  constructor
  · rintro ⟨tags, htags, b, hb⟩ hnone
    have hmem := mem_blocks_recoverTraced.mpr ⟨tags, htags, hb⟩
    rw [hnone] at hmem
    exact List.not_mem_nil hmem
  · intro hsome
    obtain ⟨read, hread⟩ := List.exists_mem_of_ne_nil _ hsome
    obtain ⟨tags, htags, hnames⟩ := mem_blocks_recoverTraced.mp (List.mem_map_of_mem (f := Prod.fst) hread)
    exact ⟨tags, htags, read.1, hnames⟩

/-- The first call of every answer has the same identifier. -/
theorem mem_recoveredIds (h : HasCall serde answer) : "recovered_0" ∈ recoveredIds serde answer := by
  rw [recoveredIds_eq]
  have hpos := List.length_pos_of_ne_nil (hasCall_iff.mp h)
  exact List.mem_map.mpr ⟨0, List.mem_range.mpr hpos, rfl⟩

theorem recoveredIds_of_not_hasCall (h : ¬ HasCall serde answer) : recoveredIds serde answer = [] := by
  have hnone : recoverTraced serde answer.1 answer.2 = [] := not_not.mp fun hne => h (hasCall_iff.mpr hne)
  rw [recoveredIds_eq, hnone]
  rfl

/-- Two answers share no identifier exactly when one of them recovers nothing. -/
theorem disjoint_recoveredIds :
    List.Disjoint (recoveredIds serde answer) (recoveredIds serde answer') ↔
      ¬ (HasCall serde answer ∧ HasCall serde answer') := by
  constructor
  · rintro hdisjoint ⟨h, h'⟩
    exact hdisjoint (mem_recoveredIds h) (mem_recoveredIds h')
  · intro hnot
    by_cases h : HasCall serde answer
    · have hnone := recoveredIds_of_not_hasCall fun h' => hnot ⟨h, h'⟩
      rw [hnone]
      exact List.disjoint_nil_right _
    · rw [recoveredIds_of_not_hasCall h]
      exact List.disjoint_nil_left _

end Ids

/-- Recovery does what it is for exactly when at most one answer of a conversation recovers calls,
and the forms come in order in every answer. -/
theorem faithfulRecovery_iff (serde : Serde) (answers : List (String × List ToolDefinition)) :
    FaithfulRecovery serde answers ↔
      (∀ answer ∈ answers, FormsInOrder serde answer) ∧
        answers.Pairwise fun answer answer' => ¬ (HasCall serde answer ∧ HasCall serde answer') := by
  have hids : (answers.flatMap (recoveredIds serde)).Nodup ↔
      answers.Pairwise fun answer answer' => ¬ (HasCall serde answer ∧ HasCall serde answer') := by
    rw [List.nodup_flatMap]
    constructor
    · rintro ⟨-, h⟩
      exact h.imp fun hdisjoint => disjoint_recoveredIds.mp hdisjoint
    · intro h
      refine ⟨fun answer _ => nodup_recoveredIds serde answer, ?_⟩
      exact h.imp fun hnot => disjoint_recoveredIds.mpr hnot
  constructor
  · intro h
    exact ⟨fun answer hmem => answersBlocks_iff.mp (h.answered answer hmem), hids.mp h.distinct⟩
  · rintro ⟨hforms, hcalls⟩
    exact ⟨fun answer hmem => answersBlocks_iff.mpr (hforms answer hmem), hids.mpr hcalls⟩

/-- A reader for answers without JSON. -/
def noJson : Serde := ⟨fun _ => "", fun _ => "", fun _ => none⟩

def listTools : ToolDefinition := ⟨"tool_list", "Lists the tools", .object []⟩

def readTime : ToolDefinition := ⟨"time", "Tells the time", .object []⟩

/-- Calls of two forms come in the wrong order, and calls of two answers share an identifier. -/
theorem recovery_unfaithful :
    ¬ FaithfulRecovery noJson
      [("<function_call>time</function_call> <tool_call>tool_list</tool_call>", [listTools, readTime])] ∧
    ¬ FaithfulRecovery noJson
      [("<tool_call>time</tool_call>", [readTime]), ("<tool_call>tool_list</tool_call>", [listTools])] := by
  constructor
  · intro h
    have horder := (h.answered _ List.mem_cons_self).inOrder
    revert horder
    decide +kernel
  · intro h
    have hdistinct := h.distinct
    revert hdistinct
    decide +kernel

end Gyre.Llm.ToolCallRecovery
