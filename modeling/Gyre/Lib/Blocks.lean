/- digest: The blocks of a text between an opening and a closing mark. -/

import Gyre.Lib.Text

/-!
Blocks are found from left to right: one begins at the first opening mark behind the block before
it, and ends with the first closing mark after that. Blocks do not nest.
-/

set_option autoImplicit false
set_option relaxedAutoImplicit false

namespace Gyre.Lib.Blocks

/-- What stands before and behind the first place of a mark. -/
structure SplitsAt (mark text before after : List Char) : Prop where
  parts : text = before ++ mark ++ after
  first : ∀ k < before.length, ¬ mark <+: text.drop k

/-- A block, with the position of its opening mark. -/
structure Block where
  start : Nat
  body : List Char
  deriving DecidableEq, Repr

/-- The blocks of a text that begins at a position. -/
inductive Scan (opening closing : List Char) : Nat → List Char → List Block → Prop
  | unopened {position : Nat} {text : List Char} :
      ¬ opening <:+: text → Scan opening closing position text []
  | unclosed {position : Nat} {text before after : List Char} :
      SplitsAt opening text before after → ¬ closing <:+: after →
        Scan opening closing position text []
  | block {position : Nat} {text before after body rest : List Char} {blocks : List Block} :
      SplitsAt opening text before after → SplitsAt closing after body rest →
        Scan opening closing
          (position + before.length + opening.length + body.length + closing.length) rest blocks →
        Scan opening closing position text (⟨position + before.length, body⟩ :: blocks)

/-- The blocks of a text. Each takes at least one character, so the length of the text is fuel
enough. -/
def blocksFrom (opening closing : List Char) : (fuel : Nat) → Nat → List Char → List Block
  | 0, _, _ => []
  | fuel + 1, position, text =>
    match Text.splitFirst opening text with
    | none => []
    | some (before, after) =>
      match Text.splitFirst closing after with
      | none => []
      | some (body, rest) =>
        ⟨position + before.length, body⟩ :: blocksFrom opening closing fuel
          (position + before.length + opening.length + body.length + closing.length) rest

section Splits

variable {mark text before after before' after' : List Char}

theorem SplitsAt.length (h : SplitsAt mark text before after) :
    text.length = before.length + mark.length + after.length := by
  rw [h.parts, List.length_append, List.length_append]

theorem SplitsAt.prefix_drop (h : SplitsAt mark text before after) :
    mark <+: text.drop before.length := by
  rw [h.parts, List.append_assoc, List.drop_left]
  exact List.prefix_append mark after

theorem SplitsAt.stands (h : SplitsAt mark text before after) : mark <:+: text :=
  ⟨before, after, h.parts.symm⟩

private theorem SplitsAt.length_le (h : SplitsAt mark text before after)
    (h' : SplitsAt mark text before' after') : before.length ≤ before'.length :=
  Nat.le_of_not_lt fun hlt => h.first _ hlt h'.prefix_drop

/-- There is one first place. -/
theorem SplitsAt.unique (h : SplitsAt mark text before after)
    (h' : SplitsAt mark text before' after') : before = before' ∧ after = after' := by
  have hlength : before.length = before'.length :=
    Nat.le_antisymm (h.length_le h') (h'.length_le h)
  have hparts : before ++ (mark ++ after) = before' ++ (mark ++ after') := by
    rw [← List.append_assoc, ← List.append_assoc, ← h.parts, ← h'.parts]
  obtain ⟨hbefore, hrest⟩ := List.append_inj hparts hlength
  exact ⟨hbefore, List.append_cancel_left hrest⟩

theorem splitsAt_cons {c : Char} (hfront : ¬ mark <+: c :: text)
    (h : SplitsAt mark text before after) : SplitsAt mark (c :: text) (c :: before) after where
  parts := by rw [h.parts, List.cons_append, List.cons_append]
  first k hk := by
    cases k with
    | zero => exact hfront
    | succ k => exact h.first k (Nat.lt_of_succ_lt_succ hk)

/-- A search that succeeds finds the first place. -/
theorem splitsAt_of_splitFirst (h : Text.splitFirst mark text = some (before, after)) :
    SplitsAt mark text before after := by
  induction text generalizing before with
  | nil =>
    rw [Text.splitFirst] at h
    split at h
    next hempty =>
      cases h
      rw [List.isEmpty_iff] at hempty
      subst hempty
      exact ⟨rfl, fun k hk => absurd hk (Nat.not_lt_zero k)⟩
    next => cases h
  | cons c text ih =>
    rw [Text.splitFirst] at h
    split at h
    next hfront =>
      cases h
      obtain ⟨rest, hrest⟩ := List.isPrefixOf_iff_prefix.mp hfront
      refine ⟨?_, fun k hk => absurd hk (Nat.not_lt_zero k)⟩
      rw [← hrest, List.drop_left, List.nil_append]
    next hfront =>
      obtain ⟨⟨before', after'⟩, hfound, heq⟩ := Option.map_eq_some_iff.mp h
      cases heq
      exact splitsAt_cons (fun hmark => hfront (List.isPrefixOf_iff_prefix.mpr hmark)) (ih hfound)

/-- A search that fails has nothing to find. -/
theorem not_infix_of_splitFirst (h : Text.splitFirst mark text = none) : ¬ mark <:+: text := by
  intro hpart
  have hcontains := Text.contains_eq_true_iff.mpr hpart
  unfold Text.contains at hcontains
  rw [h] at hcontains
  cases hcontains

/-- A mark in a text has a first place. -/
theorem exists_splitsAt (h : mark <:+: text) : ∃ before after, SplitsAt mark text before after := by
  cases hfound : Text.splitFirst mark text with
  | none => exact absurd h (not_infix_of_splitFirst hfound)
  | some parts => exact ⟨parts.1, parts.2, splitsAt_of_splitFirst hfound⟩

end Splits

section Scans

variable {opening closing text : List Char} {position : Nat} {blocks blocks' : List Block}

/-- A text has one list of blocks. -/
theorem Scan.unique (h : Scan opening closing position text blocks)
    (h' : Scan opening closing position text blocks') : blocks = blocks' := by
  induction h generalizing blocks' with
  | unopened hopening =>
    cases h' with
    | unopened => rfl
    | unclosed => rfl
    | block hsplit => exact absurd hsplit.stands hopening
  | unclosed hsplit hclosing =>
    cases h' with
    | unopened => rfl
    | unclosed => rfl
    | block hsplit' hbody =>
      obtain ⟨rfl, rfl⟩ := hsplit.unique hsplit'
      exact absurd hbody.stands hclosing
  | block hsplit hbody _ ih =>
    cases h' with
    | unopened hopening => exact absurd hsplit.stands hopening
    | unclosed hsplit' hclosing =>
      obtain ⟨rfl, rfl⟩ := hsplit.unique hsplit'
      exact absurd hbody.stands hclosing
    | block hsplit' hbody' hrest =>
      obtain ⟨rfl, rfl⟩ := hsplit.unique hsplit'
      obtain ⟨rfl, rfl⟩ := hbody.unique hbody'
      rw [ih hrest]

/-- With fuel for the whole text the blocks are all found. -/
theorem blocksFrom_scan (hopening : opening ≠ []) (fuel : Nat) (hfuel : text.length < fuel) :
    Scan opening closing position text (blocksFrom opening closing fuel position text) := by
  induction fuel generalizing position text with
  | zero => exact absurd hfuel (Nat.not_lt_zero _)
  | succ fuel ih =>
    rw [blocksFrom]
    cases hfound : Text.splitFirst opening text with
    | none => exact .unopened (not_infix_of_splitFirst hfound)
    | some parts =>
      obtain ⟨before, after⟩ := parts
      have hsplit := splitsAt_of_splitFirst hfound
      cases hclosed : Text.splitFirst closing after with
      | none =>
        simp only [hclosed]
        exact .unclosed hsplit (not_infix_of_splitFirst hclosed)
      | some inner =>
        obtain ⟨body, rest⟩ := inner
        have hbody := splitsAt_of_splitFirst hclosed
        have hpos : 0 < opening.length := List.length_pos_of_ne_nil hopening
        have hshorter : rest.length < fuel := by
          have htext := hsplit.length
          have hafter := hbody.length
          omega
        simp only [hclosed]
        exact .block hsplit hbody (ih hshorter)

/-- Blocks start at or behind the position of their text, each with an opening mark. -/
theorem Scan.opened (h : Scan opening closing position text blocks) {b : Block} (hb : b ∈ blocks) :
    position ≤ b.start ∧ opening <+: text.drop (b.start - position) := by
  induction h with
  | unopened => cases hb
  | unclosed => cases hb
  | @block position text before after body rest blocks hsplit hbody _ ih =>
    rcases List.mem_cons.mp hb with rfl | hb
    · refine ⟨Nat.le_add_right _ _, ?_⟩
      rw [Nat.add_sub_cancel_left]
      exact hsplit.prefix_drop
    · obtain ⟨hle, hmark⟩ := ih hb
      refine ⟨by omega, ?_⟩
      have htext : text = (before ++ opening ++ body ++ closing) ++ rest := by
        rw [hsplit.parts, hbody.parts]
        simp only [List.append_assoc]
      have hoffset : b.start - position = (before ++ opening ++ body ++ closing).length +
          (b.start - (position + before.length + opening.length + body.length + closing.length)) := by
        simp only [List.length_append]
        omega
      rw [hoffset, htext, ← List.drop_drop, List.drop_left]
      exact hmark

/-- Later blocks start behind earlier ones. -/
theorem Scan.sorted (hopening : opening ≠ []) (h : Scan opening closing position text blocks) :
    blocks.Pairwise fun b b' => b.start < b'.start := by
  induction h with
  | unopened => exact List.Pairwise.nil
  | unclosed => exact List.Pairwise.nil
  | block _ _ hrest ih =>
    refine List.pairwise_cons.mpr ⟨fun b hb => ?_, ih⟩
    have hpos : 0 < opening.length := List.length_pos_of_ne_nil hopening
    have hstart := (hrest.opened hb).1
    simp only
    omega

end Scans

end Gyre.Lib.Blocks
