/- digest: Cutting ranges out of a sequence in one pass that remembers where the last range ended. -/

import Mathlib.Data.List.Basic

/-!
The ranges come in the order of their starts. A range may end before an earlier one does, and then
the pass goes back: what it keeps from there on was to be cut out.
-/

set_option autoImplicit false
set_option relaxedAutoImplicit false

namespace Gyre.Lib.Sweep

/-- What a pass leaves: positions from one up to another, or a marker for a range. -/
inductive Piece where
  | kept (start stop : Nat)
  | marker
  deriving DecidableEq, Repr

/-- The pass over the ranges, from the end of the one before. -/
def sweep (total : Nat) : (last : Nat) → List (Nat × Nat) → List Piece
  | last, [] => if last < total then [.kept last total] else []
  | last, (start, stop) :: rest =>
    (if last < start then [.kept last start] else []) ++ .marker :: sweep total stop rest

def Piece.positions : Piece → List Nat
  | .kept start stop => List.range' start (stop - start)
  | .marker => []

def positions (pieces : List Piece) : List Nat := pieces.flatMap Piece.positions

def Covered (ranges : List (Nat × Nat)) (i : Nat) : Prop := ∃ r ∈ ranges, r.1 ≤ i ∧ i < r.2

instance (ranges : List (Nat × Nat)) (i : Nat) : Decidable (Covered ranges i) :=
  inferInstanceAs (Decidable (∃ r ∈ ranges, r.1 ≤ i ∧ i < r.2))

/-- The positions outside of all ranges, in order. -/
def uncovered (total : Nat) (ranges : List (Nat × Nat)) : List Nat :=
  (List.range total).filter fun i => ¬ Covered ranges i

/-- Where the next range starts, or the end. -/
def next (total : Nat) (ranges : List (Nat × Nat)) : Nat := (ranges.head?.map (·.1)).getD total

/-- A range with a gap behind it ends no earlier than the ranges before it. -/
def GapsClear (total : Nat) (ranges : List (Nat × Nat)) : Prop :=
  ∀ front r back, ranges = front ++ r :: back → r.2 < next total back → ∀ q ∈ front, q.2 ≤ r.2

section Positions

variable {total : Nat} {ranges : List (Nat × Nat)}

theorem covered_cons {r : Nat × Nat} {i : Nat} :
    Covered (r :: ranges) i ↔ (r.1 ≤ i ∧ i < r.2) ∨ Covered ranges i := by
  constructor
  · rintro ⟨q, hq, hin⟩
    rcases List.mem_cons.mp hq with rfl | hq
    · exact .inl hin
    · exact .inr ⟨q, hq, hin⟩
  · rintro (hin | ⟨q, hq, hin⟩)
    · exact ⟨r, List.mem_cons_self, hin⟩
    · exact ⟨q, List.mem_cons_of_mem r hq, hin⟩

/-- The pass up to a range does not change what comes after it. -/
theorem sweep_suffix (front : List (Nat × Nat)) (r : Nat × Nat) (back : List (Nat × Nat)) (last : Nat) :
    sweep total r.2 back <:+ sweep total last (front ++ r :: back) := by
  induction front generalizing last with
  | nil => exact (List.suffix_cons _ _).trans (List.suffix_append _ _)
  | cons q front ih => exact ((ih q.2).trans (List.suffix_cons _ _)).trans (List.suffix_append _ _)

/-- Where a gap begins, something is kept. -/
theorem mem_positions_sweep {last : Nat} (h : last < next total ranges) :
    last ∈ positions (sweep total last ranges) := by
  cases ranges with
  | nil =>
    have hlt : last < total := h
    rw [sweep, if_pos hlt]
    refine List.mem_flatMap.mpr ⟨.kept last total, List.mem_singleton_self _, ?_⟩
    exact List.mem_range'_1.mpr ⟨Nat.le_refl _, by omega⟩
  | cons r rest =>
    have hlt : last < r.1 := h
    rw [sweep, if_pos hlt]
    refine List.mem_flatMap.mpr ⟨.kept last r.1, List.mem_append_left _ (List.mem_singleton_self _), ?_⟩
    exact List.mem_range'_1.mpr ⟨Nat.le_refl _, by omega⟩

private theorem filter_covered {r : Nat × Nat} (start length : Nat) (hstart : r.1 ≤ start)
    (hstop : start + length ≤ max start r.2) (rest : List (Nat × Nat)) :
    (List.range' start length).filter (fun i => ¬ Covered (r :: rest) i) = [] := by
  refine List.filter_eq_nil_iff.mpr fun i hi => ?_
  have hrange := List.mem_range'_1.mp hi
  have hcovered : Covered (r :: rest) i := covered_cons.mpr (.inl ⟨by omega, by omega⟩)
  simpa using hcovered

private theorem filter_before {start length : Nat} (h : ∀ q ∈ ranges, start + length ≤ q.1) :
    (List.range' start length).filter (fun i => ¬ Covered ranges i) = List.range' start length := by
  refine List.filter_eq_self.mpr fun i hi => ?_
  have hrange := List.mem_range'_1.mp hi
  have hfree : ¬ Covered ranges i := by
    rintro ⟨q, hq, hin⟩
    have hstart := h q hq
    omega
  simpa using hfree

private theorem filter_behind {r : Nat × Nat} {start length : Nat} (h : r.2 ≤ start) :
    (List.range' start length).filter (fun i => ¬ Covered (r :: ranges) i) =
      (List.range' start length).filter (fun i => ¬ Covered ranges i) := by
  refine List.filter_congr fun i hi => ?_
  have hrange := List.mem_range'_1.mp hi
  have hsame : Covered (r :: ranges) i ↔ Covered ranges i := by
    rw [covered_cons]
    exact ⟨fun h' => h'.resolve_left (by omega), .inr⟩
  simp only [hsame]

private theorem range'_split {start middle stop : Nat} (h₁ : start ≤ middle) (h₂ : middle ≤ stop) :
    List.range' start (stop - start) =
      List.range' start (middle - start) ++ List.range' middle (stop - middle) := by
  have hsum : stop - start = (middle - start) + (stop - middle) := by omega
  have hmiddle : middle = start + (middle - start) := by omega
  rw [hsum, ← List.range'_append_1, ← hmiddle]

/-- What a pass keeps, `reach` being where the ranges before have ended. -/
theorem positions_sweep (hsorted : ranges.Pairwise fun q r => q.1 ≤ r.1)
    (hin : ∀ r ∈ ranges, r.1 ≤ r.2 ∧ r.2 ≤ total) {last reach : Nat} (hlast : last ≤ reach)
    (hreach : reach ≤ total) (hgap : last < next total ranges → last = reach)
    (hclear : ∀ front r back, ranges = front ++ r :: back → r.2 < next total back →
      reach ≤ r.2 ∧ ∀ q ∈ front, q.2 ≤ r.2) :
    positions (sweep total last ranges) =
      (List.range' reach (total - reach)).filter fun i => ¬ Covered ranges i := by
  induction ranges generalizing last reach with
  | nil =>
    rw [filter_before fun _ h => absurd h List.not_mem_nil, sweep]
    split
    next hlt =>
      rw [hgap hlt]
      exact List.append_nil _
    next hge =>
      have hnone : total - reach = 0 := by omega
      rw [hnone]
      rfl
  | cons r rest ih =>
    obtain ⟨hfirst, hrest⟩ := List.pairwise_cons.mp hsorted
    obtain ⟨hproper, hstop⟩ := hin r List.mem_cons_self
    have hafter := ih hrest (fun q hq => hin q (List.mem_cons_of_mem r hq)) (Nat.le_max_right reach r.2)
      (Nat.max_le.mpr ⟨hreach, hstop⟩)
      (fun hlt => (Nat.max_eq_right (hclear [] r rest rfl hlt).1).symm)
      fun front q back hsplit hlt => by
        have hall := hclear (r :: front) q back (by rw [hsplit]; rfl) hlt
        refine ⟨Nat.max_le.mpr ⟨hall.1, hall.2 r List.mem_cons_self⟩, fun p hp => ?_⟩
        exact hall.2 p (List.mem_cons_of_mem r hp)
    have hcut : positions (sweep total last (r :: rest)) =
        positions (if last < r.1 then [.kept last r.1] else []) ++ positions (sweep total r.2 rest) := by
      rw [sweep, positions, List.flatMap_append]
      rfl
    rw [hcut, hafter, range'_split (Nat.le_max_left reach r.2) (Nat.max_le.mpr ⟨hreach, hstop⟩),
      List.filter_append, filter_behind (Nat.le_max_right reach r.2)]
    refine congrArg (· ++ _) ?_
    by_cases hle : r.1 ≤ reach
    · -- the range starts among those before it, so nothing lies between
      have hnogap : ¬ last < r.1 := fun hlt => by
        have heq := hgap hlt
        omega
      rw [if_neg hnogap, filter_covered reach _ hle (by omega)]
      rfl
    · have hlt : last < r.1 := by omega
      have hmax : max reach r.2 = r.2 := by omega
      rw [if_pos hlt, hgap hlt, hmax, range'_split (Nat.le_of_not_le hle) hproper, List.filter_append,
        filter_covered r.1 _ (Nat.le_refl _) (by omega), List.append_nil, filter_before]
      · exact List.append_nil _
      · intro q hq
        rcases List.mem_cons.mp hq with rfl | hq
        · omega
        · have hstart := hfirst q hq
          omega

/-- A pass over sorted ranges keeps exactly what is outside of all of them if and only if every range
with a gap behind it ends no earlier than the ranges before it. -/
theorem positions_sweep_eq_uncovered_iff (hsorted : ranges.Pairwise fun q r => q.1 ≤ r.1)
    (hin : ∀ r ∈ ranges, r.1 ≤ r.2 ∧ r.2 ≤ total) :
    positions (sweep total 0 ranges) = uncovered total ranges ↔ GapsClear total ranges := by
  constructor
  · intro hexact front r back hsplit hlt q hq
    refine Nat.le_of_not_lt fun hover => ?_
    have hkept : r.2 ∈ positions (sweep total 0 ranges) := by
      have hbehind : sweep total r.2 back <:+ sweep total 0 (front ++ r :: back) :=
        sweep_suffix front r back 0
      obtain ⟨before, hbefore⟩ := hsplit ▸ hbehind
      rw [← hbefore, positions, List.flatMap_append]
      exact List.mem_append_right _ (mem_positions_sweep hlt)
    rw [hexact] at hkept
    have hfree : ¬ Covered ranges r.2 := by simpa using (List.mem_filter.mp hkept).2
    have hr : r ∈ ranges := hsplit ▸ List.mem_append_right front List.mem_cons_self
    have hstart : q.1 ≤ r.1 := by
      rw [hsplit] at hsorted
      exact (List.pairwise_append.mp hsorted).2.2 q hq r List.mem_cons_self
    have hproper := (hin r hr).1
    exact hfree ⟨q, hsplit ▸ List.mem_append_left _ hq, by omega, hover⟩
  · intro hclear
    rw [positions_sweep hsorted hin (Nat.le_refl 0) (Nat.zero_le total) (fun _ => rfl)
      fun front r back hsplit hlt => ⟨Nat.zero_le _, hclear front r back hsplit hlt⟩,
      uncovered, List.range_eq_range', Nat.sub_zero]

end Positions

end Gyre.Lib.Sweep
