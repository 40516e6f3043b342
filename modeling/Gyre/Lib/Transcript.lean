/- digest: Transcripts of calls and results, and what appending to a well-formed one needs. -/

import Mathlib.Data.List.Nodup

/-!
A transcript is a list of entries: something said, the calls of one message, the result of a call.
Results answer the calls of the message they follow, until something else is said.
-/

set_option autoImplicit false
set_option relaxedAutoImplicit false

namespace Gyre.Lib.Transcript

universe u

/-- `aside` stands for what neither answers a call nor ends the answers. -/
inductive Entry (ι : Type u) where
  | text
  | aside
  | calls (ids : List ι)
  | result (id : ι)
  deriving DecidableEq

variable {ι : Type u}

/-- The results up to the next text or calls. -/
@[grind =] def resultsBefore : List (Entry ι) → List ι
  | [] => []
  | .result id :: rest => id :: resultsBefore rest
  | .aside :: rest => resultsBefore rest
  | .text :: _ | .calls _ :: _ => []

/-- The calls of a transcript. -/
@[grind =] def knownIds : List (Entry ι) → List ι
  | [] => []
  | .calls ids :: rest => ids ++ knownIds rest
  | .text :: rest | .aside :: rest | .result _ :: rest => knownIds rest

theorem knownIds_append (es fs : List (Entry ι)) :
    knownIds (es ++ fs) = knownIds es ++ knownIds fs := by
  induction es with
  | nil => rfl
  | cons e es ih => cases e <;> simp [knownIds, ih]

/-- Neither text nor calls: what follows still answers an earlier message. -/
@[grind =] def silent : List (Entry ι) → Bool
  | [] => true
  | .result _ :: rest | .aside :: rest => silent rest
  | .text :: _ | .calls _ :: _ => false

/-- The calls that a result appended to the transcript would answer. -/
@[grind =] def openIds : List (Entry ι) → List ι
  | [] => []
  | .calls ids :: rest => if silent rest then ids else openIds rest
  | .text :: rest | .aside :: rest | .result _ :: rest => openIds rest

variable [DecidableEq ι]

/-- Every call is answered exactly once before the next text or calls, and every result is of an
earlier call. -/
@[grind =] def WellFormed (known : List ι) : List (Entry ι) → Prop
  | [] => True
  | .text :: rest | .aside :: rest => WellFormed known rest
  | .calls ids :: rest =>
    (∀ id ∈ ids, (resultsBefore rest).count id = 1) ∧ WellFormed (known ++ ids) rest
  | .result id :: rest => id ∈ known ∧ WellFormed known rest

instance decidableWellFormed : (known : List ι) → (es : List (Entry ι)) →
    Decidable (WellFormed known es)
  | _, [] => inferInstanceAs (Decidable True)
  | known, .text :: rest | known, .aside :: rest => decidableWellFormed known rest
  | known, .calls ids :: rest =>
    have := decidableWellFormed (known ++ ids) rest
    inferInstanceAs (Decidable (_ ∧ _))
  | known, .result _ :: rest =>
    have := decidableWellFormed known rest
    inferInstanceAs (Decidable (_ ∧ _))

/-- A list that begins with text or calls. -/
def Closing : List (Entry ι) → Prop
  | .text :: _ | .calls _ :: _ => True
  | _ => False

omit [DecidableEq ι] in
theorem closing_text (rest : List (Entry ι)) : Closing (.text :: rest) := trivial

omit [DecidableEq ι] in
theorem closing_calls (ids : List ι) (rest : List (Entry ι)) : Closing (.calls ids :: rest) :=
  trivial

omit [DecidableEq ι] in
theorem resultsBefore_append_closing (es : List (Entry ι)) {fs : List (Entry ι)}
    (h : Closing fs) : resultsBefore (es ++ fs) = resultsBefore es := by
  induction es with
  | nil =>
    cases fs with
    | nil => exact h.elim
    | cons f fs => cases f <;> first | exact h.elim | rfl
  | cons e es ih => cases e <;> simp [resultsBefore, ih]

omit [DecidableEq ι] in
theorem resultsBefore_results (ids : List ι) : resultsBefore (ids.map Entry.result) = ids := by
  induction ids with
  | nil => rfl
  | cons id ids ih => simp [resultsBefore, ih]

/-- What begins with text or calls is judged by itself, knowing the calls before it. -/
theorem wellFormed_append_closing {fs : List (Entry ι)} (h : Closing fs) (es : List (Entry ι))
    (known : List ι) :
    WellFormed known (es ++ fs) ↔ WellFormed known es ∧ WellFormed (known ++ knownIds es) fs := by
  induction es generalizing known with
  | nil => simp [WellFormed, knownIds]
  | cons e es ih =>
    cases e with
    | text => simpa [WellFormed, knownIds] using ih known
    | aside => simpa [WellFormed, knownIds] using ih known
    | calls ids =>
      simp only [List.cons_append, WellFormed, knownIds, resultsBefore_append_closing es h, ih,
        and_assoc, List.append_assoc]
    | result id => simp only [List.cons_append, WellFormed, knownIds, ih, and_assoc]

theorem wellFormed_results (known ids : List ι) :
    WellFormed known (ids.map Entry.result) ↔ ∀ id ∈ ids, id ∈ known := by
  induction ids with
  | nil => simp [WellFormed]
  | cons id ids ih => simp [WellFormed, ih]

/-- Calls with the results that follow them. -/
theorem wellFormed_batch (known ids answered : List ι) :
    WellFormed known (.calls ids :: answered.map Entry.result) ↔
      (∀ id ∈ ids, answered.count id = 1) ∧ ∀ id ∈ answered, id ∈ known ++ ids := by
  rw [WellFormed, resultsBefore_results, wellFormed_results]

omit [DecidableEq ι] in
private theorem resultsBefore_append_results (es : List (Entry ι)) (ids : List ι) :
    resultsBefore (es ++ ids.map Entry.result) =
      resultsBefore es ++ if silent es then ids else [] := by
  induction es with
  | nil => simp [resultsBefore, silent, resultsBefore_results]
  | cons e es ih => cases e <;> simp [resultsBefore, silent, ih] <;> rfl

omit [DecidableEq ι] in
private theorem openIds_of_silent {es : List (Entry ι)} (h : silent es = true) :
    openIds es = [] := by
  induction es with
  | nil => rfl
  | cons e es ih =>
    cases e with
    | text | calls ids => cases h
    | aside | result id => exact ih h

/-- A result fits at the end of a transcript when its call is known and no longer open. -/
theorem wellFormed_append_results (es : List (Entry ι)) {known : List ι}
    (h : WellFormed known es) (answered : List ι) :
    WellFormed known (es ++ answered.map Entry.result) ↔
      ∀ id ∈ answered, id ∈ known ++ knownIds es ∧ id ∉ openIds es := by
  induction es generalizing known with
  | nil => simp [wellFormed_results, knownIds, openIds]
  | cons e es ih =>
    cases e with
    | text => exact ih h
    | aside => exact ih h
    | result id => simpa [WellFormed, h.1, knownIds, openIds] using ih h.2
    | calls ids =>
      obtain ⟨honce, hrest⟩ := h
      simp only [List.cons_append, WellFormed, ih hrest, knownIds, openIds,
        resultsBefore_append_results, List.count_append, List.append_assoc]
      cases hsilent : silent es with
      | false =>
        simp only [Bool.false_eq_true, if_false, List.count_nil, Nat.add_zero]
        exact and_iff_right honce
      | true =>
        simp only [if_true, openIds_of_silent hsilent, List.not_mem_nil, not_false_eq_true,
          and_true]
        constructor
        · rintro ⟨hcount, hknown⟩ id hid
          refine ⟨hknown id hid, fun hopen => ?_⟩
          have hpos := List.count_pos_iff.mpr hid
          have htwice := hcount id hopen
          have hfirst := honce id hopen
          omega
        · intro hfits
          refine ⟨fun id hid => ?_, fun id hid => (hfits id hid).1⟩
          have hnone : answered.count id = 0 :=
            List.count_eq_zero.mpr fun hmem => (hfits id hmem).2 hid
          rw [honce id hid, hnone]

end Gyre.Lib.Transcript
