/- digest: Community axioms taken into the local table, and what imports and syncs report. -/

import Gyre.Cognitive.AxiomCulture

set_option autoImplicit false
set_option relaxedAutoImplicit false

namespace Gyre.Template

open Gyre.Lib Gyre.Cognitive

/-- The hashes of the axioms in force. -/
def activeHashes (env : Surroundings) (rows : List AxiomRow) : List (List Char) :=
  (listActive env rows).map fun a => computeContentHash env.sha256 a.statement a.domain 10

/-- The local axiom that an incoming one becomes. -/
def received (id : List Char) (anon : AnonymizedAxiom) : Axiom :=
  ⟨id, anon.name, anon.statement, anon.domain, anon.evidence, anon.createdAt⟩

/-- The loop of `import_community`; the known hashes are those from before it. -/
def importLoop (w : Issue) (known : List (List Char)) (draw : Nat) :
    Nat → List AxiomRow → Nat → List AnonymizedAxiom → List AxiomRow × Nat
  | _, rows, imported, [] => (rows, imported)
  | place, rows, imported, anon :: rest =>
    if anon.contentHash ∈ known then importLoop w known draw (place + 1) rows imported rest
    else
      importLoop w known draw (place + 1)
        (addAxiom w rows (received (w.newId (draw + place)) anon)) (imported + 1) rest

def importCommunity (env : Surroundings) (w : Issue) (draw : Nat) (rows : List AxiomRow)
    (axioms : List AnonymizedAxiom) : List AxiomRow × Nat :=
  importLoop w (activeHashes env rows) draw 0 rows 0 axioms

/-- The incoming axioms whose hash field is unknown. -/
def unknown (known : List (List Char)) (axioms : List AnonymizedAxiom) : List AnonymizedAxiom :=
  axioms.filter fun anon => decide (anon.contentHash ∉ known)

/-- Those of them whose name is free, the first one of each name. -/
def newcomers (known : List (List Char)) (rows : List AxiomRow) (axioms : List AnonymizedAxiom) :
    List AnonymizedAxiom :=
  firsts (·.name) (rows.map (·.name)) (unknown known axioms)

/-- The hash that a later import computes of an axiom taken in now. -/
def hashOf (env : Surroundings) (anon : AnonymizedAxiom) : List Char :=
  computeContentHash env.sha256 anon.statement anon.domain 10

/-- A row in force that holds an incoming axiom. -/
structure Holds (row : AxiomRow) (anon : AnonymizedAxiom) : Prop where
  name : row.name = anon.name
  statement : row.statement = anon.statement
  domain : row.domain = anon.domain
  active : row.active = 1

section Import

variable {env : Surroundings} {w : Issue} {known : List (List Char)} {draw : Nat}

theorem unknown_cons (anon : AnonymizedAxiom) (rest : List AnonymizedAxiom) :
    unknown known (anon :: rest) =
      if anon.contentHash ∈ known then unknown known rest else anon :: unknown known rest := by
  unfold unknown
  rw [List.filter_cons]
  by_cases hknown : anon.contentHash ∈ known <;> simp [hknown]

/-- The loop counts what it does not know, whether it was written or not. -/
theorem importLoop_count (axioms : List AnonymizedAxiom) (place imported : Nat)
    (rows : List AxiomRow) :
    (importLoop w known draw place rows imported axioms).2 =
      imported + (unknown known axioms).length := by
  induction axioms generalizing place imported rows with
  | nil => rfl
  | cons anon rest ih =>
    rw [importLoop, unknown_cons]
    split
    · exact ih (place + 1) imported rows
    · rw [ih, List.length_cons]
      omega

/-- Written is what is named anew. -/
theorem importLoop_rows (axioms : List AnonymizedAxiom) (place imported : Nat)
    (rows : List AxiomRow) (hfresh : w.Fresh (draw + place) rows) :
    ∃ added, (importLoop w known draw place rows imported axioms).1 = rows ++ added ∧
      List.Forall₂ Holds added (newcomers known rows axioms) := by
  induction axioms generalizing place imported rows with
  | nil => exact ⟨[], (List.append_nil rows).symm, .nil⟩
  | cons anon rest ih =>
    have hlater : w.Fresh (draw + (place + 1)) rows := hfresh.later (by omega)
    unfold newcomers
    rw [importLoop, unknown_cons]
    by_cases hknown : anon.contentHash ∈ known
    · rw [if_pos hknown, if_pos hknown]
      exact ih (place + 1) imported rows hlater
    · rw [if_neg hknown, if_neg hknown, firsts]
      let row := axiomRow w (received (w.newId (draw + place)) anon) 1
      have hput : addAxiom w rows (received (w.newId (draw + place)) anon) =
          putNew (·.name) rows row := insertOrIgnore_of_new_id (hfresh.2 _ le_rfl)
      rw [hput]
      by_cases hname : anon.name ∈ rows.map (·.name)
      · have hsame : putNew (·.name) rows row = rows := if_pos hname
        rw [hsame, if_pos hname]
        exact ih (place + 1) (imported + 1) rows hlater
      · have hwritten : putNew (·.name) rows row = rows ++ [row] := if_neg hname
        obtain ⟨added, hrows, hadded⟩ :=
          ih (place + 1) (imported + 1) (rows ++ [row]) (hfresh.written rfl)
        rw [hwritten, if_neg hname]
        refine ⟨row :: added, ?_, .cons ⟨rfl, rfl, rfl, rfl⟩ ?_⟩
        · rw [hrows, List.append_assoc, List.singleton_append]
        · have htaken : ∀ k, k ∈ (rows ++ [row]).map (·.name) ↔
              k ∈ anon.name :: rows.map (·.name) := by
            intro k
            rw [List.map_append, List.mem_append, List.mem_cons, or_comm]
            exact or_congr_left List.mem_singleton
          unfold newcomers at hadded
          rwa [firsts_congr htaken] at hadded

theorem activeHashes_append (rows added : List AxiomRow) :
    activeHashes env (rows ++ added) = activeHashes env rows ++ activeHashes env added := by
  simp only [activeHashes, listActive, List.filter_append, List.map_append]

theorem activeHashes_holding {added : List AxiomRow} {anons : List AnonymizedAxiom}
    (h : List.Forall₂ Holds added anons) : activeHashes env added = anons.map (hashOf env) := by
  induction h with
  | nil => rfl
  | cons hholds _ ih =>
    unfold activeHashes listActive at ih ⊢
    rw [List.filter_cons_of_pos (by rw [hholds.active]; rfl), List.map_cons, List.map_cons, ih,
      List.map_cons]
    simp only [readAxiom, hashOf, hholds.statement, hholds.domain]

end Import

section Laws

variable (env : Surroundings) (w : Issue) (faults : Faults) (draw : Nat) (rows : List AxiomRow)

theorem importCommunity_count (axioms : List AnonymizedAxiom) :
    (importCommunity env w draw rows axioms).2 = (unknown (activeHashes env rows) axioms).length := by
  unfold importCommunity
  rw [importLoop_count, Nat.zero_add]

private theorem importCommunity_rows {draw : Nat} {rows : List AxiomRow} (hfresh : w.Fresh draw rows)
    (axioms : List AnonymizedAxiom) :
    ∃ added, (importCommunity env w draw rows axioms).1 = rows ++ added ∧
      List.Forall₂ Holds added (newcomers (activeHashes env rows) rows axioms) :=
  importLoop_rows axioms 0 0 rows hfresh

/-- The hashes in force after an import. -/
theorem activeHashes_importCommunity {draw : Nat} {rows : List AxiomRow} (hfresh : w.Fresh draw rows)
    (axioms : List AnonymizedAxiom) :
    activeHashes env (importCommunity env w draw rows axioms).1 =
      activeHashes env rows ++
        (newcomers (activeHashes env rows) rows axioms).map (hashOf env) := by
  obtain ⟨added, hrows, hadded⟩ := importCommunity_rows env w hfresh axioms
  rw [hrows, activeHashes_append, activeHashes_holding hadded]

theorem length_importCommunity {draw : Nat} {rows : List AxiomRow} (hfresh : w.Fresh draw rows)
    (axioms : List AnonymizedAxiom) :
    (importCommunity env w draw rows axioms).1.length =
      rows.length + (newcomers (activeHashes env rows) rows axioms).length := by
  obtain ⟨added, hrows, hadded⟩ := importCommunity_rows env w hfresh axioms
  rw [hrows, List.length_append, hadded.length_eq]

/-- A sync that fails does so before anything else, or on the first axiom that it has to write. -/
def StopsAtOnce (source : SourceFile) : Prop :=
  ∀ others, refuses source = none → source.rows = .ok others →
    FirstBlocked faults rows 0 (listActive env others)

variable {draw rows}

theorem syncFrom_ok {source : SourceFile} {synced : Nat}
    (h : (syncFrom w faults env draw rows source).2 = .ok synced) :
    (syncFrom w faults env draw rows source).1.length = rows.length + synced ∧
      ∀ others, source.rows = .ok others → ∀ a ∈ listActive env others,
        a.statement ∈ (syncFrom w faults env draw rows source).1.map (·.statement) := by
  unfold syncFrom at h ⊢
  cases hpath : refuses source with
  | some e =>
    rw [hpath] at h
    cases h
  | none =>
    cases hread : source.rows with
    | error e =>
      rw [hpath, hread] at h
      cases h
    | ok others =>
      simp only [hpath, hread] at h ⊢
      obtain ⟨hlength, hheld⟩ := syncLoop_ok h
      refine ⟨hlength, fun others' heq => ?_⟩
      rw [← Except.ok.inj heq]
      exact hheld

theorem syncFrom_error (hfresh : w.Fresh draw rows) {source : SourceFile} {e : DbError}
    (h : (syncFrom w faults env draw rows source).2 = .error e) :
    (syncFrom w faults env draw rows source).1 = rows ↔ StopsAtOnce env faults rows source := by
  unfold StopsAtOnce
  unfold syncFrom at h ⊢
  cases hpath : refuses source with
  | some e' => exact iff_of_true rfl (fun others hnone => absurd hnone (by simp))
  | none =>
    cases hread : source.rows with
    | error e' => exact iff_of_true rfl (fun others _ hok => absurd hok (by simp))
    | ok others =>
      simp only [hpath, hread] at h ⊢
      rw [syncLoop_error hfresh h]
      exact ⟨fun hblocked others' _ heq => Except.ok.inj heq ▸ hblocked,
        fun hall => hall others trivial rfl⟩

/-- An import counts its rows exactly if the unknown axioms have names of their own; it tells the
hashes in force apart exactly if those it writes are apart and new; it finds nothing the second time
exactly if each hash field is then in force. A sync counts its rows and takes over every statement;
one that fails leaves the table alone exactly if it stops at once. A proposal is put in force by its
id exactly if its text was no name before, or in force. -/
theorem axiom_updates_iff (hfresh : w.Fresh draw rows) (axioms : List AnonymizedAxiom)
    (source : SourceFile) (text : List Char) (now : Int) :
    (rows.length + (importCommunity env w draw rows axioms).2 =
        (importCommunity env w draw rows axioms).1.length ↔
      ((unknown (activeHashes env rows) axioms).map (·.name)).Nodup ∧
        ∀ anon ∈ unknown (activeHashes env rows) axioms, anon.name ∉ rows.map (·.name)) ∧
    ((activeHashes env (importCommunity env w draw rows axioms).1).Nodup ↔
      (activeHashes env rows).Nodup ∧
        ((newcomers (activeHashes env rows) rows axioms).map (hashOf env)).Nodup ∧
        ∀ anon ∈ newcomers (activeHashes env rows) rows axioms,
          hashOf env anon ∉ activeHashes env rows) ∧
    (∀ again, (importCommunity env w again (importCommunity env w draw rows axioms).1 axioms).2 = 0 ↔
      ∀ anon ∈ axioms, anon.contentHash ∈ activeHashes env rows ∨
        ∃ other ∈ newcomers (activeHashes env rows) rows axioms,
          hashOf env other = anon.contentHash) ∧
    (∀ synced, (syncFrom w faults env draw rows source).2 = .ok synced →
      (syncFrom w faults env draw rows source).1.length = rows.length + synced ∧
        ∀ others, source.rows = .ok others → ∀ a ∈ listActive env others,
          a.statement ∈ (syncFrom w faults env draw rows source).1.map (·.statement)) ∧
    (∀ e, (syncFrom w faults env draw rows source).2 = .error e →
      ((syncFrom w faults env draw rows source).1 = rows ↔ StopsAtOnce env faults rows source)) ∧
    (InForce (approve (propose w rows text draw now).1 (propose w rows text draw now).2) text ↔
      text ∉ rows.map (·.name) ∨ InForce rows text) := by
  refine ⟨?_, ?_, fun again => ?_, fun synced h => syncFrom_ok env w faults h,
    fun e h => syncFrom_error env w faults hfresh h, approve_propose_iff hfresh text now⟩
  · rw [length_importCommunity env w hfresh, importCommunity_count, Nat.add_left_cancel_iff, eq_comm]
    exact length_firsts_iff _ _
  · rw [activeHashes_importCommunity env w hfresh, List.nodup_append]
    refine and_congr_right fun _ => and_congr_right fun _ => ?_
    constructor
    · intro hapart anon hanon hold
      exact hapart _ hold _ (List.mem_map_of_mem hanon) rfl
    · rintro hnew known hknown _ hmem rfl
      obtain ⟨anon, hanon, rfl⟩ := List.mem_map.mp hmem
      exact hnew anon hanon hknown
  · rw [importCommunity_count, activeHashes_importCommunity env w hfresh, List.length_eq_zero_iff]
    unfold unknown
    rw [List.filter_eq_nil_iff]
    refine forall₂_congr fun anon _ => ?_
    rw [decide_eq_true_iff, not_not, List.mem_append, List.mem_map]

end Laws

private def plainEnv : Surroundings where
  isDigit _ := false
  sha256 bytes := bytes
  parseUuid _ := none
  parseTime _ := none
  now := 0

private def counted : Issue := ⟨fun n => List.replicate n '1', fun _ => []⟩

private theorem counted_fresh : counted.Fresh 0 [] :=
  ⟨fun n m h => by simpa [counted] using congrArg List.length h, fun _ _ => List.not_mem_nil⟩

private def community (hash : Char) (name statement : List Char) : AnonymizedAxiom :=
  ⟨[hash], name, statement, "general".toList, [], 0⟩

theorem axiom_updates_iff_one :
    0 + (importCommunity plainEnv counted 0 [] [community 'a' "rest".toList "Rest.".toList]).2 =
      (importCommunity plainEnv counted 0 [] [community 'a' "rest".toList "Rest.".toList]).1.length :=
  (axiom_updates_iff plainEnv counted ⟨fun _ => false, fun _ => none⟩ counted_fresh
    [community 'a' "rest".toList "Rest.".toList] ⟨[], false, false, .ok []⟩ [] 0).1.mpr
      ⟨by decide, by decide⟩

/-- Two axioms of one name: two are reported and one is written, and a second import reports two
more. -/
theorem ignored_axiom_counted :
    let axioms := [community 'a' "rest".toList "Rest.".toList, community 'b' "rest".toList "Sleep.".toList]
    let first := importCommunity plainEnv counted 0 [] axioms
    first.2 = 2 ∧ first.1.length = 1 ∧ (importCommunity plainEnv counted 2 first.1 axioms).2 = 2 := by
  decide +kernel

end Gyre.Template
