/- digest: The table of axioms: adding, proposing and approving one, and taking over another file's. -/

import Gyre.Lib.UniqueKey
import Gyre.Template.AxiomSharing

/-!
`name` is unique in the table and `id` is its primary key. `add_axiom` and `propose` ignore a row that
breaks either, `sync_from` fails on it; each statement is on its own, none runs in a transaction.
-/

set_option autoImplicit false
set_option relaxedAutoImplicit false

namespace Gyre.Cognitive

open Gyre.Lib Gyre.Template

/-- What a write takes from elsewhere: the ids in the order they are drawn, and how times are put
down. -/
structure Issue where
  newId : Nat → List Char
  toRfc3339 : Int → List Char

/-- The ids from the `n`th on are new to the table. -/
def Issue.Fresh (w : Issue) (n : Nat) (rows : List AxiomRow) : Prop :=
  Function.Injective w.newId ∧ ∀ i, n ≤ i → w.newId i ∉ rows.map (·.id)

/-- The row of an axiom. -/
def axiomRow (w : Issue) (a : Axiom) (active : Int) : AxiomRow where
  id := a.id
  name := a.name
  statement := a.statement
  domain := a.domain
  evidence := a.evidence
  createdAt := w.toRfc3339 a.createdAt
  active := active

/-- Some row has the id or the name. -/
def conflicts (rows : List AxiomRow) (row : AxiomRow) : Bool :=
  rows.any fun r => r.id == row.id || r.name == row.name

/-- `INSERT OR IGNORE` -/
def insertOrIgnore (rows : List AxiomRow) (row : AxiomRow) : List AxiomRow :=
  if conflicts rows row then rows else rows ++ [row]

def addAxiom (w : Issue) (rows : List AxiomRow) (a : Axiom) : List AxiomRow :=
  insertOrIgnore rows (axiomRow w a 1)

/-- `propose`: the text is name and statement, and the id is returned whether or not it was
written. -/
def propose (w : Issue) (rows : List AxiomRow) (text : List Char) (draw : Nat) (now : Int) :
    List AxiomRow × List Char :=
  let id := w.newId draw
  (insertOrIgnore rows
    (axiomRow w ⟨id, text, text, "general".toList, [], now⟩ 0), id)

def approve (rows : List AxiomRow) (id : List Char) : List AxiomRow :=
  rows.map fun r => if r.id = id then { r with active := 1 } else r

/-- Some row in force has the statement. -/
def InForce (rows : List AxiomRow) (statement : List Char) : Prop :=
  ∃ r ∈ rows, r.active = 1 ∧ r.statement = statement

section Sync

/-- `rusqlite::Error`, as `sync_from` returns it. -/
inductive DbError where
  | invalidParameterName (text : String)
  | failed (text : String)
  deriving DecidableEq, Repr

/-- The other file: its path, what stands there, and what opening it and selecting its active rows
yields. -/
structure SourceFile where
  path : List Char
  present : Bool
  isFile : Bool
  rows : Except DbError (List AxiomRow)

/-- Statements that fail for reasons of their own, by the place of the axiom they are about. -/
structure Faults where
  countFails : Nat → Bool
  insertFails : Nat → Option DbError

/-- The components of a path that name something. -/
def components (path : List Char) : List (List Char) :=
  (path.splitOn '/').filter fun part => part != [] && part != ['.']

/-- `Path::extension`. -/
def extension (path : List Char) : Option (List Char) :=
  match (components path).getLast? with
  | none => none
  | some name =>
    if name = "..".toList then none
    else
      let after := (name.reverse.takeWhile (· != '.')).reverse
      let before := (name.reverse.dropWhile (· != '.')).tail
      if after.length = name.length || before.isEmpty then none else some after

/-- The checks on the path before the file is opened. -/
def refuses (source : SourceFile) : Option DbError :=
  if "..".toList ∈ components source.path then
    some (.invalidParameterName "sync_from: path traversal ('..') not allowed")
  else if extension source.path ≠ some "db".toList then
    some (.invalidParameterName "sync_from: source must have .db extension")
  else if source.present && !source.isFile then
    some (.invalidParameterName "sync_from: source path is not a regular file")
  else none

/-- The statement is looked up; a count that fails finds nothing. -/
def holdsStatement (faults : Faults) (rows : List AxiomRow) (place : Nat) (a : Axiom) : Bool :=
  !faults.countFails place && rows.any (·.statement == a.statement)

/-- `INSERT` -/
def insertRow (faults : Faults) (rows : List AxiomRow) (place : Nat) (row : AxiomRow) :
    Except DbError (List AxiomRow) :=
  match faults.insertFails place with
  | some e => .error e
  | none =>
    if conflicts rows row then .error (.failed "UNIQUE constraint failed")
    else .ok (rows ++ [row])

variable (w : Issue) (faults : Faults)

/-- The loop of `sync_from`: the rows are written as it goes. -/
def syncLoop (draw : Nat) : Nat → List AxiomRow → Nat → List Axiom →
    List AxiomRow × Except DbError Nat
  | _, rows, synced, [] => (rows, .ok synced)
  | place, rows, synced, a :: rest =>
    if holdsStatement faults rows place a then syncLoop draw (place + 1) rows synced rest
    else
      match insertRow faults rows place
          (axiomRow w { a with id := w.newId (draw + place) } 1) with
      | .error e => (rows, .error e)
      | .ok rows' => syncLoop draw (place + 1) rows' (synced + 1) rest

def syncFrom (env : Surroundings) (draw : Nat) (rows : List AxiomRow) (source : SourceFile) :
    List AxiomRow × Except DbError Nat :=
  match refuses source with
  | some e => (rows, .error e)
  | none =>
    match source.rows with
    | .error e => (rows, .error e)
    | .ok others => syncLoop w faults draw 0 rows 0 (listActive env others)

end Sync

theorem conflicts_eq_false_iff (rows : List AxiomRow) (row : AxiomRow) :
    conflicts rows row = false ↔
      row.id ∉ rows.map (·.id) ∧ row.name ∉ rows.map (·.name) := by
  simp only [conflicts, List.any_eq_false, Bool.or_eq_true, beq_iff_eq, not_or, List.mem_map,
    not_exists, not_and]
  constructor
  · exact fun h => ⟨fun r hr => (h r hr).1, fun r hr => (h r hr).2⟩
  · exact fun h r hr => ⟨h.1 r hr, h.2 r hr⟩

/-- Under a new id the name alone decides. -/
theorem conflicts_of_new_id {rows : List AxiomRow} {row : AxiomRow}
    (hid : row.id ∉ rows.map (·.id)) :
    conflicts rows row = true ↔ row.name ∈ rows.map (·.name) := by
  have h := conflicts_eq_false_iff rows row
  cases hconflicts : conflicts rows row with
  | true =>
    rw [hconflicts] at h
    simp only [hid, not_false_eq_true, true_and, Bool.true_eq_false, false_iff, not_not] at h
    exact ⟨fun _ => h, fun _ => rfl⟩
  | false => exact ⟨fun hne => absurd hne (by simp), fun hin => absurd hin (h.mp hconflicts).2⟩

theorem insertOrIgnore_of_new_id {rows : List AxiomRow} {row : AxiomRow}
    (hid : row.id ∉ rows.map (·.id)) :
    insertOrIgnore rows row = putNew (·.name) rows row := by
  have hconflicts := conflicts_of_new_id hid
  by_cases hname : row.name ∈ rows.map (·.name)
  · rw [insertOrIgnore, putNew, if_pos (hconflicts.mpr hname), if_pos hname]
  · have hno : ¬ conflicts rows row = true := fun h => hname (hconflicts.mp h)
    rw [insertOrIgnore, putNew, if_neg hno, if_neg hname]

theorem Issue.Fresh.later {w : Issue} {n m : Nat} {rows : List AxiomRow} (h : w.Fresh n rows)
    (hle : n ≤ m) : w.Fresh m rows :=
  ⟨h.1, fun i hi => h.2 i (hle.trans hi)⟩

/-- A row under the next id leaves the later ones new. -/
theorem Issue.Fresh.written {w : Issue} {n : Nat} {rows : List AxiomRow} (h : w.Fresh n rows)
    {row : AxiomRow} (hid : row.id = w.newId n) : w.Fresh (n + 1) (rows ++ [row]) := by
  refine ⟨h.1, fun i hi => ?_⟩
  have hne : w.newId i ≠ w.newId n := fun heq => by
    have := h.1 heq
    omega
  have hold := h.2 i (by omega)
  simp only [List.map_append, List.map_cons, List.map_nil, List.mem_append, List.mem_singleton,
    hid, not_or]
  exact ⟨hold, hne⟩

section Proposals

variable {w : Issue} {rows : List AxiomRow} {draw : Nat}

private theorem approve_absent {id : List Char} (hid : id ∉ rows.map (·.id)) :
    approve rows id = rows := by
  have hother : ∀ r ∈ rows, (if r.id = id then { r with active := 1 } else r) = r := by
    intro r hr
    have hne : r.id ≠ id := fun heq => hid (heq ▸ List.mem_map_of_mem hr)
    rw [if_neg hne]
  exact (List.map_congr_left hother).trans (List.map_id' rows)

/-- Approving the returned id puts the text in force exactly if the name was free or the text was in
force already. -/
theorem approve_propose_iff (hfresh : w.Fresh draw rows) (text : List Char) (now : Int) :
    InForce (approve (propose w rows text draw now).1 (propose w rows text draw now).2) text ↔
      text ∉ rows.map (·.name) ∨ InForce rows text := by
  have hid : w.newId draw ∉ rows.map (·.id) := hfresh.2 draw le_rfl
  by_cases hname : text ∈ rows.map (·.name)
  · have hkept : (propose w rows text draw now).1 = rows := by
      have hput : (propose w rows text draw now).1 = putNew (·.name) rows _ :=
        insertOrIgnore_of_new_id hid
      exact hput.trans (if_pos hname)
    rw [hkept]
    change InForce (approve rows (w.newId draw)) text ↔ _
    rw [approve_absent hid]
    exact ⟨Or.inr, fun h => h.resolve_left (not_not.mpr hname)⟩
  · have hwritten : (propose w rows text draw now).1 =
        rows ++ [axiomRow w ⟨w.newId draw, text, text, "general".toList, [], now⟩ 0] := by
      have hput : (propose w rows text draw now).1 = putNew (·.name) rows _ :=
        insertOrIgnore_of_new_id hid
      exact hput.trans (if_neg hname)
    rw [hwritten]
    refine iff_of_true ?_ (Or.inl hname)
    refine ⟨{ axiomRow w ⟨w.newId draw, text, text, "general".toList, [], now⟩ 0 with
      active := 1 }, ?_, rfl, rfl⟩
    refine List.mem_map.mpr ⟨_, List.mem_append_right rows (List.mem_singleton.mpr rfl), ?_⟩
    exact if_pos rfl

end Proposals

section SyncLaws

variable {w : Issue} {faults : Faults} {draw : Nat}

theorem insertRow_ok {rows after : List AxiomRow} {place : Nat} {row : AxiomRow}
    (h : insertRow faults rows place row = .ok after) :
    after = rows ++ [row] ∧ faults.insertFails place = none ∧ conflicts rows row = false := by
  unfold insertRow at h
  split at h
  · cases h
  next hfault =>
    split at h
    · cases h
    next hfree => exact ⟨(Except.ok.inj h).symm, hfault, Bool.eq_false_iff.mpr hfree⟩

theorem insertRow_error {rows : List AxiomRow} {place : Nat} {row : AxiomRow} {e : DbError}
    (h : insertRow faults rows place row = .error e) :
    (faults.insertFails place).isSome ∨ conflicts rows row = true := by
  unfold insertRow at h
  split at h
  next e' hfault => exact Or.inl (by rw [hfault]; rfl)
  · split at h
    next hconflict => exact Or.inr hconflict
    · cases h

section Rounds

variable {rows : List AxiomRow} {place synced : Nat} {a : Axiom} {rest : List Axiom}

/-- The row that `sync_from` writes for an axiom. -/
def syncedRow (w : Issue) (draw place : Nat) (a : Axiom) : AxiomRow :=
  axiomRow w { a with id := w.newId (draw + place) } 1

theorem syncLoop_held (hheld : holdsStatement faults rows place a = true) :
    syncLoop w faults draw place rows synced (a :: rest) =
      syncLoop w faults draw (place + 1) rows synced rest := by
  rw [syncLoop, if_pos hheld]

theorem syncLoop_failed {e : DbError} (hheld : ¬ holdsStatement faults rows place a = true)
    (hinsert : insertRow faults rows place (syncedRow w draw place a) = .error e) :
    syncLoop w faults draw place rows synced (a :: rest) = (rows, .error e) := by
  unfold syncedRow at hinsert
  rw [syncLoop, if_neg hheld, hinsert]

theorem syncLoop_written {after : List AxiomRow} (hheld : ¬ holdsStatement faults rows place a = true)
    (hinsert : insertRow faults rows place (syncedRow w draw place a) = .ok after) :
    syncLoop w faults draw place rows synced (a :: rest) =
      syncLoop w faults draw (place + 1) after (synced + 1) rest := by
  unfold syncedRow at hinsert
  rw [syncLoop, if_neg hheld, hinsert]

end Rounds

/-- Rows are only added. -/
theorem prefix_syncLoop (axioms : List Axiom) (place synced : Nat) (rows : List AxiomRow) :
    rows <+: (syncLoop w faults draw place rows synced axioms).1 := by
  induction axioms generalizing place synced rows with
  | nil => exact List.prefix_rfl
  | cons a rest ih =>
    by_cases hheld : holdsStatement faults rows place a = true
    · rw [syncLoop_held hheld]
      exact ih (place + 1) synced rows
    · cases hinsert : insertRow faults rows place (syncedRow w draw place a) with
      | error e =>
        have hfailed : syncLoop w faults draw place rows synced (a :: rest) = (rows, _) :=
          syncLoop_failed hheld hinsert
        exact (congrArg (fun r => rows <+: r.1) hfailed).mpr List.prefix_rfl
      | ok after =>
        obtain ⟨rfl, -⟩ := insertRow_ok hinsert
        rw [syncLoop_written hheld hinsert]
        exact (List.prefix_append rows _).trans (ih (place + 1) (synced + 1) _)

/-- What a sync that goes through has counted, and what is there then. -/
theorem syncLoop_ok {axioms : List Axiom} {place synced n : Nat} {rows : List AxiomRow}
    (h : (syncLoop w faults draw place rows synced axioms).2 = .ok n) :
    (syncLoop w faults draw place rows synced axioms).1.length + synced = rows.length + n ∧
      ∀ a ∈ axioms,
        a.statement ∈ (syncLoop w faults draw place rows synced axioms).1.map (·.statement) := by
  induction axioms generalizing place synced rows with
  | nil =>
    have hn : synced = n := Except.ok.inj h
    exact ⟨by rw [← hn]; rfl, fun a ha => absurd ha List.not_mem_nil⟩
  | cons a rest ih =>
    by_cases hheld : holdsStatement faults rows place a = true
    · rw [syncLoop_held hheld] at h ⊢
      have hrest := ih h
      refine ⟨hrest.1, List.forall_mem_cons.mpr ⟨?_, hrest.2⟩⟩
      have hany : rows.any (·.statement == a.statement) = true :=
        ((Bool.and_eq_true _ _).mp hheld).2
      obtain ⟨r, hr, hstatement⟩ := List.any_eq_true.mp hany
      rw [← beq_iff_eq.mp hstatement]
      exact List.mem_map_of_mem ((prefix_syncLoop rest (place + 1) synced rows).subset hr)
    · cases hinsert : insertRow faults rows place (syncedRow w draw place a) with
      | error e =>
        rw [syncLoop_failed hheld hinsert] at h
        cases h
      | ok after =>
        rw [syncLoop_written hheld hinsert] at h ⊢
        obtain ⟨rfl, -⟩ := insertRow_ok hinsert
        have hrest := ih h
        refine ⟨?_, List.forall_mem_cons.mpr ⟨?_, hrest.2⟩⟩
        · have hlength := hrest.1
          rw [List.length_append, List.length_singleton] at hlength
          omega
        · have hmem := List.mem_append_right rows
            (List.mem_singleton.mpr (rfl : syncedRow w draw place a = syncedRow w draw place a))
          exact List.mem_map_of_mem
            ((prefix_syncLoop rest (place + 1) (synced + 1) _).subset hmem)

/-- The first statement that is not found cannot be written. -/
def FirstBlocked (faults : Faults) (rows : List AxiomRow) (place : Nat) (axioms : List Axiom) :
    Prop :=
  ∀ p, (axioms.zipIdx place).find? (fun p => !holdsStatement faults rows p.2 p.1) = some p →
    (faults.insertFails p.2).isSome ∨ p.1.name ∈ rows.map (·.name)

/-- A sync that fails has written nothing exactly if it failed on the first axiom it had to write. -/
theorem syncLoop_error {axioms : List Axiom} {place synced : Nat} {rows : List AxiomRow}
    {e : DbError} (hfresh : w.Fresh draw rows)
    (h : (syncLoop w faults draw place rows synced axioms).2 = .error e) :
    (syncLoop w faults draw place rows synced axioms).1 = rows ↔
      FirstBlocked faults rows place axioms := by
  induction axioms generalizing place with
  | nil => cases h
  | cons a rest ih =>
    unfold FirstBlocked
    rw [List.zipIdx_cons, List.find?_cons]
    by_cases hheld : holdsStatement faults rows place a = true
    · rw [syncLoop_held hheld] at h ⊢
      simp only [hheld, Bool.not_true]
      exact ih h
    · have hid : (syncedRow w draw place a).id ∉ rows.map (·.id) :=
        hfresh.2 _ (Nat.le_add_right draw place)
      simp only [hheld, Bool.not_false, Option.some.injEq, forall_eq']
      cases hinsert : insertRow faults rows place (syncedRow w draw place a) with
      | error e' =>
        rw [syncLoop_failed hheld hinsert]
        exact iff_of_true rfl ((insertRow_error hinsert).imp_right (conflicts_of_new_id hid).mp)
      | ok after =>
        obtain ⟨rfl, hfault, hfree⟩ := insertRow_ok hinsert
        rw [syncLoop_written hheld hinsert]
        refine iff_of_false (fun hsame => ?_) ?_
        · have hadded : rows ++ [syncedRow w draw place a] <+:
              (syncLoop w faults draw (place + 1) (rows ++ [syncedRow w draw place a]) (synced + 1)
                rest).1 := prefix_syncLoop rest (place + 1) (synced + 1) _
          have hlength := hadded.length_le
          rw [hsame, List.length_append, List.length_singleton] at hlength
          omega
        · rintro (hsome | hname)
          · rw [hfault] at hsome
            cases hsome
          · rw [(conflicts_of_new_id hid).mpr hname] at hfree
            cases hfree

end SyncLaws

end Gyre.Cognitive
