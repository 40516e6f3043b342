/- digest: Records that are written to JSON and read back field by field. -/

import Gyre.Llm.Value
import Mathlib.Logic.Equiv.Defs

set_option autoImplicit false
set_option relaxedAutoImplicit false

namespace Gyre.Config

open Llm (Json Number)

/-- How the values of a type are written to JSON and read back; both may be refused. -/
structure Codec (α : Type) where
  write : α → Option Json
  read : Json → Option α

namespace Codec

variable {α : Type}

def bool : Codec Bool where
  write b := some (.bool b)
  read
    | .bool b => some b
    | _ => none

def string : Codec String where
  write s := some (.string s)
  read
    | .string s => some s
    | _ => none

/-- The integers that a fixed-width type holds. -/
def integer (toInt : α → Int) (ofInt : Int → α) : Codec α where
  write a := some (.number (.int (toInt a)))
  read
    | .number (.int n) => if toInt (ofInt n) = n then some (ofInt n) else none
    | _ => none

def u16 : Codec UInt16 := integer (fun n => n.toNat) (fun n => UInt16.ofNat n.toNat)

def u32 : Codec UInt32 := integer (fun n => n.toNat) (fun n => UInt32.ofNat n.toNat)

def u64 : Codec UInt64 := integer (fun n => n.toNat) (fun n => UInt64.ofNat n.toNat)

def i64 : Codec Int64 := integer Int64.toInt Int64.ofInt

def option (c : Codec α) : Codec (Option α) where
  write
    | none => some .null
    | some a => c.write a
  read
    | .null => some none
    | j => (c.read j).map some

def vec (c : Codec α) : Codec (List α) where
  write l := (l.mapM c.write).map .array
  read
    | .array items => items.mapM c.read
    | _ => none

/-- A map with text keys. -/
def map (c : Codec α) : Codec (List (String × α)) where
  write l := (l.mapM fun e => (c.write e.2).map (e.1, ·)).map .object
  read
    | .object fields => fields.mapM fun e => (c.read e.2).map (e.1, ·)
    | _ => none

/-- What is read of what is written. -/
def again (c : Codec α) (a : α) : Option α := (c.write a).bind c.read

end Codec

/-- The fields of a record in their order: the name a field is written under, the other names it is
read under, and what it is when it is missing. -/
inductive Fields : Type → Type 1 where
  | nil : Fields Unit
  | leaf {α β : Type} (name : String) (aliases : List String) (missing : Option α)
      (c : Codec α) (rest : Fields β) : Fields (α × β)
  | nested {α β : Type} (name : String) (missing : Option α) (inner : Fields α) (rest : Fields β) :
      Fields (α × β)
  | transport {α β : Type} (e : α ≃ β) (fs : Fields α) : Fields β

/-- A field that is merged as one, and where it is. -/
structure Leaf (α : Type) : Type 1 where
  path : List String
  kind : Type
  get : α → kind

namespace Leaf

variable {α β : Type}

def comap (f : β → α) (l : Leaf α) : Leaf β := { l with get := fun b => l.get (f b) }

def under (name : String) (l : Leaf α) : Leaf α := { l with path := name :: l.path }

end Leaf

/-- A field read by its names; one that is given twice is refused. -/
def readField {α : Type} (keys : List String) (missing : Option α) (read : Json → Option α)
    (obj : List (String × Json)) : Option α :=
  match obj.filter fun e => keys.contains e.1 with
  | [] => missing
  | [e] => read e.2
  | _ :: _ :: _ => none

def both {α β : Type} (a : Option α) (b : Option β) : Option (α × β) :=
  match a, b with
  | some a, some b => some (a, b)
  | _, _ => none

namespace Fields

/-- All names that fields are read under. -/
@[grind =] def keys : {α : Type} → Fields α → List String
  | _, .nil => []
  | _, .leaf name aliases _ _ rest => name :: aliases ++ rest.keys
  | _, .nested name _ _ rest => name :: rest.keys
  | _, .transport _ fs => fs.keys

/-- No name stands for two fields. -/
@[grind =] def wellFormed : {α : Type} → Fields α → Bool
  | _, .nil => true
  | _, .leaf name aliases _ _ rest =>
    (name :: aliases).all (fun k => !rest.keys.contains k) && rest.wellFormed
  | _, .nested name _ inner rest =>
    !rest.keys.contains name && (inner.wellFormed && rest.wellFormed)
  | _, .transport _ fs => fs.wellFormed

@[grind =] def write : {α : Type} → Fields α → α → Option (List (String × Json))
  | _, .nil, _ => some []
  | _, .leaf name _ _ c rest, (a, b) =>
    (both (c.write a) (rest.write b)).map fun js => (name, js.1) :: js.2
  | _, .nested name _ inner rest, (a, b) =>
    (both (inner.write a) (rest.write b)).map fun js => (name, .object js.1) :: js.2
  | _, .transport e fs, b => fs.write (e.symm b)

mutual

@[grind =] def readObject : {α : Type} → Fields α → List (String × Json) → Option α
  | _, .nil, _ => some ()
  | _, .leaf name aliases missing c rest, obj =>
    both (readField (name :: aliases) missing c.read obj) (rest.readObject obj)
  | _, .nested name missing inner rest, obj =>
    both (readField [name] missing (fun
      | .object o => inner.readObject o
      | .array items => inner.readArray items
      | _ => none) obj) (rest.readObject obj)
  | _, .transport e fs, obj => (fs.readObject obj).map e

/-- The fields in their order, without names. -/
@[grind =] def readArray : {α : Type} → Fields α → List Json → Option α
  | _, .nil, items => if items = [] then some () else none
  | _, .leaf _ _ missing _ rest, [] => both missing (rest.readArray [])
  | _, .leaf _ _ _ c rest, item :: items => both (c.read item) (rest.readArray items)
  | _, .nested _ missing _ rest, [] => both missing (rest.readArray [])
  | _, .nested _ _ inner rest, item :: items =>
    both (match item with
      | .object o => inner.readObject o
      | .array items => inner.readArray items
      | _ => none) (rest.readArray items)
  | _, .transport e fs, items => (fs.readArray items).map e

end

def codec {α : Type} (fs : Fields α) : Codec α where
  write a := (fs.write a).map .object
  read
    | .object o => fs.readObject o
    | .array items => fs.readArray items
    | _ => none

@[grind =] def leaves : {α : Type} → Fields α → List (Leaf α)
  | _, .nil => []
  | _, .leaf (α := α) name _ _ _ rest =>
    ⟨[name], α, Prod.fst⟩ :: rest.leaves.map (·.comap Prod.snd)
  | _, .nested name _ inner rest =>
    inner.leaves.map (fun l => (l.comap Prod.fst).under name) ++ rest.leaves.map (·.comap Prod.snd)
  | _, .transport e fs => fs.leaves.map (·.comap e.symm)

/-- What holds of every leaf. -/
@[grind =] def Forall (P : {α : Type} → Codec α → α → Prop) : {α : Type} → Fields α → α → Prop
  | _, .nil, _ => True
  | _, .leaf _ _ _ c rest, (a, b) => P c a ∧ rest.Forall P b
  | _, .nested _ _ inner rest, (a, b) => inner.Forall P a ∧ rest.Forall P b
  | _, .transport e fs, b => fs.Forall P (e.symm b)

/-- The record made of what is read back of every leaf. -/
@[grind =] def again : {α : Type} → Fields α → α → Option α
  | _, .nil, _ => some ()
  | _, .leaf _ _ _ c rest, (a, b) => both (c.again a) (rest.again b)
  | _, .nested _ _ inner rest, (a, b) => both (inner.again a) (rest.again b)
  | _, .transport e fs, b => (fs.again (e.symm b)).map e

end Fields

section Both

variable {α β : Type} {a : Option α} {b : Option β}

theorem both_eq_some {p : α × β} : both a b = some p ↔ a = some p.1 ∧ b = some p.2 := by
  obtain ⟨x, y⟩ := p
  cases a with
  | none => simp [both]
  | some a =>
    cases b with
    | none => simp [both]
    | some b => simp [both]

theorem both_eq_none : both a b = none ↔ a = none ∨ b = none := by
  cases a with
  | none => simp [both]
  | some a =>
    cases b with
    | none => simp [both]
    | some b => simp [both]

/-- One entry written before the others. -/
theorem map_both_eq_some {α : Type} {a : Option α} {b : Option (List (String × Json))} {name : String}
    {g : α → Json} {js : List (String × Json)} :
    ((both a b).map fun p => (name, g p.1) :: p.2) = some js ↔
      ∃ x tail, a = some x ∧ b = some tail ∧ js = (name, g x) :: tail := by
  rw [Option.map_eq_some_iff]
  constructor
  · rintro ⟨⟨x, tail⟩, hp, rfl⟩
    obtain ⟨hx, htail⟩ := both_eq_some.mp hp
    exact ⟨x, tail, hx, htail, rfl⟩
  · rintro ⟨x, tail, hx, htail, rfl⟩
    exact ⟨(x, tail), both_eq_some.mpr ⟨hx, htail⟩, rfl⟩

variable {f : α → Option β} {a : α} {l : List α}

theorem mapM_cons_eq : (a :: l).mapM f = (both (f a) (l.mapM f)).map fun p => p.1 :: p.2 := by
  rw [List.mapM_cons]
  cases f a with
  | none => rfl
  | some b =>
    cases l.mapM f with
    | none => rfl
    | some bs => rfl

theorem mapM_ne_none : l.mapM f ≠ none ↔ ∀ a ∈ l, f a ≠ none := by
  induction l with
  | nil => simp
  | cons a l ih =>
    rw [mapM_cons_eq, ne_eq, Option.map_eq_none_iff, both_eq_none, not_or, ← ne_eq, ← ne_eq, ih,
      List.forall_mem_cons]

theorem mapM_eq_self {f : α → Option α} : l.mapM f = some l ↔ ∀ a ∈ l, f a = some a := by
  induction l with
  | nil => simp
  | cons a l ih =>
    rw [mapM_cons_eq, List.forall_mem_cons, ← ih, Option.map_eq_some_iff]
    constructor
    · rintro ⟨⟨b, bs⟩, hp, heq⟩
      obtain ⟨rfl, rfl⟩ := List.cons.inj heq
      exact both_eq_some.mp hp
    · intro h
      exact ⟨(a, l), both_eq_some.mpr h, rfl⟩

/-- One traversal after another is one traversal. -/
theorem mapM_bind {γ : Type} {g : β → Option γ} {bs : List β} (h : l.mapM f = some bs) :
    bs.mapM g = l.mapM fun a => (f a).bind g := by
  induction l generalizing bs with
  | nil =>
    cases h
    rfl
  | cons a l ih =>
    rw [mapM_cons_eq] at h
    obtain ⟨⟨b, tail⟩, hp, rfl⟩ := Option.map_eq_some_iff.mp h
    obtain ⟨hb, htail⟩ := both_eq_some.mp hp
    rw [mapM_cons_eq, mapM_cons_eq, ih htail, hb]
    rfl

end Both

namespace Codec

variable {α : Type}

/-- What is written is read back as itself, and is not an object. -/
structure Lawful (c : Codec α) : Prop where
  keeps {a : α} {j : Json} (h : c.write a = some j) : c.read j = some a
  plain {a : α} {j : Json} (h : c.write a = some j) (fields : List (String × Json)) : j ≠ .object fields

theorem Lawful.again_eq {c : Codec α} (h : c.Lawful) {a : α} (hwrite : c.write a ≠ none) :
    c.again a = some a := by
  obtain ⟨j, hj⟩ := Option.ne_none_iff_exists'.mp hwrite
  unfold again
  rw [hj]
  exact h.keeps hj

theorem Lawful.write_inj {c : Codec α} (h : c.Lawful) {a b : α} {j : Json} (ha : c.write a = some j)
    (hb : c.write b = some j) : a = b :=
  Option.some_inj.mp ((h.keeps ha).symm.trans (h.keeps hb))

/-- Nothing is refused when it is written. -/
def Total (c : Codec α) : Prop := ∀ a, c.write a ≠ none

/-- A value of any kind is written, and read back. -/
structure Plain (c : Codec α) : Prop where
  lawful : c.Lawful
  total : c.Total

theorem total_bool : bool.Total := fun _ => Option.some_ne_none _

theorem total_string : string.Total := fun _ => Option.some_ne_none _

theorem total_integer {toInt : α → Int} {ofInt : Int → α} : (integer toInt ofInt).Total :=
  fun _ => Option.some_ne_none _

theorem Total.option {c : Codec α} (h : c.Total) : c.option.Total
  | none => Option.some_ne_none _
  | some a => h a

theorem Total.vec {c : Codec α} (h : c.Total) : c.vec.Total := by
  intro l hnone
  exact mapM_ne_none.mpr (fun a _ => h a) (Option.map_eq_none_iff.mp hnone)

theorem Total.map {c : Codec α} (h : c.Total) : c.map.Total := by
  intro l hnone
  refine mapM_ne_none.mpr (fun e _ => ?_) (Option.map_eq_none_iff.mp hnone)
  exact fun hentry => h e.2 (Option.map_eq_none_iff.mp hentry)

theorem lawful_bool : bool.Lawful where
  keeps h := by cases h; rfl
  plain h _ heq := by
    cases h
    cases heq

theorem lawful_string : string.Lawful where
  keeps h := by cases h; rfl
  plain h _ heq := by
    cases h
    cases heq

theorem lawful_integer {toInt : α → Int} {ofInt : Int → α} (hleft : Function.LeftInverse ofInt toInt) :
    (integer toInt ofInt).Lawful where
  keeps {a j} h := by
    have hj : Json.number (.int (toInt a)) = j := Option.some_inj.mp h
    rw [← hj]
    unfold integer
    dsimp only
    rw [hleft a, if_pos rfl]
  plain h _ heq := by
    cases h
    cases heq

theorem lawful_u16 : u16.Lawful :=
  lawful_integer fun n => by rw [Int.toNat_natCast, UInt16.ofNat_toNat]

theorem lawful_u32 : u32.Lawful :=
  lawful_integer fun n => by rw [Int.toNat_natCast, UInt32.ofNat_toNat]

theorem lawful_u64 : u64.Lawful :=
  lawful_integer fun n => by rw [Int.toNat_natCast, UInt64.ofNat_toNat]

theorem lawful_i64 : i64.Lawful :=
  lawful_integer fun n => Int64.ofInt_toInt n

theorem Lawful.option {c : Codec α} (h : c.Lawful) (hnull : ∀ a, c.write a ≠ some .null) :
    c.option.Lawful where
  keeps {a j} hj := by
    cases a with
    | none =>
      cases hj
      rfl
    | some a =>
      have hread : c.read j = some a := h.keeps hj
      unfold Codec.option
      dsimp only
      split
      · exact absurd hj (hnull a)
      · rw [hread]
        rfl
  plain {a j} hj fields := by
    cases a with
    | none =>
      cases hj
      intro heq
      cases heq
    | some a => exact h.plain hj fields

theorem again_vec {c : Codec α} {l : List α} (h : ∀ a ∈ l, c.write a ≠ none) :
    c.vec.again l = l.mapM c.again := by
  obtain ⟨js, hjs⟩ := Option.ne_none_iff_exists'.mp (mapM_ne_none.mpr h)
  have hread : js.mapM c.read = l.mapM c.again := mapM_bind hjs
  unfold again vec
  dsimp only
  rw [hjs]
  exact hread

theorem again_map {c : Codec α} {l : List (String × α)} (h : ∀ e ∈ l, c.write e.2 ≠ none) :
    c.map.again l = l.mapM fun e => (c.again e.2).map (e.1, ·) := by
  have hwrite : ∀ e ∈ l, (c.write e.2).map (e.1, ·) ≠ none := by
    intro e he hnone
    exact h e he (Option.map_eq_none_iff.mp hnone)
  obtain ⟨js, hjs⟩ := Option.ne_none_iff_exists'.mp (mapM_ne_none.mpr hwrite)
  have hread : (js.mapM fun e => (c.read e.2).map (e.1, ·)) =
      l.mapM fun e => (c.again e.2).map (e.1, ·) := by
    rw [mapM_bind hjs]
    refine congrArg (List.mapM · l) (funext fun e => ?_)
    unfold again
    cases c.write e.2 with
    | none => rfl
    | some j => rfl
  unfold again map
  dsimp only
  rw [hjs]
  exact hread

theorem Lawful.vec {c : Codec α} (h : c.Lawful) : c.vec.Lawful where
  keeps {l j} hj := by
    obtain ⟨js, hjs, rfl⟩ := Option.map_eq_some_iff.mp hj
    have hwrite := mapM_ne_none.mp (Option.ne_none_iff_exists'.mpr ⟨js, hjs⟩)
    have hread := mapM_eq_self.mpr fun a ha => h.again_eq (hwrite a ha)
    rw [← hread]
    exact mapM_bind hjs
  plain {l j} hj fields := by
    obtain ⟨js, hjs, rfl⟩ := Option.map_eq_some_iff.mp hj
    intro heq
    cases heq

end Codec

namespace Fields

variable {α : Type}

theorem Forall.mono {P Q : {α : Type} → Codec α → α → Prop}
    (himp : ∀ {α : Type} (c : Codec α) (a : α), P c a → Q c a) (fs : Fields α) {a : α}
    (h : fs.Forall P a) : fs.Forall Q a := by
  induction fs with
  | nil => trivial
  | leaf name aliases missing c rest ih => exact ⟨himp c a.1 h.1, ih h.2⟩
  | nested name missing inner rest ihinner ih => exact ⟨ihinner h.1, ih h.2⟩
  | transport e fs ih => exact ih h

theorem write_leaf {β : Type} {name : String} {aliases : List String} {missing : Option α} {c : Codec α}
    {rest : Fields β} {a : α} {b : β} {js : List (String × Json)} :
    (leaf name aliases missing c rest).write (a, b) = some js ↔
      ∃ j tail, c.write a = some j ∧ rest.write b = some tail ∧ js = (name, j) :: tail :=
  map_both_eq_some (g := id)

theorem write_nested {β : Type} {name : String} {missing : Option α} {inner : Fields α} {rest : Fields β}
    {a : α} {b : β} {js : List (String × Json)} :
    (nested name missing inner rest).write (a, b) = some js ↔
      ∃ o tail, inner.write a = some o ∧ rest.write b = some tail ∧ js = (name, .object o) :: tail :=
  map_both_eq_some (g := Json.object)

/-- Every leaf is written whatever it is, and read back. -/
@[grind =] def Plain : {α : Type} → Fields α → Prop
  | _, .nil => True
  | _, .leaf _ _ _ c rest => c.Plain ∧ rest.Plain
  | _, .nested _ _ inner rest => inner.Plain ∧ rest.Plain
  | _, .transport _ fs => fs.Plain

theorem Plain.forall {P : {α : Type} → Codec α → α → Prop}
    (hplain : ∀ {α : Type} {c : Codec α}, c.Plain → ∀ a, P c a) {fs : Fields α} (h : fs.Plain) (a : α) :
    fs.Forall P a := by
  induction fs with
  | nil => trivial
  | leaf name aliases missing c rest ih => exact ⟨hplain h.1 a.1, ih h.2 a.2⟩
  | nested name missing inner rest ihinner ih => exact ⟨ihinner h.1 a.1, ih h.2 a.2⟩
  | transport e fs ih => exact ih h _

theorem wellFormed_leaf {β : Type} {name : String} {aliases : List String} {missing : Option α}
    {c : Codec α} {rest : Fields β} : (leaf name aliases missing c rest).wellFormed = true ↔
      (∀ k ∈ name :: aliases, k ∉ rest.keys) ∧ rest.wellFormed = true := by
  rw [wellFormed, Bool.and_eq_true, List.all_eq_true]
  simp only [Bool.not_eq_true', List.contains_eq_mem, decide_eq_false_iff_not]

theorem wellFormed_nested {β : Type} {name : String} {missing : Option α} {inner : Fields α}
    {rest : Fields β} : (nested name missing inner rest).wellFormed = true ↔
      name ∉ rest.keys ∧ inner.wellFormed = true ∧ rest.wellFormed = true := by
  rw [wellFormed, Bool.and_eq_true, Bool.and_eq_true]
  simp only [Bool.not_eq_true', List.contains_eq_mem, decide_eq_false_iff_not]

/-- A record is written unless one of its leaves is refused. -/
theorem write_ne_none (fs : Fields α) {a : α} :
    fs.write a ≠ none ↔ fs.Forall (fun c a => c.write a ≠ none) a := by
  induction fs with
  | nil => exact ⟨fun _ => trivial, fun _ => Option.some_ne_none _⟩
  | leaf name aliases missing c rest ih =>
    obtain ⟨a, b⟩ := a
    unfold write Forall
    rw [ne_eq, Option.map_eq_none_iff, both_eq_none, not_or, ← ne_eq, ← ne_eq, ih]
  | nested name missing inner rest ihinner ih =>
    obtain ⟨a, b⟩ := a
    unfold write Forall
    rw [ne_eq, Option.map_eq_none_iff, both_eq_none, not_or, ← ne_eq, ← ne_eq, ih, ihinner]
  | transport e fs ih => exact ih

/-- What is written stands under names of the fields. -/
theorem mem_keys_of_write (fs : Fields α) {a : α} {js : List (String × Json)} (h : fs.write a = some js)
    {e : String × Json} (he : e ∈ js) : e.1 ∈ fs.keys := by
  induction fs generalizing js with
  | nil =>
    cases h
    cases he
  | leaf name aliases missing c rest ih =>
    obtain ⟨a, b⟩ := a
    obtain ⟨j, tail, -, hrest, rfl⟩ := write_leaf.mp h
    rcases List.mem_cons.mp he with rfl | he
    · exact List.mem_cons_self
    · exact List.mem_append_right _ (ih hrest he)
  | nested name missing inner rest ihinner ih =>
    obtain ⟨a, b⟩ := a
    obtain ⟨o, tail, -, hrest, rfl⟩ := write_nested.mp h
    rcases List.mem_cons.mp he with rfl | he
    · exact List.mem_cons_self
    · exact List.mem_cons_of_mem _ (ih hrest he)
  | transport e fs ih => exact ih h he

theorem readField_of_unique {keys : List String} {missing : Option α} {read : Json → Option α}
    {before after : List (String × Json)} {name : String} {j : Json} (hname : name ∈ keys)
    (hbefore : ∀ e ∈ before, e.1 ∉ keys) (hafter : ∀ e ∈ after, e.1 ∉ keys) :
    readField keys missing read (before ++ (name, j) :: after) = read j := by
  have hfilter : ((before ++ (name, j) :: after).filter fun e => keys.contains e.1) = [(name, j)] := by
    rw [List.filter_append, List.filter_cons, if_pos (List.contains_iff_mem.mpr hname),
      List.filter_eq_nil_iff.mpr, List.filter_eq_nil_iff.mpr, List.nil_append]
    · intro x hx hmem
      exact hafter x hx (List.contains_iff_mem.mp hmem)
    · intro x hx hmem
      exact hbefore x hx (List.contains_iff_mem.mp hmem)
  unfold readField
  rw [hfilter]

/-- A record is read back leaf by leaf, whatever stands beside it under other names. -/
theorem readObject_write (fs : Fields α) (hwell : fs.wellFormed = true) {a : α}
    {before js : List (String × Json)} (h : fs.write a = some js) (hbefore : ∀ e ∈ before, e.1 ∉ fs.keys) :
    fs.readObject (before ++ js) = fs.again a := by
  induction fs generalizing before js with
  | nil => rfl
  | leaf name aliases missing c rest ih =>
    obtain ⟨a, b⟩ := a
    obtain ⟨j, tail, hj, hrest, rfl⟩ := write_leaf.mp h
    obtain ⟨hname, hwell⟩ := wellFormed_leaf.mp hwell
    unfold readObject again
    have hfield : readField (name :: aliases) missing c.read (before ++ (name, j) :: tail) = c.again a := by
      rw [readField_of_unique List.mem_cons_self]
      · unfold Codec.again
        rw [hj]
        rfl
      · intro e he hmem
        exact hbefore e he (List.mem_append_left _ hmem)
      · intro e he hmem
        exact hname _ hmem (mem_keys_of_write rest hrest he)
    have htail : rest.readObject (before ++ (name, j) :: tail) = rest.again b := by
      rw [List.append_cons]
      refine ih hwell hrest fun e he => ?_
      rcases List.mem_append.mp he with he | he
      · exact fun hmem => hbefore e he (List.mem_append_right _ hmem)
      · rw [List.mem_singleton.mp he]
        exact hname name List.mem_cons_self
    rw [hfield, htail]
  | nested name missing inner rest ihinner ih =>
    obtain ⟨a, b⟩ := a
    obtain ⟨o, tail, ho, hrest, rfl⟩ := write_nested.mp h
    obtain ⟨hname, hinner, hwell⟩ := wellFormed_nested.mp hwell
    unfold readObject again
    rw [readField_of_unique List.mem_cons_self]
    · have hvalue : inner.readObject o = inner.again a := by
        have hread := ihinner hinner ho (List.forall_mem_nil fun e : String × Json => e.1 ∉ inner.keys)
        rwa [List.nil_append] at hread
      have htail : rest.readObject (before ++ (name, .object o) :: tail) = rest.again b := by
        rw [List.append_cons]
        refine ih hwell hrest fun e he => ?_
        rcases List.mem_append.mp he with he | he
        · exact fun hmem => hbefore e he (List.mem_cons_of_mem _ hmem)
        · rw [List.mem_singleton.mp he]
          exact hname
      dsimp only
      rw [hvalue, htail]
    · intro e he hmem
      refine hbefore e he ?_
      rw [List.mem_singleton.mp hmem]
      exact List.mem_cons_self
    · intro e he hmem
      refine hname ?_
      rw [← List.mem_singleton.mp hmem]
      exact mem_keys_of_write rest hrest he
  | transport e fs ih =>
    unfold readObject again
    rw [ih hwell h hbefore]

/-- A record is read back as itself exactly if every leaf is. -/
theorem again_eq_some (fs : Fields α) {a : α} :
    fs.again a = some a ↔ fs.Forall (fun c a => c.again a = some a) a := by
  induction fs with
  | nil => exact ⟨fun _ => trivial, fun _ => rfl⟩
  | leaf name aliases missing c rest ih =>
    unfold again Forall
    rw [both_eq_some, ih]
  | nested name missing inner rest ihinner ih =>
    unfold again Forall
    rw [both_eq_some, ih, ihinner]
  | transport e fs ih =>
    unfold again Forall
    rw [← ih, Option.map_eq_some_iff]
    constructor
    · rintro ⟨b, hb, rfl⟩
      rw [hb, Equiv.symm_apply_apply]
    · intro h
      exact ⟨_, h, Equiv.apply_symm_apply _ _⟩

/-- A record is read back unless a leaf is refused. -/
theorem again_ne_none (fs : Fields α) {a : α} :
    fs.again a ≠ none ↔ fs.Forall (fun c a => c.again a ≠ none) a := by
  induction fs with
  | nil => exact ⟨fun _ => trivial, fun _ => Option.some_ne_none _⟩
  | leaf name aliases missing c rest ih =>
    unfold again Forall
    rw [ne_eq, both_eq_none, not_or, ← ne_eq, ← ne_eq, ih]
  | nested name missing inner rest ihinner ih =>
    unfold again Forall
    rw [ne_eq, both_eq_none, not_or, ← ne_eq, ← ne_eq, ih, ihinner]
  | transport e fs ih =>
    unfold again Forall
    rw [ne_eq, Option.map_eq_none_iff, ← ne_eq, ih]

/-- What is written of a record is read back leaf by leaf. -/
theorem again_codec (fs : Fields α) (hwell : fs.wellFormed = true) {a : α} (h : fs.write a ≠ none) :
    fs.codec.again a = fs.again a := by
  obtain ⟨js, hjs⟩ := Option.ne_none_iff_exists'.mp h
  have hread := fs.readObject_write hwell hjs (List.forall_mem_nil fun e : String × Json => e.1 ∉ fs.keys)
  rw [List.nil_append] at hread
  rw [← hread]
  unfold Codec.again codec
  dsimp only
  rw [hjs]
  rfl

/-- Records are the same if all leaves are. -/
theorem ext_leaves (fs : Fields α) {a b : α} (h : ∀ l ∈ fs.leaves, l.get a = l.get b) : a = b := by
  induction fs with
  | nil => rfl
  | leaf name aliases missing c rest ih =>
    refine Prod.ext (h _ List.mem_cons_self) (ih fun l hl => ?_)
    exact h (l.comap Prod.snd) (List.mem_cons_of_mem _ (List.mem_map_of_mem hl))
  | nested name missing inner rest ihinner ih =>
    refine Prod.ext (ihinner fun l hl => ?_) (ih fun l hl => ?_)
    · exact h ((l.comap Prod.fst).under name)
        (List.mem_append_left _ (List.mem_map.mpr ⟨l, hl, rfl⟩))
    · exact h (l.comap Prod.snd) (List.mem_append_right _ (List.mem_map_of_mem hl))
  | transport e fs ih =>
    refine e.symm.injective (ih fun l hl => ?_)
    exact h (l.comap e.symm) (List.mem_map_of_mem hl)

end Fields

section Reading

/-- What can be said of a value when it is known for the values in it. -/
structure Reading (R : {α : Type} → Codec α → α → Prop) : Prop where
  plain {α : Type} {c : Codec α} (h : c.Plain) (a : α) : R c a
  vec {α : Type} {c : Codec α} (h : c.Total) (l : List α) : R c.vec l ↔ ∀ a ∈ l, R c a
  map {α : Type} {c : Codec α} (h : c.Total) (l : List (String × α)) : R c.map l ↔ ∀ e ∈ l, R c e.2
  record {α : Type} {fs : Fields α} (hwell : fs.wellFormed = true) {a : α} (h : fs.write a ≠ none) :
    R fs.codec a ↔ fs.Forall R a

theorem reading_same : Reading fun c a => c.again a = some a where
  plain h a := h.lawful.again_eq (h.total a)
  vec h l := by rw [Codec.again_vec fun a _ => h a, mapM_eq_self]
  map h l := by
    rw [Codec.again_map fun e _ => h e.2, mapM_eq_self]
    refine forall₂_congr fun e _ => ?_
    rw [Option.map_eq_some_iff]
    constructor
    · rintro ⟨a, ha, hentry⟩
      rw [ha, ← hentry]
    · exact fun ha => ⟨e.2, ha, rfl⟩
  record hwell _ h := by rw [Fields.again_codec _ hwell h, Fields.again_eq_some]

theorem reading_accepted : Reading fun c a => c.again a ≠ none where
  plain h a := by
    rw [h.lawful.again_eq (h.total a)]
    exact Option.some_ne_none a
  vec h l := by rw [Codec.again_vec fun a _ => h a, mapM_ne_none]
  map h l := by
    rw [Codec.again_map fun e _ => h e.2, mapM_ne_none]
    refine forall₂_congr fun e _ => ?_
    rw [ne_eq, Option.map_eq_none_iff]
  record hwell _ h := by rw [Fields.again_codec _ hwell h, Fields.again_ne_none]

end Reading

end Gyre.Config
