/- digest: Activation that spreads from seed entities through the edges of the knowledge graph. -/

import Gyre.Cognitive.KnowledgeGraph
import Gyre.Lib.Ranking
import Gyre.Lib.Spread

/-!
Scores are exact. The database gives the rows of a query, and a hash map its entries, in any order.
-/

set_option autoImplicit false
set_option relaxedAutoImplicit false

namespace Gyre.Cognitive

open Gyre.Lib Gyre.Llm

/-- What spreading reads of a row of `kg_edges`. -/
structure KgEdge where
  fromId : Uuid
  toId : Uuid
  weight : ℚ
  deriving DecidableEq

/-- Both tables; ids of entities are a primary key. -/
structure KgTables where
  graph : KnowledgeGraph
  edges : List KgEdge
  ids_nodup : (graph.rows.map (·.entity.id)).Nodup

/-- A neighbour's id, the edge's weight and the neighbour. -/
abbrev Neighbor := Uuid × ℚ × KgEntity

namespace KgTables

variable (kg : KgTables)

def entities : List KgEntity := kg.graph.rows.map (·.entity)

/-- `JOIN kg_entities n ON n.id = e.to_id WHERE e.from_id = ?1` -/
def neighbors (id : Uuid) : List Neighbor :=
  (kg.edges.filter fun e => decide (e.fromId = id)).flatMap fun e =>
    (kg.entities.filter fun n => decide (n.id = e.toId)).map fun n => (e.toId, e.weight, n)

/-- `JOIN kg_entities n ON n.id = e.from_id WHERE e.to_id = ?1` -/
def revNeighbors (id : Uuid) : List Neighbor :=
  (kg.edges.filter fun e => decide (e.toId = id)).flatMap fun e =>
    (kg.entities.filter fun n => decide (n.id = e.fromId)).map fun n => (e.fromId, e.weight, n)

def network (decay : ℚ) : Network Uuid KgEntity where
  rows id := kg.neighbors id ++ kg.revNeighbors id
  decay := decay

/-- A frontier is visited as it was collected, and outgoing edges come before incoming ones. -/
def sourceOrders : Spread.Orders Uuid KgEntity where
  visits nodes frontier := nodes = frontier
  comes id rows := ∃ out inn, out.Perm (kg.neighbors id) ∧ inn.Perm (kg.revNeighbors id) ∧
    rows = out ++ inn

/-- Frontiers are visited in any order, and so are edges. -/
def anyOrders : Spread.Orders Uuid KgEntity where
  visits nodes frontier := nodes.Perm frontier
  comes id rows := rows.Perm (kg.neighbors id ++ kg.revNeighbors id)

/-- The entities of the seed names. -/
def seedEntities (names : List (List Char)) : List KgEntity :=
  names.flatMap fun name => kg.entities.filter fun e => decide (e.name = name)

def seedIds (names : List (List Char)) : List Uuid := (kg.seedEntities names).map (·.id)

def seedActivation (names : List (List Char)) : AList fun _ : Uuid => ℚ :=
  (kg.seedEntities names).foldl (fun table e => table.insert e.id 1) ∅

def seedPayload (names : List (List Char)) : AList fun _ : Uuid => KgEntity :=
  (kg.seedEntities names).foldl (fun table e => table.insert e.id e) ∅

/-- The frontier before the first round is the keys of the map. -/
structure Seeded (names : List (List Char)) (start : Spread Uuid KgEntity) : Prop where
  activation : start.activation = kg.seedActivation names
  payload : start.payload = kg.seedPayload names
  frontier : start.frontier.Perm start.activation.keys

/-- An id is removed when it is looked up; each is looked up once. -/
def collectResults (payload : AList fun _ : Uuid => KgEntity)
    (entries : List (Sigma fun _ : Uuid => ℚ)) : List (KgEntity × ℚ) :=
  topBy Prod.snd 20
    (entries.filterMap fun entry => (payload.lookup entry.1).map fun entity => (entity, entry.2))

/-- `activate` may end with these scores and return these results. -/
def Activate (orders : Spread.Orders Uuid KgEntity) (names : List (List Char)) (depth : Nat)
    (decay : ℚ) (scores : AList fun _ : Uuid => ℚ) (results : List (KgEntity × ℚ)) : Prop :=
  ∃ start last, kg.Seeded names start ∧
    Spread.Expand (kg.network decay) orders depth start last ∧ scores = last.activation ∧
      ∃ entries, entries.Perm last.activation.entries ∧ results = collectResults last.payload entries

/-- The ids that walks reach, each once. -/
def reached (names : List (List Char)) (depth : Nat) (decay : ℚ) : List Uuid :=
  (((kg.network decay).walks (kg.seedIds names) depth).map Prod.fst).dedup

/-- What activation is meant to be: the highest product of weight and decay along a walk of at most so
many edges, and the 20 best. -/
structure Activated (names : List (List Char)) (depth : Nat) (decay : ℚ)
    (scores : AList fun _ : Uuid => ℚ) (results : List (KgEntity × ℚ)) : Prop where
  assigned : ∀ id a, scores.lookup id = some a ↔
    IsGreatest {b | ∃ m ≤ depth, (kg.network decay).Walk (kg.seedIds names) m id b} a
  scored : ∀ r ∈ results, scores.lookup r.1.id = some r.2
  found : ∀ r ∈ results, r.1 ∈ kg.entities
  distinct : (results.map (·.1.id)).Nodup
  ordered : results.Pairwise fun a b => b.2 ≤ a.2
  count : results.length = min 20 (kg.reached names depth decay).length
  best : ∀ id a, scores.lookup id = some a → (∀ r ∈ results, r.1.id ≠ id) → ∀ r ∈ results, a ≤ r.2

variable {kg}

theorem sound_anyOrders (decay : ℚ) : Spread.Orders.Sound (kg.network decay) kg.anyOrders where
  visits_perm h := h
  comes_perm h := h
  exists_visits frontier := ⟨frontier, List.Perm.refl frontier⟩
  exists_comes id := ⟨_, List.Perm.refl (kg.neighbors id ++ kg.revNeighbors id)⟩

theorem sound_sourceOrders (decay : ℚ) : Spread.Orders.Sound (kg.network decay) kg.sourceOrders where
  visits_perm h := by
    obtain rfl := h
    exact List.Perm.refl _
  comes_perm h := by
    obtain ⟨out, inn, hout, hinn, rfl⟩ := h
    exact hout.append hinn
  exists_visits frontier := ⟨frontier, rfl⟩
  exists_comes id := ⟨_, kg.neighbors id, kg.revNeighbors id, List.Perm.refl _, List.Perm.refl _, rfl⟩

theorem mem_rows {decay : ℚ} {id : Uuid} {r : Neighbor} (h : r ∈ (kg.network decay).rows id) :
    (∃ e ∈ kg.edges, r.2.1 = e.weight) ∧ r.2.2 ∈ kg.entities ∧ r.2.2.id = r.1 := by
  rcases List.mem_append.mp h with h | h
  · obtain ⟨e, he, hn⟩ := List.mem_flatMap.mp h
    obtain ⟨n, hmem, rfl⟩ := List.mem_map.mp hn
    obtain ⟨hmem, hid⟩ := List.mem_filter.mp hmem
    exact ⟨⟨e, List.mem_of_mem_filter he, rfl⟩, hmem, of_decide_eq_true hid⟩
  · obtain ⟨e, he, hn⟩ := List.mem_flatMap.mp h
    obtain ⟨n, hmem, rfl⟩ := List.mem_map.mp hn
    obtain ⟨hmem, hid⟩ := List.mem_filter.mp hmem
    exact ⟨⟨e, List.mem_of_mem_filter he, rfl⟩, hmem, of_decide_eq_true hid⟩

theorem damped {decay : ℚ} (hweight : ∀ e ∈ kg.edges, 0 ≤ e.weight ∧ e.weight ≤ 1)
    (hdecay : 0 ≤ decay ∧ decay ≤ 1) : (kg.network decay).Damped where
  weight_nonneg id r hr := by
    obtain ⟨⟨e, he, hsame⟩, -⟩ := mem_rows hr
    rw [hsame]
    exact (hweight e he).1
  weight_le_one id r hr := by
    obtain ⟨⟨e, he, hsame⟩, -⟩ := mem_rows hr
    rw [hsame]
    exact (hweight e he).2
  decay_nonneg := hdecay.1
  decay_le_one := hdecay.2

theorem lookup_foldl_insert {β : Type} (value : KgEntity → β) (entities : List KgEntity)
    (table : AList fun _ : Uuid => β) (id : Uuid) :
    ((entities.foldl (fun table e => table.insert e.id (value e)) table).lookup id = table.lookup id ∧
        id ∉ entities.map (·.id)) ∨
      ∃ e ∈ entities, e.id = id ∧
        (entities.foldl (fun table e => table.insert e.id (value e)) table).lookup id =
          some (value e) := by
  induction entities generalizing table with
  | nil => exact Or.inl ⟨rfl, List.not_mem_nil⟩
  | cons e entities ih =>
    rcases ih (table.insert e.id (value e)) with ⟨hkeep, hnot⟩ | ⟨e', he', hid, hlookup⟩
    · by_cases hid : e.id = id
      · refine Or.inr ⟨e, List.mem_cons_self, hid, hkeep.trans ?_⟩
        rw [← hid]
        exact AList.lookup_insert _
      · refine Or.inl ⟨hkeep.trans (AList.lookup_insert_ne (Ne.symm hid)), ?_⟩
        rw [List.map_cons, List.mem_cons]
        exact not_or.mpr ⟨Ne.symm hid, hnot⟩
    · exact Or.inr ⟨e', List.mem_cons_of_mem e he', hid, hlookup⟩

section Runs

variable {names : List (List Char)} {decay : ℚ} {start last : Spread Uuid KgEntity} {n : Nat}
  {orders : Spread.Orders Uuid KgEntity}

theorem starts (h : kg.Seeded names start) : Spread.Starts (kg.seedIds names) start := by
  have hlookup : ∀ id, start.activation.lookup id = if id ∈ kg.seedIds names then some 1 else none := by
    intro id
    rw [h.activation, seedActivation]
    rcases lookup_foldl_insert (fun _ => (1 : ℚ)) (kg.seedEntities names) ∅ id with
      ⟨hkeep, hnot⟩ | ⟨e, he, hid, hlookup⟩
    · have hnotseed : id ∉ kg.seedIds names := hnot
      rw [hkeep, if_neg hnotseed]
      rfl
    · have hseed : id ∈ kg.seedIds names := List.mem_map.mpr ⟨e, he, hid⟩
      rw [hlookup, if_pos hseed]
  refine ⟨hlookup, fun id => ?_⟩
  rw [h.frontier.mem_iff, ← AList.mem_keys, ← AList.lookup_isSome, hlookup]
  split
  · rename_i hmem
    exact iff_of_true rfl hmem
  · rename_i hnot
    exact iff_of_false (fun h => by cases h) hnot

theorem exists_seeded (kg : KgTables) (names : List (List Char)) : ∃ start, kg.Seeded names start := by
  refine ⟨⟨kg.seedActivation names, kg.seedPayload names, (kg.seedActivation names).keys⟩, rfl, rfl, ?_⟩
  exact List.Perm.refl _

/-- Every score comes with the entity that has it. -/
structure Carried (kg : KgTables) (s : Spread Uuid KgEntity) : Prop where
  some_of_some : ∀ id a, s.activation.lookup id = some a → ∃ entity, s.payload.lookup id = some entity
  entity : ∀ id entity, s.payload.lookup id = some entity → entity ∈ kg.entities ∧ entity.id = id

theorem carried_of_seeded (h : kg.Seeded names start) : Carried kg start := by
  have hentity : ∀ id entity, start.payload.lookup id = some entity →
      entity ∈ kg.entities ∧ entity.id = id := by
    intro id entity hlookup
    rw [h.payload, seedPayload] at hlookup
    rcases lookup_foldl_insert (fun e => e) (kg.seedEntities names) ∅ id with
      ⟨hkeep, -⟩ | ⟨e, he, hid, hlast⟩
    · rw [hkeep] at hlookup
      cases hlookup
    · rw [hlast] at hlookup
      cases hlookup
      obtain ⟨name, -, hmem⟩ := List.mem_flatMap.mp he
      exact ⟨List.mem_of_mem_filter hmem, hid⟩
  refine ⟨fun id a hlookup => ?_, hentity⟩
  have hseed : id ∈ kg.seedIds names := by
    rw [(starts h).activation] at hlookup
    by_contra hnot
    rw [if_neg hnot] at hlookup
    cases hlookup
  rw [h.payload, seedPayload]
  rcases lookup_foldl_insert (fun e => e) (kg.seedEntities names) ∅ id with ⟨-, hnot⟩ | ⟨e, -, -, hlast⟩
  · exact absurd hseed hnot
  · exact ⟨e, hlast⟩

theorem carried_rounds (horders : Spread.Orders.Sound (kg.network decay) orders)
    (hstart : kg.Seeded names start) (h : Spread.Rounds (kg.network decay) orders start n last) :
    Carried kg last := by
  refine Spread.rounds_induction horders (fun s current u r hr hs => ?_) (fun s hs => ?_)
    (carried_of_seeded hstart) h
  · unfold Spread.relax
    split
    · constructor
      · intro id a hlookup
        by_cases hid : id = r.1
        · subst hid
          exact ⟨r.2.2, AList.lookup_insert _⟩
        · rw [AList.lookup_insert_ne hid] at hlookup ⊢
          exact hs.some_of_some id a hlookup
      · intro id entity hlookup
        by_cases hid : id = r.1
        · subst hid
          rw [AList.lookup_insert] at hlookup
          cases hlookup
          exact (mem_rows hr).2
        · rw [AList.lookup_insert_ne hid] at hlookup
          exact hs.entity id entity hlookup
    · exact hs
  · exact ⟨hs.some_of_some, hs.entity⟩

end Runs

section Results

variable {names : List (List Char)} {depth : Nat} {decay : ℚ} {last : Spread Uuid KgEntity}
  {entries : List (Sigma fun _ : Uuid => ℚ)}

theorem map_id_collected (hcarried : Carried kg last)
    (hmem : ∀ e ∈ entries, e ∈ last.activation.entries) :
    (entries.filterMap fun entry => (last.payload.lookup entry.1).map fun entity =>
      (entity, entry.2)).map (·.1.id) = entries.map Sigma.fst := by
  induction entries with
  | nil => rfl
  | cons e entries ih =>
    obtain ⟨entity, hentity⟩ := hcarried.some_of_some e.1 e.2
      (AList.mem_lookup_iff.mpr (hmem e List.mem_cons_self))
    rw [List.filterMap_cons_some (by rw [hentity]; rfl), List.map_cons, List.map_cons,
      ih fun e' he' => hmem e' (List.mem_cons_of_mem e he')]
    exact congrArg (· :: entries.map Sigma.fst) (hcarried.entity e.1 entity hentity).2

/-- The results are the best of the scores, whatever these are. -/
theorem activated_of_assigned (hcarried : Carried kg last)
    (hperm : entries.Perm last.activation.entries)
    (hassigned : ∀ id, last.activation.lookup id =
      (kg.network decay).bestWalk (kg.seedIds names) depth id) :
    kg.Activated names depth decay last.activation (collectResults last.payload entries) := by
  have hmem : ∀ e ∈ entries, e ∈ last.activation.entries := fun e he => hperm.mem_iff.mp he
  have hids := map_id_collected hcarried hmem
  have hkeys : (entries.map Sigma.fst).Nodup :=
    (hperm.map Sigma.fst).nodup_iff.mpr last.activation.nodupKeys
  have hresult : ∀ r ∈ collectResults last.payload entries,
      last.activation.lookup r.1.id = some r.2 ∧ r.1 ∈ kg.entities := by
    intro r hr
    obtain ⟨e, he, hr⟩ := List.mem_filterMap.mp (inTop_of_mem hr).1
    obtain ⟨entity, hentity, rfl⟩ := Option.map_eq_some_iff.mp hr
    obtain ⟨hin, hid⟩ := hcarried.entity e.1 entity hentity
    refine ⟨?_, hin⟩
    rw [hid]
    exact AList.mem_lookup_iff.mpr (hmem e he)
  have hreached : (entries.map Sigma.fst).Perm (kg.reached names depth decay) := by
    refine (List.perm_ext_iff_of_nodup hkeys (List.nodup_dedup _)).mpr fun id => ?_
    have hkey : id ∈ entries.map Sigma.fst ↔ id ∈ last.activation := (hperm.map Sigma.fst).mem_iff
    rw [hkey, ← AList.lookup_isSome, hassigned, List.mem_dedup, List.mem_map]
    constructor
    · intro h
      obtain ⟨a, ha⟩ := Option.isSome_iff_exists.mp h
      exact ⟨(id, a), (Network.bestWalk_eq_some_iff.mp ha).1, rfl⟩
    · rintro ⟨⟨id, a⟩, hwalk, rfl⟩
      obtain ⟨b, hb⟩ := Network.bestWalk_isSome hwalk
      exact Option.isSome_iff_exists.mpr ⟨b, hb⟩
  refine ⟨fun id a => ?_, fun r hr => (hresult r hr).1, fun r hr => (hresult r hr).2,
    nodup_map_topBy (hids ▸ hkeys), topBy_ordered _, ?_, fun id a hscore hout r hr => ?_⟩
  · rw [hassigned]
    exact Network.bestWalk_eq_some_iff_isGreatest
  · unfold collectResults
    rw [length_topBy, ← hreached.length_eq, ← hids, List.length_map]
  · obtain ⟨entity, hentity⟩ := hcarried.some_of_some id a hscore
    have hpair : (entity, a) ∈ entries.filterMap fun entry =>
        (last.payload.lookup entry.1).map fun entity => (entity, entry.2) := by
      refine List.mem_filterMap.mpr ⟨⟨id, a⟩, hperm.mem_iff.mpr (AList.mem_lookup_iff.mp hscore), ?_⟩
      rw [hentity]
      rfl
    refine topBy_best hr hpair fun hin => hout _ hin (hcarried.entity id entity hentity).2

end Results

/-- Activation, with frontiers and edges visited in any order and up to any number of rounds, is what
it is meant to be exactly if in no round an entity of the frontier passes on too much of what the same
round gives it, and every entity that is reached has a positive score; so is, then, that of the
source's order. -/
theorem activated_iff (kg : KgTables) (names : List (List Char)) (depth : Nat) (decay : ℚ)
    (hweight : ∀ e ∈ kg.edges, 0 ≤ e.weight ∧ e.weight ≤ 1) (hdecay : 0 ≤ decay ∧ decay ≤ 1) :
    ((∀ d ≤ depth, ∀ scores results, kg.Activate kg.anyOrders names d decay scores results →
        kg.Activated names d decay scores results) ↔
      Spread.Calm (kg.network decay) (kg.seedIds names) depth ∧
        Spread.Lively (kg.network decay) (kg.seedIds names) depth) ∧
    (Spread.Calm (kg.network decay) (kg.seedIds names) depth →
      Spread.Lively (kg.network decay) (kg.seedIds names) depth →
        ∀ scores results, kg.Activate kg.sourceOrders names depth decay scores results →
          kg.Activated names depth decay scores results) := by
  have hdamped := damped hweight hdecay
  have hright : ∀ {orders : Spread.Orders Uuid KgEntity}, Spread.Orders.Sound (kg.network decay) orders →
      Spread.Calm (kg.network decay) (kg.seedIds names) depth →
      Spread.Lively (kg.network decay) (kg.seedIds names) depth → ∀ d ≤ depth, ∀ scores results,
        kg.Activate orders names d decay scores results →
          kg.Activated names d decay scores results := by
    rintro orders horders hcalm hlively d hd scores results ⟨start, last, hseeded, hexpand, rfl,
      entries, hperm, rfl⟩
    have hrounds := (Spread.expand_iff_rounds horders).mp hexpand
    refine activated_of_assigned (carried_rounds horders hseeded hrounds) hperm ?_
    exact (Spread.lookup_eq_iff horders (starts hseeded) hrounds).mpr
      ⟨(Spread.exact_rounds hdamped horders (starts hseeded) hcalm hd hrounds).score, hlively d hd⟩
  refine ⟨⟨fun h => ?_, fun h => hright (sound_anyOrders decay) h.1 h.2⟩,
    fun hcalm hlively => hright (sound_sourceOrders decay) hcalm hlively depth le_rfl⟩
  obtain ⟨start, hstart⟩ := exists_seeded kg names
  refine (Spread.rounds_best_iff hdamped (sound_anyOrders decay) (fun _ _ hperm => hperm)
    (starts hstart)).mp fun d hd last hrounds id => Option.ext fun a => ?_
  have hexpand := (Spread.expand_iff_rounds (sound_anyOrders decay)).mpr hrounds
  have hassigned := (h d hd _ _ ⟨start, last, hstart, hexpand, rfl, _, List.Perm.refl _, rfl⟩).assigned
  rw [hassigned]
  exact Network.bestWalk_eq_some_iff_isGreatest.symm

private def numbered (n : Nat) : KgEntity := ⟨.ofNat n, [Char.ofNat (97 + n)], .research, [], 5, 0, 0⟩

/-- The seed is tied to a strong and a weak neighbour, the strong one to the weak one, and this one to
a fourth entity. -/
private def shortcut : KgTables where
  graph := ⟨[⟨numbered 0, none⟩, ⟨numbered 1, none⟩, ⟨numbered 2, none⟩, ⟨numbered 3, none⟩]⟩
  edges := [⟨.ofNat 0, .ofNat 1, 1⟩, ⟨.ofNat 0, .ofNat 2, 1 / 2⟩, ⟨.ofNat 1, .ofNat 2, 1⟩,
    ⟨.ofNat 2, .ofNat 3, 1⟩]
  ids_nodup := by decide

theorem activated_iff_shortcut :
    (∀ d ≤ 2, ∀ scores results, shortcut.Activate shortcut.anyOrders [['a']] d 1 scores results →
        shortcut.Activated [['a']] d 1 scores results) ↔
      Spread.Calm (shortcut.network 1) (shortcut.seedIds [['a']]) 2 ∧
        Spread.Lively (shortcut.network 1) (shortcut.seedIds [['a']]) 2 :=
  (activated_iff shortcut [['a']] 2 1 (by decide +kernel) (by decide +kernel)).1

/-- Two rounds carry a score over three edges, in the order of the source. -/
theorem three_edges_in_two_rounds :
    ¬∀ scores results, shortcut.Activate shortcut.sourceOrders [['a']] 2 1 scores results →
      shortcut.Activated [['a']] 2 1 scores results := by
  intro h
  have hrun := Spread.expand_run (shortcut.network 1) shortcut.sourceOrders (fun _ => rfl)
    (fun id => ⟨_, _, List.Perm.refl _, List.Perm.refl _, rfl⟩) 2
      ⟨shortcut.seedActivation [['a']], shortcut.seedPayload [['a']], [.ofNat 0]⟩
  have hseeded : shortcut.Seeded [['a']]
      ⟨shortcut.seedActivation [['a']], shortcut.seedPayload [['a']], [.ofNat 0]⟩ :=
    ⟨rfl, rfl, by decide +kernel⟩
  have hactivated := h _ _ ⟨_, _, hseeded, hrun, rfl, _, List.Perm.refl _, rfl⟩
  have hone := (hactivated.assigned (.ofNat 3) 1).mp (by decide +kernel)
  have hwalk : (Uuid.ofNat 3, (1 : ℚ)) ∈ (shortcut.network 1).walks (shortcut.seedIds [['a']]) 2 :=
    Network.mem_walks.mpr hone.1
  exact absurd hwalk (by decide +kernel)

end KgTables

end Gyre.Cognitive
