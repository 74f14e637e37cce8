import SessionGrid.Proofs.Config.FirstFault
import SessionGrid.Proofs.Simulation.Grid

/-!
# Declared nodes as members

The nodes of a configuration are made and added one after the other, and each is taken in unless its id
was declared before. So a hub takes in all declared nodes exactly if their ids differ
(`all_enlisted`, `nodup_of_enlisted`), which is what a configuration without a fault promises
(`fault?_and_enlisting`).
-/

namespace SessionGrid

namespace Hub

/-- Makes the declared nodes and adds each of them: what the hub answers, and the hub with them. -/
def enlist {P : Type} (hub : Hub P SlotNode) : List NodeConfig → List Bool × Hub P SlotNode
  | [] => ([], hub)
  | d :: ds =>
    let made := hub.create d.node
    let reply := made.2.add made.1
    let rest := reply.state.enlist ds
    (reply.answer :: rest.1, rest.2)

variable {P : Type} {hub : Hub P SlotNode} {d : NodeConfig} {ds : List NodeConfig}

/-! ## One declaration -/

theorem find?_create (hub : Hub P SlotNode) (d : NodeConfig) (id : NodeId) :
    (hub.create d.node).2.find? id = hub.find? id := rfl

/-- The hub with a declared node as a new member. -/
def adopt (hub : Hub P SlotNode) (d : NodeConfig) : Hub P SlotNode :=
  (hub.create d.node).2.bind d.id hub.nodes.length

/-- A node whose id is free is taken in. -/
theorem enlist_of_free (free : hub.find? d.id = none) :
    hub.enlist (d :: ds) = (true :: ((hub.adopt d).enlist ds).1, ((hub.adopt d).enlist ds).2) := by
  have taken : (hub.create d.node).2.add (hub.create d.node).1 = ⟨true, hub.adopt d, _⟩ :=
    add_of_free (idAt_create hub d) free
  rw [enlist, taken]

/-- One whose id is bound is made and turned away. -/
theorem enlist_of_bound {h : Handle} (bound : hub.find? d.id = some h) :
    hub.enlist (d :: ds) =
      (false :: ((hub.create d.node).2.enlist ds).1, ((hub.create d.node).2.enlist ds).2) := by
  have ignored : (hub.create d.node).2.add (hub.create d.node).1 =
      ⟨false, (hub.create d.node).2, _⟩ := add_of_bound (idAt_create hub d) bound
  rw [enlist, ignored]

/-- A new member is found under its id, and all others as before. -/
theorem find?_adopt (hub : Hub P SlotNode) (d : NodeConfig) (id : NodeId) :
    (hub.adopt d).find? id = if d.id = id then some hub.nodes.length else hub.find? id := by
  rw [adopt, find?_bind, find?_create]

/-- It is as it was declared. -/
theorem node?_adopt_self (hub : Hub P SlotNode) (d : NodeConfig) :
    (hub.adopt d).node? hub.nodes.length = some d.node := by
  simp [adopt, Hub.bind, create, node?]

theorem node?_adopt_of_some {h : Handle} {n : SlotNode} (node : hub.node? h = some n) :
    (hub.adopt d).node? h = some n := by
  have lt : h < hub.nodes.length := (List.getElem?_eq_some_iff.1 node).1
  simpa only [adopt, Hub.bind, create, node?, List.getElem?_append_left lt] using node

/-! ## All declarations -/

/-- Every declared node is a member with what was declared of it, and all that were members before
still are. -/
structure Joined (hub : Hub P SlotNode) (ds : List NodeConfig) (hub' : Hub P SlotNode) : Prop where
  declared : ∀ d ∈ ds, ∃ h, hub'.find? d.id = some h ∧ hub'.node? h = some d.node
  size : hub'.size = hub.size + ds.length
  kept : ∀ {id h}, hub.find? id = some h → hub'.find? id = some h
  nodes : ∀ {h n}, hub.node? h = some n → hub'.node? h = some n

/-- One more declaration in front of others that have joined. -/
theorem Joined.cons {hub' : Hub P SlotNode} (free : hub.find? d.id = none)
    (j : Joined (hub.adopt d) ds hub') : Joined hub (d :: ds) hub' := by
  have own : (hub.adopt d).find? d.id = some hub.nodes.length := by
    rw [find?_adopt, if_pos rfl]
  refine ⟨List.forall_mem_cons.2 ⟨?_, j.declared⟩, ?_, ?_, ?_⟩
  · exact ⟨hub.nodes.length, j.kept own, j.nodes (node?_adopt_self hub d)⟩
  · have grown : (hub.adopt d).size = hub.size + 1 := size_bind free hub.nodes.length
    rw [j.size, grown, List.length_cons]
    omega
  · intro id h found
    apply j.kept
    rw [find?_adopt, if_neg (fun same => ?_), found]
    rw [same, found] at free
    cases free
  · exact fun node => j.nodes (node?_adopt_of_some node)

/-- Nodes with different ids, none of which is a member's, are all taken in. -/
theorem all_enlisted (distinct : (ds.map (·.id)).Nodup) (free : ∀ d ∈ ds, hub.find? d.id = none) :
    (hub.enlist ds).1 = List.replicate ds.length true ∧ Joined hub ds (hub.enlist ds).2 := by
  induction ds generalizing hub with
  | nil => exact ⟨rfl, nofun, rfl, id, id⟩
  | cons d ds ih =>
    obtain ⟨apart, distinct⟩ := List.nodup_cons.1 distinct
    obtain ⟨own, others⟩ := List.forall_mem_cons.1 free
    have later : ∀ e ∈ ds, (hub.adopt d).find? e.id = none := by
      intro e mem
      have ne : d.id ≠ e.id := fun same => apart (List.mem_map.2 ⟨e, mem, same.symm⟩)
      rw [find?_adopt, if_neg ne, others e mem]
    obtain ⟨answers, joined⟩ := ih distinct later
    rw [enlist_of_free own]
    exact ⟨congrArg (true :: ·) answers, joined.cons own⟩

/-- If all nodes are taken in, their ids differ. -/
theorem nodup_of_enlisted (all : false ∉ (hub.enlist ds).1) :
    (ds.map (·.id)).Nodup ∧ ∀ d ∈ ds, hub.find? d.id = none := by
  induction ds generalizing hub with
  | nil => exact ⟨List.nodup_nil, nofun⟩
  | cons d ds ih =>
    cases own : hub.find? d.id with
    | some h =>
      rw [enlist_of_bound own] at all
      exact absurd List.mem_cons_self all
    | none =>
      rw [enlist_of_free own] at all
      obtain ⟨distinct, later⟩ := ih fun mem => all (List.mem_cons_of_mem _ mem)
      have apart : ∀ e ∈ ds, d.id ≠ e.id ∧ hub.find? e.id = none := by
        intro e mem
        have free := later e mem
        rw [find?_adopt] at free
        split at free
        · cases free
        · next ne => exact ⟨ne, free⟩
      refine ⟨List.nodup_cons.2 ⟨fun mem => ?_, distinct⟩, List.forall_mem_cons.2 ⟨own, ?_⟩⟩
      · obtain ⟨e, mem, same⟩ := List.mem_map.1 mem
        exact (apart e mem).1 same.symm
      · exact fun e mem => (apart e mem).2

end Hub

namespace Simulation

/-- The grid of a simulation is the hub of the configuration with the declared nodes enlisted. -/
theorem grid_eq_enlist (c : Config) : (grid c).state = (c.hub.enlist c.nodes).2 := by
  have foldl : ∀ (ds : List NodeConfig) (r : Reply (Hub Policy SlotNode) Unit),
      (ds.foldl enroll r).state = (r.state.enlist ds).2 := by
    intro ds
    induction ds with
    | nil => exact fun r => rfl
    | cons d ds ih => exact fun r => ih (enroll r d)
  rw [grid_eq]
  exact foldl c.nodes ⟨(), c.hub, []⟩

end Simulation

namespace Config

/-- **Valid configurations.** A configuration has no fault exactly if every id has a character that is
not blank, every node has a slot and no id is declared twice; else its fault is that of the first
declaration that breaks a rule, and there the first rule that it breaks. An empty hub takes in every
declared node of a configuration without a fault, and has each of them under its id with the slots and
the offers that were declared. Where ids are declared twice and nothing else is wrong, some node is
not taken in. The grid of a simulation is the hub of its configuration after that. -/
theorem fault?_and_enlisting (c : Config) (strict : Bool) (policy : Policy) :
    let enlisted := (Hub.empty strict policy).enlist c.nodes
    (c.fault? = none ↔
      (∀ n ∈ c.nodes, (∃ ch ∈ n.id.text.toList, Text.isBlank ch = false) ∧
        1 ≤ n.maxSessions.toNat) ∧
      (c.nodes.map (·.id.text)).Nodup) ∧
    (∀ f, c.fault? = some f ↔
      ∃ i, BreaksAt [] c.nodes i f ∧ ∀ j, j < i → ∀ g, ¬ BreaksAt [] c.nodes j g) ∧
    (c.fault? = none →
      enlisted.1 = List.replicate c.nodes.length true ∧ enlisted.2.size = c.nodes.length ∧
      ∀ d ∈ c.nodes, ∃ h n, enlisted.2.find? d.id = some h ∧ enlisted.2.node? h = some n ∧
        n.id = d.id ∧ n.maxSessions = d.maxSessions ∧ n.offers = d.capabilities) ∧
    ((∀ n ∈ c.nodes, (∃ ch ∈ n.id.text.toList, Text.isBlank ch = false) ∧
        1 ≤ n.maxSessions.toNat) →
      ¬ (c.nodes.map (·.id.text)).Nodup → false ∈ enlisted.1) ∧
    (Simulation.grid c).state = (c.hub.enlist c.nodes).2 := by
  intro enlisted
  have texts : (c.nodes.map (·.id.text)).Nodup ↔ (c.nodes.map (·.id)).Nodup := by
    have same : c.nodes.map (·.id.text) = (c.nodes.map (·.id)).map NodeId.text := by
      rw [List.map_map]
      rfl
    rw [same, List.nodup_map_iff fun _ _ => NodeId.text_inj.1]
  refine ⟨?_, fun f => fault?_eq_some_iff, ?_, ?_, Simulation.grid_eq_enlist c⟩
  · rw [fault?_eq_none_iff, texts]
    exact and_congr_left' (forall₂_congr fun n _ => sound_iff)
  · intro valid
    have free : ∀ d ∈ c.nodes, (Hub.empty strict policy : Hub Policy SlotNode).find? d.id = none :=
      fun _ _ => rfl
    obtain ⟨answers, joined⟩ := Hub.all_enlisted (fault?_eq_none_iff.1 valid).2 free
    refine ⟨answers, joined.size.trans (Nat.zero_add _), fun d mem => ?_⟩
    obtain ⟨h, found, node⟩ := joined.declared d mem
    exact ⟨h, d.node, found, node, rfl, rfl, rfl⟩
  · intro sound repeated
    by_contra all
    exact repeated (texts.2 (Hub.nodup_of_enlisted all).1)

/-- Two nodes are enlisted, and are the members of the simulated grid; a third one with the id of the
first is not taken in; and of a node without slots under that id, with a blank id behind it, the missing
slots are the fault. -/
theorem fault?_and_enlisting_small :
    let a : NodeConfig := { id := ⟨"a"⟩ }
    let b : NodeConfig := { id := ⟨"b"⟩, maxSessions := 1 }
    let enlisted (nodes : List NodeConfig) := (Hub.empty true Policy.leastLoaded).enlist nodes
    ((enlisted [a, b]).1 = [true, true] ∧ (enlisted [a, b]).2.size = 2) ∧
      (Simulation.grid { nodes := [a, b] }).state.size = 2 ∧
      false ∈ (enlisted [a, b, a]).1 ∧
      ∃ i, BreaksAt [] [a, { a with maxSessions := 0 }, { id := ⟨" "⟩ }] i (.noSessions a.id) := by
  intro a b enlisted
  obtain ⟨-, -, valid, -, grid⟩ :=
    fault?_and_enlisting { nodes := [a, b] } true .leastLoaded
  obtain ⟨-, -, -, repeated, -⟩ :=
    fault?_and_enlisting { nodes := [a, b, a] } true .leastLoaded
  obtain ⟨-, first, -, -⟩ := fault?_and_enlisting
    { nodes := [a, { a with maxSessions := 0 }, { id := ⟨" "⟩ }] } true .leastLoaded
  have fine : Config.fault? { nodes := [a, b] } = none := by decide
  obtain ⟨answers, size, -⟩ := valid fine
  have sound : ∀ n ∈ [a, b, a], Sound n := by
    intro n mem
    apply (fault?_eq_none_iff.1 fine).1
    simp only [List.mem_cons, List.not_mem_nil, or_false] at mem ⊢
    tauto
  obtain ⟨i, broken, -⟩ := (first (.noSessions a.id)).1 (by decide)
  refine ⟨⟨answers, size⟩, ?_, repeated (fun n mem => sound_iff.1 (sound n mem)) (by decide), i, broken⟩
  rw [grid]
  exact size

end Config

end SessionGrid
