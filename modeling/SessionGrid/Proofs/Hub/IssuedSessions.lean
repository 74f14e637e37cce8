import SessionGrid.Proofs.Hub.NodeHistory

/-!
# Sessions of several nodes

Nodes are called in any order, each of them without regard to the others: what one of them grants in a
run of calls on many is what it grants when only its own calls are made (`atPlace_issued`). It numbers
its sessions from zero on, and node and number can be told from the id of a session. So nodes with
different ids never grant two sessions of one id, however their ids look and whatever one of them begins
with, and a session tells which of the grants of its node it comes from (`issued_ids_tell_grants`).
-/

namespace SessionGrid

/-- The number of a session among those of its node: what its id has behind the id of the node and the
number sign, read as a decimal number. -/
def Session.position (s : Session) : Nat :=
  Nat.ofDigitChars 10 (s.id.toList.drop (s.nodeId.text.length + 1)) 0

namespace SlotNode

/-- The position of a session is its number. -/
theorem position_numbered (id : NodeId) (number : Nat) : (numbered id number).position = number := by
  have parts : (sessionId id number).toList =
      (id.text.toList ++ ['#']) ++ Nat.toDigits 10 number := by
    simp [sessionId]
  have before : id.text.length + 1 = (id.text.toList ++ ['#']).length := by
    rw [List.length_append, String.length_toList, List.length_singleton]
  show Nat.ofDigitChars 10 ((sessionId id number).toList.drop (id.text.length + 1)) 0 = number
  rw [parts, before, List.drop_left, Nat.ofDigitChars_ten_toDigits]

/-! ## What belongs to one node -/

section Places

variable {α : Type}

/-- What belongs to the node at the given place, in a list for several nodes. -/
def atPlace (i : Nat) (l : List (Nat × α)) : List α :=
  l.filterMap fun p => if p.1 = i then some p.2 else none

/-- A projection goes through lists one after the other. -/
theorem atPlace_append (i : Nat) (l l' : List (Nat × α)) :
    atPlace i (l ++ l') = atPlace i l ++ atPlace i l' :=
  List.filterMap_append

theorem atPlace_cons_self (i : Nat) (a : α) (l : List (Nat × α)) :
    atPlace i ((i, a) :: l) = a :: atPlace i l :=
  List.filterMap_cons_some (if_pos rfl)

theorem atPlace_cons_ne {i j : Nat} (ne : j ≠ i) (a : α) (l : List (Nat × α)) :
    atPlace i ((j, a) :: l) = atPlace i l :=
  List.filterMap_cons_none (if_neg ne)

/-- At a place stands what is marked with it. -/
theorem mem_atPlace {i : Nat} {a : α} {l : List (Nat × α)} : a ∈ atPlace i l ↔ (i, a) ∈ l := by
  rw [atPlace, List.mem_filterMap]
  constructor
  · rintro ⟨⟨j, b⟩, mem, found⟩
    split at found
    · next same =>
      cases found
      exact same ▸ mem
    · cases found
  · intro mem
    exact ⟨(i, a), mem, if_pos rfl⟩

/-- What holds between any two entries of one place and between any two of different places holds
between any two. -/
theorem pairwise_of_atPlace {R : α → α → Prop} {l : List (Nat × α)}
    (within : ∀ i, (atPlace i l).Pairwise R)
    (across : ∀ i j a b, i ≠ j → (i, a) ∈ l → (j, b) ∈ l → R a b) :
    (l.map (·.2)).Pairwise R := by
  rw [List.pairwise_map, List.pairwise_iff_forall_sublist]
  rintro ⟨i, a⟩ ⟨j, b⟩ sub
  by_cases same : i = j
  · subst same
    have pair : [a, b].Sublist (atPlace i l) := by
      have both := sub.filterMap fun p => if p.1 = i then some p.2 else none
      simpa [atPlace] using both
    exact List.pairwise_iff_forall_sublist.1 (within i) pair
  · have mem := sub.subset
    exact across i j a b same (mem List.mem_cons_self)
      (mem (List.mem_cons_of_mem _ List.mem_cons_self))

end Places

/-! ## Calls on several nodes -/

/-- The sessions that nodes grant in a run of calls, each with the place of its node, in the order in
which they are granted. Every call names the place of the node that it is made on; a place without a
node makes it void. -/
def issued (nodes : List SlotNode) : List (Nat × Call) → List (Nat × Session)
  | [] => []
  | (i, c) :: run =>
    match nodes[i]? with
    | none => issued nodes run
    | some n =>
      ((n.call c).1.granted?.map (i, ·)).toList ++ issued (nodes.set i (n.call c).2) run

theorem grants_cons (out : Outcome) (past : List Outcome) :
    grants (out :: past) = out.granted?.toList ++ grants past := by
  cases out <;> rfl

/-- A node grants what it grants to its own calls alone. -/
theorem atPlace_issued {nodes : List SlotNode} {i : Nat} {n : SlotNode} (node : nodes[i]? = some n)
    (run : List (Nat × Call)) :
    atPlace i (issued nodes run) = grants (n.outcomes (atPlace i run)) := by
  induction run generalizing nodes n with
  | nil => rfl
  | cons entry run ih =>
    obtain ⟨j, c⟩ := entry
    by_cases own : j = i
    · subst own
      have lt : j < nodes.length := (List.getElem?_eq_some_iff.1 node).1
      have later : (nodes.set j (n.call c).2)[j]? = some (n.call c).2 := List.getElem?_set_self lt
      have first : atPlace j ((n.call c).1.granted?.map (j, ·)).toList =
          (n.call c).1.granted?.toList := by
        cases (n.call c).1.granted? with
        | none => rfl
        | some s => exact atPlace_cons_self j s []
      simp only [issued, node]
      rw [atPlace_append, first, ih later, atPlace_cons_self, outcomes, grants_cons]
    · rw [atPlace_cons_ne own]
      cases other : nodes[j]? with
      | none =>
        simp only [issued, other]
        exact ih node
      | some m =>
        have kept : (nodes.set j (m.call c).2)[i]? = some n := by
          rw [List.getElem?_set_ne own]
          exact node
        have first : atPlace i ((m.call c).1.granted?.map (j, ·)).toList = [] := by
          cases (m.call c).1.granted? with
          | none => rfl
          | some s => exact atPlace_cons_ne own s []
        simp only [issued, other]
        rw [atPlace_append, first, List.nil_append, ih kept]

/-- Only nodes grant sessions. -/
theorem place_of_issued {nodes : List SlotNode} {run : List (Nat × Call)} {i : Nat} {s : Session}
    (mem : (i, s) ∈ issued nodes run) : i < nodes.length := by
  induction run generalizing nodes with
  | nil => cases mem
  | cons entry run ih =>
    obtain ⟨j, c⟩ := entry
    cases node : nodes[j]? with
    | none =>
      simp only [issued, node] at mem
      exact ih mem
    | some n =>
      simp only [issued, node] at mem
      rcases List.mem_append.1 mem with now | later
      · obtain ⟨t, -, same⟩ := Option.map_eq_some_iff.1 (Option.mem_toList.1 now)
        cases same
        exact (List.getElem?_eq_some_iff.1 node).1
      · have lt := ih later
        rwa [List.length_set] at lt

/-! ## Fresh nodes -/

section Fresh

variable {ds : List NodeConfig} {run : List (Nat × Call)} {i : Nat} {d : NodeConfig}

/-- A fresh node numbers what it grants from zero on. -/
theorem atPlace_issued_fresh (declared : ds[i]? = some d) (run : List (Nat × Call)) :
    atPlace i (issued (ds.map NodeConfig.node) run) =
      (List.range (d.node.after (atPlace i run)).nextSession).map (numbered d.id) := by
  have node : (ds.map NodeConfig.node)[i]? = some d.node := by
    rw [List.getElem?_map, declared, Option.map_some]
  rw [atPlace_issued node, (recorded_after d (atPlace i run)).numbers]

/-- Every session that was issued is a numbered one of its node. -/
theorem numbered_of_issued {s : Session} (mem : (i, s) ∈ issued (ds.map NodeConfig.node) run) :
    ∃ d k, ds[i]? = some d ∧ s = numbered d.id k := by
  have lt : i < ds.length := by
    have place := place_of_issued mem
    rwa [List.length_map] at place
  have declared : ds[i]? = some ds[i] := List.getElem?_eq_getElem lt
  have here := mem_atPlace.2 mem
  rw [atPlace_issued_fresh declared] at here
  obtain ⟨k, -, rfl⟩ := List.mem_map.1 here
  exact ⟨ds[i], k, declared, rfl⟩

/-- No node issues two sessions of one id. -/
theorem nodup_atPlace_issued (ds : List NodeConfig) (run : List (Nat × Call)) (i : Nat) :
    (atPlace i (issued (ds.map NodeConfig.node) run)).Pairwise fun s t => s.id ≠ t.id := by
  cases declared : ds[i]? with
  | none =>
    have nothing : atPlace i (issued (ds.map NodeConfig.node) run) = [] := by
      rw [List.eq_nil_iff_forall_not_mem]
      intro s mem
      obtain ⟨d, -, found, -⟩ := numbered_of_issued (mem_atPlace.1 mem)
      cases declared.symm.trans found
    rw [nothing]
    exact .nil
  | some d =>
    rw [atPlace_issued_fresh declared, List.pairwise_map]
    apply List.nodup_range.imp
    intro k l ne same
    exact ne (id_numbered_inj.1 same).2

end Fresh

/-- **Ids of sessions.** Nodes with ids of any form, all different, are called in any order, and
whatever is given back to whom: no two of all the sessions that they grant have one id; each session has
the id of the node that granted it; and from its own id and that of its node it can be told which of the
grants of its node it is, counted from zero. Sessions are counted without a bound here; a counter of
64 bits agrees as long as no node grants `2 ^ 64` of them. -/
theorem issued_ids_tell_grants (ds : List NodeConfig) (distinct : (ds.map (·.id)).Nodup)
    (run : List (Nat × Call)) :
    let sessions := issued (ds.map NodeConfig.node) run
    (sessions.map (·.2.id)).Nodup ∧
      (∀ i s, (i, s) ∈ sessions → ∃ d, ds[i]? = some d ∧ s.nodeId = d.id) ∧
      ∀ (i k : Nat) (s : Session), (atPlace i sessions)[k]? = some s → s.position = k := by
  intro sessions
  refine ⟨?_, ?_, ?_⟩
  · have ids : sessions.map (·.2.id) = (sessions.map (·.2)).map Session.id := by rw [List.map_map]; rfl
    rw [ids, List.Nodup, List.pairwise_map]
    apply pairwise_of_atPlace (nodup_atPlace_issued ds run)
    intro i j s t ne here there same
    obtain ⟨d, k, declared, rfl⟩ := numbered_of_issued here
    obtain ⟨e, l, declared', rfl⟩ := numbered_of_issued there
    have one : d.id = e.id := (id_numbered_inj.1 same).1
    -- Different places have different ids.
    have lt : i < (ds.map (·.id)).length := by
      rw [List.length_map]
      exact (List.getElem?_eq_some_iff.1 declared).1
    apply ne
    apply (List.getElem?_inj lt distinct).1
    rw [List.getElem?_map, List.getElem?_map, declared, declared', Option.map_some, Option.map_some, one]
  · intro i s mem
    obtain ⟨d, k, declared, rfl⟩ := numbered_of_issued mem
    exact ⟨d, declared, rfl⟩
  · intro i k s found
    obtain ⟨d, number, declared, rfl⟩ := numbered_of_issued (mem_atPlace.1 (List.mem_of_getElem? found))
    rw [atPlace_issued_fresh declared, List.getElem?_map] at found
    obtain ⟨k', at_k, same⟩ := Option.map_eq_some_iff.1 found
    have number_eq : k' = number := (id_numbered_inj.1 (congrArg Session.id same)).2
    obtain ⟨lt, at_k⟩ := List.getElem?_eq_some_iff.1 at_k
    have place : k = k' := (List.getElem_range lt).symm.trans at_k
    rw [position_numbered, place, number_eq]

/-- Two nodes of which the second has the id of a session of the first. -/
theorem issued_ids_tell_grants_nested_ids :
    let ds : List NodeConfig :=
      [{ id := ⟨"a"⟩, capabilities := [Capabilities.empty] },
        { id := ⟨"a#1"⟩, capabilities := [Capabilities.empty] }]
    let ask : Call := .grant 0 Capabilities.empty
    let sessions := issued (ds.map NodeConfig.node)
      [(0, ask), (1, ask), (0, .release ⟨"a#0", ⟨"a"⟩⟩), (0, ask)]
    (ds.map (·.id)).Nodup ∧
      sessions = [(0, ⟨"a#0", ⟨"a"⟩⟩), (1, ⟨"a#1#0", ⟨"a#1"⟩⟩), (0, ⟨"a#1", ⟨"a"⟩⟩)] ∧
      (sessions.map (·.2.id)).Nodup ∧ (Session.mk "a#1" ⟨"a"⟩).position = 1 := by
  intro ds ask sessions
  have distinct : (ds.map (·.id)).Nodup := by decide
  have all : sessions = [(0, ⟨"a#0", ⟨"a"⟩⟩), (1, ⟨"a#1#0", ⟨"a#1"⟩⟩), (0, ⟨"a#1", ⟨"a"⟩⟩)] := by
    decide
  obtain ⟨nodup, -, positions⟩ := issued_ids_tell_grants ds distinct
    [(0, ask), (1, ask), (0, .release ⟨"a#0", ⟨"a"⟩⟩), (0, ask)]
  refine ⟨distinct, all, nodup, positions 0 1 ⟨"a#1", ⟨"a"⟩⟩ ?_⟩
  show (atPlace 0 sessions)[1]? = _
  rw [all]
  rfl

end SlotNode

end SessionGrid
