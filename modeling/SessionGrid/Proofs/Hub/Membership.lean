import SessionGrid.Proofs.Hub.Identity

/-!
# How the membership changes

Adding a node binds its id if it is free, removing a node frees its id if it is bound, and nothing
else touches the members. `MembershipStep` lists these cases with what an outside observer can tell
of each (`Change`), and `callIn_step` says that every call is one of them. In every reachable state the
members are kept in order of name, each under the id of its own node object (`coherent_after`).
-/

namespace SessionGrid

theorem NodeId.text_inj {a b : NodeId} : a.text = b.text ↔ a = b := by
  cases a; cases b; simp

/-- What can be observed of a call that adds or removes a node. -/
inductive Change where
  /-- The node object `h` with the given id was added, and was it taken in? -/
  | added (id : NodeId) (h : Handle) (accepted : Bool)
  | removed (id : NodeId) (answer : Except HubError Handle)

namespace Hub

variable {P N : Type}

def bind (hub : Hub P N) (id : NodeId) (h : Handle) : Hub P N :=
  { hub with members := Bindings.insert id.text h hub.members }

def unbind (hub : Hub P N) (id : NodeId) : Hub P N :=
  { hub with members := Bindings.erase id.text hub.members }

/-- Binding an id changes what is found under it and under no other. -/
theorem find?_bind (hub : Hub P N) (id : NodeId) (h : Handle) (k : NodeId) :
    (hub.bind id h).find? k = if id = k then some h else hub.find? k := by
  simp only [find?, bind, Bindings.find?_insert, NodeId.text_inj]

/-- Freeing an id leaves nothing under it, and all other ids as they are. -/
theorem find?_unbind (hub : Hub P N) (id k : NodeId) :
    (hub.unbind id).find? k = if id = k then none else hub.find? k := by
  simp only [find?, unbind, Bindings.find?_erase, NodeId.text_inj]

theorem isEmpty_eq (hub : Hub P N) : hub.isEmpty = decide (hub.size = 0) := by
  unfold isEmpty size
  cases hub.members <;> rfl

/-- A free id that is bound makes one more member. -/
theorem size_bind {hub : Hub P N} {id : NodeId} (free : hub.find? id = none) (h : Handle) :
    (hub.bind id h).size = hub.size + 1 :=
  Bindings.length_insert free

/-- All but the binding of one id is as before. -/
structure Rebinds (hub : Hub P N) (id : NodeId) (bound : Option Handle) (hub' : Hub P N) : Prop where
  here : hub'.find? id = bound
  elsewhere : ∀ k, k ≠ id → hub'.find? k = hub.find? k
  rest : { hub' with members := hub.members } = hub

/-- Binding an id is a change of what stands under it, and of nothing else in the hub. -/
theorem rebinds_bind (hub : Hub P N) (id : NodeId) (h : Handle) :
    Rebinds hub id (some h) (hub.bind id h) := by
  refine ⟨by simp [find?_bind], fun k ne => ?_, rfl⟩
  rw [find?_bind, if_neg (Ne.symm ne)]

theorem rebinds_unbind (hub : Hub P N) (id : NodeId) : Rebinds hub id none (hub.unbind id) := by
  refine ⟨by simp [find?_unbind], fun k ne => ?_, rfl⟩
  rw [find?_unbind, if_neg (Ne.symm ne)]

/-! ## Adding and removing -/

/-- Of a bound id the member is returned, freed and reported. -/
theorem removeId_of_bound {hub : Hub P N} {id : NodeId} {h : Handle} (bound : hub.find? id = some h) :
    hub.removeId id = ⟨.ok h, hub.unbind id, [.nodeRemoved id]⟩ := by
  simp only [removeId, bound, unbind]

/-- A free id is refused, reported, and changes nothing. -/
theorem removeId_of_free {hub : Hub P N} {id : NodeId} (free : hub.find? id = none) :
    hub.removeId id = ⟨.error (.notAMember id), hub, [.notAMember id]⟩ := by
  simp only [removeId, free]

variable [Node N]

/-- What is no node object cannot be added, and nothing is reported of it. -/
theorem add_of_unknown {hub : Hub P N} {h : Handle} (unknown : hub.idAt h = none) :
    hub.add h = ⟨false, hub, []⟩ := by
  have none : hub.node? h = none := Option.map_eq_none_iff.1 unknown
  simp only [add, none]

/-- An id that is bound stays with its member. -/
theorem add_of_bound {hub : Hub P N} {h k : Handle} {id : NodeId} (own : hub.idAt h = some id)
    (bound : hub.find? id = some k) : hub.add h = ⟨false, hub, [.alreadyMember id]⟩ := by
  obtain ⟨n, hn, rfl⟩ := idAt_eq_some_iff.1 own
  simp [add, hn, containsId, bound]

/-- Of a free id the node object becomes the member, and the report has the new size. -/
theorem add_of_free {hub : Hub P N} {h : Handle} {id : NodeId} (own : hub.idAt h = some id)
    (free : hub.find? id = none) :
    hub.add h = ⟨true, hub.bind id h, [.nodeAdded id (hub.bind id h).size]⟩ := by
  obtain ⟨n, hn, rfl⟩ := idAt_eq_some_iff.1 own
  simp [add, hn, containsId, free, bind]

/-! ## What a call does to the membership -/

/-- A call and what can be observed of it. -/
inductive MembershipStep (hub : Hub P N) : List Change → Hub P N → Prop where
  | other {hub' : Hub P N} (same : SameMembers hub hub') : MembershipStep hub [] hub'
  | accepted {id : NodeId} {h : Handle} (own : hub.idAt h = some id) (free : hub.find? id = none) :
      MembershipStep hub [.added id h true] (hub.bind id h)
  | ignored {id : NodeId} {h k : Handle} (own : hub.idAt h = some id)
      (bound : hub.find? id = some k) : MembershipStep hub [.added id h false] hub
  | removed {id : NodeId} {h : Handle} (bound : hub.find? id = some h) :
      MembershipStep hub [.removed id (.ok h)] (hub.unbind id)
  | missing {id : NodeId} (free : hub.find? id = none) :
      MembershipStep hub [.removed id (.error (.notAMember id))] hub

/-- What can be observed of a call that adds or removes, from the id of the node and the answer. -/
def changes (hub : Hub P N) : Call N → List Change
  | .add h => ((hub.idAt h).map fun id => Change.added id h (hub.add h).answer).toList
  | .remove h => ((hub.idAt h).map fun id => Change.removed id (hub.removeId id).answer).toList
  | .removeId id => [.removed id (hub.removeId id).answer]
  | _ => []

/-- Adding a node is one of the cases, whatever stands behind the handle. -/
theorem step_add (hub : Hub P N) (h : Handle) :
    MembershipStep hub (hub.changes (.add h)) (hub.add h).state := by
  cases own : hub.idAt h with
  | none => simpa [changes, own, add_of_unknown own] using MembershipStep.other (.refl hub)
  | some id =>
    cases lookup : hub.find? id with
    | none => simpa [changes, own, add_of_free own lookup] using MembershipStep.accepted own lookup
    | some k => simpa [changes, own, add_of_bound own lookup] using MembershipStep.ignored own lookup

/-- Removing an id is one of the cases, whether it is bound or not. -/
theorem step_removeId (hub : Hub P N) (id : NodeId) :
    MembershipStep hub [.removed id (hub.removeId id).answer] (hub.removeId id).state := by
  cases lookup : hub.find? id with
  | none => simpa [removeId_of_free lookup] using MembershipStep.missing lookup
  | some h => simpa [removeId_of_bound lookup] using MembershipStep.removed lookup

/-! ## Members under their own ids -/

/-- Members stand in order of name, each under the id of its own node object. -/
structure Coherent (hub : Hub P N) : Prop where
  sorted : Bindings.Sorted hub.members
  own : ∀ {id : NodeId} {h : Handle}, hub.find? id = some h → hub.idAt h = some id

theorem coherent_empty (strict : Bool) (policy : P) : (empty strict policy : Hub P N).Coherent :=
  ⟨List.Pairwise.nil, fun h => nomatch h⟩

/-- Every case keeps the members in order and under their own ids. -/
theorem Coherent.step {hub hub' : Hub P N} {changes : List Change} (inv : hub.Coherent)
    (step : MembershipStep hub changes hub') : hub'.Coherent := by
  cases step with
  | other same =>
    refine ⟨same.members ▸ inv.sorted, fun {id h} found => ?_⟩
    rw [same.find?] at found
    exact same.ids (inv.own found)
  | accepted own free =>
    refine ⟨inv.sorted.insert _ _, fun {k h'} found => ?_⟩
    rw [find?_bind] at found
    split at found
    · next e =>
      cases found
      exact e ▸ own
    · exact inv.own found
  | removed bound =>
    refine ⟨inv.sorted.erase _, fun {k h'} found => ?_⟩
    rw [find?_unbind] at found
    split at found
    · cases found
    · exact inv.own found
  | ignored own bound => exact inv
  | missing free => exact inv

/-! ## Runs -/

section Runs

variable [SelectionPolicy P] [StableId N]

/-- Every call is one of the cases, in whatever order its members are listed. -/
theorem callIn_step (hub : Hub P N) (c : Listing × Call N) :
    MembershipStep hub (hub.changes c.2) (hub.callIn c).state := by
  obtain ⟨l, c⟩ := c
  cases c with
  | add h => exact step_add hub h
  | removeId id => exact step_removeId hub id
  | remove h =>
    cases own : hub.idAt h with
    | none => simpa [changes, callIn, own] using MembershipStep.other (.refl hub)
    | some id => simpa [changes, callIn, own] using step_removeId hub id
  | _ => exact .other (sameMembers_callIn hub fun other => other)

theorem Coherent.callIn {hub : Hub P N} (inv : hub.Coherent) (c : Listing × Call N) :
    (hub.callIn c).state.Coherent :=
  inv.step (callIn_step hub c)

/-- Coherence holds in every reachable state, with any listings on the way. -/
theorem coherent_afterIn (strict : Bool) (policy : P) (calls : List (Listing × Call N)) :
    ((empty strict policy : Hub P N).afterIn calls).Coherent :=
  afterIn_induction (fun _ c inv => inv.callIn c) (coherent_empty strict policy) calls

theorem coherent_after (strict : Bool) (policy : P) (calls : List (Call N)) :
    ((empty strict policy : Hub P N).after calls).Coherent :=
  coherent_afterIn strict policy _

end Runs

end Hub

end SessionGrid
