import SessionGrid.Proofs.Hub.Membership
import SessionGrid.Proofs.Hub.SlotNode

/-!
# The membership told from the history

The past of a hub is the list of its `Change`s, oldest first. Under an id stands the node object that
was the first to be added under it since a node of that id was last removed (`firstAdded`): later
adds of the same id are ignored until then. `membership_history` says that after any calls a hub
answers and changes as this map does, and that its size is the number of accepted nodes less the
number of removed ones.
-/

namespace SessionGrid

namespace Change

/-- A removal of the node with the given id that found one. -/
def removes (id : NodeId) : Change → Bool
  | removed k (.ok _) => decide (k = id)
  | _ => false

/-- The node object that was added under the given id, whether it was taken in or not. -/
def adds? (id : NodeId) : Change → Option Handle
  | added k h _ => if k = id then some h else none
  | removed .. => none

def isAccepted : Change → Bool
  | added _ _ accepted => accepted
  | removed .. => false

def isRemoved : Change → Bool
  | removed _ (.ok _) => true
  | _ => false

end Change

/-- The changes after the last one that removed the given id. -/
def sinceRemoval (id : NodeId) (past : List Change) : List Change :=
  (past.reverse.takeWhile fun c => !c.removes id).reverse

/-- The node object that was the first to be added under an id since the id was last removed. -/
def firstAdded (past : List Change) (id : NodeId) : Option Handle :=
  (sinceRemoval id past).findSome? (Change.adds? id)

/-- How many nodes were taken in. -/
def acceptedCount (past : List Change) : Nat := past.countP Change.isAccepted

/-- How many removals found a node. -/
def removedCount (past : List Change) : Nat := past.countP Change.isRemoved

/-- A removal empties its id; an addition fills it if it was empty. -/
theorem firstAdded_snoc (past : List Change) (c : Change) (id : NodeId) :
    firstAdded (past ++ [c]) id =
      if c.removes id then none else (firstAdded past id).or (c.adds? id) := by
  unfold firstAdded sinceRemoval
  rw [List.reverse_append, List.reverse_singleton, List.singleton_append, List.takeWhile_cons]
  cases removes : c.removes id with
  | true => rfl
  | false => simp [List.findSome?_append]

namespace Hub

variable {P N : Type} [Node N]

/-- The past is that of the hub: it tells under each id the member, and how many members there are. -/
structure Recorded (hub : Hub P N) (past : List Change) : Prop where
  coherent : hub.Coherent
  find : ∀ id, hub.find? id = firstAdded past id
  size : hub.size + removedCount past = acceptedCount past

theorem recorded_empty (strict : Bool) (policy : P) : (empty strict policy : Hub P N).Recorded [] :=
  ⟨coherent_empty strict policy, fun _ => rfl, rfl⟩

/-- A bound id that is freed makes one member less. -/
theorem Coherent.size_unbind {hub : Hub P N} {id : NodeId} {h : Handle} (inv : hub.Coherent)
    (bound : hub.find? id = some h) : (hub.unbind id).size + 1 = hub.size :=
  inv.sorted.length_erase bound

/-- Every case of a call goes into the record. -/
theorem Recorded.step {hub hub' : Hub P N} {past changes : List Change} (inv : hub.Recorded past)
    (step : MembershipStep hub changes hub') : hub'.Recorded (past ++ changes) := by
  refine ⟨inv.coherent.step step, fun k => ?_, ?_⟩
  · cases step with
    | other same => rw [same.find?, List.append_nil, inv.find]
    | accepted own free =>
      rw [find?_bind, firstAdded_snoc, ← inv.find]
      split
      · next e => subst e; simp [Change.removes, Change.adds?, free]
      · next ne => simp [Change.removes, Change.adds?, ne]
    | @ignored id h stored own bound =>
      rw [firstAdded_snoc, ← inv.find]
      by_cases e : id = k
      · subst e; simp [Change.removes, bound]
      · simp [Change.removes, Change.adds?, e]
    | removed bound =>
      rw [find?_unbind, firstAdded_snoc, ← inv.find]
      simp [Change.removes, Change.adds?]
    | missing free =>
      rw [firstAdded_snoc, ← inv.find]
      simp [Change.removes, Change.adds?]
  · have size := inv.size
    cases step with
    | other same =>
      rw [List.append_nil, ← size, Hub.size, Hub.size, same.members]
    | accepted own free =>
      rw [size_bind free]
      simp only [removedCount, acceptedCount, List.countP_append] at size ⊢
      simp [Change.isRemoved, Change.isAccepted]
      omega
    | ignored own bound =>
      simpa [removedCount, acceptedCount, Change.isRemoved, Change.isAccepted] using size
    | removed bound =>
      have less := inv.coherent.size_unbind bound
      simp only [removedCount, acceptedCount, List.countP_append] at size ⊢
      simp [Change.isRemoved, Change.isAccepted]
      omega
    | missing free =>
      simpa [removedCount, acceptedCount, Change.isRemoved, Change.isAccepted] using size

variable [SelectionPolicy P]

/-- The changes that a list of calls makes, oldest first. -/
def history (hub : Hub P N) : List (Listing × Call N) → List Change
  | [] => []
  | c :: cs => hub.changes c.2 ++ (hub.callIn c).state.history cs

/-- The hub answers membership calls as the map `members` from ids to node objects does, and
changes as the map does. -/
structure ActsAs (hub : Hub P N) (members : NodeId → Option Handle) : Prop where
  get : ∀ id, (hub.call (.get id)).answer = .node (id.bind members)
  containsId : ∀ id, (hub.call (.containsId id)).answer = .flag (members id).isSome
  contains : ∀ {h id}, hub.idAt h = some id →
    (hub.call (.contains h)).answer = .flag (members id).isSome
  /-- Every stored node object sits under its own id. -/
  own : ∀ {name h}, (name, h) ∈ hub.members → hub.idAt h = some ⟨name⟩
  unique : (hub.members.map Prod.fst).Nodup
  accepts : ∀ {h id}, hub.idAt h = some id → members id = none →
    (hub.call (.add h)).answer = .flag true ∧ Rebinds hub id (some h) (hub.call (.add h)).state
  ignores : ∀ {h id stored}, hub.idAt h = some id → members id = some stored →
    (hub.call (.add h)).answer = .flag false ∧ (hub.call (.add h)).state = hub
  removes : ∀ {id stored}, members id = some stored →
    (hub.call (.removeId id)).answer = .removed (.ok stored) ∧
      Rebinds hub id none (hub.call (.removeId id)).state
  misses : ∀ {id}, members id = none →
    (hub.call (.removeId id)).answer = .removed (.error (.notAMember id)) ∧
      (hub.call (.removeId id)).state = hub
  /-- Only the id counts of a node object that is to be removed. -/
  removesNode : ∀ {h id}, hub.idAt h = some id → hub.call (.remove h) = hub.call (.removeId id)

/-- A hub that is recorded acts as the map of its past. -/
theorem Recorded.actsAs {hub : Hub P N} {past : List Change} (inv : hub.Recorded past) :
    hub.ActsAs (firstAdded past) := by
  have find : hub.find? = firstAdded past := funext inv.find
  rw [← find]
  refine
    { get := fun id => rfl
      containsId := fun id => rfl
      contains := fun own => ?_
      own := fun mem => inv.coherent.own (inv.coherent.sorted.find?_eq_some_iff.2 mem)
      unique := inv.coherent.sorted.nodup_names
      accepts := fun own free => ?_
      ignores := fun own bound => ?_
      removes := fun bound => ?_
      misses := fun free => ?_
      removesNode := fun own => ?_ }
  · simp only [call, callIn, own, Hub.containsId]
  · simp only [call, callIn, add_of_free own free, Reply.map_answer, Reply.map_state]
    exact ⟨trivial, rebinds_bind hub _ _⟩
  · simp only [call, callIn, add_of_bound own bound, Reply.map_answer, Reply.map_state, and_self]
  · simp only [call, callIn, removeId_of_bound bound, Reply.map_answer, Reply.map_state]
    exact ⟨trivial, rebinds_unbind hub _⟩
  · simp only [call, callIn, removeId_of_free free, Reply.map_answer, Reply.map_state, and_self]
  · simp only [call, callIn, own]

variable [StableId N]

/-- Any calls, with any listings, go into the record. -/
theorem Recorded.afterIn {hub : Hub P N} {past : List Change} (inv : hub.Recorded past)
    (calls : List (Listing × Call N)) :
    (hub.afterIn calls).Recorded (past ++ hub.history calls) := by
  induction calls generalizing hub past with
  | nil => simpa only [afterIn_nil, history, List.append_nil] using inv
  | cons c cs ih =>
    rw [afterIn_cons, history, ← List.append_assoc]
    exact ih (inv.step (callIn_step hub c))

/-- **Membership.** After any calls, in whatever orders the hub lists its members to the policy, a hub
acts as the map from each id to the node object that was the first to be added under it since it was
last removed. -/
theorem membership_history (strict : Bool) (policy : P) (calls : List (Listing × Call N)) :
    let start : Hub P N := empty strict policy
    let hub := start.afterIn calls
    let past := start.history calls
    hub.ActsAs (firstAdded past) ∧
      hub.size + removedCount past = acceptedCount past ∧
      (hub.call .size).answer = .count hub.size ∧
      (hub.call .isEmpty).answer = .flag (decide (hub.size = 0)) := by
  intro start hub past
  have inv : hub.Recorded past := (recorded_empty strict policy).afterIn calls
  exact ⟨inv.actsAs, inv.size, rfl, congrArg Answer.flag hub.isEmpty_eq⟩

/-- Two node objects with one id: the second is ignored while the first is stored, hands the first
back when it is removed, and is taken in after that. -/
theorem membership_history_one_id_two_nodes :
    let node : SlotNode := { id := ⟨"a"⟩, maxSessions := 1, offers := [] }
    let calls : List (Listing × Call SlotNode) :=
      [.create node, .create node, .add 0, .add 1, .remove 1, .add 1].map fun c => (.byId, c)
    let start : Hub Policy SlotNode := empty true .leastLoaded
    StableId SlotNode ∧ firstAdded (start.history calls) ⟨"a"⟩ = some 1 ∧
      (start.afterIn calls).ActsAs (firstAdded (start.history calls)) := by
  intro node calls start
  have general := membership_history (N := SlotNode) true Policy.leastLoaded calls
  exact ⟨inferInstance, by decide +kernel, general.1⟩

end Hub

end SessionGrid
