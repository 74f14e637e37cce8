import SessionGrid.Hub.Basic

/-!
# Calls on a hub

All that anyone can do with a hub is a list of calls: on the hub, on node objects (members or not)
and on the world around them, where node objects are made and the clock moves. `Hub.callIn` is one
call with its answer, on a hub that lists its members in a given order, and `Hub.afterIn` the hub after a
list of calls, each with an order of its own. `Hub.call` and `Hub.after` are the same for members in order
of id. Each call is one step here; calls of several clients that overlap are the subject of
`Simulation.Overlap`.
-/

namespace SessionGrid

def Reply.map {σ α β : Type} (f : α → β) (r : Reply σ α) : Reply σ β :=
  ⟨f r.answer, r.state, r.log⟩

@[simp] theorem Reply.map_answer {σ α β : Type} (f : α → β) (r : Reply σ α) :
    (r.map f).answer = f r.answer := rfl

@[simp] theorem Reply.map_state {σ α β : Type} (f : α → β) (r : Reply σ α) :
    (r.map f).state = r.state := rfl

namespace Hub

variable {P N : Type}

/-- One call. Node objects are named by handles. -/
inductive Call (N : Type) where
  /-- A node object is made, in any state. -/
  | create (n : N)
  /-- The clock shows another instant, earlier ones included. -/
  | setClock (now : Instant)
  | add (h : Handle)
  | remove (h : Handle)
  | removeId (id : NodeId)
  | contains (h : Handle)
  | containsId (id : NodeId)
  | get (id : Option NodeId)
  | isEmpty
  | size
  | hasCapability (requested : Capabilities)
  | verify (requested : Capabilities)
  | sorted
  | busy
  | iter
  | newSession (requested : Capabilities)
  | teardown
  | setStrict (strict : Bool)
  /-- A node object is asked for a session by someone else than the hub. -/
  | grant (h : Handle) (requested : Capabilities)
  | release (h : Handle) (s : Session)
  | shutDown (h : Handle)

/-- What a call answers. -/
inductive Answer where
  | done
  | flag (b : Bool)
  | count (n : Nat)
  | node (h : Option Handle)
  | nodes (hs : List Handle)
  | removed (r : Except HubError Handle)
  | verified (r : Except HubError Unit)
  | session (s : Option Session)

/-- The id of the node object under a handle. -/
def idAt [Node N] (hub : Hub P N) (h : Handle) : Option NodeId :=
  (hub.node? h).map Node.id

section Calls

variable [Node N] [SelectionPolicy P]

/-- One call on a hub that lists its members in the given order to its policy. Calls with a handle of no
node object do nothing. -/
def callIn (hub : Hub P N) (c : Listing × Call N) : Reply (Hub P N) Answer :=
  match c.2 with
  | .create n => ⟨.node (hub.create n).1, (hub.create n).2, []⟩
  | .setClock now => ⟨.done, { hub with clock := now }, []⟩
  | .add h => (hub.add h).map .flag
  | .remove h =>
    match hub.idAt h with
    | some id => (hub.removeId id).map .removed
    | none => ⟨.done, hub, []⟩
  | .removeId id => (hub.removeId id).map .removed
  | .contains h =>
    match hub.idAt h with
    | some id => ⟨.flag (hub.containsId id), hub, []⟩
    | none => ⟨.done, hub, []⟩
  | .containsId id => ⟨.flag (hub.containsId id), hub, []⟩
  | .get id => ⟨.node (id.bind hub.find?), hub, []⟩
  | .isEmpty => ⟨.flag hub.isEmpty, hub, []⟩
  | .size => ⟨.count hub.size, hub, []⟩
  | .hasCapability requested => ⟨.flag (hub.hasCapability requested), hub, []⟩
  | .verify requested => ⟨.verified (hub.verify requested).1, hub, (hub.verify requested).2⟩
  | .sorted => ⟨.nodes ((hub.sortedIn c.1).1.map (·.handle)), (hub.sortedIn c.1).2, []⟩
  | .busy => ⟨.nodes hub.busy, hub, []⟩
  | .iter => ⟨.nodes hub.snapshot, hub, []⟩
  | .newSession requested => (hub.newSessionIn c.1 requested).map .session
  | .teardown => hub.teardown.map fun _ => .done
  | .setStrict strict => ⟨.done, hub.setStrict strict, []⟩
  | .grant h requested => (hub.tryGrant h requested).map .session
  | .release h s => (hub.release h s).map .flag
  | .shutDown h => ⟨.done, hub.shutDown h, []⟩

/-- The hub after a list of calls, each with an order of its own. -/
def afterIn (hub : Hub P N) (calls : List (Listing × Call N)) : Hub P N :=
  calls.foldl (fun hub c => (hub.callIn c).state) hub

@[simp] theorem afterIn_nil (hub : Hub P N) : hub.afterIn [] = hub := rfl

@[simp] theorem afterIn_cons (hub : Hub P N) (c : Listing × Call N) (cs : List (Listing × Call N)) :
    hub.afterIn (c :: cs) = (hub.callIn c).state.afterIn cs := rfl

/-- **Runs.** What holds of a hub and is kept by every call, whatever the order of the members, holds after
all calls. -/
theorem afterIn_induction {I : Hub P N → Prop} (step : ∀ hub c, I hub → I (hub.callIn c).state)
    {hub : Hub P N} (start : I hub) (calls : List (Listing × Call N)) : I (hub.afterIn calls) := by
  induction calls generalizing hub with
  | nil => exact start
  | cons c cs ih => exact ih (step hub c start)

/-! ## Members in order of id -/

def call (hub : Hub P N) (c : Call N) : Reply (Hub P N) Answer :=
  hub.callIn (.byId, c)

def after (hub : Hub P N) (calls : List (Call N)) : Hub P N :=
  hub.afterIn (calls.map fun c => (.byId, c))

@[simp] theorem after_nil (hub : Hub P N) : hub.after [] = hub := rfl

@[simp] theorem after_cons (hub : Hub P N) (c : Call N) (cs : List (Call N)) :
    hub.after (c :: cs) = (hub.call c).state.after cs := rfl

/-- The calls for which the order of the members counts. -/
def Call.Arranges : Call N → Prop
  | .sorted | .newSession _ => True
  | _ => False

/-- The listing only matters to a call that arranges the members. -/
theorem callIn_of_not_arranges (hub : Hub P N) {c : Listing × Call N} (other : ¬ c.2.Arranges) :
    hub.callIn c = hub.call c.2 := by
  obtain ⟨l, c⟩ := c
  cases c with
  | sorted | newSession requested => exact absurd trivial other
  | _ => rfl

/-- Calls one list after the other. -/
theorem after_append (hub : Hub P N) (cs ds : List (Call N)) :
    hub.after (cs ++ ds) = (hub.after cs).after ds := by
  rw [after, List.map_append, afterIn, List.foldl_append]
  rfl

end Calls

end Hub

end SessionGrid
