import SessionGrid.Hub.RollCall
import SessionGrid.Proofs.Hub.NodeStep

/-!
# Views of the membership

A hub lists its members as a roll call, in the order of its policy, or only those without a free slot. Every
such view has each member that it shows once, in whatever order the members come, and lookups find exactly
the node objects that are listed (`Mirrors`). A view that was taken is gone through step by step while
others call the hub and take views of their own (`Readers`). Whatever they do, it names the members of the
hub from which it was taken and counts down to its end (`Readers.named_eq`, `Readers.taken_after`). Both
together are `views_show_members`.
-/

namespace SessionGrid

/-! ## Going through a list -/

namespace RollCall

variable (hs : List Handle) (k : Nat)

/-- At each place the next member comes, and behind the last one nothing any more. -/
theorem next_drop : (⟨hs.drop k⟩ : RollCall).next = (hs[k]?, ⟨hs.drop (k + 1)⟩) := by
  simp only [next, List.head?_drop, List.tail_drop]

/-- The hint is exact: it counts the members that are left. -/
theorem sizeHint_drop :
    (⟨hs.drop k⟩ : RollCall).sizeHint = (hs.length - k, some (hs.length - k)) := by
  simp only [sizeHint, List.length_drop]

end RollCall

namespace Hub

/-! ## Lists of members -/

section Lists

variable {P N : Type} [Node N]

/-- The members with the property are listed, each once, and nothing else. -/
structure ListsOnce (hub : Hub P N) (property : N → Prop) (hs : List Handle) : Prop where
  once : hs.Nodup
  mem_iff : ∀ h, h ∈ hs ↔ ∃ n, hub.IsMember h n ∧ property n

/-- As many node objects are listed as the hub has members, and what is looked up under an id is the
listed node object with this id. -/
structure Mirrors (hub : Hub P N) (hs : List Handle) : Prop where
  size : hs.length = hub.size
  containsId : ∀ id, hub.containsId id = true ↔ ∃ h ∈ hs, hub.idAt h = some id
  find : ∀ id h, hub.find? id = some h ↔ h ∈ hs ∧ hub.idAt h = some id

/-- The node object has no free slot. -/
def isFullAt (hub : Hub P N) (h : Handle) : Bool :=
  (hub.node? h).any Node.isFull

variable {hub : Hub P N} {hs : List Handle}

/-- Of a view of all members the full ones are a view of the full ones. -/
theorem ListsOnce.filter_isFullAt (lists : hub.ListsOnce (fun _ => True) hs) :
    hub.ListsOnce (fun n => Node.isFull n = true) (hs.filter hub.isFullAt) := by
  refine ⟨lists.once.filter _, fun h => ?_⟩
  rw [List.mem_filter, lists.mem_iff]
  constructor
  · rintro ⟨⟨n, member, -⟩, full⟩
    rw [isFullAt, member.2] at full
    exact ⟨n, member, full⟩
  · rintro ⟨n, member, full⟩
    refine ⟨⟨n, member, trivial⟩, ?_⟩
    rw [isFullAt, member.2]
    exact full

/-- A row of all members, in any order, shows each of them once. -/
theorem Coherent.listsOnce (inv : hub.Coherent) (perm : hs.Perm hub.snapshot) :
    hub.ListsOnce (fun _ => True) hs := by
  refine ⟨perm.nodup_iff.2 inv.nodup_snapshot, fun h => ?_⟩
  simp only [inv.mem_row perm, and_true]

/-- Such a row agrees with all lookups. -/
theorem Coherent.mirrors (inv : hub.Coherent) (perm : hs.Perm hub.snapshot) : hub.Mirrors hs := by
  have find : ∀ id h, hub.find? id = some h ↔ h ∈ hs ∧ hub.idAt h = some id := by
    intro id h
    rw [perm.mem_iff, inv.mem_snapshot, Stores]
    constructor
    · intro found
      have own := inv.own found
      rw [own]
      exact ⟨found, rfl⟩
    · rintro ⟨stored, own⟩
      rwa [own] at stored
  refine ⟨length_row perm, fun id => ?_, find⟩
  rw [containsId, Option.isSome_iff_exists]
  exact exists_congr (find id)

/-- The busy members are those of the roll call that have no free slot. -/
theorem Coherent.busy_eq (inv : hub.Coherent) : hub.busy = hub.snapshot.filter hub.isFullAt := by
  have handles : hub.memberNodes.map (·.1) = hub.snapshot := by
    rw [← inv.candidates_handles, candidates, List.map_map]
    rfl
  have full : ∀ p ∈ hub.memberNodes, Node.isFull p.2 = hub.isFullAt p.1 := by
    rintro ⟨h, n⟩ mem
    rw [isFullAt, (inv.mem_memberNodes.1 mem).2]
    rfl
  calc hub.busy
      = (hub.memberNodes.filter fun p => hub.isFullAt p.1).map (·.1) := by
        rw [busy, List.filter_congr full]
    _ = (hub.memberNodes.map (·.1)).filter hub.isFullAt := by
        rw [List.filter_map]
        rfl
    _ = hub.snapshot.filter hub.isFullAt := by rw [handles]

end Lists

/-! ## Three views -/

/-- The ways in which a hub lists its members. -/
inductive View where
  | rollCall
  | sorted
  | busy

/-- The members that are seen in a view. -/
def View.Shows : View → SlotNode → Prop
  | rollCall, _ | sorted, _ => True
  | busy, n => n.maxSessions ≤ n.active

section Views

variable {P N : Type} [Node N] [SelectionPolicy P]

/-- A view of a hub, and the hub afterwards: a list in the order of the policy is a turn of the policy. -/
def view (hub : Hub P N) : View → List Handle × Hub P N
  | .rollCall => (hub.rollCall.rest, hub)
  | .sorted => (hub.sorted.1.map (·.handle), hub.sorted.2)
  | .busy => (hub.busy, hub)

/-- A view of a hub that lists its members in the given order. -/
def viewIn (hub : Hub P N) (l : Listing) : View → List Handle × Hub P N
  | .rollCall => ((l.order hub.candidates).map (·.handle), hub)
  | .sorted => ((hub.sortedIn l).1.map (·.handle), (hub.sortedIn l).2)
  | .busy => (((l.order hub.candidates).map (·.handle)).filter hub.isFullAt, hub)

/-- Listed in order of id a view is what the hub shows by itself. -/
theorem Coherent.viewIn_byId {hub : Hub P N} (inv : hub.Coherent) (v : View) :
    hub.viewIn .byId v = hub.view v := by
  have listed : (Listing.byId.order hub.candidates).map (·.handle) = hub.snapshot :=
    inv.candidates_handles
  cases v with
  | rollCall => rw [viewIn, listed, view, rollCall]
  | sorted => rfl
  | busy => rw [viewIn, listed, view, inv.busy_eq]

end Views

section Reachable

variable {hub : Hub Policy SlotNode}

theorem Coherent.perm_rollCall (inv : hub.Coherent) (l : Listing) :
    (hub.viewIn l .rollCall).1.Perm hub.snapshot :=
  inv.candidates_handles ▸ (l.perm hub.candidates).map _

/-- The policy loses and repeats no member. -/
theorem Coherent.perm_sorted (inv : hub.Coherent) (l : Listing) :
    (hub.viewIn l .sorted).1.Perm hub.snapshot :=
  inv.candidates_handles ▸ (hub.sortedIn_perm l).map _

/-- **Views.** Each view shows its members once, with any listing. -/
theorem Coherent.listsOnce_viewIn (inv : hub.Coherent) (l : Listing) (v : View) :
    hub.ListsOnce v.Shows (hub.viewIn l v).1 := by
  cases v with
  | rollCall => exact inv.listsOnce (inv.perm_rollCall l)
  | sorted => exact inv.listsOnce (inv.perm_sorted l)
  | busy =>
    obtain ⟨once, mem_iff⟩ := (inv.listsOnce (inv.perm_rollCall l)).filter_isFullAt
    refine ⟨once, fun h => (mem_iff h).trans (exists_congr fun n => and_congr_right' ?_)⟩
    exact decide_eq_true_iff

end Reachable

/-- A node object keeps its id, whatever happens to the membership. -/
theorem MembershipStep.ids {P N : Type} [Node N] {hub hub' : Hub P N} {changes : List Change}
    (step : MembershipStep hub changes hub') {h : Handle} {id : NodeId}
    (own : hub.idAt h = some id) : hub'.idAt h = some id := by
  cases step with
  | other same => exact same.ids own
  | accepted | ignored | removed | missing => exact own

end Hub

/-! ## Lists that outlive the hub they were taken from -/

/-- A hub and the lists that were taken from it, oldest first. Of each there is left what was not named
yet. -/
structure Readers (P N : Type) where
  hub : Hub P N
  taken : List RollCall

namespace Readers

/-- What can happen while lists are gone through. -/
inductive Move (N : Type) where
  | call (c : Hub.Listing × Hub.Call N)
  /-- A view is taken. -/
  | take (l : Hub.Listing) (v : Hub.View)
  /-- The list with the given number is asked for its next node object. -/
  | next (i : Nat)

/-- The move asks the list with the given number. -/
def Move.asks {N : Type} (i : Nat) : Move N → Bool
  | next j => decide (j = i)
  | _ => false

section Moves

variable {P N : Type} [Node N] [SelectionPolicy P]

def step (r : Readers P N) : Move N → Readers P N
  | .call c => { r with hub := (r.hub.callIn c).state }
  | .take l v => ⟨(r.hub.viewIn l v).2, r.taken ++ [⟨(r.hub.viewIn l v).1⟩]⟩
  | .next i => { r with taken := r.taken.modify i fun rollCall => rollCall.next.2 }

def after (r : Readers P N) (ms : List (Move N)) : Readers P N :=
  ms.foldl step r

/-- What the list with the given number answers to a move that asks it: a node object, or none at the end. -/
def answer? (r : Readers P N) (i : Nat) (m : Move N) : Option (Option Handle) :=
  if m.asks i then r.taken[i]?.map fun rollCall => rollCall.next.1 else none

/-- All answers of the list with the given number, oldest first. -/
def named (r : Readers P N) (i : Nat) : List (Move N) → List (Option Handle)
  | [] => []
  | m :: ms => (r.answer? i m).toList ++ (r.step m).named i ms

variable {r : Readers P N} {i k : Nat} {hs : List Handle}

/-- Only a move that asks a list takes it further, by one node object. -/
theorem taken_step (reached : r.taken[i]? = some ⟨hs.drop k⟩) (m : Move N) :
    (r.step m).taken[i]? = some ⟨hs.drop (k + if m.asks i then 1 else 0)⟩ := by
  cases m with
  | call c => exact reached
  | take l v =>
    -- A new list gets a number that no list had before.
    have lt : i < r.taken.length := (List.getElem?_eq_some_iff.1 reached).1
    rw [step, List.getElem?_append_left lt]
    exact reached
  | next j =>
    rw [step, List.getElem?_modify, reached, Move.asks]
    by_cases same : j = i
    · simp only [same, if_true, decide_true, Option.map_eq_map, Option.map_some, RollCall.next_drop]
    · simp only [same, if_false, decide_false, Option.map_eq_map, Option.map_some, Nat.add_zero,
        Bool.false_eq_true]

/-- **Going through.** After any moves a view stands as far on as it was asked. -/
theorem taken_after (reached : r.taken[i]? = some ⟨hs.drop k⟩) (ms : List (Move N)) :
    (r.after ms).taken[i]? = some ⟨hs.drop (k + ms.countP (Move.asks i))⟩ := by
  induction ms generalizing r k with
  | nil => exact reached
  | cons m ms ih =>
    have rest := ih (taken_step reached m)
    rw [List.countP_cons, Nat.add_comm (ms.countP _), ← Nat.add_assoc]
    exact rest

/-- A list names what it has still to name, one node object each time it is asked. -/
theorem named_eq (reached : r.taken[i]? = some ⟨hs.drop k⟩) (ms : List (Move N)) :
    r.named i ms = (List.range (ms.countP (Move.asks i))).map fun j => hs[k + j]? := by
  induction ms generalizing r k with
  | nil => rfl
  | cons m ms ih =>
    have rest := ih (taken_step reached m)
    cases asks : m.asks i with
    | false =>
      rw [named, rest, List.countP_cons, answer?, asks]
      rfl
    | true =>
      have head : r.answer? i m = some hs[k]? := by
        rw [answer?, asks, if_pos rfl, reached, Option.map_some, RollCall.next_drop]
      rw [named, head, rest, List.countP_cons, asks, if_pos rfl, List.range_succ_eq_map,
        List.map_cons, List.map_map]
      simp only [Function.comp_def, Nat.add_assoc, Nat.add_comm 1]
      rfl

/-! ### Node objects behind a list -/

variable [StableId N] {h : Handle} {id : NodeId}

/-- A node object keeps its id, whatever move is made. -/
theorem idAt_step (own : r.hub.idAt h = some id) (m : Move N) :
    (r.step m).hub.idAt h = some id := by
  cases m with
  | call c => exact (r.hub.callIn_step c).ids own
  | take l v => cases v <;> exact own
  | next i => exact own

theorem idAt_after (own : r.hub.idAt h = some id) (ms : List (Move N)) :
    (r.after ms).hub.idAt h = some id := by
  induction ms generalizing r with
  | nil => exact own
  | cons m ms ih => exact ih (idAt_step own m)

end Moves

end Readers

namespace Hub

/-- **One membership in all views.** In every reachable state, for both policies and whatever the order in
which members come:

* the views are those of the hub itself if members come in order of id;
* the roll call, through which a loop over the hub goes as well, and the list of the policy have all members,
  and the list of the busy ones those whose slots are all in use, each once and nothing else;
* the roll call has as many node objects as the hub has members; an id is known exactly if a node object
  with this id is in the roll call, and this is the one found under the id;
* the list of the policy is the roll call in another order;
* a view that is taken, next to any others, names its node objects one after the other and none after that,
  and tells at any time exactly how many are to come, whatever calls are made on the hub in the meantime
  and whatever other views are taken and gone through; and they keep their ids. -/
theorem views_show_members (strict : Bool) (policy : Policy)
    (calls : List (Listing × Call SlotNode)) :
    let hub : Hub Policy SlotNode := (empty strict policy).afterIn calls
    (∀ v, hub.viewIn .byId v = hub.view v) ∧
      (∀ l v, hub.ListsOnce v.Shows (hub.viewIn l v).1) ∧
      (∀ l, hub.Mirrors (hub.viewIn l .rollCall).1) ∧
      (∀ l l', (hub.viewIn l .sorted).1.Perm (hub.viewIn l' .rollCall).1) ∧
      ∀ (others : List RollCall) (l : Listing) (v : View)
        (later : List (Readers.Move SlotNode)),
        let hs := (hub.viewIn l v).1
        let i := others.length
        let readers := (Readers.mk hub others).step (.take l v)
        let asked := later.countP (Readers.Move.asks i)
        readers.named i later = (List.range asked).map (fun k => hs[k]?) ∧
          (readers.after later).taken[i]?.map RollCall.sizeHint =
            some (hs.length - asked, some (hs.length - asked)) ∧
          hs.map (readers.after later).hub.idAt = hs.map hub.idAt := by
  intro hub
  have inv : hub.Coherent := coherent_afterIn strict policy calls
  refine ⟨inv.viewIn_byId, inv.listsOnce_viewIn, fun l => ?_, fun l l' => ?_, ?_⟩
  · exact inv.mirrors (inv.perm_rollCall l)
  · exact (inv.perm_sorted l).trans (inv.perm_rollCall l').symm
  · intro others l v later hs i readers asked
    have start : readers.taken[i]? = some ⟨hs.drop 0⟩ := List.getElem?_concat_length
    have lists : hub.ListsOnce v.Shows hs := inv.listsOnce_viewIn l v
    refine ⟨?_, ?_, List.map_congr_left fun h mem => ?_⟩
    · rw [Readers.named_eq start later]
      simp only [Nat.zero_add]
      rfl
    · rw [Readers.taken_after start later, Option.map_some, RollCall.sizeHint_drop, Nat.zero_add]
    · obtain ⟨n, member, -⟩ := (lists.mem_iff h).1 mem
      have own : hub.idAt h = some n.id := idAt_eq_some_iff.2 ⟨n, member.2, rfl⟩
      have taken : readers.hub.idAt h = some n.id := Readers.idAt_step own (.take l v)
      rw [Readers.idAt_after taken later, own]

/-- A roll call names the members of its time: the first of two is removed after it was named, and a third
node object is added too late. -/
example :
    let node (id : String) : SlotNode := { id := ⟨id⟩, maxSessions := 1, offers := [] }
    let hub : Hub Policy SlotNode := (empty true .leastLoaded).after
      [.create (node "a"), .create (node "b"), .create (node "c"), .add 0, .add 1]
    let readers := (Readers.mk hub []).step (.take .byId .rollCall)
    readers.named 0
      [.next 0, .call (.byId, .removeId ⟨"a"⟩), .call (.byId, .add 2), .next 0, .next 0] =
        [some 0, some 1, none] := by
  decide

end Hub

end SessionGrid
