import SessionGrid.Config.Basic
import SessionGrid.Proofs.Hub.Identity

/-!
# One slot node

A slot node grants a request exactly if it is `Able` to serve it. Then it hands out `next` and goes
on as `granting`; a node that is not able stays as it is. It takes back its own sessions while a slot
is in use, and goes on as `releasing`. The number of slots in use never wraps: a grant needs a slot
below the limit, a release one in use.
-/

namespace SessionGrid.SlotNode

variable {n : SlotNode} {requested : Capabilities}

/-- What was declared of a node. -/
def declaration (n : SlotNode) : NodeConfig :=
  ⟨n.id, n.maxSessions, n.offers⟩

/-- The node is as it was declared: nobody asked it for anything yet. -/
def IsFresh (n : SlotNode) : Prop :=
  n = n.declaration.node

/-- The node can serve the request now: it runs, has a slot left and offers what is requested. -/
structure Able (n : SlotNode) (requested : Capabilities) : Prop where
  running : n.isShutDown = false
  free : n.active < n.maxSessions
  offered : ∃ offer ∈ n.offers, requested.satisfiedBy offer = true

/-- A node advertises a request if one of its offers meets it; no two offers are put together. -/
theorem advertises_iff :
    n.advertises requested = true ↔ ∃ offer ∈ n.offers, requested.satisfiedBy offer = true :=
  List.any_eq_true

theorem able_iff :
    n.Able requested ↔
      n.isShutDown = false ∧ n.active < n.maxSessions ∧ n.advertises requested = true :=
  ⟨fun a => ⟨a.running, a.free, advertises_iff.2 a.offered⟩,
    fun ⟨running, free, offered⟩ => ⟨running, free, advertises_iff.1 offered⟩⟩

instance : Decidable (n.Able requested) :=
  decidable_of_iff _ able_iff.symm

/-- The session that the node grants next. -/
def next (n : SlotNode) : Session :=
  ⟨sessionId n.id n.nextSession, n.id⟩

/-- The node after its next session has started. -/
def granting (now : Instant) (n : SlotNode) : SlotNode :=
  { n with
    active := n.active + 1
    lastStart := some now
    nextSession := n.nextSession + 1
    granted := n.granted + 1 }

/-- An able node hands out its next session and reports it. -/
theorem grant?_of_able (able : n.Able requested) (now : Instant) :
    n.grant? now requested =
      some ⟨n.next, n.granting now, [.sessionGranted n.id n.next.id]⟩ := by
  obtain ⟨running, free, offered⟩ := able_iff.1 able
  have notFull : n.isFull = false := decide_eq_false (UInt32.not_le.2 free)
  simp [grant?, running, offered, notFull, next, granting]

/-- Any of the three reasons is enough for a refusal. -/
theorem grant?_of_not_able (unable : ¬ n.Able requested) (now : Instant) :
    n.grant? now requested = none := by
  unfold grant?
  split
  · rfl
  · next grants =>
    simp only [Bool.or_eq_true, Bool.not_eq_true', not_or, Bool.not_eq_true,
      Bool.not_eq_false] at grants
    obtain ⟨⟨running, offered⟩, notFull⟩ := grants
    have free : n.active < n.maxSessions := UInt32.not_le.1 (of_decide_eq_false notFull)
    exact absurd (able_iff.2 ⟨running, free, offered⟩) unable

/-- A grant cannot wrap the count, since a slot was free. -/
theorem granting_active (free : n.active < n.maxSessions) (now : Instant) :
    (n.granting now).active.toNat = n.active.toNat + 1 := by
  have below : n.active.toNat < n.maxSessions.toNat := UInt32.lt_iff_toNat_lt.1 free
  have limit : n.maxSessions.toNat < 2 ^ 32 := n.maxSessions.toNat_lt
  rw [granting, UInt32.toNat_add, UInt32.toNat_one]
  exact Nat.mod_eq_of_lt (by omega)

/-- The node after one of its sessions has ended. -/
def releasing (n : SlotNode) : SlotNode :=
  { n with active := n.active - 1 }

/-- A session of this node frees a slot if any is in use, whether that slot was its own or not. -/
theorem release?_of_used {s : Session} (own : s.nodeId = n.id) (used : n.active ≠ 0) :
    n.release? s = some n.releasing :=
  if_pos ⟨own, used⟩

/-- A release cannot wrap the count, since a slot was in use. -/
theorem releasing_active (used : n.active ≠ 0) :
    n.releasing.active.toNat + 1 = n.active.toNat := by
  have pos : n.active.toNat ≠ 0 := fun zero => used (UInt32.toNat_inj.1 zero)
  have one : (1 : UInt32) ≤ n.active := UInt32.le_iff_toNat_le.2 (Nat.pos_of_ne_zero pos)
  rw [releasing, UInt32.toNat_sub_of_le _ _ one, UInt32.toNat_one]
  omega

instance : StableId SlotNode where
  grant {now requested n g} granted := by
    by_cases able : n.Able requested
    · have : some _ = some g := (grant?_of_able able now).symm.trans granted
      cases this
      rfl
    · cases (grant?_of_not_able able now).symm.trans granted
  release {s n n'} released := by
    simp only [Node.release?, release?] at released
    split at released
    · cases released
      rfl
    · cases released
  shutDown _ := rfl

end SessionGrid.SlotNode
