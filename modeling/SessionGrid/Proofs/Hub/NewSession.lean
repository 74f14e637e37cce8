import SessionGrid.Proofs.Hub.Scheduling

/-!
# What a new session comes from

In every reachable state a request is served exactly if some member is able to serve it, by the first
such member in the order of the policy. Serving it changes that one node object and nothing else; a
missed request changes no node object at all (`newSession_serves_first_able`).
-/

namespace SessionGrid.Hub

section Arranged

variable {hub : Hub Policy SlotNode} {requested : Capabilities} {cs : List Candidate}
  {c : Candidate} {n : SlotNode}

theorem Coherent.mem_listed (inv : hub.Coherent) (perm : cs.Perm hub.candidates) :
    c ∈ cs ↔ ∃ h n, hub.IsMember h n ∧ c = ⟨h, Node.id n, .of n⟩ :=
  perm.mem_iff.trans inv.mem_candidates

/-- The first able candidate is a member, with the id and the load of its node. -/
theorem FirstAble.isMember_listed (inv : hub.Coherent) (perm : cs.Perm hub.candidates)
    (h : hub.FirstAble requested cs c n) :
    hub.IsMember c.handle n ∧ c = ⟨c.handle, n.id, .of n⟩ := by
  obtain ⟨before, after, split, -⟩ := h.first
  have mem : c ∈ cs := split ▸ List.mem_append_right _ List.mem_cons_self
  obtain ⟨k, m, member, rfl⟩ := (inv.mem_listed perm).1 mem
  have same : m = n := Option.some.inj (member.2.symm.trans h.node)
  subst same
  exact ⟨member, rfl⟩

theorem Coherent.noneAble_listed_iff (inv : hub.Coherent) (perm : cs.Perm hub.candidates) :
    hub.NoneAble requested cs ↔ ∀ h n, hub.IsMember h n → ¬ n.Able requested := by
  constructor
  · intro none h n member
    exact none _ ((inv.mem_listed perm).2 ⟨h, n, member, rfl⟩) n member.2
  · intro none c mem n node
    obtain ⟨h, m, member, rfl⟩ := (inv.mem_listed perm).1 mem
    have same : m = n := Option.some.inj (member.2.symm.trans node)
    exact same ▸ none h m member

/-- Under the least-loaded policy no able member has a smaller key than the first able candidate. -/
theorem FirstAble.least_listed (inv : hub.Coherent) {l : Listing}
    (h : hub.FirstAble requested (hub.sortedIn l).1 c n) (policy : hub.policy = .leastLoaded)
    {k : Handle} {m : SlotNode} (member : hub.IsMember k m) (able : m.Able requested) :
    (LoadKey.of m).compare (.of n) ≠ .lt := by
  have perm := hub.sortedIn_perm l
  have ordered : (hub.sortedIn l).1.Pairwise fun a b => a.key.le b.key = true := by
    rw [sortedIn_of_leastLoaded policy]
    exact Policy.byLoad_ordered _
  have key : c.key = .of n := by rw [(h.isMember_listed inv perm).2]
  have mem := (inv.mem_listed perm).2 ⟨k, m, member, rfl⟩
  obtain ⟨before, after, split, unable⟩ := h.first
  rw [split] at mem ordered
  have below : c.key.le (.of m) = true := by
    rcases List.mem_append.1 mem with earlier | later
    · exact absurd able (unable _ earlier m member.2)
    · rcases List.mem_cons.1 later with same | behind
      · have key : c.key = .of m := by rw [← same]
        rw [key]
        exact LoadKey.le_refl _
      · have rest := (List.pairwise_append.1 ordered).2.1
        have le := (List.pairwise_cons.1 rest).1 _ behind
        exact le
  rw [key] at below
  exact LoadKey.le_iff_not_lt.1 below

/-- Whatever the order, a request is served if and only if a member is able to serve it. -/
theorem Coherent.newSessionIn_isSome_iff (inv : hub.Coherent) (l : Listing) :
    (hub.newSessionIn l requested).answer.isSome = true ↔
      ∃ h n, hub.IsMember h n ∧ n.Able requested := by
  rcases firstAble_or_noneAble hub requested (hub.sortedIn l).1 with ⟨c, n, first⟩ | none
  · rw [newSessionIn_of_firstAble first]
    exact iff_of_true rfl
      ⟨c.handle, n, (first.isMember_listed inv (hub.sortedIn_perm l)).1, first.able⟩
  · rw [newSessionIn_of_noneAble none]
    apply iff_of_false Bool.false_ne_true
    rintro ⟨h, n, member, able⟩
    exact (inv.noneAble_listed_iff (hub.sortedIn_perm l)).1 none h n member able

end Arranged

/-- In `hub'` the node object `h`, which is `n` in `hub`, has one session more that starts now, and
no other node object, no member and not the strictness is different. -/
structure OneStarted (hub : Hub Policy SlotNode) (h : Handle) (n : SlotNode)
    (hub' : Hub Policy SlotNode) : Prop where
  node : hub'.node? h = some
    { n with
      active := n.active + 1
      lastStart := some hub.clock
      nextSession := n.nextSession + 1
      granted := n.granted + 1 }
  /-- One slot more is in use; the count does not wrap. -/
  active : (n.active + 1).toNat = n.active.toNat + 1
  others : ∀ k, k ≠ h → hub'.node? k = hub.node? k
  members : hub'.members = hub.members
  strict : hub'.strict = hub.strict

theorem FirstAble.oneStarted {hub : Hub Policy SlotNode} {requested : Capabilities} {l : Listing}
    {c : Candidate} {n : SlotNode} (h : hub.FirstAble requested (hub.sortedIn l).1 c n) :
    hub.OneStarted c.handle n ((hub.sortedIn l).2.starting c.handle n) where
  node := by
    have node : (hub.sortedIn l).2.node? c.handle = some n := h.node
    exact node?_setNode_self node _
  active := SlotNode.granting_active h.able.free hub.clock
  others _ ne := node?_setNode_ne (hub.sortedIn l).2 (Ne.symm ne) _
  members := rfl
  strict := rfl

/-- **First fit.** In every reachable state, for both policies, and in whatever orders the hub lists its
members to the policy (that of their ids is one): the policy orders exactly the members; a request is
served if and only if some member is able to serve it; the session then comes from the first able member
in that order, which under the least-loaded policy no able member undercuts, and carries its id; and only
this node object changes. A missed request changes none. -/
theorem newSession_serves_first_able (strict : Bool) (policy : Policy)
    (calls : List (Listing × Call SlotNode)) (l : Listing) (requested : Capabilities) :
    let hub : Hub Policy SlotNode := (empty strict policy).afterIn calls
    let order := (hub.sortedIn l).1
    let reply := hub.newSessionIn l requested
    hub.newSessionIn .byId requested = hub.newSession requested ∧
      (order.map (·.handle)).Perm hub.snapshot ∧
      (reply.answer.isSome = true ↔ ∃ h n, hub.IsMember h n ∧ n.Able requested) ∧
      (∀ s, reply.answer = some s → ∃ c n,
        hub.FirstAble requested order c n ∧ hub.IsMember c.handle n ∧
        s = ⟨SlotNode.sessionId n.id n.nextSession, n.id⟩ ∧
        (hub.policy = .leastLoaded → ∀ k m, hub.IsMember k m → m.Able requested →
          (LoadKey.of m).compare (.of n) ≠ .lt) ∧
        hub.OneStarted c.handle n reply.state) ∧
      (reply.answer = none →
        reply.state.nodes = hub.nodes ∧ reply.state.members = hub.members ∧
        reply.state.strict = hub.strict) := by
  intro hub order reply
  have inv : hub.Coherent := coherent_afterIn strict policy calls
  have perm : order.Perm hub.candidates := hub.sortedIn_perm l
  refine ⟨rfl, inv.candidates_handles ▸ perm.map _, inv.newSessionIn_isSome_iff l, ?_, ?_⟩
  · intro s served
    rcases firstAble_or_noneAble hub requested order with ⟨c, n, first⟩ | none
    · have outcome : reply = _ := newSessionIn_of_firstAble first
      rw [outcome] at served ⊢
      cases served
      exact ⟨c, n, first, (first.isMember_listed inv perm).1, rfl,
        fun least k m => first.least_listed inv least, first.oneStarted⟩
    · have outcome : reply = _ := newSessionIn_of_noneAble none
      rw [outcome] at served
      cases served
  · intro missed
    rcases firstAble_or_noneAble hub requested order with ⟨c, n, first⟩ | none
    · have outcome : reply = _ := newSessionIn_of_firstAble first
      rw [outcome] at missed
      cases missed
    · have outcome : reply = _ := newSessionIn_of_noneAble none
      rw [outcome]
      exact ⟨rfl, rfl, rfl⟩

end SessionGrid.Hub
