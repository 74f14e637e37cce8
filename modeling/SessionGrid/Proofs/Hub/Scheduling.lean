import Mathlib
import SessionGrid.Proofs.Hub.Membership
import SessionGrid.Proofs.Hub.Policy
import SessionGrid.Proofs.Hub.SlotNode

/-!
# Scheduling by first fit

The hub arranges its members as candidates and asks them in turn. What comes of it is decided by the
first candidate that is able to serve the request (`FirstAble`): its node starts a session and all
other nodes stay as they are. A list without such a candidate changes nothing (`NoneAble`). Since no
policy loses a member, a request is missed only if no member is able to serve it.
-/

namespace SessionGrid.Hub

variable {P N : Type}

/-! ## Members as candidates -/

section Candidates

variable [Node N]

/-- The node object `h` is the member under the id of its node `n`. -/
def IsMember (hub : Hub P N) (h : Handle) (n : N) : Prop :=
  hub.find? (Node.id n) = some h ∧ hub.node? h = some n

variable {hub : Hub P N}

/-- Every id that is bound leads to a member. -/
theorem Coherent.isMember_of_find? (inv : hub.Coherent) {id : NodeId} {h : Handle}
    (found : hub.find? id = some h) : ∃ n, hub.IsMember h n := by
  obtain ⟨n, hn, rfl⟩ := idAt_eq_some_iff.1 (inv.own found)
  exact ⟨n, found, hn⟩

/-- Every name that is listed is that of a member. -/
theorem Coherent.isMember_of_mem (inv : hub.Coherent) {name : String} {h : Handle}
    (mem : (name, h) ∈ hub.members) : ∃ n, hub.IsMember h n :=
  inv.isMember_of_find? (inv.sorted.find?_eq_some_iff.2 mem)

/-- The hub asks its members and nobody else. -/
theorem Coherent.mem_memberNodes (inv : hub.Coherent) {h : Handle} {n : N} :
    (h, n) ∈ hub.memberNodes ↔ hub.IsMember h n := by
  constructor
  · intro mem
    obtain ⟨⟨name, k⟩, hk, he⟩ := List.mem_filterMap.1 mem
    obtain ⟨m, hm, e⟩ := Option.map_eq_some_iff.1 he
    cases e
    obtain ⟨m', member⟩ := inv.isMember_of_mem hk
    have same : m' = n := Option.some.inj (member.2.symm.trans hm)
    exact same ▸ member
  · rintro ⟨found, hn⟩
    refine List.mem_filterMap.2 ⟨((Node.id n).text, h), Bindings.mem_of_find? found, ?_⟩
    simp only [hn, Option.map_some]

/-- A candidate is a member with its id and its load. -/
theorem Coherent.mem_candidates (inv : hub.Coherent) {c : Candidate} :
    c ∈ hub.candidates ↔ ∃ h n, hub.IsMember h n ∧ c = ⟨h, Node.id n, .of n⟩ := by
  constructor
  · intro mem
    obtain ⟨⟨h, n⟩, hn, rfl⟩ := List.mem_map.1 mem
    exact ⟨h, n, inv.mem_memberNodes.1 hn, rfl⟩
  · rintro ⟨h, n, member, rfl⟩
    exact List.mem_map.2 ⟨(h, n), inv.mem_memberNodes.2 member, rfl⟩

/-- Every member is a candidate, in order of id. -/
theorem Coherent.candidates_handles (inv : hub.Coherent) :
    hub.candidates.map (·.handle) = hub.snapshot := by
  have all : ∀ ms : Bindings Handle, (∀ p ∈ ms, p ∈ hub.members) →
      (ms.filterMap fun p => (hub.node? p.2).map (p.2, ·)).map (·.1) = ms.map (·.2) := by
    intro ms
    induction ms with
    | nil => exact fun _ => rfl
    | cons p ms ih =>
      intro sub
      obtain ⟨name, h⟩ := p
      obtain ⟨n, -, hn⟩ := inv.isMember_of_mem (sub _ List.mem_cons_self)
      have rest := ih fun q hq => sub q (List.mem_cons_of_mem _ hq)
      simp only [List.filterMap_cons, hn, Option.map_some, List.map_cons, rest]
  unfold candidates snapshot
  rw [List.map_map]
  exact all hub.members fun _ mem => mem

end Candidates

/-- No policy loses or repeats a candidate. -/
theorem sortedIn_perm [Node N] (hub : Hub Policy N) (l : Listing) :
    (hub.sortedIn l).1.Perm hub.candidates :=
  (Policy.arrange_perm hub.policy _).trans (l.perm hub.candidates)

theorem sorted_perm [Node N] (hub : Hub Policy N) : hub.sorted.1.Perm hub.candidates :=
  sortedIn_perm hub .byId

/-- The least-loaded policy keeps nothing in mind between two requests. -/
theorem sortedIn_of_leastLoaded [Node N] {hub : Hub Policy N} (policy : hub.policy = .leastLoaded)
    (l : Listing) : hub.sortedIn l = (Policy.byLoad (l.order hub.candidates), hub) := by
  obtain ⟨nodes, clock, members, strict, p⟩ := hub
  cases policy
  rfl

/-! ## The first candidate that is able -/

section FirstFit

variable {requested : Capabilities}

/-- No candidate of the list can serve the request. -/
def NoneAble (hub : Hub P SlotNode) (requested : Capabilities) (cs : List Candidate) : Prop :=
  ∀ c ∈ cs, ∀ n, hub.node? c.handle = some n → ¬ n.Able requested

/-- The candidate `c`, whose node is `n`, can serve the request and no candidate before it can. -/
structure FirstAble (hub : Hub P SlotNode) (requested : Capabilities) (cs : List Candidate)
    (c : Candidate) (n : SlotNode) : Prop where
  first : ∃ before after, cs = before ++ c :: after ∧ hub.NoneAble requested before
  node : hub.node? c.handle = some n
  able : n.Able requested

/-- The hub after the node `n` under the handle `h` has started its next session. -/
def starting (hub : Hub P SlotNode) (h : Handle) (n : SlotNode) : Hub P SlotNode :=
  { hub.setNode h (n.granting hub.clock) with clock := hub.clock + 1 }

variable {hub : Hub P SlotNode} {cs : List Candidate} {c : Candidate} {n : SlotNode}

/-- A session that starts makes no node a member, and none is removed. -/
theorem sameMembers_starting {h : Handle} (node : hub.node? h = some n) :
    SameMembers hub (hub.starting h n) := by
  have exchanged : SameMembers hub (hub.setNode h (n.granting hub.clock)) := .setNode node rfl
  exact exchanged.trans (.of_eq rfl rfl)

/-- Nobody in a list is able if neither the first one nor any of the others is. -/
theorem noneAble_cons :
    hub.NoneAble requested (c :: cs) ↔
      (∀ n, hub.node? c.handle = some n → ¬ n.Able requested) ∧ hub.NoneAble requested cs :=
  List.forall_mem_cons

/-- Candidates that are not able may stand before the first one that is. -/
theorem FirstAble.cons (unable : ∀ m, hub.node? c.handle = some m → ¬ m.Able requested)
    {d : Candidate} (h : hub.FirstAble requested cs d n) :
    hub.FirstAble requested (c :: cs) d n := by
  obtain ⟨before, after, rfl, none⟩ := h.first
  exact ⟨⟨c :: before, after, rfl, noneAble_cons.2 ⟨unable, none⟩⟩, h.node, h.able⟩

/-- Somebody in a list is the first one able, or nobody is able. -/
theorem firstAble_or_noneAble (hub : Hub P SlotNode) (requested : Capabilities)
    (cs : List Candidate) :
    (∃ c n, hub.FirstAble requested cs c n) ∨ hub.NoneAble requested cs := by
  induction cs with
  | nil => exact .inr fun c hc => nomatch hc
  | cons c cs ih =>
    by_cases able : ∃ n, hub.node? c.handle = some n ∧ n.Able requested
    · obtain ⟨n, hn, able⟩ := able
      exact .inl ⟨c, n, ⟨[], cs, rfl, fun d hd => nomatch hd⟩, hn, able⟩
    · have unable : ∀ n, hub.node? c.handle = some n → ¬ n.Able requested :=
        fun n hn able' => able ⟨n, hn, able'⟩
      rcases ih with ⟨d, n, h⟩ | none
      · exact .inl ⟨d, n, h.cons unable⟩
      · exact .inr (noneAble_cons.2 ⟨unable, none⟩)

/-- An able node starts a session at the present instant. -/
theorem tryGrant_of_able {h : Handle} (node : hub.node? h = some n) (able : n.Able requested) :
    hub.tryGrant h requested =
      ⟨some n.next, hub.starting h n, [.sessionGranted n.id n.next.id]⟩ := by
  have granted : Node.grant? hub.clock requested n = some _ := SlotNode.grant?_of_able able _
  simp only [tryGrant, node, Option.bind_some, granted, starting]

/-- A node that is not able changes nothing and reports nothing. -/
theorem tryGrant_of_not_able {h : Handle}
    (unable : ∀ n, hub.node? h = some n → ¬ n.Able requested) :
    hub.tryGrant h requested = ⟨none, hub, []⟩ := by
  cases node : hub.node? h with
  | none => simp only [tryGrant, node, Option.bind_none]
  | some n =>
    have refused : Node.grant? hub.clock requested n = none :=
      SlotNode.grant?_of_not_able (unable n node) _
    simp only [tryGrant, node, Option.bind_some, refused]

/-- If nobody is able, nothing has changed after all have been asked. -/
theorem firstGrant_of_noneAble (none : hub.NoneAble requested cs) :
    hub.firstGrant requested cs = ⟨.none, hub, []⟩ := by
  induction cs with
  | nil => rfl
  | cons c cs ih =>
    obtain ⟨unable, rest⟩ := noneAble_cons.1 none
    simp only [firstGrant, tryGrant_of_not_able unable]
    exact ih rest

/-- The first able node is granted from, and the refusals before it leave no trace. -/
theorem firstGrant_of_firstAble (h : hub.FirstAble requested cs c n) :
    hub.firstGrant requested cs =
      ⟨some n.next, hub.starting c.handle n,
        [.sessionGranted n.id n.next.id, .requestServed c.id requested]⟩ := by
  obtain ⟨⟨before, after, rfl, unable⟩, node, able⟩ := h
  induction before with
  | nil =>
    simp only [List.nil_append, firstGrant, tryGrant_of_able node able, List.singleton_append]
  | cons d before ih =>
    obtain ⟨unableHead, rest⟩ := noneAble_cons.1 unable
    simp only [List.cons_append, firstGrant, tryGrant_of_not_able unableHead]
    exact ih rest

variable [SelectionPolicy P] {l : Listing}

/-- **Served.** The first able candidate in the order of the policy starts the session. -/
theorem newSessionIn_of_firstAble (h : hub.FirstAble requested (hub.sortedIn l).1 c n) :
    hub.newSessionIn l requested =
      ⟨some n.next, (hub.sortedIn l).2.starting c.handle n,
        [.sessionGranted n.id n.next.id, .requestServed c.id requested]⟩ := by
  -- The policy has moved on before the first candidate is asked; nodes and members have not.
  have h' : (hub.sortedIn l).2.FirstAble requested (hub.sortedIn l).1 c n :=
    ⟨h.first, h.node, h.able⟩
  simp only [newSessionIn, firstGrant_of_firstAble h', Option.isSome_some, if_true]

/-- **Missed.** The policy has moved on, and the report counts the candidates. -/
theorem newSessionIn_of_noneAble (none : hub.NoneAble requested (hub.sortedIn l).1) :
    hub.newSessionIn l requested =
      ⟨.none, (hub.sortedIn l).2, [.requestMissed requested (hub.sortedIn l).1.length]⟩ := by
  have none' : (hub.sortedIn l).2.NoneAble requested (hub.sortedIn l).1 := none
  simp only [newSessionIn, firstGrant_of_noneAble none', Option.isSome_none, Bool.false_eq_true,
    if_false]

theorem newSession_of_firstAble (h : hub.FirstAble requested hub.sorted.1 c n) :
    hub.newSession requested =
      ⟨some n.next, hub.sorted.2.starting c.handle n,
        [.sessionGranted n.id n.next.id, .requestServed c.id requested]⟩ := by
  have listed : hub.FirstAble requested (hub.sortedIn .byId).1 c n := h
  exact newSessionIn_of_firstAble listed

theorem newSession_of_noneAble (none : hub.NoneAble requested hub.sorted.1) :
    hub.newSession requested =
      ⟨.none, hub.sorted.2, [.requestMissed requested hub.sorted.1.length]⟩ := by
  have listed : hub.NoneAble requested (hub.sortedIn .byId).1 := none
  exact newSessionIn_of_noneAble listed

end FirstFit

/-! ## Sessions given back -/

/-- A session of a member with a slot in use goes back to its node object. -/
theorem finish_of_isMember {hub : Hub P SlotNode} {s : Session} {h : Handle} {n : SlotNode}
    (member : hub.IsMember h n) (own : s.nodeId = n.id) (used : n.active ≠ 0) :
    hub.finish s = ⟨some true, hub.setNode h n.releasing, [.sessionReleased n.id s.id]⟩ := by
  have found : hub.find? s.nodeId = some h := own ▸ member.1
  have released : Node.release? s n = some n.releasing := SlotNode.release?_of_used own used
  simp only [finish, found, release, member.2, released]
  rfl

end SessionGrid.Hub
