import SessionGrid.Proofs.Hub.LoadOrder
import SessionGrid.Proofs.Hub.LoadTies
import SessionGrid.Proofs.Hub.Queue

/-!
# Even spreading

While no session ends, the least-loaded policy serves like members in turns. The member with the fewest
sessions has the least load, and among those with as few the one that was idle longest comes first, so
the members are a queue of which the head is served (`Spread.newSession`). It is kept by every request
that all members offer, whatever the order in which members are listed that were never used, until all
slots are taken (`least_loaded_spreads`).
-/

namespace SessionGrid

/-- The load of a node with so many slots, of which so many are in use. -/
def SlotNode.loadAt (maxSessions active : UInt32) : Binary64 :=
  SlotNode.load { id := ⟨""⟩, maxSessions, offers := [], active }

/-- The load of a node depends on its limit and its slots in use alone. -/
theorem SlotNode.load_eq (n : SlotNode) : n.load = loadAt n.maxSessions n.active := rfl

/-- Of nodes with `limit` slots the one with more slots in use has the greater load. -/
def SlotNode.LoadsGrow (limit : UInt32) : Prop :=
  ∀ a b : UInt32, a < b → b ≤ limit → (loadAt limit a).compare (loadAt limit b) = .lt

/-- When a node started its last session, with zero for never. -/
def SlotNode.lastRank (n : SlotNode) : Nat :=
  LoadKey.startRank n.lastStart

namespace Hub

/-! ## Values of node objects -/

section Values

variable {hub : Hub Policy SlotNode} {h k c : Handle} {n m : SlotNode}

/-- What `f` says of the node object under a handle. -/
def valueAt (hub : Hub Policy SlotNode) (f : SlotNode → Nat) (h : Handle) : Nat :=
  (hub.node? h).elim 0 f

theorem valueAt_eq (node : hub.node? h = some n) (f : SlotNode → Nat) : hub.valueAt f h = f n := by
  rw [valueAt, node, Option.elim_some]

theorem node?_starting_self (node : hub.node? h = some n) :
    (hub.starting h n).node? h = some (n.granting hub.clock) :=
  node?_setNode_self node _

theorem node?_starting_ne (ne : k ≠ h) (n : SlotNode) : (hub.starting h n).node? k = hub.node? k :=
  node?_setNode_ne hub (Ne.symm ne) _

theorem valueAt_setNode {hub : Hub Policy SlotNode} {h : Handle} {n n' : SlotNode}
    (node : hub.node? h = some n) {f : SlotNode → Nat} (same : f n' = f n) :
    (hub.setNode h n').valueAt f = hub.valueAt f := by
  funext k
  by_cases own : h = k
  · subst own
    rw [valueAt_eq (node?_setNode_self node n'), valueAt_eq node, same]
  · rw [valueAt, valueAt, node?_setNode_ne hub own]

/-- Who starts a session is served, if it is counted and all other starts are over. -/
theorem serves_starting (node : hub.node? c = some n) {f : SlotNode → Nat}
    (counted : f (n.granting hub.clock) = f n + 1) {q : List Handle}
    (past : ∀ h ∈ q, hub.valueAt SlotNode.lastRank h ≤ hub.clock) :
    Queue.Serves q c (hub.valueAt f) (hub.valueAt SlotNode.lastRank) ((hub.starting c n).valueAt f)
      ((hub.starting c n).valueAt SlotNode.lastRank) where
  counted := by
    rw [valueAt_eq (node?_starting_self node), valueAt_eq node, counted]
  others h ne := by
    rw [valueAt, valueAt, valueAt, valueAt, node?_starting_ne ne]
    exact ⟨rfl, rfl⟩
  latest h mem := by
    rw [valueAt_eq (node?_starting_self node)]
    exact Nat.lt_succ_of_le (past h mem)

/-- A member after a session has started was a member before. -/
theorem isMember_starting (node : hub.node? h = some n) (member : (hub.starting h n).IsMember k m) :
    (k = h ∧ m = n.granting hub.clock ∧ hub.IsMember h n) ∨ (k ≠ h ∧ hub.IsMember k m) := by
  obtain ⟨found, now⟩ := member
  rcases node?_setNode_cases node now with ⟨rfl, rfl⟩ | ⟨ne, old⟩
  · exact .inl ⟨rfl, rfl, found, node⟩
  · exact .inr ⟨ne, found, old⟩

/-- Among members of equal load that can serve the request, the one that was idle longest does. -/
theorem FirstAble.lastRank_le (inv : hub.Coherent) {l : Listing} {requested : Capabilities}
    {d : Candidate} (first : hub.FirstAble requested (hub.sortedIn l).1 d n)
    (policy : hub.policy = .leastLoaded) (member : hub.IsMember k m) (able : m.Able requested)
    (loads : n.load = m.load) : n.lastRank ≤ m.lastRank := by
  have best := first.least_listed inv policy member able
  rcases LoadKey.le_iff.1 (LoadKey.le_iff_not_lt.2 best) with less | ⟨-, starts⟩
  · exact absurd (congrArg Binary64.rank loads) (Int.ne_of_lt less)
  · exact starts

end Values

/-! ## Members in turns -/

/-- Under the least-loaded policy the members, which all have `limit` slots, are a queue: `served` have
started a session and none has ended. -/
structure Spread (hub : Hub Policy SlotNode) (limit : UInt32) (served : List Handle) : Prop where
  coherent : hub.Coherent
  policy : hub.policy = .leastLoaded
  alike : ∀ h n, hub.IsMember h n → n.isShutDown = false ∧ n.maxSessions = limit
  queue : ∃ q, q.Perm hub.snapshot ∧
    Queue (hub.valueAt fun n => n.active.toNat) (hub.valueAt SlotNode.lastRank) served q

namespace Spread

variable {hub : Hub Policy SlotNode} {limit : UInt32} {served : List Handle} {h : Handle}
  {n : SlotNode} {requested : Capabilities} {l : Listing}

/-- Fresh members were never served. -/
theorem start (inv : hub.Coherent) (policy : hub.policy = .leastLoaded)
    (fresh : ∀ h n, hub.IsMember h n → n.IsFresh ∧ n.maxSessions = limit) : hub.Spread limit [] where
  coherent := inv
  policy := policy
  alike h n member := by
    obtain ⟨declared, max⟩ := fresh h n member
    rw [declared]
    exact ⟨rfl, max⟩
  queue := by
    refine ⟨hub.snapshot, .refl _, .start inv.nodup_snapshot fun h mem => ?_⟩
    obtain ⟨n, member⟩ := (inv.mem_row (.refl _)).1 mem
    rw [valueAt_eq member.2, valueAt_eq member.2, (fresh h n member).1]
    exact ⟨rfl, rfl⟩

/-- Time may pass. -/
theorem setClock (spread : hub.Spread limit served) (now : Instant) :
    Spread { hub with clock := now } limit served where
  coherent := spread.coherent.callIn (.byId, .setClock now)
  policy := spread.policy
  alike := spread.alike
  queue := spread.queue

/-- The member that was idle longest starts a session, after all that were started before. -/
theorem started (spread : hub.Spread limit served) (member : hub.IsMember h n)
    (free : n.active < n.maxSessions)
    (least : ∀ k m, hub.IsMember k m → n.lastRank ≤ m.lastRank)
    (past : ∀ k m, hub.IsMember k m → m.lastRank ≤ hub.clock) :
    (hub.starting h n).Spread limit (served ++ [h]) where
  coherent := spread.coherent.step (.other (sameMembers_starting member.2))
  policy := spread.policy
  alike := by
    intro k m now
    rcases isMember_starting member.2 now with ⟨rfl, rfl, before⟩ | ⟨-, before⟩
    · exact spread.alike k n before
    · exact spread.alike k m before
  queue := by
    obtain ⟨q, perm, queue⟩ := spread.queue
    have inv := spread.coherent
    have least' : ∀ k ∈ q, hub.valueAt SlotNode.lastRank h ≤ hub.valueAt SlotNode.lastRank k := by
      intro k mem
      obtain ⟨m, memberK⟩ := (inv.mem_row perm).1 mem
      rw [valueAt_eq member.2, valueAt_eq memberK.2]
      exact least k m memberK
    have past' : ∀ k ∈ q, hub.valueAt SlotNode.lastRank k ≤ hub.clock := by
      intro k mem
      obtain ⟨m, memberK⟩ := (inv.mem_row perm).1 mem
      rw [valueAt_eq memberK.2]
      exact past k m memberK
    obtain ⟨q', perm', queue'⟩ := queue.serve ((inv.mem_row perm).2 ⟨n, member⟩) least'
      (serves_starting member.2 (SlotNode.granting_active free hub.clock) past')
    exact ⟨q', perm'.trans perm, queue'⟩

/-- Some member has as few sessions as there were full rounds, and was idle longest. -/
theorem exists_head (spread : hub.Spread limit served) (occupied : 0 < hub.size) :
    ∃ h n, hub.IsMember h n ∧ n.active.toNat = served.length / hub.size ∧
      ∀ k m, hub.IsMember k m → n.active ≤ m.active ∧ n.lastRank ≤ m.lastRank := by
  obtain ⟨q, perm, queue⟩ := spread.queue
  have inv := spread.coherent
  have length := length_row perm
  obtain ⟨h, rest, split⟩ :=
    List.exists_cons_of_ne_nil (List.ne_nil_of_length_pos (length ▸ occupied))
  obtain ⟨n, member⟩ := (inv.mem_row perm).1 (split ▸ List.mem_cons_self : h ∈ q)
  have head := queue.count_head split
  rw [valueAt_eq member.2] at head
  refine ⟨h, n, member, length ▸ head, fun k m memberK => ?_⟩
  have mem : k ∈ q := (inv.mem_row perm).2 ⟨m, memberK⟩
  have fewest := queue.le_count mem
  have longest := queue.rank_head split mem
  rw [← head, valueAt_eq memberK.2] at fewest
  rw [valueAt_eq member.2, valueAt_eq memberK.2] at longest
  exact ⟨UInt32.le_iff_toNat_le.2 fewest, longest⟩

/-- The member that serves a request has as few sessions as any, and was idle longest. -/
theorem longest_idle (spread : hub.Spread limit served) (grow : SlotNode.LoadsGrow limit)
    (offered : ∀ h n, hub.IsMember h n → n.advertises requested = true) {c : Candidate}
    (first : hub.FirstAble requested (hub.sortedIn l).1 c n) (occupied : 0 < hub.size) :
    n.active.toNat = served.length / hub.size ∧
      ∀ k m, hub.IsMember k m → n.lastRank ≤ m.lastRank := by
  have member := (first.isMember_listed spread.coherent (hub.sortedIn_perm l)).1
  obtain ⟨h, m, head, rounds, least⟩ := spread.exists_head occupied
  have fewest := (least _ n member).1
  have free := first.able.free
  obtain ⟨-, maxN⟩ := spread.alike _ n member
  obtain ⟨running, maxM⟩ := spread.alike h m head
  -- The head of the queue has no more sessions, so it is able as well.
  have able : m.Able requested := by
    refine SlotNode.able_iff.2 ⟨running, ?_, offered h m head⟩
    rw [maxM, ← maxN]
    exact UInt32.lt_of_le_of_lt fewest free
  have equal : m.active = n.active := by
    by_contra ne
    have fewer : m.active < n.active := UInt32.lt_of_le_of_ne fewest ne
    have less := grow m.active n.active fewer (UInt32.le_of_lt (maxN ▸ free))
    rw [← maxN, ← SlotNode.load_eq, maxN, ← maxM, ← SlotNode.load_eq] at less
    exact first.least_listed spread.coherent spread.policy head able
      (LoadKey.compare_of_rank_lt (Int.compare_eq_lt.1 less))
  have loads : n.load = m.load := by
    rw [SlotNode.load_eq, SlotNode.load_eq, maxN, maxM, equal]
  have starts := first.lastRank_le spread.coherent spread.policy head able loads
  exact ⟨equal ▸ rounds, fun k i memberK => starts.trans (least k i memberK).2⟩

/-- **One request.** While a slot is left, a request that all members offer is served by one of them
and the queue moves on. Without a slot it is missed and nothing changes. -/
theorem newSession (spread : hub.Spread limit served) (grow : SlotNode.LoadsGrow limit) (l : Listing)
    (offered : ∀ h n, hub.IsMember h n → n.advertises requested = true) (occupied : 0 < hub.size)
    (past : (hub.newSessionIn l requested).answer.isSome →
      ∀ k m, hub.IsMember k m → m.lastRank ≤ hub.clock) :
    (∃ h n, hub.IsMember h n ∧ (hub.newSessionIn l requested).answer = some n.next ∧
        (hub.newSessionIn l requested).state = hub.starting h n ∧
        served.length < hub.size * limit.toNat ∧ (hub.starting h n).Spread limit (served ++ [h])) ∨
      ((hub.newSessionIn l requested).answer = none ∧
        (hub.newSessionIn l requested).state = hub ∧ hub.size * limit.toNat ≤ served.length) := by
  have perm := hub.sortedIn_perm l
  rcases firstAble_or_noneAble hub requested (hub.sortedIn l).1 with ⟨c, n, first⟩ | none
  · left
    have member := (first.isMember_listed spread.coherent perm).1
    obtain ⟨rounds, least⟩ := spread.longest_idle grow offered first occupied
    have free := first.able.free
    rw [newSessionIn_of_firstAble first] at past ⊢
    refine ⟨c.handle, n, member, rfl, ?_, ?_, spread.started member free least (past rfl)⟩
    · rw [sortedIn_of_leastLoaded spread.policy]
    · -- Who is served has a slot left, so there were fewer full rounds than slots.
      rw [(spread.alike _ n member).2, UInt32.lt_iff_toNat_lt, rounds,
        Nat.div_lt_iff_lt_mul occupied, Nat.mul_comm] at free
      exact free
  · right
    rw [newSessionIn_of_noneAble none]
    refine ⟨rfl, by rw [sortedIn_of_leastLoaded spread.policy], ?_⟩
    obtain ⟨h, n, head, rounds, -⟩ := spread.exists_head occupied
    obtain ⟨running, max⟩ := spread.alike h n head
    have full : ¬ n.active < n.maxSessions := fun free =>
      (spread.coherent.noneAble_listed_iff perm).1 none h n head
        (SlotNode.able_iff.2 ⟨running, free, offered h n head⟩)
    rw [max, UInt32.lt_iff_toNat_lt, rounds, Nat.div_lt_iff_lt_mul occupied, Nat.mul_comm] at full
    exact Nat.le_of_not_lt full

end Spread

/-! ## Runs of requests -/

/-- What a request is answered with. -/
def Answer.reply? : Answer → Option (Option Session)
  | .session s => some s
  | _ => none

/-- What the requests of a list of calls are answered with, in their order. -/
def replies (hub : Hub Policy SlotNode) : List (Listing × Call SlotNode) → List (Option Session)
  | [] => []
  | c :: cs => (hub.callIn c).answer.reply?.toList ++ (hub.callIn c).state.replies cs

/-- The call asks for a session that every member offers, or sets the clock. -/
def AsksAll (hub : Hub Policy SlotNode) : Call SlotNode → Prop
  | .setClock _ => True
  | .newSession requested => ∀ h n, hub.IsMember h n → n.advertises requested = true
  | _ => False

section Runs

variable {hub : Hub Policy SlotNode} {limit : UInt32} {served : List Handle} {h : Handle}
  {n : SlotNode}

theorem starts_newSession (hub : Hub Policy SlotNode) (l : Listing) (requested : Capabilities)
    (cs : List (Listing × Call SlotNode)) :
    hub.starts ((l, .newSession requested) :: cs) =
      ((hub.newSessionIn l requested).answer.map fun _ => hub.clock).toList ++
        (hub.newSessionIn l requested).state.starts cs := rfl

theorem replies_newSession (hub : Hub Policy SlotNode) (l : Listing) (requested : Capabilities)
    (cs : List (Listing × Call SlotNode)) :
    hub.replies ((l, .newSession requested) :: cs) =
      (hub.newSessionIn l requested).answer :: (hub.newSessionIn l requested).state.replies cs := rfl

theorem AsksAll.starting {c : Call SlotNode} (asks : hub.AsksAll c) (node : hub.node? h = some n) :
    (hub.starting h n).AsksAll c := by
  cases c with
  | setClock now => trivial
  | newSession requested =>
    intro k m now
    rcases isMember_starting node now with ⟨rfl, rfl, before⟩ | ⟨-, before⟩
    · exact asks k n before
    · exact asks k m before
  | _ => exact asks.elim

theorem idAt_starting (node : hub.node? h = some n) : (hub.starting h n).idAt = hub.idAt := by
  funext k
  by_cases own : k = h
  · subst own
    rw [idAt, idAt, node?_starting_self node, node]
    rfl
  · rw [idAt, idAt, node?_starting_ne own]

/-- The clock moves on at each start, so requests alone start sessions one after the other. -/
theorem starts_of_requests (hub : Hub Policy SlotNode) {calls : List (Listing × Call SlotNode)}
    (only : ∀ c ∈ calls, ∃ requested, c.2 = .newSession requested) :
    (hub.starts calls).Pairwise (· < ·) ∧ ∀ t ∈ hub.starts calls, hub.clock ≤ t := by
  induction calls generalizing hub with
  | nil => exact ⟨.nil, nofun⟩
  | cons c cs ih =>
    obtain ⟨⟨requested, own⟩, others⟩ := List.forall_mem_cons.1 only
    obtain ⟨l, c⟩ := c
    cases own
    obtain ⟨ascending, late⟩ := ih (hub.newSessionIn l requested).state others
    rw [starts_newSession]
    rcases firstAble_or_noneAble hub requested (hub.sortedIn l).1 with ⟨c, n, first⟩ | none
    · rw [newSessionIn_of_firstAble first] at ascending late ⊢
      have late : ∀ t ∈ _, hub.clock + 1 ≤ t := late
      refine ⟨List.pairwise_cons.2 ⟨late, ascending⟩, ?_⟩
      exact List.forall_mem_cons.2 ⟨Nat.le_refl _, fun t mem => Nat.le_of_succ_le (late t mem)⟩
    · rw [newSessionIn_of_noneAble none] at ascending late ⊢
      exact ⟨ascending, late⟩

/-- **Runs.** The requests of a run are served by turns of the queue, and missed when all slots are
taken. -/
theorem Spread.run (spread : hub.Spread limit served) (grow : SlotNode.LoadsGrow limit)
    (occupied : 0 < hub.size) (room : served.length ≤ hub.size * limit.toNat)
    {calls : List (Listing × Call SlotNode)} (asks : ∀ c ∈ calls, hub.AsksAll c.2)
    (past : ∀ k m, hub.IsMember k m → ∀ t ∈ hub.starts calls, m.lastRank ≤ t)
    (later : (hub.starts calls).Pairwise (· < ·)) :
    ∃ more misses, (hub.afterIn calls).Spread limit (served ++ more) ∧
      (hub.afterIn calls).members = hub.members ∧
      (hub.replies calls).map (fun r => r.map (·.nodeId)) =
        more.map hub.idAt ++ List.replicate misses none ∧
      served.length + more.length ≤ hub.size * limit.toNat ∧
      (misses ≠ 0 → served.length + more.length = hub.size * limit.toNat) := by
  induction calls generalizing hub served with
  | nil =>
    refine ⟨[], 0, ?_, rfl, rfl, room, fun missed => absurd rfl missed⟩
    rw [List.append_nil]
    exact spread
  | cons c cs ih =>
    obtain ⟨own, others⟩ := List.forall_mem_cons.1 asks
    obtain ⟨l, c⟩ := c
    cases c with
    | setClock now => exact ih (spread.setClock now) occupied room others past later
    | newSession requested =>
      have state : (hub.callIn (l, .newSession requested)).state =
        (hub.newSessionIn l requested).state := rfl
      rw [starts_newSession] at past later
      rw [replies_newSession, afterIn_cons, state]
      have now : (hub.newSessionIn l requested).answer.isSome →
          ∀ k m, hub.IsMember k m → m.lastRank ≤ hub.clock := by
        intro served k m member
        obtain ⟨s, served⟩ := Option.isSome_iff_exists.1 served
        rw [served] at past
        exact past k m member _ List.mem_cons_self
      rcases spread.newSession grow l own occupied now with
        ⟨h, n, member, served', state', left, spread'⟩ | ⟨missed, state', full⟩
      · rw [served', state'] at past later ⊢
        obtain ⟨first, later⟩ := List.pairwise_cons.1 later
        have past' : ∀ k m, (hub.starting h n).IsMember k m →
            ∀ t ∈ (hub.starting h n).starts cs, m.lastRank ≤ t := by
          intro k m now t start
          rcases isMember_starting member.2 now with ⟨rfl, rfl, -⟩ | ⟨-, before⟩
          · exact first t start
          · exact past k m before t (List.mem_cons_of_mem _ start)
        have length : (served ++ [h]).length = served.length + 1 := Queue.served_length
        obtain ⟨more, misses, spread'', members, replies, upTo, missed⟩ :=
          ih spread' occupied (length ▸ left) (fun c mem => (others c mem).starting member.2) past'
            later
        rw [length, Nat.add_assoc, Nat.add_comm 1] at upTo missed
        rw [List.append_assoc, List.singleton_append] at spread''
        refine ⟨h :: more, misses, spread'', members, ?_, upTo, missed⟩
        have own : hub.idAt h = some n.next.nodeId := idAt_eq_some_iff.2 ⟨n, member.2, rfl⟩
        rw [List.map_cons, replies, idAt_starting member.2, List.map_cons, own]
        rfl
      · rw [missed, state'] at past later ⊢
        obtain ⟨more, misses, spread', members, replies, upTo, -⟩ :=
          ih spread occupied room others past later
        -- All slots are taken, so no later request is served either.
        have none : more = [] := List.length_eq_zero_iff.1 (by omega)
        subst none
        refine ⟨[], misses + 1, spread', members, ?_, upTo, fun _ => Nat.le_antisymm upTo full⟩
        rw [List.map_cons, replies]
        rfl
    | _ => exact own.elim

section Replies

variable {rs : List (Option Session)} {more : List Handle} {misses : Nat}
  (replies : rs.map (fun r => r.map (·.nodeId)) = more.map hub.idAt ++ List.replicate misses none)

include replies

/-- Requests are answered one by one while there are slots, and missed thereafter. -/
theorem reply_cases {i : Nat} {r : Option Session} (at_i : rs[i]? = some r) :
    (∃ h, more[i]? = some h ∧ r.map (·.nodeId) = hub.idAt h) ∨
      (more.length ≤ i ∧ misses ≠ 0 ∧ r = none) := by
  have mapped := congrArg (·[i]?) replies
  rw [List.getElem?_map, at_i, Option.map_some] at mapped
  rcases Nat.lt_or_ge i more.length with served | missed
  · left
    rw [List.getElem?_append_left (by rw [List.length_map]; exact served), List.getElem?_map,
      List.getElem?_eq_getElem served] at mapped
    exact ⟨more[i], List.getElem?_eq_getElem served, Option.some.inj mapped⟩
  · right
    rw [List.getElem?_append_right (by rw [List.length_map]; exact missed),
      List.getElem?_replicate] at mapped
    split at mapped
    · next lt => exact ⟨missed, by omega, Option.map_eq_none_iff.1 (Option.some.inj mapped)⟩
    · cases mapped

/-- As many are granted as there were slots. -/
theorem countP_replies (known : ∀ h ∈ more, (hub.idAt h).isSome) :
    rs.countP (·.isSome) = more.length := by
  have ids : (rs.map fun r => r.map (·.nodeId)).countP (·.isSome) = rs.countP (·.isSome) := by
    rw [List.countP_map]
    exact List.countP_congr fun r _ => by rw [Function.comp_apply, Option.isSome_map]
  have served : (more.map hub.idAt).countP (·.isSome) = more.length := by
    rw [List.countP_map]
    exact List.countP_eq_length.2 known
  have missed : (List.replicate misses (none : Option NodeId)).countP (·.isSome) = 0 := by
    rw [List.countP_replicate]
    rfl
  rw [← ids, replies, List.countP_append, served, missed, Nat.add_zero]

end Replies

/-- **Even spreading.** Under the least-loaded policy, over fresh members that all have `limit` slots,
and for any requests that all members offer, none of whose sessions ends and each of which starts later
than all before, in whatever orders the members are listed (plain calls list them in order of id): the
members' sessions are never more than one apart. The requests are served as long as
there are slots, and missed ever after. When they made up some full rounds, every member has one session
for each. And each session after the first round is of the member that was served one round before. Of the
load it is taken as known only that it grows with the slots in use. -/
theorem least_loaded_spreads (strict : Bool) (policy : Policy)
    (past calls : List (Listing × Call SlotNode)) (limit : UInt32) (grow : SlotNode.LoadsGrow limit) :
    let hub : Hub Policy SlotNode := (empty strict policy).afterIn past
    hub.policy = .leastLoaded → 0 < hub.size →
    (∀ h n, hub.IsMember h n → n.IsFresh ∧ n.maxSessions = limit) →
    (∀ c ∈ calls, hub.AsksAll c.2) → (hub.starts calls).Pairwise (· < ·) →
    (∀ requested, (hub.afterIn calls).newSessionIn .byId requested =
        (hub.afterIn calls).newSession requested) ∧
      (∀ h k n m, (hub.afterIn calls).IsMember h n → (hub.afterIn calls).IsMember k m →
        n.active.toNat ≤ m.active.toNat + 1) ∧
      (∀ i r, (hub.replies calls)[i]? = some r → (r.isSome ↔ i < hub.size * limit.toNat)) ∧
      (∀ rounds, (hub.replies calls).countP (·.isSome) = rounds * hub.size →
        ∀ h n, (hub.afterIn calls).IsMember h n → n.active.toNat = rounds) ∧
      ∀ i s, (hub.replies calls)[i + hub.size]? = some (some s) →
        ∃ s', (hub.replies calls)[i]? = some (some s') ∧ s'.nodeId = s.nodeId := by
  intro hub leastLoaded occupied fresh asks later
  have inv : hub.Coherent := coherent_afterIn strict policy past
  have never : ∀ k m, hub.IsMember k m → ∀ t ∈ hub.starts calls, m.lastRank ≤ t := by
    intro k m member t _
    rw [(fresh k m member).1]
    exact Nat.zero_le t
  obtain ⟨served, misses, spread, members, replies, upTo, missed⟩ :=
    (Spread.start inv leastLoaded fresh).run grow occupied (Nat.zero_le _) asks never later
  rw [List.length_nil, Nat.zero_add] at upTo missed
  obtain ⟨q, perm, queue⟩ := spread.queue
  rw [List.nil_append] at queue
  have inv' := spread.coherent
  have same : (hub.afterIn calls).snapshot = hub.snapshot := congrArg (List.map Prod.snd) members
  have length : q.length = hub.size := length_row (same ▸ perm)
  have known : ∀ h ∈ served, (hub.idAt h).isSome := by
    intro h mem
    obtain ⟨n, member⟩ := (inv.mem_row (same ▸ perm)).1 (queue.known mem)
    rw [idAt, member.2, Option.map_some, Option.isSome_some]
  refine ⟨fun _ => rfl, ?_, ?_, ?_, ?_⟩
  · intro h k n m memberH memberK
    have apart := queue.count_le_count ((inv'.mem_row perm).2 ⟨n, memberH⟩)
      ((inv'.mem_row perm).2 ⟨m, memberK⟩)
    rw [valueAt_eq memberH.2, valueAt_eq memberK.2] at apart
    exact apart
  · intro i r at_i
    rcases reply_cases replies at_i with ⟨h, at_h, own⟩ | ⟨late, some, rfl⟩
    · obtain ⟨lt, rfl⟩ := List.getElem?_eq_some_iff.1 at_h
      refine iff_of_true ?_ (Nat.lt_of_lt_of_le lt upTo)
      rw [← Option.isSome_map, own]
      exact known _ (List.getElem_mem lt)
    · exact iff_of_false Bool.false_ne_true (by rw [← missed some]; omega)
  · intro rounds full h n member
    rw [countP_replies replies known, ← length] at full
    have count := queue.count_of_rounds full ((inv'.mem_row perm).2 ⟨n, member⟩)
    rw [valueAt_eq member.2] at count
    exact count
  · intro i s at_i
    rcases reply_cases replies at_i with ⟨h, at_h, own⟩ | ⟨-, -, none⟩
    · rw [← length] at at_h
      have before := queue.cyclic at_h
      have lt := (List.getElem?_eq_some_iff.1 before).1
      have enough : i < (hub.replies calls).length := by
        have lengths := congrArg List.length replies
        rw [List.length_map, List.length_append, List.length_map] at lengths
        omega
      obtain ⟨r, at_r⟩ : ∃ r, (hub.replies calls)[i]? = some r := ⟨_, List.getElem?_eq_getElem enough⟩
      rcases reply_cases replies at_r with ⟨k, at_k, own'⟩ | ⟨late, -, -⟩
      · obtain rfl : k = h := Option.some.inj (at_k.symm.trans before)
        obtain ⟨s', rfl, same⟩ := Option.map_eq_some_iff.1 (own'.trans own.symm)
        exact ⟨s', at_r, same⟩
      · omega
    · cases none

/-- Five requests to two members with two slots each: two rounds, then a miss. -/
theorem least_loaded_spreads_two_members :
    let node : SlotNode := { id := ⟨"a"⟩, maxSessions := 2, offers := [Capabilities.empty] }
    let past : List (Listing × Call SlotNode) :=
      [(.byId, .create node), (.byId, .create { node with id := ⟨"b"⟩ }), (.byId, .add 0),
        (.byId, .add 1)]
    let calls : List (Listing × Call SlotNode) := List.replicate 5 (.byId, .newSession .empty)
    let hub : Hub Policy SlotNode := (empty true .leastLoaded).afterIn past
    SlotNode.LoadsGrow 2 ∧ hub.policy = .leastLoaded ∧ hub.size = 2 ∧
      (∀ h n, hub.IsMember h n → n.IsFresh ∧ n.maxSessions = 2) ∧
      (∀ c ∈ calls, hub.AsksAll c.2) ∧ (hub.starts calls).Pairwise (· < ·) ∧
      ∀ i r, (hub.replies calls)[i]? = some r → (r.isSome ↔ i < 4) := by
  intro node past calls hub
  have grow : SlotNode.LoadsGrow 2 := by
    intro a b less upTo
    rw [UInt32.lt_iff_toNat_lt] at less
    rw [UInt32.le_iff_toNat_le] at upTo
    have upTo : b.toNat ≤ 2 := upTo
    have cases : (a = 0 ∧ b = 1) ∨ (a = 0 ∧ b = 2) ∨ (a = 1 ∧ b = 2) := by
      simp only [← UInt32.toNat_inj, UInt32.reduceToNat]
      omega
    rcases cases with ⟨rfl, rfl⟩ | ⟨rfl, rfl⟩ | ⟨rfl, rfl⟩ <;> decide +kernel
  have all : ∀ n ∈ hub.nodes, n.IsFresh ∧ n.maxSessions = 2 ∧ n.advertises .empty = true := by
    have nodes : hub.nodes = [node, { node with id := ⟨"b"⟩ }] := rfl
    rw [nodes]
    intro n mem
    rcases List.mem_pair.1 mem with rfl | rfl <;> exact ⟨rfl, rfl, by decide +kernel⟩
  have leastLoaded : hub.policy = .leastLoaded := rfl
  have size : hub.size = 2 := by decide +kernel
  have fresh : ∀ h n, hub.IsMember h n → n.IsFresh ∧ n.maxSessions = 2 := by
    intro h n member
    obtain ⟨declared, max, -⟩ := all n (List.mem_of_getElem? member.2)
    exact ⟨declared, max⟩
  have asks : ∀ c ∈ calls, hub.AsksAll c.2 := by
    intro c mem
    rw [List.eq_of_mem_replicate mem]
    intro h n member
    exact (all n (List.mem_of_getElem? member.2)).2.2
  have later : (hub.starts calls).Pairwise (· < ·) :=
    (starts_of_requests hub fun c mem => ⟨.empty, by rw [List.eq_of_mem_replicate mem]⟩).1
  obtain ⟨-, -, served, -, -⟩ := least_loaded_spreads true .leastLoaded past calls 2 grow leastLoaded
    (size ▸ Nat.two_pos) fresh asks later
  rw [size] at served
  exact ⟨grow, leastLoaded, size, fresh, asks, later, served⟩

end Runs
end Hub
end SessionGrid
