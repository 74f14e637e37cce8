import SessionGrid.Proofs.Counting
import SessionGrid.Proofs.Hub.NewSession

/-!
# Turns of the round-robin policy

Under the round-robin policy a number counts turns, and the member whose place in order of id is the
turn, counted modulo the members, comes first. A request takes one turn, and so does a sorted view,
which is only a question otherwise. While all members are able to serve it, a request is served by the
member whose turn it is (`roundRobin_serves_in_turn`): members are served in a cycle, and equally often
but for one session, as long as nobody asks for a sorted view in between. Who does can turn every
request to one member (`sorted_takes_a_turn`).
-/

namespace SessionGrid.Hub

/-! ## The member whose turn it is -/

/-- The ids of all members, in order. -/
def memberIds {P N : Type} (hub : Hub P N) : List NodeId :=
  hub.members.map fun p => ⟨p.1⟩

section Turn

variable {hub : Hub Policy SlotNode}

theorem Coherent.candidates_ids (inv : hub.Coherent) :
    hub.candidates.map (·.id) = hub.memberIds := by
  have own : hub.candidates.map (fun c => some c.id) =
      hub.candidates.map fun c => hub.idAt c.handle := by
    apply List.map_congr_left
    intro c mem
    obtain ⟨h, n, member, rfl⟩ := inv.mem_candidates.1 mem
    exact (idAt_eq_some_iff.2 ⟨n, member.2, rfl⟩).symm
  have named : hub.snapshot.map hub.idAt = hub.members.map fun p => some ⟨p.1⟩ := by
    rw [snapshot, List.map_map]
    apply List.map_congr_left
    intro p mem
    exact inv.own (inv.sorted.find?_eq_some_iff.2 mem)
  have same : (hub.candidates.map (·.id)).map some = hub.memberIds.map some := by
    calc (hub.candidates.map (·.id)).map some
        = hub.candidates.map fun c => hub.idAt c.handle := by rw [List.map_map]; exact own
      _ = hub.snapshot.map hub.idAt := by rw [← inv.candidates_handles, List.map_map]; rfl
      _ = hub.memberIds.map some := by rw [named, memberIds, List.map_map]; rfl
  exact List.map_injective_iff.2 (Option.some_injective _) same

theorem Coherent.nodup_memberIds (inv : hub.Coherent) : hub.memberIds.Nodup := by
  have names : (hub.members.map Prod.fst).Nodup := inv.sorted.nodup_names
  have ids : hub.memberIds = (hub.members.map Prod.fst).map NodeId.mk := by
    rw [List.map_map]
    rfl
  rw [ids]
  exact names.map fun _ _ same => congrArg NodeId.text same

/-- Members are enumerated by id, so sorting them by id changes nothing. -/
theorem Coherent.byId_candidates (inv : hub.Coherent) :
    Policy.byId hub.candidates = hub.candidates := by
  apply List.mergeSort_of_pairwise
  have ascending : hub.memberIds.Pairwise fun a b => (a.compare b).isLE = true := by
    apply List.pairwise_map.2
    apply inv.sorted.imp
    intro p q lt
    have less : NodeId.compare ⟨p.1⟩ ⟨q.1⟩ = .lt := compare_lt_iff_lt.2 lt
    rw [less]
    rfl
  rw [← inv.candidates_ids] at ascending
  exact List.pairwise_map.1 ascending

/-- Under round robin the candidate in the place of the turn comes first, and the turn moves on. -/
theorem Coherent.sorted_of_roundRobin (inv : hub.Coherent) {next : UInt64}
    (policy : hub.policy = .roundRobin next) (occupied : hub.memberIds ≠ []) :
    ∃ c rest, hub.sorted = (c :: rest, { hub with policy := .roundRobin (next + 1) }) ∧
      hub.memberIds[next.toNat % hub.memberIds.length]? = some c.id := by
  have length : hub.candidates.length = hub.memberIds.length := by
    rw [← inv.candidates_ids, List.length_map]
  have lt : next.toNat % hub.candidates.length < hub.candidates.length := by
    apply Nat.mod_lt
    rw [length]
    exact List.length_pos_iff.2 occupied
  have arranged : Policy.arrange (.roundRobin next) hub.candidates =
      (Policy.rotate (next.toNat % hub.candidates.length) hub.candidates,
        .roundRobin (next + 1)) := by
    have some : hub.candidates ≠ [] := by
      rw [← List.length_pos_iff]
      omega
    rw [Policy.arrange_roundRobin some, inv.byId_candidates]
  have sorted : hub.sorted = (Policy.rotate (next.toNat % hub.candidates.length) hub.candidates,
      { hub with policy := .roundRobin (next + 1) }) := by
    have unfolded : hub.sorted = ((Policy.arrange (.roundRobin next) hub.candidates).1,
        { hub with policy := (Policy.arrange (.roundRobin next) hub.candidates).2 }) := by
      rw [← policy]
      rfl
    rw [unfolded, arranged]
  refine ⟨hub.candidates[next.toNat % hub.candidates.length], ?_, ?_, ?_⟩
  · exact hub.candidates.drop (next.toNat % hub.candidates.length + 1) ++
      hub.candidates.take (next.toNat % hub.candidates.length)
  · rw [sorted, Policy.rotate, List.drop_eq_getElem_cons lt]
    rfl
  · rw [← inv.candidates_ids, List.length_map, List.getElem?_map, List.getElem?_eq_getElem lt]
    rfl

/-- A request that all members can serve is served by the member whose turn it is. -/
theorem Coherent.newSession_of_roundRobin (inv : hub.Coherent) {next : UInt64}
    (policy : hub.policy = .roundRobin next) (occupied : hub.memberIds ≠ [])
    {requested : Capabilities} (able : ∀ h n, hub.IsMember h n → n.Able requested) :
    ∃ s, (hub.newSession requested).answer = some s ∧
      hub.memberIds[next.toNat % hub.memberIds.length]? = some s.nodeId ∧
      (hub.newSession requested).state.policy = .roundRobin (next + 1) := by
  obtain ⟨c, rest, sorted, turn⟩ := inv.sorted_of_roundRobin policy occupied
  have mem : c ∈ hub.sorted.1 := by
    rw [sorted]
    exact List.mem_cons_self
  obtain ⟨h, n, member, rfl⟩ := (inv.mem_listed hub.sorted_perm).1 mem
  have first : hub.FirstAble requested hub.sorted.1 ⟨h, Node.id n, .of n⟩ n := by
    refine ⟨⟨[], rest, ?_, nofun⟩, member.2, able h n member⟩
    rw [sorted]
    rfl
  refine ⟨n.next, ?_, turn, ?_⟩
  · rw [newSession_of_firstAble first]
  · rw [newSession_of_firstAble first, sorted]
    rfl

end Turn

/-! ## Runs of requests and questions -/

/-- Calls that only ask something. -/
def Call.IsQuery {N : Type} : Call N → Prop
  | .contains _ | .containsId _ | .get _ | .isEmpty | .size | .hasCapability _ | .verify _
  | .sorted | .busy | .iter => True
  | _ => False

/-- Calls that take a turn. -/
def Call.takesTurn {N : Type} : Call N → Bool
  | .newSession _ | .sorted => true
  | _ => false

/-- The session in an answer. -/
def Answer.session? : Answer → Option Session
  | .session s => s
  | _ => none

section Runs

variable {hub : Hub Policy SlotNode} {requested : Capabilities}

/-- The sessions that a list of calls is answered with, in their order. -/
def sessions (hub : Hub Policy SlotNode) : List (Call SlotNode) → List Session
  | [] => []
  | c :: cs => (hub.call c).answer.session?.toList ++ (hub.call c).state.sessions cs

/-- The turns that the requests of a list of calls take, if it starts at the given one. -/
def turns (turn : Nat) : List (Call SlotNode) → List Nat
  | [] => []
  | .newSession _ :: cs => turn :: turns (turn + 1) cs
  | .sorted :: cs => turns (turn + 1) cs
  | _ :: cs => turns turn cs

theorem call_of_query {c : Call SlotNode} (query : c.IsQuery) (other : c ≠ .sorted) :
    (hub.call c).state = hub ∧ (hub.call c).answer.session? = none := by
  cases c with
  | contains h =>
    simp only [call, callIn]
    split <;> exact ⟨rfl, rfl⟩
  | sorted => exact absurd rfl other
  | containsId id | get id | isEmpty | size | hasCapability r | verify r | busy | iter =>
    exact ⟨rfl, rfl⟩
  | _ => exact query.elim

theorem turns_of_query {c : Call SlotNode} (query : c.IsQuery) (other : c ≠ .sorted) :
    c.takesTurn = false ∧ ∀ turn cs, turns turn (c :: cs) = turns turn cs := by
  cases c with
  | sorted => exact absurd rfl other
  | contains h | containsId id | get id | isEmpty | size | hasCapability r | verify r | busy
  | iter => exact ⟨rfl, fun _ _ => rfl⟩
  | _ => exact query.elim

/-- Whenever a list of calls comes to a request, all members can serve it. -/
def AlwaysAble (hub : Hub Policy SlotNode) (requested : Capabilities)
    (calls : List (Call SlotNode)) : Prop :=
  ∀ before later, calls = before ++ .newSession requested :: later →
    ∀ h n, (hub.after before).IsMember h n → n.Able requested

theorem AlwaysAble.tail {c : Call SlotNode} {cs : List (Call SlotNode)}
    (able : hub.AlwaysAble requested (c :: cs)) :
    (hub.call c).state.AlwaysAble requested cs := by
  intro before later split
  exact able (c :: before) later (congrArg (c :: ·) split)

/-- Every member runs, offers what is requested and has slots for some more sessions. -/
def HasRoom (hub : Hub Policy SlotNode) (requested : Capabilities) (more : Nat) : Prop :=
  ∀ p ∈ hub.memberNodes, p.2.isShutDown = false ∧ p.2.advertises requested = true ∧
    p.2.active.toNat + more ≤ p.2.maxSessions.toNat

instance {more : Nat} : Decidable (hub.HasRoom requested more) :=
  inferInstanceAs (Decidable (∀ p ∈ hub.memberNodes, _))

theorem HasRoom.of_isMember {more : Nat} (room : hub.HasRoom requested more) (inv : hub.Coherent)
    {h : Handle} {n : SlotNode} (member : hub.IsMember h n) :
    n.isShutDown = false ∧ n.advertises requested = true ∧
      n.active.toNat + more ≤ n.maxSessions.toNat :=
  room (h, n) (inv.mem_memberNodes.2 member)

theorem HasRoom.able {more : Nat} (room : hub.HasRoom requested (more + 1)) (inv : hub.Coherent)
    {h : Handle} {n : SlotNode} (member : hub.IsMember h n) : n.Able requested := by
  obtain ⟨running, offered, slots⟩ := room.of_isMember inv member
  have free : n.active < n.maxSessions := UInt32.lt_iff_toNat_lt.2 (by omega)
  exact SlotNode.able_iff.2 ⟨running, free, offered⟩

theorem HasRoom.mono {more less : Nat} (room : hub.HasRoom requested more) (le : less ≤ more) :
    hub.HasRoom requested less := by
  intro p mem
  obtain ⟨running, offered, slots⟩ := room p mem
  exact ⟨running, offered, by omega⟩

/-- A request takes one slot of one member at most. -/
theorem HasRoom.newSession {more : Nat} (room : hub.HasRoom requested (more + 1))
    (inv : hub.Coherent) : (hub.newSession requested).state.HasRoom requested more := by
  have same := sameMembers_newSession hub requested
  have inv' : (hub.newSession requested).state.Coherent := inv.step (.other same)
  rintro ⟨h, m⟩ mem
  have member := inv'.mem_memberNodes.1 mem
  rcases firstAble_or_noneAble hub requested hub.sorted.1 with ⟨c, n, first⟩ | none
  · rw [newSession_of_firstAble first] at member
    have served : hub.IsMember c.handle n := (first.isMember_listed inv hub.sorted_perm).1
    have listed : hub.FirstAble requested (hub.sortedIn .byId).1 c n := first
    have one := listed.oneStarted
    obtain ⟨running, offered, slots⟩ := room.of_isMember inv served
    obtain ⟨found, node⟩ := member
    by_cases own : h = c.handle
    · subst own
      have started : m = n.granting hub.clock :=
        Option.some.inj (node.symm.trans one.node)
      subst started
      refine ⟨running, offered, ?_⟩
      rw [SlotNode.granting_active first.able.free]
      dsimp only [SlotNode.granting]
      omega
    · have kept : hub.node? h = some m := (one.others h own).symm.trans node
      obtain ⟨running, offered, slots⟩ := room.of_isMember inv ⟨found, kept⟩
      exact ⟨running, offered, Nat.le_of_succ_le slots⟩
  · rw [newSession_of_noneAble none] at member
    obtain ⟨running, offered, slots⟩ := room.of_isMember inv member
    exact ⟨running, offered, Nat.le_of_succ_le slots⟩

theorem HasRoom.alwaysAble {calls : List (Call SlotNode)} (inv : hub.Coherent)
    (only : ∀ c ∈ calls, c = .newSession requested ∨ c.IsQuery)
    (room : hub.HasRoom requested (calls.countP Call.takesTurn)) :
    hub.AlwaysAble requested calls := by
  induction calls generalizing hub with
  | nil =>
    intro before later split
    simp at split
  | cons c cs ih =>
    obtain ⟨own, others⟩ := List.forall_mem_cons.1 only
    rw [List.countP_cons] at room
    have rest : (hub.call c).state.AlwaysAble requested cs := by
      rcases own with rfl | query
      · have inv' := inv.step (.other (sameMembers_newSession hub requested))
        exact ih inv' others (room.newSession inv)
      · by_cases view : c = .sorted
        · subst view
          have same : SameMembers hub hub.sorted.2 := .of_eq rfl rfl
          exact ih (inv.step (.other same)) others (room.mono (Nat.le_succ _))
        · rw [(call_of_query query view).1]
          exact ih inv others (room.mono (Nat.le_add_right _ _))
    intro before later split h n member
    cases before with
    | nil =>
      cases split
      exact room.able inv member
    | cons d before =>
      cases split
      exact rest before later rfl h n member

/-- The sessions of a list of requests and questions come from the members whose turns the requests
take. -/
theorem Coherent.sessions_eq (inv : hub.Coherent) {next : UInt64}
    (policy : hub.policy = .roundRobin next) (occupied : hub.memberIds ≠ [])
    {calls : List (Call SlotNode)} (only : ∀ c ∈ calls, c = .newSession requested ∨ c.IsQuery)
    (able : hub.AlwaysAble requested calls)
    (small : next.toNat + calls.countP Call.takesTurn < 2 ^ 64) :
    (hub.sessions calls).map (fun s => some s.nodeId) =
      (turns next.toNat calls).map fun t => hub.memberIds[t % hub.memberIds.length]? := by
  induction calls generalizing hub next with
  | nil => rfl
  | cons c cs ih =>
    obtain ⟨own, others⟩ := List.forall_mem_cons.1 only
    rw [List.countP_cons] at small
    rcases own with rfl | query
    · -- A request is served by the member whose turn it is.
      simp only [Call.takesTurn, if_true] at small
      obtain ⟨s, served, turn, policy'⟩ := inv.newSession_of_roundRobin policy occupied (able [] cs rfl)
      have same := sameMembers_newSession hub requested
      have ids : (hub.newSession requested).state.memberIds = hub.memberIds := by
        rw [memberIds, same.members, memberIds]
      have rest := ih (inv.step (.other same)) policy' (ids ▸ occupied) others able.tail
        (by rw [toNat_succ (by omega)]; omega)
      rw [ids, toNat_succ (by omega)] at rest
      have answer : (hub.call (.newSession requested)).answer.session? = some s := served
      rw [sessions, answer, turns, List.map_cons, turn]
      exact congrArg (some s.nodeId :: ·) rest
    · by_cases view : c = .sorted
      · -- A sorted view takes a turn and serves nobody.
        subst view
        simp only [Call.takesTurn, if_true] at small
        obtain ⟨d, behind, sorted, -⟩ := inv.sorted_of_roundRobin policy occupied
        have same : SameMembers hub hub.sorted.2 := .of_eq rfl rfl
        have policy' : hub.sorted.2.policy = .roundRobin (next + 1) := by rw [sorted]
        have rest := ih (inv.step (.other same)) policy' occupied others able.tail
          (by rw [toNat_succ (by omega)]; omega)
        rw [toNat_succ (by omega)] at rest
        exact rest
      · obtain ⟨state, none⟩ : (hub.call c).state = hub ∧ _ := call_of_query query view
        obtain ⟨noTurn, skip⟩ := turns_of_query query view
        rw [noTurn, if_neg Bool.false_ne_true, Nat.add_zero] at small
        have able := able.tail
        rw [state] at able
        rw [sessions, none, state, skip]
        exact ih inv policy occupied others able small

/-- Without sorted views every request takes the turn after that of the request before. -/
theorem turns_of_not_sorted {calls : List (Call SlotNode)}
    (only : ∀ c ∈ calls, c = .newSession requested ∨ c.IsQuery) (plain : .sorted ∉ calls)
    (turn : Nat) : turns turn calls = List.range' turn (calls.countP Call.takesTurn) := by
  induction calls generalizing turn with
  | nil => rfl
  | cons c cs ih =>
    obtain ⟨own, others⟩ := List.forall_mem_cons.1 only
    obtain ⟨ne, later⟩ := not_or.1 (fun either => plain (List.mem_cons.2 either))
    rw [List.countP_cons]
    rcases own with rfl | query
    · rw [turns, ih others later]
      rfl
    · obtain ⟨noTurn, skip⟩ := turns_of_query query (Ne.symm ne)
      rw [skip, noTurn, ih others later]
      rfl

/-- How many sessions of a member are in a list. -/
def servedBy (id : NodeId) (sessions : List Session) : Nat :=
  sessions.countP fun s => s.nodeId = id

/-- Among turns in a row any two members are as often in turn, but for one. -/
theorem turn_balance {ids : List NodeId} (distinct : ids.Nodup) {a b : NodeId} (memA : a ∈ ids)
    (memB : b ∈ ids) (start length : Nat) :
    (List.range' start length).countP (fun t => ids[t % ids.length]? = some a) ≤
      (List.range' start length).countP (fun t => ids[t % ids.length]? = some b) + 1 := by
  have place : ∀ {id}, id ∈ ids → ∃ i, i < ids.length ∧
      ∀ t, decide (ids[t % ids.length]? = some id) = decide (t % ids.length = i) := by
    intro id mem
    obtain ⟨i, lt, rfl⟩ := List.getElem_of_mem mem
    refine ⟨i, lt, fun t => decide_eq_decide.2 ⟨fun same => ?_, fun same => ?_⟩⟩
    · have lt' : t % ids.length < ids.length := Nat.mod_lt t (Nat.zero_lt_of_lt lt)
      rw [List.getElem?_eq_getElem lt', Option.some_inj] at same
      exact distinct.getElem_inj_iff.1 same
    · rw [same, List.getElem?_eq_getElem lt]
  obtain ⟨i, ltI, hitsA⟩ := place memA
  obtain ⟨j, ltJ, hitsB⟩ := place memB
  simp only [hitsA, hitsB]
  have most := (countP_mod_range' ltI start length).2
  have least := (countP_mod_range' ltJ start length).1
  omega

end Runs

/-! ## Requests in turn -/

/-- **Round robin.** Take a hub after any calls, with members and under the round-robin policy, and
requests with questions between them, all of which the members can serve. Then the sessions come from
the members whose turns the requests take, and a sorted view takes a turn as well. Without sorted
views the requests take one turn after the other, and the numbers of sessions of two members differ by
one at most. -/
theorem roundRobin_serves_in_turn (strict : Bool) (start : Policy) (past calls : List (Call SlotNode))
    (requested : Capabilities) (next : UInt64) :
    let hub := (empty strict start).after past
    hub.policy = .roundRobin next → hub.memberIds ≠ [] →
      (∀ c ∈ calls, c = .newSession requested ∨ c.IsQuery) → hub.AlwaysAble requested calls →
      next.toNat + calls.countP Call.takesTurn < 2 ^ 64 →
      (hub.sessions calls).map (fun s => some s.nodeId) =
          (turns next.toNat calls).map (fun t => hub.memberIds[t % hub.memberIds.length]?) ∧
        (.sorted ∉ calls →
          turns next.toNat calls = List.range' next.toNat (calls.countP Call.takesTurn) ∧
            ∀ a ∈ hub.memberIds, ∀ b ∈ hub.memberIds,
              servedBy a (hub.sessions calls) ≤ servedBy b (hub.sessions calls) + 1) := by
  intro hub policy occupied only able small
  have inv : hub.Coherent := coherent_after strict start past
  have served := inv.sessions_eq policy occupied only able small
  refine ⟨served, fun plain => ?_⟩
  have row := turns_of_not_sorted only plain next.toNat
  refine ⟨row, fun a memA b memB => ?_⟩
  have count : ∀ id, servedBy id (hub.sessions calls) =
      (List.range' next.toNat (calls.countP Call.takesTurn)).countP
        fun t => hub.memberIds[t % hub.memberIds.length]? = some id := by
    intro id
    have same := congrArg (List.countP fun o => decide (o = some id)) served
    rw [List.countP_map, List.countP_map, row] at same
    simpa [servedBy, Function.comp_def] using same
  rw [count, count]
  exact turn_balance inv.nodup_memberIds memA memB _ _

/-- Three requests for two members with slots for all of them, and a question in between. -/
theorem roundRobin_serves_in_turn_two_nodes :
    let a : SlotNode := { id := ⟨"a"⟩, maxSessions := 3, offers := [Capabilities.empty] }
    let hub : Hub Policy SlotNode :=
      (empty true (.roundRobin 0)).after
        [.create a, .create { a with id := ⟨"b"⟩ }, .add 0, .add 1]
    let calls : List (Call SlotNode) :=
      [.newSession .empty, .busy, .newSession .empty, .newSession .empty]
    hub.HasRoom .empty 3 ∧ (hub.sessions calls).map (·.nodeId) = [⟨"a"⟩, ⟨"b"⟩, ⟨"a"⟩] := by
  intro a hub calls
  have room : hub.HasRoom .empty 3 := by decide
  have only : ∀ c ∈ calls, c = .newSession .empty ∨ c.IsQuery := by
    simp [calls, Call.IsQuery]
  have able := room.alwaysAble (coherent_after _ _ _) only
  obtain ⟨served, -⟩ := roundRobin_serves_in_turn true (.roundRobin 0)
    [.create a, .create { a with id := ⟨"b"⟩ }, .add 0, .add 1] calls .empty 0 rfl (by decide)
    only able (by decide)
  refine ⟨room, List.map_injective_iff.2 (Option.some_injective _) ?_⟩
  rw [List.map_map]
  exact served.trans (by decide)

/-- With a sorted view between any two of three requests the same of two members serves them all,
although both have slots for all of them. -/
theorem sorted_takes_a_turn :
    let a : SlotNode := { id := ⟨"a"⟩, maxSessions := 5, offers := [Capabilities.empty] }
    let hub : Hub Policy SlotNode :=
      (empty true (.roundRobin 0)).after
        [.create a, .create { a with id := ⟨"b"⟩ }, .add 0, .add 1]
    let calls : List (Call SlotNode) :=
      [.newSession .empty, .sorted, .newSession .empty, .sorted, .newSession .empty]
    hub.AlwaysAble .empty calls ∧
      (hub.sessions calls).map (·.nodeId) = [⟨"a"⟩, ⟨"a"⟩, ⟨"a"⟩] := by
  intro a hub calls
  have room : hub.HasRoom .empty 5 := by decide
  have only : ∀ c ∈ calls, c = .newSession .empty ∨ c.IsQuery := by
    simp [calls, Call.IsQuery]
  have inv : hub.Coherent := coherent_after _ _ _
  have able := room.alwaysAble inv only
  have policy : hub.policy = .roundRobin 0 := rfl
  have served := inv.sessions_eq policy (by decide) only able (by decide)
  refine ⟨able, List.map_injective_iff.2 (Option.some_injective _) ?_⟩
  rw [List.map_map]
  exact served.trans (by decide)

end SessionGrid.Hub
