import SessionGrid.Proofs.Hub.Listing
import SessionGrid.Proofs.Hub.NodeStep

/-!
# Ties in the least-loaded order

A session start is recorded at the node object it comes from. While no two sessions start at one instant,
different node objects never have the same recorded start (`Started`), so two of them have equal load keys
only if neither ever started a session. The order in which a hub happens to list its members can therefore
decide only between nodes that were never used: apart from these the least-loaded policy sorts any listing
alike, and a request is served from the same node (`only_unused_nodes_tie`).
-/

namespace SessionGrid.Hub

/-! ## Recorded starts -/

/-- The instants at which sessions start in a run, in order of the calls. -/
def starts (hub : Hub Policy SlotNode) : List (Listing × Call SlotNode) → List Instant
  | [] => []
  | c :: cs =>
    ((hub.callIn c).answer.session?.map fun _ => hub.clock).toList ++ (hub.callIn c).state.starts cs

/-- Every recorded start is one of the past and is recorded at one node object, and exactly the node
objects that granted a session have one. -/
structure Started (past : List Instant) (nodes : List SlotNode) : Prop where
  unused : ∀ {h : Handle} {n : SlotNode}, nodes[h]? = some n → (n.lastStart = none ↔ n.granted = 0)
  recorded : ∀ {h : Handle} {n : SlotNode} {t : Instant}, nodes[h]? = some n →
    n.lastStart = some t → t ∈ past
  single : ∀ {h k : Handle} {n m : SlotNode} {t : Instant}, nodes[h]? = some n →
    nodes[k]? = some m → n.lastStart = some t → m.lastStart = some t → h = k

namespace Started

variable {past : List Instant} {nodes nodes' : List SlotNode}

theorem empty : Started [] [] :=
  ⟨nofun, nofun, nofun⟩

/-- Node objects come fresh or with the starts that they had. -/
theorem of_quiet (started : Started past nodes)
    (old : ∀ (h : Handle) (m : SlotNode), nodes'[h]? = some m →
      (m.granted = 0 ∧ m.lastStart = none) ∨ ∃ n : SlotNode, nodes[h]? = some n ∧
        m.granted = n.granted ∧ m.lastStart = n.lastStart) :
    Started past nodes' := by
  have origin : ∀ {h : Handle} {m : SlotNode} {t : Instant}, nodes'[h]? = some m →
      m.lastStart = some t → ∃ n : SlotNode, nodes[h]? = some n ∧ n.lastStart = some t := by
    intro h m t node start
    rcases old h m node with ⟨-, never⟩ | ⟨n, before, -, same⟩
    · rw [never] at start
      cases start
    · exact ⟨n, before, same ▸ start⟩
  refine ⟨?_, ?_, ?_⟩
  · intro h m node
    rcases old h m node with ⟨none, never⟩ | ⟨n, before, granted, same⟩
    · exact iff_of_true never none
    · rw [granted, same]
      exact started.unused before
  · intro h m t node start
    obtain ⟨n, before, start⟩ := origin node start
    exact started.recorded before start
  · intro h k m j t nodeH nodeK startH startK
    obtain ⟨n, beforeH, startH⟩ := origin nodeH startH
    obtain ⟨i, beforeK, startK⟩ := origin nodeK startK
    exact started.single beforeH beforeK startH startK

/-- One node object starts a session, at an instant that was not recorded before. -/
theorem of_granting {hub : Hub Policy SlotNode} (started : Started past hub.nodes) {h : Handle}
    {n : SlotNode} (node : hub.node? h = some n) (new : hub.clock ∉ past) :
    Started (past ++ [hub.clock]) (hub.setNode h (n.granting hub.clock)).nodes := by
  refine ⟨?_, ?_, ?_⟩
  · intro k m now
    rcases node?_setNode_cases node now with ⟨-, rfl⟩ | ⟨-, old⟩
    · exact iff_of_false nofun (Nat.succ_ne_zero _)
    · exact started.unused old
  · intro k m t now start
    rcases node?_setNode_cases node now with ⟨-, rfl⟩ | ⟨-, old⟩
    · cases start
      exact List.mem_append_right _ (List.mem_singleton.2 rfl)
    · exact List.mem_append_left _ (started.recorded old start)
  · -- The new start was not recorded before, so no other node object has it.
    intro k k' m m' t now now' start start'
    rcases node?_setNode_cases node now with ⟨rfl, rfl⟩ | ⟨-, old⟩
    · rcases node?_setNode_cases node now' with ⟨rfl, -⟩ | ⟨-, old'⟩
      · rfl
      · cases start
        exact absurd (started.recorded old' start') new
    · rcases node?_setNode_cases node now' with ⟨-, rfl⟩ | ⟨-, old'⟩
      · cases start'
        exact absurd (started.recorded old start) new
      · exact started.single old old' start start'

theorem step {hub : Hub Policy SlotNode} (started : Started past hub.nodes) (inv : hub.Coherent)
    {c : Call SlotNode} {s : Option Session} (step : hub.NodeStep c s nodes')
    (fresh : ∀ n, c = .create n → n.IsFresh) (new : s.isSome → hub.clock ∉ past) :
    Started (past ++ (s.map fun _ => hub.clock).toList) nodes' := by
  cases s with
  | some s =>
    cases step with
    | started plain node able => exact started.of_granting node (new rfl)
  | none =>
    rw [Option.map_none, Option.toList_none, List.append_nil]
    apply started.of_quiet
    intro h m now
    have fate := step.fate inv h
    rw [now] at fate
    generalize before : hub.node? h = n at fate
    cases fate with
    | made create =>
      have asDeclared : m = m.declaration.node := fresh m create
      rw [asDeclared]
      exact .inl ⟨rfl, rfl⟩
    | lives becomes shutDowns => exact .inr ⟨_, before, becomes.of_no_session⟩

/-- What is recorded after a run are its starts. -/
theorem afterIn {hub : Hub Policy SlotNode} (started : Started past hub.nodes) (inv : hub.Coherent)
    {calls : List (Listing × Call SlotNode)} (fresh : ∀ c ∈ calls, ∀ n, c.2 = .create n → n.IsFresh)
    (later : (past ++ hub.starts calls).Pairwise (· < ·)) :
    Started (past ++ hub.starts calls) (hub.afterIn calls).nodes := by
  induction calls generalizing hub past with
  | nil =>
    rw [starts, List.append_nil]
    exact started
  | cons c cs ih =>
    rw [starts, ← List.append_assoc] at later ⊢
    obtain ⟨first, rest⟩ := List.forall_mem_cons.1 fresh
    refine ih (started.step inv (callIn_nodeStep hub c) first ?_) (inv.callIn c) rest later
    -- The start of this call comes after all that are recorded.
    intro served mem
    obtain ⟨s, served⟩ := Option.isSome_iff_exists.1 served
    rw [served, Option.map_some, Option.toList_some] at later
    have upToNow := (List.pairwise_append.1 later).1
    exact Nat.lt_irrefl _ ((List.pairwise_append.1 upToNow).2.2 _ mem _ (List.mem_singleton.2 rfl))

/-- Only node objects that never granted a session have equal keys. -/
theorem unused_of_key_eq (started : Started past nodes) {h k : Handle} {n m : SlotNode}
    (nodeH : nodes[h]? = some n) (nodeK : nodes[k]? = some m) (ne : h ≠ k)
    (same : LoadKey.of n = .of m) : n.granted = 0 ∧ m.granted = 0 := by
  have starts : n.lastStart = m.lastStart := congrArg LoadKey.lastStart same
  have never : m.lastStart = none := by
    cases start : m.lastStart with
    | none => rfl
    | some t => exact absurd (started.single nodeH nodeK (starts.trans start) start) ne
  exact ⟨(started.unused nodeH).1 (starts.trans never), (started.unused nodeK).1 never⟩

end Started

/-! ## Two listings -/

/-- Two node objects with the same load, neither of which ever granted a session. -/
def UnusedTie (hub : Hub Policy SlotNode) (h k : Handle) : Prop :=
  h ≠ k ∧ ∃ n m, hub.node? h = some n ∧ hub.node? k = some m ∧ n.granted = 0 ∧ m.granted = 0 ∧
    n.load = m.load

section Listings

variable {hub : Hub Policy SlotNode} {past : List Instant} {cs ds : List Candidate}
  {c d : Candidate}

/-- Candidates with equal keys are the same or an unused tie. -/
theorem Coherent.eq_or_unusedTie (inv : hub.Coherent) (started : Started past hub.nodes)
    (memC : c ∈ hub.candidates) (memD : d ∈ hub.candidates) (same : c.key = d.key) :
    c = d ∨ hub.UnusedTie c.handle d.handle := by
  obtain ⟨h, n, memberH, rfl⟩ := inv.mem_candidates.1 memC
  obtain ⟨k, m, memberK, rfl⟩ := inv.mem_candidates.1 memD
  by_cases one : h = k
  · subst one
    have node : n = m := Option.some.inj (memberH.2.symm.trans memberK.2)
    exact .inl (by rw [node])
  · obtain ⟨unusedH, unusedK⟩ := started.unused_of_key_eq memberH.2 memberK.2 one same
    have load : n.load = m.load := congrArg LoadKey.load same
    exact .inr ⟨one, n, m, memberH.2, memberK.2, unusedH, unusedK, load⟩

/-- Place by place, two sorted listings have the same candidate or an unused tie. -/
theorem Coherent.byLoad_listed (inv : hub.Coherent) (started : Started past hub.nodes)
    (permC : cs.Perm hub.candidates) (permD : ds.Perm hub.candidates) :
    List.Forall₂ (fun c d => c = d ∨ hub.UnusedTie c.handle d.handle) (Policy.byLoad cs)
      (Policy.byLoad ds) := by
  have keys : List.Forall₂ (fun c d : Candidate => c.key = d.key) (Policy.byLoad cs)
      (Policy.byLoad ds) := by
    have same := Policy.keys_byLoad_of_perm (permC.trans permD.symm)
    rw [← List.forall₂_eq_eq_eq, List.forall₂_map_left_iff, List.forall₂_map_right_iff] at same
    exact same
  obtain ⟨length, pairs⟩ := List.forall₂_iff_zip.1 keys
  refine List.forall₂_iff_zip.2 ⟨length, fun {c d} mem => ?_⟩
  obtain ⟨memC, memD⟩ := List.of_mem_zip mem
  have memC : c ∈ hub.candidates := permC.mem_iff.1 ((List.mergeSort_perm cs _).mem_iff.1 memC)
  have memD : d ∈ hub.candidates := permD.mem_iff.1 ((List.mergeSort_perm ds _).mem_iff.1 memD)
  exact inv.eq_or_unusedTie started memC memD (pairs mem)

/-- Two candidates stand the other way round in another sorted listing only if they are an unused
tie. -/
theorem Coherent.unusedTie_of_swapped (inv : hub.Coherent) (started : Started past hub.nodes)
    (permC : cs.Perm hub.candidates) (here : [c, d].Sublist (Policy.byLoad cs))
    (there : [d, c].Sublist (Policy.byLoad ds)) : hub.UnusedTie c.handle d.handle := by
  have sorted : (Policy.byLoad cs).Perm hub.candidates := (List.mergeSort_perm cs _).trans permC
  have handles : ((Policy.byLoad cs).map (·.handle)).Nodup := by
    rw [(sorted.map _).nodup_iff, inv.candidates_handles]
    exact inv.nodup_snapshot
  have apart : c.handle ≠ d.handle :=
    List.rel_of_pairwise_cons ((List.pairwise_map.1 handles).sublist here) List.mem_cons_self
  have below := (Policy.byLoad_ordered cs).sublist here
  have above := (Policy.byLoad_ordered ds).sublist there
  have same : c.key = d.key :=
    LoadKey.le_antisymm (List.rel_of_pairwise_cons below List.mem_cons_self)
      (List.rel_of_pairwise_cons above List.mem_cons_self)
  have memC : c ∈ hub.candidates := sorted.mem_iff.1 (here.subset List.mem_cons_self)
  have memD : d ∈ hub.candidates :=
    sorted.mem_iff.1 (here.subset (List.mem_cons_of_mem _ List.mem_cons_self))
  rcases inv.eq_or_unusedTie started memC memD same with one | tie
  · exact absurd (congrArg Candidate.handle one) apart
  · exact tie

/-- The session comes from the node object `h`, and no member that can serve the request has a smaller
key. -/
structure ServedByBest (hub : Hub Policy SlotNode) (l : Listing) (requested : Capabilities)
    (h : Handle) (n : SlotNode) : Prop where
  answer : (hub.newSessionIn l requested).answer = some n.next
  state : (hub.newSessionIn l requested).state = hub.starting h n
  isMember : hub.IsMember h n
  able : n.Able requested
  best : ∀ k m, hub.IsMember k m → m.Able requested → (LoadKey.of m).compare (.of n) ≠ .lt

variable {l : Listing} {requested : Capabilities} {n : SlotNode}

theorem Coherent.servedByBest (inv : hub.Coherent) (policy : hub.policy = .leastLoaded)
    (first : hub.FirstAble requested (hub.sortedIn l).1 c n) :
    hub.ServedByBest l requested c.handle n := by
  refine ⟨?_, ?_, (first.isMember_listed inv (hub.sortedIn_perm l)).1, first.able, ?_⟩
  · rw [newSessionIn_of_firstAble first]
  · rw [newSessionIn_of_firstAble first, sortedIn_of_leastLoaded policy]
  · exact fun k m member able => first.least_listed inv policy member able

/-- In order of load two listings have a request served from the same node object or from an unused tie
of best ones. -/
theorem Coherent.newSessionIn_of_leastLoaded (inv : hub.Coherent) (started : Started past hub.nodes)
    (policy : hub.policy = .leastLoaded) (l l' : Listing) (requested : Capabilities) :
    hub.newSessionIn l requested = hub.newSessionIn l' requested ∨
      ∃ h k n m, hub.ServedByBest l requested h n ∧ hub.ServedByBest l' requested k m ∧
        hub.UnusedTie h k := by
  have state : (hub.sortedIn l).2 = (hub.sortedIn l').2 := by
    rw [sortedIn_of_leastLoaded policy l, sortedIn_of_leastLoaded policy l']
  have perm := sortedIn_perm hub l
  have perm' := sortedIn_perm hub l'
  rcases firstAble_or_noneAble hub requested (hub.sortedIn l).1 with ⟨c, n, first⟩ | none
  · rcases firstAble_or_noneAble hub requested (hub.sortedIn l').1 with ⟨d, m, first'⟩ | none'
    · obtain ⟨memberC, isC⟩ := first.isMember_listed inv perm
      obtain ⟨memberD, isD⟩ := first'.isMember_listed inv perm'
      have served := inv.servedByBest policy first
      have served' := inv.servedByBest policy first'
      -- Each of the two is among the best, so neither has the smaller key.
      have keys : LoadKey.of n = .of m :=
        LoadKey.le_antisymm (LoadKey.le_iff_not_lt.2 (served.best _ m memberD first'.able))
          (LoadKey.le_iff_not_lt.2 (served'.best _ n memberC first.able))
      have memC : c ∈ hub.candidates := inv.mem_candidates.2 ⟨_, n, memberC, isC⟩
      have memD : d ∈ hub.candidates := inv.mem_candidates.2 ⟨_, m, memberD, isD⟩
      have same : c.key = d.key := by
        rw [isC, isD]
        exact keys
      rcases inv.eq_or_unusedTie started memC memD same with rfl | tie
      · have node : n = m := Option.some.inj (first.node.symm.trans first'.node)
        left
        rw [newSessionIn_of_firstAble first, newSessionIn_of_firstAble first', state, node]
      · exact .inr ⟨c.handle, d.handle, n, m, served, served', tie⟩
    · exact absurd first.able
        ((inv.noneAble_listed_iff perm').1 none' _ n (first.isMember_listed inv perm).1)
  · rcases firstAble_or_noneAble hub requested (hub.sortedIn l').1 with ⟨d, m, first'⟩ | none'
    · exact absurd first'.able
        ((inv.noneAble_listed_iff perm).1 none _ m (first'.isMember_listed inv perm').1)
    · left
      rw [newSessionIn_of_noneAble none, newSessionIn_of_noneAble none', state,
        (perm.trans perm'.symm).length_eq]

end Listings

/-- **Ties.** In every state that is reached by calls of any kind over nodes that start fresh, as long as
each session starts later than all before it: different node objects have keys that compare equal only if
neither ever granted a session. So under the least-loaded policy any two orders in which the hub may list
its members are sorted to lists that differ at most in the order of such nodes of equal load. And under
both policies they lead a request to the same node, unless the best members that can serve it are such
nodes. -/
theorem only_unused_nodes_tie (strict : Bool) (policy : Policy)
    (calls : List (Listing × Call SlotNode))
    (fresh : ∀ c ∈ calls, ∀ n, c.2 = .create n → n.IsFresh)
    (later : ((empty strict policy : Hub Policy SlotNode).starts calls).Pairwise (· < ·)) :
    let hub : Hub Policy SlotNode := (empty strict policy).afterIn calls
    (∀ h k n m, hub.node? h = some n → hub.node? k = some m → h ≠ k →
        (LoadKey.of n).compare (.of m) = .eq → n.granted = 0 ∧ m.granted = 0) ∧
      (hub.policy = .leastLoaded → ∀ l l',
        (hub.sortedIn l).1.Perm (hub.sortedIn l').1 ∧
          (∀ c d, [c, d].Sublist (hub.sortedIn l).1 → [d, c].Sublist (hub.sortedIn l').1 →
            hub.UnusedTie c.handle d.handle) ∧
          List.Forall₂ (fun c d => c = d ∨ hub.UnusedTie c.handle d.handle) (hub.sortedIn l).1
            (hub.sortedIn l').1) ∧
      ∀ l l' requested, hub.newSessionIn l requested = hub.newSessionIn l' requested ∨
        ∃ h k n m, hub.ServedByBest l requested h n ∧ hub.ServedByBest l' requested k m ∧
          hub.UnusedTie h k := by
  intro hub
  have inv : hub.Coherent := coherent_afterIn strict policy calls
  have started : Started _ hub.nodes :=
    Started.empty.afterIn (coherent_empty strict policy) fresh later
  refine ⟨?_, fun leastLoaded l l' => ⟨?_, ?_, ?_⟩, fun l l' requested => ?_⟩
  · intro h k n m nodeH nodeK ne equal
    exact started.unused_of_key_eq nodeH nodeK ne (LoadKey.compare_eq_eq_iff.1 equal)
  · exact (sortedIn_perm hub l).trans (sortedIn_perm hub l').symm
  · intro c d here there
    rw [sortedIn_of_leastLoaded leastLoaded] at here there
    exact inv.unusedTie_of_swapped started (l.perm _) here there
  · rw [sortedIn_of_leastLoaded leastLoaded, sortedIn_of_leastLoaded leastLoaded]
    exact inv.byLoad_listed started (l.perm _) (l'.perm _)
  · cases now : hub.policy with
    | leastLoaded => exact inv.newSessionIn_of_leastLoaded started now l l' requested
    | roundRobin next =>
      left
      rw [inv.newSessionIn_of_roundRobin now l, inv.newSessionIn_of_roundRobin now l']

/-- Two members that granted one session each are sorted alike and asked in the same order, however they
are listed. -/
theorem only_unused_nodes_tie_two_used :
    let node : SlotNode := { id := ⟨"a"⟩, maxSessions := 2, offers := [Capabilities.empty] }
    let plain : List (Call SlotNode) :=
      [.create node, .create { node with id := ⟨"b"⟩ }, .add 0, .add 1, .grant 0 .empty,
        .grant 1 .empty]
    let calls := plain.map fun c => (Listing.byId, c)
    let start : Hub Policy SlotNode := empty true .leastLoaded
    (∀ c ∈ calls, ∀ n, c.2 = .create n → n.IsFresh) ∧ start.starts calls = [0, 1] ∧
      ∀ l l', ((start.afterIn calls).sortedIn l).1 = ((start.afterIn calls).sortedIn l').1 ∧
        ∀ requested, (start.afterIn calls).newSessionIn l requested =
          (start.afterIn calls).newSessionIn l' requested := by
  intro node plain calls start
  have fresh : ∀ c ∈ calls, ∀ n, c.2 = .create n → n.IsFresh := by
    rintro c mem n made
    simp only [calls, plain, node, List.map_cons, List.map_nil, List.mem_cons, List.not_mem_nil,
      or_false] at mem
    rcases mem with rfl | rfl | rfl | rfl | rfl | rfl <;> cases made <;> rfl
  have starts : start.starts calls = [0, 1] := by decide +kernel
  have later : (start.starts calls).Pairwise (· < ·) := by
    rw [starts]
    decide
  obtain ⟨-, listed, served⟩ := only_unused_nodes_tie true .leastLoaded calls fresh later
  have used : ∀ n ∈ (start.afterIn calls).nodes, n.granted = 1 := by decide +kernel
  have noTie : ∀ h k, ¬ (start.afterIn calls).UnusedTie h k := by
    rintro h k ⟨-, n, m, nodeH, -, unused, -⟩
    rw [used n (List.mem_of_getElem? nodeH)] at unused
    cases unused
  refine ⟨fresh, starts, fun l l' => ?_⟩
  obtain ⟨-, -, same⟩ := listed rfl l l'
  refine ⟨?_, fun requested => ?_⟩
  · rw [← List.forall₂_eq_eq_eq]
    exact same.imp fun c d either => either.resolve_right (noTie _ _)
  · refine (served l l' requested).resolve_right ?_
    rintro ⟨h, k, n, m, -, -, tie⟩
    exact noTie h k tie

end SessionGrid.Hub
