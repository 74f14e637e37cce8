import SessionGrid.Proofs.Hub.RoundRobin

/-!
# Members listed in any order

Round robin sorts the members by id, whatever the order in which they are listed, and what another order
makes of a request under the least-loaded policy, the request of one node object does as well. So all
states that runs in any orders reach are states after plain calls (`reached_iff`).
-/

namespace SessionGrid.Hub

variable {hub : Hub Policy SlotNode}

/-- Round robin sorts by id, so the order of the listing does not matter. -/
theorem Coherent.sortedIn_of_roundRobin (inv : hub.Coherent) {next : UInt64}
    (policy : hub.policy = .roundRobin next) (l : Listing) : hub.sortedIn l = hub.sorted := by
  have distinct : ((l.order hub.candidates).map (·.id)).Nodup := by
    rw [((l.perm hub.candidates).map _).nodup_iff, inv.candidates_ids]
    exact inv.nodup_memberIds
  have arranged : Policy.arrange (.roundRobin next) (l.order hub.candidates) =
      Policy.arrange (.roundRobin next) hub.candidates :=
    Policy.arrange_of_perm distinct (l.perm hub.candidates) next
  calc hub.sortedIn l
      = ((Policy.arrange (.roundRobin next) (l.order hub.candidates)).1,
          { hub with policy := (Policy.arrange (.roundRobin next) (l.order hub.candidates)).2 }) := by
        rw [← policy]
        rfl
    _ = ((Policy.arrange (.roundRobin next) hub.candidates).1,
          { hub with policy := (Policy.arrange (.roundRobin next) hub.candidates).2 }) := by
        rw [arranged]
    _ = hub.sorted := by
        rw [← policy]
        rfl

theorem Coherent.newSessionIn_of_roundRobin (inv : hub.Coherent) {next : UInt64}
    (policy : hub.policy = .roundRobin next) (l : Listing) (requested : Capabilities) :
    hub.newSessionIn l requested = hub.newSession requested := by
  rw [newSessionIn, inv.sortedIn_of_roundRobin policy l]
  rfl

/-- What one call does to the hub, plain calls do as well. -/
theorem Coherent.exists_calls_callIn (inv : hub.Coherent) (c : Listing × Call SlotNode) :
    ∃ calls, (hub.callIn c).state = hub.after calls := by
  by_cases arranges : c.2.Arranges
  · obtain ⟨l, c⟩ := c
    cases policy : hub.policy with
    | leastLoaded =>
      have sorted := sortedIn_of_leastLoaded policy l
      cases c with
      | sorted => exact ⟨[], congrArg Prod.snd sorted⟩
      | newSession requested =>
        rcases firstAble_or_noneAble hub requested (hub.sortedIn l).1 with ⟨c, n, first⟩ | none
        · -- What is left of the request is the grant of the node object that was chosen.
          refine ⟨[.grant c.handle requested], ?_⟩
          show (hub.newSessionIn l requested).state = (hub.tryGrant c.handle requested).state
          rw [newSessionIn_of_firstAble first, tryGrant_of_able first.node first.able, sorted]
        · refine ⟨[], ?_⟩
          show (hub.newSessionIn l requested).state = hub
          rw [newSessionIn_of_noneAble none, sorted]
      | _ => exact arranges.elim
    | roundRobin next =>
      cases c with
      | sorted => exact ⟨[.sorted], congrArg Prod.snd (inv.sortedIn_of_roundRobin policy l)⟩
      | newSession requested =>
        refine ⟨[.newSession requested], ?_⟩
        show (hub.newSessionIn l requested).state = (hub.newSession requested).state
        rw [inv.newSessionIn_of_roundRobin policy]
      | _ => exact arranges.elim
  · exact ⟨[c.2], congrArg Reply.state (callIn_of_not_arranges hub arranges)⟩

/-- Whatever the orders in which the hub lists its members, the state after a run is one that plain calls
lead to. -/
theorem exists_calls_afterIn (strict : Bool) (policy : Policy)
    (calls : List (Listing × Call SlotNode)) :
    ∃ plain, (empty strict policy : Hub Policy SlotNode).afterIn calls =
      (empty strict policy).after plain := by
  -- By induction on the calls to come, for any plain calls that lead to the present state.
  have reached : ∀ (done : List (Call SlotNode)), ∃ plain,
      ((empty strict policy : Hub Policy SlotNode).after done).afterIn calls =
        (empty strict policy).after plain := by
    induction calls with
    | nil => exact fun done => ⟨done, rfl⟩
    | cons c cs ih =>
      intro done
      obtain ⟨next, same⟩ := (coherent_after strict policy done).exists_calls_callIn c
      obtain ⟨plain, rest⟩ := ih (done ++ next)
      refine ⟨plain, ?_⟩
      rw [afterIn_cons, same, ← after_append, rest]
  exact reached []

/-- **Any order.** The same states are reached by plain calls and by calls that list the members in any
orders. -/
theorem reached_iff (strict : Bool) (policy : Policy) (hub : Hub Policy SlotNode) :
    (∃ calls, (empty strict policy).afterIn calls = hub) ↔
      ∃ calls, (empty strict policy).after calls = hub := by
  constructor
  · rintro ⟨calls, rfl⟩
    obtain ⟨plain, same⟩ := exists_calls_afterIn strict policy calls
    exact ⟨plain, same.symm⟩
  · rintro ⟨calls, rfl⟩
    exact ⟨calls.map fun c => (.byId, c), rfl⟩

end SessionGrid.Hub
