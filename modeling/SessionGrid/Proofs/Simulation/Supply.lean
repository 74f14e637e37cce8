import SessionGrid.Proofs.Hub.Capability
import SessionGrid.Proofs.Simulation.Accounts

/-!
# Enough slots for all clients

A client holds at most one session, so a client without one leaves a slot free if the nodes that
advertise the request have as many slots as there are clients (`Balanced.exists_able`). First fit finds
the slot if the search is one step, with no other client in the middle of it: then every request is served
at its first attempt (`Supplied`). What can go wrong otherwise is the subject of `Simulation.Contention`.
-/

namespace SessionGrid.Simulation

open Hub

/-- The slots of the declared nodes that advertise the request. -/
def supply (c : Config) (requested : Capabilities) : Nat :=
  ((c.nodes.filter fun d => d.node.advertises requested).map (·.maxSessions.toNat)).sum

section Supply

variable {c : Config} {o : Options} {s : Simulation}

/-- The node objects that advertise the request. -/
def advertisers (hub : Hub Policy SlotNode) (requested : Capabilities) : List SlotNode :=
  hub.nodes.filter (·.advertises requested)

/-- The declared slots are those of the members that advertise the request. -/
theorem supply_eq (b : Balanced c o s) (requested : Capabilities) :
    supply c requested = ((advertisers s.hub requested).map (·.maxSessions.toNat)).sum := by
  rw [supply, ← b.stocked.nodes, List.filter_map, List.map_map]
  rfl

/-- No two of them have one id, so no session is counted for both. -/
theorem nodup_advertisers (b : Balanced c o s) (valid : c.fault? = none) (requested : Capabilities) :
    ((advertisers s.hub requested).map (·.id)).Nodup := by
  have distinct : (c.nodes.map (·.id)).Nodup := (Config.fault?_eq_none_iff.1 valid).2
  rw [← b.stocked.nodes, List.map_map] at distinct
  exact distinct.sublist (List.filter_sublist.map _)

/-- The slots in use of the nodes that advertise the request are not more than the clients that hold
a session. -/
theorem active_le_holders (b : Balanced c o s) (valid : c.fault? = none)
    (requested : Capabilities) :
    ((advertisers s.hub requested).map (·.active.toNat)).sum ≤
      s.clients.countP fun cl => (site cl).isSome := by
  have slots : ((advertisers s.hub requested).map (·.active.toNat)) =
      ((advertisers s.hub requested).map (·.id)).map fun id => held id s.clients := by
    rw [List.map_map]
    apply List.map_congr_left
    intro n mem
    exact (b.booked_of_mem (List.mem_filter.1 mem).1).slots
  rw [slots]
  exact sum_countP_le (nodup_advertisers b valid requested) site s.clients

/-- While a client holds no session, some member is able to serve the request. -/
theorem Balanced.exists_able (b : Balanced c o s) (valid : c.fault? = none)
    (room : o.clients ≤ supply c o.requested) {cl : Client} (mem : cl ∈ s.clients)
    (idle : site cl = none) : ∃ h n, s.hub.IsMember h n ∧ n.Able o.requested := by
  have holders : (s.clients.countP fun cl => (site cl).isSome) < s.clients.length := by
    apply Nat.lt_of_le_of_ne List.countP_le_length
    intro all
    have holds := List.countP_eq_length.1 all cl mem
    rw [idle] at holds
    cases holds
  have used := active_le_holders b valid o.requested
  rw [supply_eq b, ← b.clients] at room
  obtain ⟨n, advertiser, free⟩ :=
    List.exists_lt_of_sum_lt (fun n : SlotNode => n.active.toNat) (·.maxSessions.toNat)
      (Nat.lt_of_le_of_lt used (Nat.lt_of_lt_of_le holders room))
  obtain ⟨stored, advertises⟩ := List.mem_filter.1 advertiser
  obtain ⟨h, node⟩ := List.mem_iff_getElem?.1 stored
  have running : n.isShutDown = false := by
    rw [SlotNode.isShutDown, (b.booked_of_mem stored).running]
    rfl
  exact ⟨h, n, b.stocked.isMember node,
    SlotNode.able_iff.2 ⟨running, UInt32.lt_iff_toNat_lt.2 free, advertises⟩⟩

end Supply

/-! ## Requests served at once -/

/-- No request of the client was missed or rejected, and the one that it asks for was not asked for
before. -/
structure Prompt (cl : Client) : Prop where
  misses : cl.tally.misses = 0
  rejected : cl.tally.rejected = 0
  first : ∀ request misses, cl.stage = .asking request misses → misses = 0

/-- A client stays prompt in every turn but a rejection and a miss. -/
theorem Turn.prompt {o : Options} {cl cl' : Client} {request : Nat} {deed : Deed}
    (turn : Turn o cl request deed cl') (passed : ∀ e, deed ≠ .verify (.error e))
    (served : deed ≠ .ask none) (before : Prompt cl) : Prompt cl' := by
  cases turn with
  | rejected stage more => exact absurd rfl (passed _)
  | gaveUp stage last => exact absurd rfl served
  | retried stage more => exact absurd rfl served
  | verified stage more =>
    refine ⟨before.misses, before.rejected, fun request misses asking => ?_⟩
    cases asking
    rfl
  | served stage | released stage =>
    refine ⟨before.misses, before.rejected, fun request misses asking => ?_⟩
    cases asking

/-- **One client.** If somebody is able whenever it asks, each of its requests is served at once. -/
theorem Acts.prompt {o : Options} {l : Listing} {hub hub' : Hub Policy SlotNode} {cl cl' : Client}
    (acts : Acts o l hub cl hub' cl') (inv : hub.Coherent)
    (able : site cl = none → ∃ h n, hub.IsMember h n ∧ n.Able o.requested) (before : Prompt cl) :
    Prompt cl' := by
  have perm := hub.sortedIn_perm l
  cases acts with
  | finished stage all => exact before
  | @verified request stage more passed =>
    have turn : Turn o cl request (.verify (.ok ())) _ := .verified stage more
    exact turn.prompt (by rintro _ ⟨⟩) (by rintro ⟨⟩) before
  | rejected stage more refused =>
    have advertised := inv.hasCapability_of_able (able (by rw [site, stage]))
    have verified : (hub.verify o.requested).1 = .ok () := verify_eq_ok_iff.2 fun _ => advertised
    cases verified.symm.trans refused
  | @served request misses m n stage first =>
    have turn : Turn o cl request (.ask (some n.next)) _ := .served stage
    exact turn.prompt (by rintro _ ⟨⟩) (by rintro ⟨⟩) before
  | gaveUp stage none last | retried stage none more =>
    obtain ⟨h, n, member, able⟩ := able (by rw [site, stage])
    exact absurd able ((inv.noneAble_listed_iff perm).1 none h n member)
  | @released request session stage =>
    have turn : Turn o cl request .giveBack _ := .released stage
    exact turn.prompt (by rintro _ ⟨⟩) (by rintro ⟨⟩) before

/-- The books agree and every request was served at its first attempt so far. -/
structure Supplied (c : Config) (o : Options) (s : Simulation) : Prop where
  balanced : Balanced c o s
  prompt : ∀ cl ∈ s.clients, Prompt cl

/-- **One move.** Slots enough for all clients leave one for the client that asks. -/
theorem Supplied.stepIn {c : Config} {o : Options} {s : Simulation} (valid : c.fault? = none)
    (room : o.clients ≤ supply c o.requested) (inv : Supplied c o s) (m : Listing × Nat) :
    Supplied c o (s.stepIn o m) := by
  refine ⟨inv.balanced.stepIn m, ?_⟩
  apply stepIn_keeps (I := fun t => ∀ cl ∈ t.clients, Prompt cl) inv.prompt
  intro cl hub' cl' log found acts
  have mem : cl ∈ s.clients := List.mem_of_getElem? found
  apply forall_mem_exchange inv.prompt
  exact acts.prompt inv.balanced.stocked.coherent (inv.balanced.exists_able valid room mem)
    (inv.prompt cl mem)

theorem supplied_movesIn {c : Config} {o : Options} (valid : c.fault? = none)
    (room : o.clients ≤ supply c o.requested) (order : List (Listing × Nat)) :
    Supplied c o ((start c o).movesIn o order) := by
  apply movesIn_induction fun _ m inv => inv.stepIn valid room m
  refine ⟨balanced_start valid o, ?_⟩
  intro cl mem
  rw [List.eq_of_mem_replicate mem]
  refine ⟨rfl, rfl, fun request misses asking => ?_⟩
  cases asking

/-! ## The whole run -/

/-- Without misses and rejections every ended request was granted. -/
theorem Tally.eq_granted {t : Tally} {n : Nat} (ended : t.ended = n) (misses : t.misses = 0)
    (rejected : t.rejected = 0) : t = ⟨n, 0, 0⟩ := by
  obtain ⟨granted, m, r⟩ := t
  cases misses
  cases rejected
  cases ended
  rfl

/-- At the end every request of every client was granted. -/
theorem Supplied.total {c : Config} {o : Options} {s : Simulation} (inv : Supplied c o s)
    (done : ∀ cl ∈ s.clients, cl.isDone o = true) : s.total = ⟨o.clients * o.requests, 0, 0⟩ := by
  apply Tally.eq_granted
  · rw [ended_total inv.balanced.between done, inv.balanced.clients]
  · exact total_count_eq_zero Tally.misses rfl (fun _ _ => rfl) fun cl mem =>
      (inv.prompt cl mem).misses
  · exact total_count_eq_zero Tally.rejected rfl (fun _ _ => rfl) fun cl mem =>
      (inv.prompt cl mem).rejected

end SessionGrid.Simulation
