import SessionGrid.Proofs.Capabilities.Matching
import SessionGrid.Proofs.Hub.NewSession

/-!
# Asking for less

A hub has a capability if some member advertises it, however busy that member is, and only a strict hub
refuses to verify a request, for no other reason than that no member advertises it. What meets a request
meets every request that asks for no more, so a hub that has, verifies or serves the one has, verifies or
serves the other; and a request that is served is never one that a strict hub rejects
(`asking_for_less`).
-/

namespace SessionGrid

/-- What is offered for a request is offered for all that ask for no more. -/
theorem SlotNode.advertises_of_less {n : SlotNode} {a b : Capabilities}
    (less : a.satisfiedBy b = true) (advertises : n.advertises b = true) :
    n.advertises a = true := by
  obtain ⟨offer, mem, met⟩ := SlotNode.advertises_iff.1 advertises
  exact SlotNode.advertises_iff.2 ⟨offer, mem, Capabilities.satisfiedBy_trans less met⟩

theorem SlotNode.Able.of_less {n : SlotNode} {a b : Capabilities} (less : a.satisfiedBy b = true)
    (able : n.Able b) : n.Able a := by
  obtain ⟨running, free, advertises⟩ := SlotNode.able_iff.1 able
  exact SlotNode.able_iff.2 ⟨running, free, SlotNode.advertises_of_less less advertises⟩

namespace Hub

variable {P : Type} {hub : Hub P SlotNode} {requested : Capabilities}

theorem Coherent.hasCapability_iff (inv : hub.Coherent) :
    hub.hasCapability requested = true ↔
      ∃ h n, hub.IsMember h n ∧ n.advertises requested = true := by
  unfold hasCapability
  rw [List.any_eq_true]
  constructor
  · rintro ⟨⟨h, n⟩, mem, advertises⟩
    exact ⟨h, n, inv.mem_memberNodes.1 mem, advertises⟩
  · rintro ⟨h, n, member, advertises⟩
    exact ⟨(h, n), inv.mem_memberNodes.2 member, advertises⟩

/-- A hub without members has no capability. -/
theorem isEmpty_of_hasCapability (has : hub.hasCapability requested = true) :
    hub.isEmpty = false := by
  cases members : hub.members with
  | nil => simp [hasCapability, memberNodes, members] at has
  | cons p ms => simp [isEmpty, members]

/-- A request is verified unless the hub is strict and no member advertises it. -/
theorem verify_eq_ok_iff :
    (hub.verify requested).1 = .ok () ↔
      (hub.strict = true → hub.hasCapability requested = true) := by
  cases strict : hub.strict with
  | false => simp [verify, strict]
  | true =>
    cases has : hub.hasCapability requested with
    | true => simp [verify, strict, has, isEmpty_of_hasCapability has]
    | false => cases empty : hub.isEmpty <;> simp [verify, strict, has, empty]

theorem Coherent.hasCapability_of_less (inv : hub.Coherent) {a b : Capabilities}
    (less : a.satisfiedBy b = true) (has : hub.hasCapability b = true) :
    hub.hasCapability a = true := by
  obtain ⟨h, n, member, advertises⟩ := inv.hasCapability_iff.1 has
  exact inv.hasCapability_iff.2 ⟨h, n, member, SlotNode.advertises_of_less less advertises⟩

/-- A member that can serve a request advertises it. -/
theorem Coherent.hasCapability_of_able (inv : hub.Coherent)
    (able : ∃ h n, hub.IsMember h n ∧ n.Able requested) : hub.hasCapability requested = true := by
  obtain ⟨h, n, member, able⟩ := able
  exact inv.hasCapability_iff.2 ⟨h, n, member, (SlotNode.able_iff.1 able).2.2⟩

/-- **Less is never harder to get.** In every reachable state and in both modes: if the request `a` is
met by the capabilities `b`, then what can be said of `b` can be said of `a`, that some member has it,
that it is verified, and that it is served, whatever the order in which members are listed. Whatever is
served is advertised, so it is verified too. -/
theorem asking_for_less (strict : Bool) (policy : Policy) (calls : List (Listing × Call SlotNode))
    (a b : Capabilities) (less : a.satisfiedBy b = true) :
    let hub : Hub Policy SlotNode := (empty strict policy).afterIn calls
    ((hub.hasCapability b = true → hub.hasCapability a = true) ∧
      (∀ mode, ((hub.setStrict mode).verify b).1 = .ok () →
        ((hub.setStrict mode).verify a).1 = .ok ()) ∧
      ∀ l l', (hub.newSessionIn l b).answer.isSome = true →
        (hub.newSessionIn l' a).answer.isSome = true) ∧
    ∀ l requested, (hub.newSessionIn l requested).answer.isSome = true →
      hub.hasCapability requested = true ∧
        ∀ mode, ((hub.setStrict mode).verify requested).1 = .ok () := by
  intro hub
  have inv : hub.Coherent := coherent_afterIn strict policy calls
  have has : hub.hasCapability b = true → hub.hasCapability a = true :=
    inv.hasCapability_of_less less
  refine ⟨⟨has, ?_, ?_⟩, ?_⟩
  · intro mode verified
    rw [verify_eq_ok_iff] at verified ⊢
    exact fun raises => has (verified raises)
  · intro l l' served
    obtain ⟨h, n, member, able⟩ := (inv.newSessionIn_isSome_iff l).1 served
    exact (inv.newSessionIn_isSome_iff l').2 ⟨h, n, member, able.of_less less⟩
  · intro l requested served
    have advertised : hub.hasCapability requested = true :=
      inv.hasCapability_of_able ((inv.newSessionIn_isSome_iff l).1 served)
    exact ⟨advertised, fun mode => verify_eq_ok_iff.2 fun _ => advertised⟩

/-- A request with a wildcard and in other letters is met by one that a member offers. -/
theorem asking_for_less_any_version :
    let wanted := (Capabilities.empty.insert "browser" (.string "CHROME")).insert "version"
      (.string "Any")
    let offered := Capabilities.empty.insert "browser" (.string "Chrome")
    let node : SlotNode := { id := ⟨"a"⟩, maxSessions := 1, offers := [offered] }
    let hub : Hub Policy SlotNode :=
      (empty true (.roundRobin 0)).afterIn [(.byId, .create node), (.byId, .add 0)]
    wanted.satisfiedBy offered = true ∧ (hub.newSession offered).answer.isSome = true ∧
      (hub.newSession wanted).answer.isSome = true ∧ (hub.verify wanted).1 = .ok () := by
  intro wanted offered node hub
  have less : wanted.satisfiedBy offered = true := by decide +kernel
  have served : (hub.newSession offered).answer.isSome = true := by decide +kernel
  obtain ⟨⟨-, -, serves⟩, verifies⟩ :=
    asking_for_less true (.roundRobin 0) [(.byId, .create node), (.byId, .add 0)] wanted offered less
  have fewer : (hub.newSession wanted).answer.isSome = true := serves .byId .byId served
  exact ⟨less, served, fewer, (verifies .byId wanted fewer).2 true⟩

end Hub

end SessionGrid
