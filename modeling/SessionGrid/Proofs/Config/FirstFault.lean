import SessionGrid.Proofs.Config.Validity

/-!
# The fault that is reported

A declaration breaks a rule by itself or by the declarations before it, and of several rules that it
breaks the first counts: a blank id, no slots, an id that was declared before (`Breaks`). The fault of a
configuration is that of the first declaration that breaks a rule (`fault?_eq_some_iff`).
-/

namespace SessionGrid.Config

/-- The rule that the declaration `n` breaks after declarations with the ids `seen`; of several the
first of the list. -/
inductive Breaks (seen : List NodeId) (n : NodeConfig) : ConfigFault → Prop where
  | blankId (blank : ∀ ch ∈ n.id.text.toList, Text.isBlank ch = true) : Breaks seen n .blankId
  | noSessions (named : ∃ ch ∈ n.id.text.toList, Text.isBlank ch = false)
      (none : n.maxSessions = 0) : Breaks seen n (.noSessions n.id)
  | duplicateId (named : ∃ ch ∈ n.id.text.toList, Text.isBlank ch = false)
      (roomy : n.maxSessions ≠ 0) (again : n.id ∈ seen) : Breaks seen n (.duplicateId n.id)

variable {seen : List NodeId} {n : NodeConfig} {ns : List NodeConfig} {f g : ConfigFault}

theorem isBlank_eq_true_iff {id : NodeId} :
    id.isBlank = true ↔ ∀ ch ∈ id.text.toList, Text.isBlank ch = true :=
  List.all_eq_true

/-- An id is not blank if it has a character that can be seen. -/
theorem isBlank_eq_false_iff {id : NodeId} :
    id.isBlank = false ↔ ∃ ch ∈ id.text.toList, Text.isBlank ch = false := by
  rw [← Bool.not_eq_true, isBlank_eq_true_iff]
  simp

/-- By itself a declaration needs an id that can be seen, and a slot. -/
theorem sound_iff :
    Sound n ↔ (∃ ch ∈ n.id.text.toList, Text.isBlank ch = false) ∧ 1 ≤ n.maxSessions.toNat := by
  have roomy : n.maxSessions ≠ 0 ↔ 1 ≤ n.maxSessions.toNat := by
    rw [ne_eq, ← UInt32.toNat_inj, UInt32.toNat_zero]
    omega
  rw [← isBlank_eq_false_iff, ← roomy]
  exact ⟨fun s => ⟨s.named, s.roomy⟩, fun s => ⟨s.1, s.2⟩⟩

/-! ## One declaration -/

namespace Breaks

/-- Of the ids seen before only the own one matters. -/
theorem of_mem_iff {seen' : List NodeId} (same : n.id ∈ seen ↔ n.id ∈ seen') (b : Breaks seen n f) :
    Breaks seen' n f := by
  cases b with
  | blankId blank => exact .blankId blank
  | noSessions named none => exact .noSessions named none
  | duplicateId named roomy again => exact .duplicateId named roomy (same.1 again)

theorem congr {seen' : List NodeId} (same : n.id ∈ seen ↔ n.id ∈ seen') :
    Breaks seen n f ↔ Breaks seen' n f :=
  ⟨of_mem_iff same, of_mem_iff same.symm⟩

/-- A declaration that breaks a rule is where the search ends. -/
theorem faultAfter_eq (b : Breaks seen n f) (ns : List NodeConfig) :
    faultAfter seen (n :: ns) = some f := by
  cases b with
  | blankId blank => simp only [faultAfter, isBlank_eq_true_iff.2 blank, if_true]
  | noSessions named none =>
    simp only [faultAfter, isBlank_eq_false_iff.2 named, none, Bool.false_eq_true, if_false, if_true]
  | duplicateId named roomy again =>
    simp only [faultAfter, isBlank_eq_false_iff.2 named, roomy, again, Bool.false_eq_true, if_false,
      if_true]

/-- The first rule that is broken is one. -/
theorem unique (b : Breaks seen n f) (b' : Breaks seen n g) : f = g :=
  Option.some.inj ((b.faultAfter_eq []).symm.trans (b'.faultAfter_eq []))

end Breaks

/-- A declaration breaks a rule, or the search goes on behind it. -/
theorem breaks_or_faultAfter_eq (seen : List NodeId) (n : NodeConfig) (ns : List NodeConfig) :
    (∃ f, Breaks seen n f) ∨
      (∀ f, ¬ Breaks seen n f) ∧ faultAfter seen (n :: ns) = faultAfter (n.id :: seen) ns := by
  by_cases blank : n.id.isBlank = true
  · exact .inl ⟨_, .blankId (isBlank_eq_true_iff.1 blank)⟩
  · have named := isBlank_eq_false_iff.1 (Bool.eq_false_iff.2 blank)
    by_cases none : n.maxSessions = 0
    · exact .inl ⟨_, .noSessions named none⟩
    · by_cases again : n.id ∈ seen
      · exact .inl ⟨_, .duplicateId named none again⟩
      · refine .inr ⟨fun f b => ?_, ?_⟩
        · cases b with
          | blankId all => exact blank (isBlank_eq_true_iff.2 all)
          | noSessions _ zero => exact none zero
          | duplicateId _ _ mem => exact again mem
        · simp only [faultAfter, Bool.eq_false_iff.2 blank, none, again, Bool.false_eq_true, if_false]

/-! ## All declarations -/

/-- The declaration in the place `i` breaks a rule, by itself or by the ids `seen` and those of the
declarations before it. -/
def BreaksAt (seen : List NodeId) (ns : List NodeConfig) (i : Nat) (f : ConfigFault) : Prop :=
  ∃ n, ns[i]? = some n ∧ Breaks (seen ++ (ns.take i).map (·.id)) n f

/-- In the first place nothing was declared before. -/
theorem breaksAt_zero : BreaksAt seen (n :: ns) 0 f ↔ Breaks seen n f := by
  simp [BreaksAt]

/-- In a later place the first id has been seen. -/
theorem breaksAt_succ {i : Nat} :
    BreaksAt seen (n :: ns) (i + 1) f ↔ BreaksAt (n.id :: seen) ns i f := by
  have order : ∀ m : NodeConfig, m.id ∈ seen ++ n.id :: (ns.take i).map (·.id) ↔
      m.id ∈ n.id :: seen ++ (ns.take i).map (·.id) := by
    intro m
    simp only [List.mem_append, List.mem_cons]
    exact or_left_comm.trans or_assoc.symm
  simp only [BreaksAt, List.getElem?_cons_succ, List.take_succ_cons, List.map_cons]
  exact exists_congr fun m => and_congr_right fun _ => Breaks.congr (order m)

/-- The fault is that of the first declaration that breaks a rule. -/
theorem faultAfter_eq_some_iff :
    faultAfter seen ns = some f ↔
      ∃ i, BreaksAt seen ns i f ∧ ∀ j, j < i → ∀ g, ¬ BreaksAt seen ns j g := by
  induction ns generalizing seen with
  | nil => simp [faultAfter, BreaksAt]
  | cons n ns ih =>
    rcases breaks_or_faultAfter_eq seen n ns with ⟨g, broken⟩ | ⟨fine, behind⟩
    · rw [broken.faultAfter_eq ns]
      constructor
      · intro same
        cases same
        exact ⟨0, breaksAt_zero.2 broken, fun j lt => absurd lt (Nat.not_lt_zero j)⟩
      · rintro ⟨i, here, first⟩
        cases i with
        | zero => exact congrArg some (broken.unique (breaksAt_zero.1 here))
        | succ i => exact absurd (breaksAt_zero.2 broken) (first 0 (Nat.succ_pos i) g)
    · rw [behind, ih]
      constructor
      · rintro ⟨i, here, first⟩
        refine ⟨i + 1, breaksAt_succ.2 here, fun j lt g => ?_⟩
        cases j with
        | zero => exact fun head => fine g (breaksAt_zero.1 head)
        | succ j => exact fun later => first j (Nat.lt_of_succ_lt_succ lt) g (breaksAt_succ.1 later)
      · rintro ⟨i, here, first⟩
        cases i with
        | zero => exact absurd (breaksAt_zero.1 here) (fine f)
        | succ i =>
          exact ⟨i, breaksAt_succ.1 here,
            fun j lt g later => first (j + 1) (Nat.succ_lt_succ lt) g (breaksAt_succ.2 later)⟩

/-- **The fault.** It is that of the first declaration that breaks a rule, in order of declaration. -/
theorem fault?_eq_some_iff {c : Config} :
    c.fault? = some f ↔
      ∃ i, BreaksAt [] c.nodes i f ∧ ∀ j, j < i → ∀ g, ¬ BreaksAt [] c.nodes j g :=
  faultAfter_eq_some_iff

end SessionGrid.Config
