import SessionGrid.Proofs.Counting
import SessionGrid.Proofs.Hub.Policy
import SessionGrid.Proofs.Text.ByteOrder

/-!
# Rotations of the round-robin policy

The round-robin policy puts the candidates in order of the bytes of their ids and starts at the place its
counter says, counted modulo the candidates; the load of a node and the order in which the candidates are
given do not matter. Calls in a row for the same nodes start one place further every time, so that in
every full round each node takes each place once (`roundRobin_takes_turns`).
-/

namespace SessionGrid

/-- The node object behind a candidate, whatever its load. -/
def Candidate.node (c : Candidate) : Handle × NodeId :=
  (c.handle, c.id)

namespace Policy

/-- What calls in a row answer, and the policy after them. -/
def arrangeAll (p : Policy) : List (List Candidate) → List (List Candidate) × Policy
  | [] => ([], p)
  | cs :: rounds =>
    let (ds, p) := p.arrange cs
    let (later, p) := arrangeAll p rounds
    (ds :: later, p)

section Calls

variable {cs ds : List Candidate} {next : UInt64}

/-! ## One call -/

theorem byId_ascending (distinct : (cs.map (·.id)).Nodup) :
    (byId cs).Pairwise fun a b => Text.bytes a.id.text < Text.bytes b.id.text := by
  have apart : (byId cs).Pairwise fun a b => a.id ≠ b.id := by
    apply List.pairwise_map.1
    exact (((List.mergeSort_perm cs _).map _).nodup_iff).2 distinct
  apply (apart.and (byId_ordered cs)).imp
  rintro a b ⟨ne, le⟩
  rw [← Text.lt_iff_bytes_lt]
  apply String.not_le.1
  intro ge
  apply ne
  exact congrArg NodeId.mk (String.le_antisymm (NodeId.compare_isLE_iff.1 le) ge)

theorem arrange_rotate (some : cs ≠ []) (next : UInt64) :
    (roundRobin next).arrange cs =
      ((byId cs).rotate (next.toNat % cs.length), roundRobin (next + 1)) := by
  have le : next.toNat % cs.length ≤ (byId cs).length := by
    rw [length_byId]
    exact Nat.le_of_lt (Nat.mod_lt _ (List.length_pos_iff.2 some))
  rw [arrange_roundRobin some, List.rotate_eq_drop_append_take le, rotate]

/-- The load of a node does not matter. -/
theorem nodes_byId_of_perm (distinct : (cs.map (·.id)).Nodup)
    (perm : (cs.map Candidate.node).Perm (ds.map Candidate.node)) :
    (byId cs).map Candidate.node = (byId ds).map Candidate.node := by
  have sorted : ∀ cs, ((byId cs).map Candidate.node).Perm (cs.map Candidate.node) :=
    fun cs => (List.mergeSort_perm cs _).map _
  have ordered : ∀ cs, ((byId cs).map Candidate.node).Pairwise fun a b => (a.2.compare b.2).isLE = true :=
    fun cs => List.pairwise_map.2 (byId_ordered cs)
  have apart : ((cs.map Candidate.node).map Prod.snd).Nodup := by
    rw [List.map_map]
    exact distinct
  refine ((sorted cs).trans (perm.trans (sorted ds).symm)).eq_of_pairwise ?_ (ordered cs) (ordered ds)
  intro a b ha hb ab ba
  have ids : a.2 = b.2 := congrArg NodeId.mk
    (String.le_antisymm (NodeId.compare_isLE_iff.1 ab) (NodeId.compare_isLE_iff.1 ba))
  have ha : a ∈ cs.map Candidate.node := (sorted cs).mem_iff.1 ha
  have hb : b ∈ cs.map Candidate.node := perm.mem_iff.2 ((sorted ds).mem_iff.1 hb)
  exact List.inj_on_of_nodup_map apart ha hb ids

/-! ## Calls in a row -/

/-- Every call but one without candidates moves the counter on. -/
theorem arrangeAll_policy (next : UInt64) (rounds : List (List Candidate)) :
    ∃ next', (arrangeAll (roundRobin next) rounds).2 = roundRobin next' ∧
      next'.toNat = (next.toNat + rounds.countP fun cs => !cs.isEmpty) % 2 ^ 64 := by
  induction rounds generalizing next with
  | nil => exact ⟨next, rfl, (Nat.mod_eq_of_lt next.toNat_lt).symm⟩
  | cons cs rounds ih =>
    cases cs with
    | nil =>
      obtain ⟨next', policy, counter⟩ := ih next
      exact ⟨next', policy, counter⟩
    | cons c cs =>
      obtain ⟨next', policy, counter⟩ := ih (next + 1)
      refine ⟨next', policy, ?_⟩
      rw [counter, UInt64.toNat_add, UInt64.toNat_one, List.countP_cons_of_pos rfl]
      omega

theorem nodes_arrangeAll (some : cs ≠ []) (distinct : (cs.map (·.id)).Nodup)
    {rounds : List (List Candidate)}
    (same : ∀ ds ∈ rounds, (cs.map Candidate.node).Perm (ds.map Candidate.node))
    (room : next.toNat + rounds.length ≤ 2 ^ 64) :
    (arrangeAll (roundRobin next) rounds).1.map (List.map Candidate.node) =
      (List.range' next.toNat rounds.length).map ((byId cs).map Candidate.node).rotate := by
  induction rounds generalizing next with
  | nil => rfl
  | cons ds rounds ih =>
    obtain ⟨own, others⟩ := List.forall_mem_cons.1 same
    have length : cs.length = ds.length := by
      have := own.length_eq
      rwa [List.length_map, List.length_map] at this
    have some' : ds ≠ [] := by
      rw [← List.length_pos_iff, ← length]
      exact List.length_pos_iff.2 some
    have first : ((byId ds).rotate (next.toNat % ds.length)).map Candidate.node =
        ((byId cs).map Candidate.node).rotate next.toNat := by
      rw [List.map_rotate, ← nodes_byId_of_perm distinct own, ← length]
      conv_rhs => rw [← List.rotate_mod, List.length_map, length_byId]
    have later : (arrangeAll (roundRobin (next + 1)) rounds).1.map (List.map Candidate.node) =
        (List.range' (next.toNat + 1) rounds.length).map
          ((byId cs).map Candidate.node).rotate := by
      cases rounds with
      | nil => rfl
      | cons es rounds =>
        rw [List.length_cons, List.length_cons] at room
        have succ : (next + 1).toNat = next.toNat + 1 := toNat_succ (by omega)
        rw [← succ]
        apply ih others
        rw [succ, List.length_cons]
        omega
    rw [List.length_cons, List.range'_succ, List.map_cons, ← first, ← later, arrangeAll,
      arrange_rotate some']
    rfl

/-- In `k` rounds of calls each node takes each place `k` times. -/
theorem countP_arrangeAll (distinct : (cs.map (·.id)).Nodup) {rounds : List (List Candidate)}
    (same : ∀ ds ∈ rounds, (cs.map Candidate.node).Perm (ds.map Candidate.node)) {k : Nat}
    (full : rounds.length = k * cs.length) (room : next.toNat + rounds.length ≤ 2 ^ 64)
    {c : Candidate} (mem : c ∈ cs) {i : Nat} (lt : i < cs.length) :
    ((arrangeAll (roundRobin next) rounds).1.countP fun row =>
      row[i]?.map Candidate.node = some c.node) = k := by
  have some : cs ≠ [] := List.ne_nil_of_mem mem
  let row := (byId cs).map Candidate.node
  have length : row.length = cs.length := by rw [List.length_map, length_byId]
  have nodup : row.Nodup := by
    apply List.Nodup.of_map Prod.snd
    rw [List.map_map]
    exact (((List.mergeSort_perm cs _).map _).nodup_iff).2 distinct
  obtain ⟨j, ltJ, place⟩ : ∃ j, ∃ lt : j < row.length, row[j] = c.node := by
    apply List.getElem_of_mem
    exact List.mem_map_of_mem ((List.mergeSort_perm cs _).mem_iff.2 mem)
  have hit : ∀ t, decide ((row.rotate t)[i]? = .some c.node) = decide ((i + t) % cs.length = j) := by
    intro t
    have ltT : (i + t) % row.length < row.length := Nat.mod_lt _ (by omega)
    rw [List.getElem?_rotate (by omega), List.getElem?_eq_getElem ltT, ← place, decide_eq_decide,
      Option.some_inj, nodup.getElem_inj_iff, length]
  have rows := nodes_arrangeAll some distinct same room
  calc (arrangeAll (roundRobin next) rounds).1.countP
        (fun row => row[i]?.map Candidate.node = .some c.node)
      = ((arrangeAll (roundRobin next) rounds).1.map (List.map Candidate.node)).countP
          fun row => row[i]? = .some c.node := by
        rw [List.countP_map]
        apply List.countP_congr
        intro row _
        simp
    _ = (List.range' next.toNat rounds.length).countP fun t => (i + t) % cs.length = j := by
        rw [rows, List.countP_map]
        apply List.countP_congr
        intro t _
        rw [Function.comp_apply, hit]
    _ = (List.range' (i + next.toNat) (k * cs.length)).countP fun t => t % cs.length = j := by
        rw [← full, ← List.map_add_range', List.countP_map]
        rfl
    _ = k := countP_mod_rounds (length ▸ ltJ) _ k

end Calls

/-- **Taking turns.** Without candidates round robin changes nothing. Otherwise it answers with the
candidates in order of the bytes of their ids, rotated by its counter, and counts on in 64 bits; the order
in which the candidates were given does not matter. Whatever calls came before, in `k` full rounds of calls
for one set of nodes each node takes each place `k` times, unless the counter wraps in between. -/
theorem roundRobin_takes_turns (next : UInt64) (cs : List Candidate)
    (distinct : (cs.map (·.id)).Nodup) :
    (roundRobin next).arrange [] = ([], roundRobin next) ∧
      (cs ≠ [] → ∃ (row : List Candidate) (next' : UInt64), row.Perm cs ∧
        row.Pairwise (fun a b => Text.bytes a.id.text < Text.bytes b.id.text) ∧
        next'.toNat = (next.toNat + 1) % 2 ^ 64 ∧
        (roundRobin next).arrange cs =
          (row.rotate (next.toNat % cs.length), roundRobin next')) ∧
      (∀ ds, ds.Perm cs → (roundRobin next).arrange ds = (roundRobin next).arrange cs) ∧
      ∀ past : List (List Candidate), ∃ now, (arrangeAll (roundRobin next) past).2 = roundRobin now ∧
        now.toNat = (next.toNat + past.countP fun ds => !ds.isEmpty) % 2 ^ 64 ∧
        ∀ rounds k, (∀ ds ∈ rounds, (cs.map Candidate.node).Perm (ds.map Candidate.node)) →
          rounds.length = k * cs.length → now.toNat + rounds.length ≤ 2 ^ 64 →
          ∀ c ∈ cs, ∀ i < cs.length,
            ((arrangeAll (roundRobin now) rounds).1.countP fun row =>
              row[i]?.map Candidate.node = some c.node) = k := by
  refine ⟨rfl, fun some => ?_, fun ds perm => ?_, fun past => ?_⟩
  · refine ⟨byId cs, next + 1, List.mergeSort_perm cs _, byId_ascending distinct, ?_,
      arrange_rotate some next⟩
    rw [UInt64.toNat_add, UInt64.toNat_one]
  · exact (arrange_of_perm distinct perm.symm next).symm
  · obtain ⟨now, policy, counter⟩ := arrangeAll_policy next past
    refine ⟨now, policy, counter, ?_⟩
    intro rounds k same full room c mem i lt
    exact countP_arrangeAll distinct same full room mem lt

/-- Two nodes, given in either order and with other loads, in four calls after one for other nodes. -/
theorem roundRobin_takes_turns_two_nodes :
    let a : Candidate := ⟨0, ⟨"a"⟩, ⟨⟨0⟩, none⟩⟩
    let b : Candidate := ⟨1, ⟨"b"⟩, ⟨⟨0⟩, none⟩⟩
    let busy : Candidate := { b with key := ⟨⟨1⟩, some 3⟩ }
    let rounds := [[b, a], [a, busy], [busy, a], [a, b]]
    ([a, b].map (·.id)).Nodup ∧ (arrangeAll (roundRobin 6) [[⟨2, ⟨"c"⟩, ⟨⟨0⟩, none⟩⟩]]).2 = roundRobin 7 ∧
      ((arrangeAll (roundRobin 7) rounds).1.countP fun row =>
        row[0]?.map Candidate.node = some b.node) = 2 := by
  intro a b busy rounds
  have distinct : ([a, b].map (·.id)).Nodup := by decide
  obtain ⟨-, -, -, calls⟩ := roundRobin_takes_turns 6 [a, b] distinct
  obtain ⟨now, policy, -, turns⟩ := calls [[⟨2, ⟨"c"⟩, ⟨⟨0⟩, none⟩⟩]]
  have seven : (arrangeAll (roundRobin 6) [[⟨2, ⟨"c"⟩, ⟨⟨0⟩, none⟩⟩]]).2 = roundRobin 7 := by decide
  rw [seven] at policy
  cases policy
  have same : ∀ ds ∈ rounds, ([a, b].map Candidate.node).Perm (ds.map Candidate.node) := by decide
  exact ⟨distinct, seven, turns rounds 2 same rfl (by decide) b (by decide) 0 (by decide)⟩

end Policy

end SessionGrid
