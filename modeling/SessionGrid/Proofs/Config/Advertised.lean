import SessionGrid.Proofs.Capabilities.Pairs
import SessionGrid.Proofs.Config.Validity
import SessionGrid.Proofs.Hub.Verification
import SessionGrid.Proofs.Lists
import SessionGrid.Proofs.Literals.Offer
import SessionGrid.Proofs.Literals.Short
import SessionGrid.Proofs.Simulation.Grid
import SessionGrid.Proofs.Toml.Document

/-!
# Declared offers and typed requests

A node that is declared with `capabilities = [\x7b k = t \x7d]` offers the value that TOML reads in `t`
(`exists_declared_offer`), and a client that types `k=t` asks for the value that JSON reads there
(`parsePairs_typed`). The offer meets the request exactly if both formats read every number literal of `t`
alike, and then every strict hub that has the node as a member verifies the request (`typed_as_declared`).
-/

namespace SessionGrid

open Text

/-! ## The request -/

section Request

variable {k t : String} {v w : Json}

theorem IsBareKey.not_blank (bare : IsBareKey k) : ∀ c ∈ k.toList, isBlank c = false :=
  fun c mem => Toml.isBare_not_blank (List.all_eq_true.1 bare.2 c mem)

theorem IsBareKey.isName (bare : IsBareKey k) : Capabilities.IsName k where
  ne_empty := fun empty => bare.1 (String.toList_eq_nil_iff.2 empty)
  no_equals := by
    intro mem
    have own := List.all_eq_true.1 bare.2 _ mem
    revert own
    decide
  trimmed := ⟨fun c mem => bare.not_blank c (List.mem_of_mem_head? mem),
    fun c mem => bare.not_blank c (List.mem_of_getLast? mem)⟩

namespace Capabilities

/-- What is typed behind a bare key is read without the blanks around. -/
theorem parsePairs_typed (bare : IsBareKey k) (json : Json.read (Json.typedText t) = some v) :
    parsePairs [k ++ "=" ++ t] = some (ofList [(k, v)]) := by
  have named := bare.isName
  have split : splitPair (k ++ "=" ++ t).toList = some (k.toList, t.toList) :=
    splitPair_eq_some.2 ⟨by simp, named.no_equals⟩
  have stripped : strip ([] ++ (k.toList ++ [])) = k.toList :=
    named.trimmed.strip_append (List.forall_mem_nil _) (List.forall_mem_nil _)
  rw [List.nil_append, List.append_nil] at stripped
  have pair : parsePair (k ++ "=" ++ t) = some (k, v) := by
    rw [parsePair_of_split split, if_neg, stripped, String.ofList_toList, typedValue]
    · rw [← Json.typedText, json, Option.getD_some]
    · rw [← strip_eq_nil_iff, stripped]
      exact bare.1
  simp [parsePairs, pair]

theorem satisfiedBy_single :
    (ofList [(k, v)]).satisfiedBy ⟨[(k, w)]⟩ = true ↔ isWildcard v = true ∨ valuesMatch v w = true := by
  have entries : (ofList [(k, v)]).entries = [(k, v)] := rfl
  simp [satisfiedBy, entries, get?, Bindings.find?]

/-- But for wildcards and texts only the same value matches. -/
theorem match_iff_same (other : ¬ (v = .null ∨ ∃ s, v = .string s)) :
    isWildcard v = true ∨ valuesMatch v w = true ↔ v.same w = true := by
  cases v with
  | null => exact absurd (.inl rfl) other
  | string s => exact absurd (.inr ⟨s, rfl⟩) other
  | _ => simp [isWildcard, valuesMatch]

theorem match_of_same (same : v.same w = true) : isWildcard v = true ∨ valuesMatch v w = true :=
  .inr (valuesMatch_of_same same)

end Capabilities

end Request

namespace Config

variable {text k t : String} {c : Config} {v : Json}

/-! ## The offer -/

/-- Behind lines that open the declaration of a node, the text has the line that offers `t` under `k`. -/
def Declares (text k t : String) : Prop :=
  ∃ n ss post, Toml.readLines n (Toml.joinBreaks (Toml.dropMark text.toList)) =
      some (ss, Toml.joinBreaks ((offerLine k t).toList ++ post)) ∧ Toml.Opens "node" ss

theorem ofTomlText_eq_ok (accepted : ofTomlText text = .ok c) :
    ∃ fields, Toml.read text = some fields ∧ ofToml? fields = some c := by
  unfold ofTomlText at accepted
  split at accepted
  · cases accepted
  · next described =>
    split at accepted
    · cases accepted
      exact Option.bind_eq_some_iff.1 described
    · cases accepted

/-- Every table under `node` is a declared node. -/
theorem exists_node {fields fs : Bindings Toml} {items : List Toml} (described : ofToml? fields = some c)
    (nodes : Bindings.find? "node" fields = some (.array items)) (mem : .table fs ∈ items) :
    ∃ d ∈ c.nodes, nodeOf? (.table fs) = some d := by
  rw [ofToml?] at described
  obtain ⟨⟨strict, policy⟩, -, described⟩ := Option.bind_eq_some_iff.1 described
  obtain ⟨ds, listed, same⟩ := Option.bind_eq_some_iff.1 described
  cases same
  rw [fieldOr, nodes] at listed
  exact exists_of_mem_mapM listed mem

theorem capabilities_of_nodeOf? {fs : Bindings Toml} {d : NodeConfig} {w : Toml}
    (described : nodeOf? (.table fs) = some d)
    (offer : Bindings.find? "capabilities" fs = some (.array [.table [(k, w)]])) :
    d.capabilities = [⟨[(k, w.toJson)]⟩] := by
  simp only [nodeOf?, recordOf?, Option.bind_eq_bind, Option.bind_some] at described
  obtain ⟨id, -, described⟩ := Option.bind_eq_some_iff.1 described
  split at described
  · obtain ⟨limit, -, described⟩ := Option.bind_eq_some_iff.1 described
    obtain ⟨offers, listed, same⟩ := Option.bind_eq_some_iff.1 described
    cases same
    rw [fieldOr, offer] at listed
    cases listed
    rfl
  · cases described

/-- The declared node has one offer, for the value that TOML reads. -/
theorem exists_declared_offer (bare : IsBareKey k) (accepted : ofTomlText text = .ok c)
    (declares : Declares text k t) (json : Json.read (Json.typedText t) = some v) :
    ∃ d ∈ c.nodes, ∃ w : Toml, d.capabilities = [⟨[(k, w.toJson)]⟩] ∧
      (v.same w.toJson = true ↔ ∀ l ∈ Json.literalsOf (Json.typedText t), l.ReadAlike) := by
  obtain ⟨fields, read, described⟩ := ofTomlText_eq_ok accepted
  obtain ⟨n, ss, post, reached, opens⟩ := declares
  obtain ⟨all, statements, assembled⟩ := Option.bind_eq_some_iff.1 read
  obtain ⟨bound, ts, line, rfl⟩ := Toml.readStatements_of_readLines reached statements
  obtain ⟨cs, starts⟩ : ∃ cs, Toml.joinBreaks ((offerLine k t).toList ++ post) = 'c' :: cs :=
    ⟨_, joinBreaks_offerLine bare post⟩
  rw [starts] at line
  obtain ⟨s, behind, ts, statement, rfl⟩ :=
    Toml.readStatements_cons (by decide) (by decide) (by decide) line
  rw [← starts] at statement
  obtain ⟨w, rfl, alike⟩ := readStatement_offerLine bare json statement
  obtain ⟨items, fs, nodes, mem, offer⟩ := Toml.exists_item_of_entry opens assembled
  obtain ⟨d, mem, node⟩ := exists_node described nodes mem
  exact ⟨d, mem, w, capabilities_of_nodeOf? node offer, alike⟩

/-- The offer meets the request exactly if all number literals are read alike. -/
theorem advertises_iff_readAlike {d : NodeConfig} {w : Toml}
    (json : Json.read (Json.typedText t) = some v) (offer : d.capabilities = [⟨[(k, w.toJson)]⟩])
    (alike : v.same w.toJson = true ↔ ∀ l ∈ Json.literalsOf (Json.typedText t), l.ReadAlike) :
    d.node.advertises (.ofList [(k, v)]) = true ↔
      ∀ l ∈ Json.literalsOf (Json.typedText t), l.ReadAlike := by
  have single : d.node.advertises (.ofList [(k, v)]) =
      (Capabilities.ofList [(k, v)]).satisfiedBy ⟨[(k, w.toJson)]⟩ := by
    show d.capabilities.any _ = _
    rw [offer, List.any_cons, List.any_nil, Bool.or_false]
  rw [single, Capabilities.satisfiedBy_single]
  by_cases plain : v = .null ∨ ∃ s, v = .string s
  · rw [Json.literalsOf_eq_nil json plain] at alike ⊢
    exact iff_of_true (Capabilities.match_of_same (alike.2 (List.forall_mem_nil _))) (List.forall_mem_nil _)
  · rw [Capabilities.match_iff_same plain, alike]

/-! ## The hub -/

theorem verify_of_member {hub : Hub Policy SlotNode} (inv : hub.Coherent) {h : Handle} {n : SlotNode}
    {requested : Capabilities} (member : hub.IsMember h n) (advertises : n.advertises requested = true)
    (mode : Bool) : ((hub.setStrict mode).verify requested).1 = .ok () :=
  Hub.verify_eq_ok_iff.2 fun _ => inv.hasCapability_iff.2 ⟨h, n, member, advertises⟩

/-- In the grid of a configuration every declared node is a member. -/
theorem exists_member_grid (accepted : ofTomlText text = .ok c) {d : NodeConfig} (mem : d ∈ c.nodes) :
    ∃ h, (Simulation.grid c).state.IsMember h d.node := by
  obtain ⟨enrolled, -, -⟩ := Simulation.grid_enrolled (fault?_of_ofTomlText accepted)
  have object : d.node ∈ (Simulation.grid c).state.nodes := by
    rw [enrolled.fresh]
    exact List.mem_map_of_mem mem
  obtain ⟨h, node⟩ := List.mem_iff_getElem?.1 object
  exact ⟨h, enrolled.stocked.isMember node⟩

/-- **Typed as declared.** Where an accepted configuration declares a node with the value `t` under the bare
key `k`, and JSON reads `t` as well, the typed pair `k=t` is a request that the node advertises exactly if
every number literal of `t` is read alike in both formats. Integers other than `-0` are, and so are all
literals with a point or an exponent that are rounded once. A request that the node advertises is verified in
both modes, by the grid of the configuration and by every hub that has a member with the offers of the node,
whatever was called before. -/
theorem typed_as_declared (bare : IsBareKey k) (accepted : ofTomlText text = .ok c)
    (declares : Declares text k t) (json : Json.read (Json.typedText t) = some v) :
    ∃ requested, Capabilities.parsePairs [k ++ "=" ++ t] = some requested ∧
      requested.entries = [(k, v)] ∧
      ∃ d ∈ c.nodes, (∃ offered, d.capabilities = [⟨[(k, offered)]⟩]) ∧
        (d.node.advertises requested = true ↔
          ∀ l ∈ Json.literalsOf (Json.typedText t), l.ReadAlike) ∧
        ((∀ l ∈ Json.literalsOf (Json.typedText t), l.Plain) → d.node.advertises requested = true) ∧
        (d.node.advertises requested = true →
          (∀ mode, (((Simulation.grid c).state.setStrict mode).verify requested).1 = .ok ()) ∧
          ∀ (strict : Bool) (policy : Policy) (calls : List (Hub.Listing × Hub.Call SlotNode)),
            let hub : Hub Policy SlotNode := (Hub.empty strict policy).afterIn calls
            ∀ h n, hub.IsMember h n → n.offers = d.capabilities →
              ∀ mode, ((hub.setStrict mode).verify requested).1 = .ok ()) := by
  obtain ⟨d, mem, w, offer, same⟩ := exists_declared_offer bare accepted declares json
  have alike := advertises_iff_readAlike json offer same
  refine ⟨_, Capabilities.parsePairs_typed bare json, rfl, d, mem, ⟨w.toJson, offer⟩, alike,
    fun plain => alike.2 fun l own => (plain l own).readAlike,
    fun advertises => ⟨fun mode => ?_, fun strict policy calls => ?_⟩⟩
  · obtain ⟨enrolled, -, -⟩ := Simulation.grid_enrolled (fault?_of_ofTomlText accepted)
    obtain ⟨h, member⟩ := exists_member_grid accepted mem
    exact verify_of_member enrolled.stocked.coherent member advertises mode
  · intro hub h n member offers mode
    have inv : hub.Coherent := Hub.coherent_afterIn strict policy calls
    have own : n.advertises (.ofList [(k, v)]) = d.node.advertises (.ofList [(k, v)]) :=
      congrArg (List.any · _) offers
    exact verify_of_member inv member (own.trans advertises) mode

/-- A declaration that is opened by lines which are read alike whatever follows them. -/
theorem declares_of_lines {front post : String} {n : Nat} {ss : List Toml.Statement}
    (opens : Toml.Opens "node" ss) (absent : '\r' ∉ front.toList)
    (unmarked : ∀ cs, Toml.dropMark (front.toList ++ cs) = front.toList ++ cs)
    (lines : ∀ cs, Toml.readLines n (front.toList ++ cs) = some (ss, cs)) :
    Declares (front ++ offerLine k t ++ post) k t := by
  refine ⟨n, ss, post.toList, ?_, opens⟩
  have whole : (front ++ offerLine k t ++ post).toList =
      front.toList ++ ((offerLine k t).toList ++ post.toList) := by simp
  rw [whole, unmarked, Toml.joinBreaks_append absent, lines]

/-- A text that declares one node, with the value `t` under `k`. -/
def oneOffer (t : String) : String :=
  "[[node]]\nid = \"n\"\n" ++ offerLine "k" t ++ "\n"

/-- An array of an integer, a text, a truth value and a number with a fraction. -/
theorem typed_as_declared_array :
    ∃ c requested, ofTomlText (oneOffer "[1, \"x\", true, 0.5]") = .ok c ∧
      Capabilities.parsePairs ["k" ++ "=" ++ "[1, \"x\", true, 0.5]"] = some requested ∧
      (∃ d ∈ c.nodes, d.node.advertises requested = true) ∧
      (((Simulation.grid c).state.setStrict true).verify requested).1 = .ok () := by
  have bare : IsBareKey "k" := ⟨by decide, by decide⟩
  have opens : Toml.Opens "node" [.arrayHeader ⟨[], "node"⟩, .entry ⟨[], "id"⟩ (.string "n")] :=
    ⟨[], _, rfl, List.forall_mem_singleton.2 ⟨_, _, rfl⟩⟩
  have declares : Declares (oneOffer "[1, \"x\", true, 0.5]") "k" "[1, \"x\", true, 0.5]" :=
    declares_of_lines (n := 2) opens (by decide) (fun _ => rfl) fun _ => rfl
  have described : (ofTomlText (oneOffer "[1, \"x\", true, 0.5]")).toOption.isSome = true := by
    decide +kernel
  have readable : (Json.read (Json.typedText "[1, \"x\", true, 0.5]")).isSome = true := by
    decide +kernel
  have alike : ∀ l ∈ Json.literalsOf (Json.typedText "[1, \"x\", true, 0.5]"), l.ReadAlike := by
    decide +kernel
  obtain ⟨v, json⟩ := Option.isSome_iff_exists.1 readable
  cases accepted : ofTomlText (oneOffer "[1, \"x\", true, 0.5]") with
  | error e =>
    rw [accepted] at described
    cases described
  | ok c =>
    obtain ⟨requested, typed, -, d, mem, -, advertises, -, verified⟩ :=
      typed_as_declared bare accepted declares json
    have advertised := advertises.2 alike
    exact ⟨c, requested, rfl, typed, ⟨d, mem, advertised⟩, (verified advertised).1 true⟩

/-- Both formats read `t`, but the declared node does not advertise the pair `k=t`, and the grid rejects it. -/
def Unmet (t : String) : Prop :=
  ∃ c requested, ofTomlText (oneOffer t) = .ok c ∧ (Json.read (Json.typedText t)).isSome = true ∧
    Capabilities.parsePairs ["k" ++ "=" ++ t] = some requested ∧
    (∀ d ∈ c.nodes, d.node.advertises requested = false) ∧
    (((Simulation.grid c).state.setStrict true).verify requested).1 ≠ .ok ()

theorem unmet_of_run (readable : (Json.read (Json.typedText t)).isSome = true)
    (run : ((ofTomlText (oneOffer t)).toOption.any fun c =>
      (Capabilities.parsePairs ["k" ++ "=" ++ t]).any fun requested =>
        c.nodes.all (fun d => !d.node.advertises requested) &&
          !((Simulation.grid c).state.setStrict true).hasCapability requested) = true) : Unmet t := by
  cases accepted : ofTomlText (oneOffer t) with
  | error e =>
    rw [accepted] at run
    cases run
  | ok c =>
    cases typed : Capabilities.parsePairs ["k" ++ "=" ++ t] with
    | none =>
      rw [accepted, typed] at run
      cases run
    | some requested =>
      rw [accepted, typed] at run
      obtain ⟨silent, lacking⟩ := Bool.and_eq_true_iff.1 run
      refine ⟨c, requested, accepted, readable, typed, fun d mem => ?_, fun verified => ?_⟩
      · simpa using List.all_eq_true.1 silent d mem
      · rw [Hub.verify_eq_ok_iff.1 verified rfl] at lacking
        cases lacking

/-- `-0` is an integer for TOML alone, and of `1e-23` JSON finds a neighbour of the nearest number. -/
theorem typed_but_not_declared : Unmet "-0" ∧ Unmet "1e-23" :=
  ⟨unmet_of_run (by decide +kernel) (by decide +kernel),
    unmet_of_run (by decide +kernel) (by decide +kernel)⟩

end Config

end SessionGrid
