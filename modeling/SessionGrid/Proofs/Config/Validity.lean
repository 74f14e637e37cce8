import Mathlib
import SessionGrid.Config.Toml

/-!
# Valid configurations

A configuration without a fault declares nodes with slots under ids that are not blank and all
different (`fault?_eq_none_iff`). Every configuration read from a text is valid.
-/

namespace SessionGrid.Config

/-- What every declared node has to meet, apart from the others. -/
structure Sound (n : NodeConfig) : Prop where
  named : n.id.isBlank = false
  roomy : n.maxSessions ≠ 0

/-- A declaration breaks none of the three rules, and none is broken behind it. -/
theorem faultAfter_cons_eq_none_iff {seen : List NodeId} {n : NodeConfig} {ns : List NodeConfig} :
    faultAfter seen (n :: ns) = none ↔
      Sound n ∧ n.id ∉ seen ∧ faultAfter (n.id :: seen) ns = none := by
  constructor
  · intro valid
    unfold faultAfter at valid
    split at valid
    · cases valid
    · next named =>
      split at valid
      · cases valid
      · next roomy =>
        split at valid
        · cases valid
        · next fresh => exact ⟨⟨Bool.eq_false_iff.2 named, roomy⟩, fresh, valid⟩
  · rintro ⟨sound, fresh, rest⟩
    simp only [faultAfter, sound.named, sound.roomy, fresh, rest, Bool.false_eq_true, if_false]

/-- Declarations behind those whose ids have been seen need ids that are new and differ. -/
theorem faultAfter_eq_none_iff {seen : List NodeId} {ns : List NodeConfig} :
    faultAfter seen ns = none ↔
      (∀ n ∈ ns, Sound n ∧ n.id ∉ seen) ∧ (ns.map (·.id)).Nodup := by
  induction ns generalizing seen with
  | nil => simp [faultAfter]
  | cons n ns ih =>
    rw [faultAfter_cons_eq_none_iff, ih, List.forall_mem_cons, List.map_cons, List.nodup_cons]
    simp only [List.mem_cons, not_or, List.mem_map, not_exists, not_and]
    constructor
    · rintro ⟨sound, fresh, rest, nodup⟩
      exact ⟨⟨⟨sound, fresh⟩, fun m hm => ⟨(rest m hm).1, (rest m hm).2.2⟩⟩,
        fun m hm => (rest m hm).2.1, nodup⟩
    · rintro ⟨⟨⟨sound, fresh⟩, rest⟩, ne, nodup⟩
      exact ⟨sound, fresh, fun m hm => ⟨(rest m hm).1, ne m hm, (rest m hm).2⟩, nodup⟩

/-- **No fault.** The rules for one node, and the one about all of them. -/
theorem fault?_eq_none_iff {c : Config} :
    c.fault? = none ↔ (∀ n ∈ c.nodes, Sound n) ∧ (c.nodes.map (·.id)).Nodup := by
  unfold fault?
  rw [faultAfter_eq_none_iff]
  simp

/-- Reading includes the check, so a configuration that was read needs no other. -/
theorem fault?_of_ofTomlText {text : String} {c : Config} (accepted : ofTomlText text = .ok c) :
    c.fault? = none := by
  unfold ofTomlText at accepted
  split at accepted
  · cases accepted
  · split at accepted
    · next valid =>
      cases accepted
      exact valid
    · cases accepted

/-- A text that declares two nodes; only the first of them offers something. -/
def twoNodesText : String :=
  "[[node]]\nid = \"a\"\nmax_sessions = 2\ncapabilities = [\x7b b = true \x7d]\n" ++
  "[[node]]\nid = \"c\"\n"

def twoNodes : Config :=
  { nodes := [
      { id := ⟨"a"⟩
        maxSessions := 2
        capabilities := [Capabilities.empty.insert "b" (.bool true)] },
      { id := ⟨"c"⟩ }] }

theorem ofTomlText_twoNodes : ofTomlText twoNodesText = .ok twoNodes := by
  cbv

end SessionGrid.Config
