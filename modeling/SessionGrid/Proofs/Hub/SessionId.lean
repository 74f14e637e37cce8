import SessionGrid.Hub.Node
import SessionGrid.Proofs.Lists

/-!
# Ids of sessions

The id of a session is the id of its node, a number sign and the number of the session among those of
the node. Digits hold no number sign, so the last one of a session id parts the two, whatever the node
id is made of: a session id tells node and number (`sessionId_inj`).
-/

namespace SessionGrid.SlotNode

/-- Digits hold no number sign. -/
theorem numberSign_not_mem_toDigits (n : Nat) : '#' ∉ Nat.toDigits 10 n := by
  intro mem
  have digit := Nat.isDigit_of_mem_toDigits (by decide) (by decide) mem
  exact absurd digit (by decide)

/-- A number can be told from its digits. -/
theorem toDigits_inj {n n' : Nat} (same : Nat.toDigits 10 n = Nat.toDigits 10 n') : n = n' := by
  rw [← Nat.ofDigitChars_ten_toDigits (n := n), same, Nat.ofDigitChars_ten_toDigits]

/-- Node and number of a session can be told from its id. -/
theorem sessionId_inj {id id' : NodeId} {n n' : Nat} (same : sessionId id n = sessionId id' n') :
    id = id' ∧ n = n' := by
  have lists : id.text.toList ++ '#' :: Nat.toDigits 10 n =
      id'.text.toList ++ '#' :: Nat.toDigits 10 n' := by
    simpa [sessionId] using congrArg String.toList same
  obtain ⟨texts, numbers⟩ := append_cons_inj_of_not_mem (numberSign_not_mem_toDigits n)
    (numberSign_not_mem_toDigits n') lists
  have text : id.text = id'.text := String.toList_inj.1 texts
  cases id
  cases id'
  cases text
  exact ⟨rfl, toDigits_inj numbers⟩

/-- The session with the given number of the node with the given id. -/
def numbered (id : NodeId) (number : Nat) : Session :=
  ⟨sessionId id number, id⟩

/-- Sessions of one node have different ids, and so have sessions of different nodes. -/
theorem id_numbered_inj {id id' : NodeId} {n n' : Nat} :
    (numbered id n).id = (numbered id' n').id ↔ id = id' ∧ n = n' := by
  constructor
  · exact sessionId_inj
  · rintro ⟨rfl, rfl⟩
    rfl

end SessionGrid.SlotNode
