/-!
# Comparison that ignores ASCII case

Two texts are the same but for case when they agree after the letters `A` to `Z` are lowered. No
other character has a case here.
-/

namespace SessionGrid.Text

/-- `s` with the letters `A` to `Z` lowered. -/
def lower (s : String) : String :=
  String.ofList (s.toList.map Char.toLower)

/-- The two texts differ at most in the case of ASCII letters. -/
def sameCaseless (s t : String) : Bool :=
  lower s == lower t

theorem sameCaseless_iff {s t : String} : sameCaseless s t = true ↔ lower s = lower t := by
  simp [sameCaseless]

end SessionGrid.Text
