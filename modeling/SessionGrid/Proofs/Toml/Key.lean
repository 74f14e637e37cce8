import SessionGrid.Proofs.Decimal.Digits
import SessionGrid.Proofs.Toml.Quoted
import SessionGrid.Toml.Key

/-!
# Keys are read back

A key that is written, bare or quoted, is read back as long as no character of bare keys follows
(`readKey_writeKey`), and so is a path of keys joined by points, within the bound on its parts
(`readPath_writeKeys`).
-/

namespace SessionGrid.Toml

open Text

/-! ## How a key starts -/

/-- A written key starts with this character. -/
def StartsKey (c : Char) : Prop :=
  isBare c = true ∨ c = '"' ∨ c = '\''

section StartsKey

variable {c : Char}

/-- The first character of a key is bare or a quote, and nothing else. -/
theorem StartsKey.ne {d : Char} (starts : StartsKey c) (bare : isBare d = false) (double : d ≠ '"')
    (single : d ≠ '\'') : c ≠ d := by
  rintro rfl
  rcases starts with own | own | own
  · rw [bare] at own
    cases own
  · exact double own
  · exact single own

/-- The first character of a key is not skipped as blank. -/
theorem StartsKey.not_blank (starts : StartsKey c) : isBlank c = false := by
  have space : c ≠ ' ' := starts.ne (by decide) (by decide) (by decide)
  have tab : c ≠ '\t' := starts.ne (by decide) (by decide) (by decide)
  simp [isBlank, space, tab]

/-- Every key has a first character, the empty one its quote. -/
theorem writeKey_starts (key : String) : ∃ c cs, writeKey key = c :: cs ∧ StartsKey c := by
  rw [writeKey]
  split
  · next bare =>
    obtain ⟨ne, all⟩ := bare
    cases s : key.toList with
    | nil => exact absurd s ne
    | cons c cs =>
      rw [s] at all
      exact ⟨c, cs, rfl, .inl (List.all_eq_true.1 all c List.mem_cons_self)⟩
  · obtain ⟨cs, double | single⟩ := Quoted.writeLine_starts key.toList
    · exact ⟨_, cs, double, .inr (.inl rfl)⟩
    · exact ⟨_, cs, single, .inr (.inr rfl)⟩

theorem writeKeys_starts {keys : List String} (some : keys ≠ []) :
    ∃ c cs, writeKeys keys = c :: cs ∧ StartsKey c := by
  match keys with
  | [k] => exact writeKey_starts k
  | k :: l :: ks =>
    obtain ⟨c, cs, text, starts⟩ := writeKey_starts k
    exact ⟨c, cs ++ '.' :: writeKeys (l :: ks), by rw [writeKeys, text]; rfl, starts⟩

end StartsKey

/-! ## Blanks -/

/-- Blanks are skipped up to the first other character. -/
theorem skipBlanks_cons {c : Char} (solid : isBlank c = false) (cs : List Char) :
    skipBlanks (c :: cs) = c :: cs := by
  simp [skipBlanks, solid]

theorem skipBlanks_blank (cs : List Char) : skipBlanks (' ' :: cs) = skipBlanks cs := by
  simp [skipBlanks, isBlank]

/-- Nothing of a key is skipped. -/
theorem skipBlanks_writeKey (key : String) (rest : List Char) :
    skipBlanks (writeKey key ++ rest) = writeKey key ++ rest := by
  obtain ⟨c, cs, text, starts⟩ := writeKey_starts key
  rw [text, List.cons_append]
  exact skipBlanks_cons starts.not_blank _

/-! ## Reading what was written -/

section Written

variable {rest : List Char}

/-- A key that does not start bare is read as a quoted line. -/
theorem readKey_of_quote {c : Char} (quote : isBare c = false) (cs : List Char) :
    readKey (c :: cs) = (Quoted.readLine (c :: cs)).map fun (s, cs) => (String.ofList s, cs) := by
  have none : (c :: cs).span isBare = ([], c :: cs) := by
    simp [List.span_eq_takeWhile_dropWhile, quote]
  rw [readKey, none]

/-- **Keys.** A key is read back, bare or quoted, as long as no bare character follows. -/
theorem readKey_writeKey (key : String) (ends : ∀ c ∈ rest.head?, isBare c = false) :
    readKey (writeKey key ++ rest) = some (key, rest) := by
  rw [writeKey]
  split
  · next bare =>
    obtain ⟨ne, all⟩ := bare
    rw [readKey, span_append (List.all_eq_true.1 all) ends]
    cases s : key.toList with
    | nil => exact absurd s ne
    | cons c cs => simp [← s]
  · have line := Quoted.readLine_writeLine key.toList rest
    have read : readKey (Quoted.writeLine key.toList ++ rest) =
        (Quoted.readLine (Quoted.writeLine key.toList ++ rest)).map
          fun (s, cs) => (String.ofList s, cs) := by
      obtain ⟨cs, double | single⟩ := Quoted.writeLine_starts key.toList
      · rw [double]
        exact readKey_of_quote (by decide) _
      · rw [single]
        exact readKey_of_quote (by decide) _
    rw [read, line]
    simp

/-- A path is read up to the first solid character behind it. -/
theorem readParts_writeKeys {bound : Nat} {parents : List String} (name : String)
    (lt : parents.length < bound) (ends : ∀ c ∈ rest.head?, isBare c = false)
    (stops : (skipBlanks rest).head? ≠ some '.') :
    readParts bound (writeKeys (parents ++ [name]) ++ rest) =
      some (⟨parents, name⟩, skipBlanks rest) := by
  induction parents generalizing bound with
  | nil =>
    obtain ⟨bound, rfl⟩ : ∃ b, bound = b + 1 := ⟨bound - 1, by omega⟩
    have key := readKey_writeKey name ends
    simp only [List.nil_append, writeKeys, readParts, skipBlanks_writeKey, key, Option.bind_eq_bind,
      Option.bind_some]
    split
    · next point => exact absurd (congrArg List.head? point) stops
    · rfl
  | cons k parents ih =>
    obtain ⟨bound, rfl⟩ : ∃ b, bound = b + 1 := ⟨bound - 1, by omega⟩
    have others := ih (Nat.lt_of_succ_lt_succ lt)
    obtain ⟨l, ls, keys⟩ : ∃ l ls, parents ++ [name] = l :: ls := by
      cases parents <;> simp
    have text : writeKeys (k :: parents ++ [name]) ++ rest =
        writeKey k ++ '.' :: (writeKeys (parents ++ [name]) ++ rest) := by
      rw [List.cons_append, keys, writeKeys]
      simp
    have bare : ∀ c ∈ ('.' :: (writeKeys (parents ++ [name]) ++ rest)).head?, isBare c = false := by
      rintro c ⟨⟩
      decide
    have key := readKey_writeKey k bare
    rw [text]
    have point : skipBlanks ('.' :: (writeKeys (parents ++ [name]) ++ rest)) =
        '.' :: (writeKeys (parents ++ [name]) ++ rest) := skipBlanks_cons (by decide) _
    simp only [readParts, skipBlanks_writeKey, key, Option.bind_eq_bind, Option.bind_some, point,
      others, Option.map_some, Path.under]

/-- **Paths.** A path is read back with the blanks behind it, if no point goes on with it. -/
theorem readPath_writeKeys {p : Path} (few : p.keys.length ≤ maxParts)
    (ends : ∀ c ∈ rest.head?, isBare c = false) (stops : (skipBlanks rest).head? ≠ some '.') :
    readPath (writeKeys p.keys ++ rest) = some (p, skipBlanks rest) := by
  have lt : p.parents.length < maxParts := by
    rw [Path.keys, List.length_append] at few
    exact few
  exact readParts_writeKeys p.name lt ends stops

end Written

/-! ## No carriage returns -/

/-- Keys hold no carriage return: in quotes it is written as an escape. -/
theorem cr_not_mem_writeKey (key : String) : '\r' ∉ writeKey key := by
  rw [writeKey]
  split
  · next bare =>
    intro mem
    have own := List.all_eq_true.1 bare.2 _ mem
    revert own
    decide
  · exact Quoted.cr_not_mem_writeLine _

theorem cr_not_mem_writeKeys (keys : List String) : '\r' ∉ writeKeys keys := by
  match keys with
  | [] => simp [writeKeys]
  | [k] => exact cr_not_mem_writeKey k
  | k :: l :: ks =>
    have rest := cr_not_mem_writeKeys (l :: ks)
    simp [writeKeys, cr_not_mem_writeKey, rest]

end SessionGrid.Toml
