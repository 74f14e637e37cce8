import SessionGrid.Proofs.Toml.Value

/-!
# Statements are read back

A statement takes one line or more and starts with a bracket or a key, a header after an empty line.
A list of statements that can be written is read back statement by statement
(`readStatements_writeStatements`), so that reading a document comes down to assembling what was laid
out (`read_writeStatements`).
-/

namespace SessionGrid.Toml

open Text

namespace Statement

/-- The statement with the keys of its value in order. -/
def canonical : Statement → Statement
  | entry path v => entry path v.canonical
  | header path => header path
  | arrayHeader path => arrayHeader path

/-- An entry under a single key, or a header of not too many. -/
def Writable : Statement → Prop
  | entry path v => path.parents = [] ∧ v.Writable maxDepth
  | header path | arrayHeader path => path.keys.length ≤ maxParts

end Statement

section One

variable {s : Statement}

/-- A written statement starts with this character. -/
def StartsStatement (c : Char) : Prop :=
  c = '[' ∨ StartsKey c

/-- A statement starts with a bracket or like a key. -/
theorem StartsStatement.ne {c d : Char} (starts : StartsStatement c) (bare : isBare d = false)
    (other : d ∉ ['[', '"', '\'']) : c ≠ d := by
  simp only [List.mem_cons, List.not_mem_nil, or_false, not_or] at other
  obtain ⟨bracket, double, single⟩ := other
  rcases starts with own | own
  · exact own ▸ Ne.symm bracket
  · exact own.ne bare double single

/-- The first character of a statement is not skipped as blank. -/
theorem StartsStatement.not_blank {c : Char} (starts : StartsStatement c) : isBlank c = false := by
  rcases starts with rfl | own
  · decide
  · exact own.not_blank

/-- Every path has a last key. -/
theorem keys_ne_nil (p : Path) : p.keys ≠ [] := by
  simp [Path.keys]

/-- Every statement has a first character, and it is one of these. -/
theorem Statement.write_starts (s : Statement) :
    ∃ c cs, s.write = c :: cs ∧ StartsStatement c := by
  cases s with
  | entry path v =>
    obtain ⟨c, cs, text, starts⟩ := writeKeys_starts (keys_ne_nil path)
    exact ⟨c, _, by rw [Statement.write, text]; rfl, .inr starts⟩
  | header path | arrayHeader path => exact ⟨_, _, rfl, .inl rfl⟩

/-- A path in a header is read back up to its bracket. -/
theorem readPath_bracket {p : Path} (few : p.keys.length ≤ maxParts) (rest : List Char) :
    readPath (writeKeys p.keys ++ ']' :: rest) = some (p, ']' :: rest) := by
  have solid : skipBlanks (']' :: rest) = ']' :: rest := skipBlanks_cons (by decide) rest
  have bare : ∀ c ∈ (']' :: rest).head?, isBare c = false := by
    rintro c ⟨⟩
    decide
  have read := readPath_writeKeys few bare (by rw [solid]; simp)
  rw [solid] at read
  exact read

/-- A statement is read back up to the end of its line. -/
theorem readStatement_write (w : s.Writable) (rest : List Char) :
    readStatement (s.write ++ rest) = some (s.canonical, '\n' :: rest) := by
  cases s with
  | entry path v =>
    obtain ⟨parents, k⟩ := path
    obtain ⟨single, writable⟩ := w
    cases single
    obtain ⟨c, cs, key, starts⟩ := writeKey_starts k
    have text : (Statement.entry ⟨[], k⟩ v).write ++ rest =
        writeKey k ++ ' ' :: '=' :: ' ' :: (writeValue v ++ '\n' :: rest) := by
      simp [Statement.write, Path.keys, writeKeys]
    have back : ReadsBack (readValue maxDepth) v := ⟨writable.starts, writable.readValue⟩
    have ends : Ends ('\n' :: rest) := ends_cons (by decide) rest
    have entry := readEntry_write k back ends
    have bracket : c ≠ '[' := starts.ne (by decide) (by decide) (by decide)
    rw [text]
    rw [key, List.cons_append] at entry ⊢
    simp [readStatement, bracket, entry, Statement.canonical]
  | header path =>
    obtain ⟨c, cs, keys, starts⟩ := writeKeys_starts (keys_ne_nil path)
    have text : (Statement.header path).write ++ rest =
        '[' :: (writeKeys path.keys ++ ']' :: '\n' :: rest) := by
      simp [Statement.write]
    have bracket : c ≠ '[' := starts.ne (by decide) (by decide) (by decide)
    have read := readPath_bracket w ('\n' :: rest)
    rw [text]
    rw [keys, List.cons_append] at read ⊢
    simp [readStatement, bracket, read, Reader.word, Statement.canonical]
  | arrayHeader path =>
    have text : (Statement.arrayHeader path).write ++ rest =
        '[' :: '[' :: (writeKeys path.keys ++ ']' :: ']' :: '\n' :: rest) := by
      simp [Statement.write]
    rw [text, readStatement, readPath_bracket w]
    rfl

theorem lineEnd_lineFeed (rest : List Char) : lineEnd ('\n' :: rest) = some rest := by
  simp [lineEnd, skipBlanks, isBlank]

end One

section Many

variable {s : Statement} {ss : List Statement}

/-- One statement is read back in front of others. -/
theorem readStatements_write (w : s.Writable) (bound : Nat) (rest : List Char) :
    readStatements (bound + 1) (s.write ++ rest) =
      (readStatements bound rest).map (s.canonical :: ·) := by
  obtain ⟨c, cs, text, starts⟩ := s.write_starts
  have read := readStatement_write w rest
  have lineFeed : c ≠ '\n' := starts.ne (by decide) (by decide)
  have sharp : c ≠ '#' := starts.ne (by decide) (by decide)
  rw [text, List.cons_append] at read ⊢
  rw [readStatements, skipBlanks_cons starts.not_blank]
  simp only [lineFeed, sharp, decide_false, Bool.or_self, Bool.false_eq_true, if_false, read,
    lineEnd_lineFeed, Option.bind_eq_bind, Option.bind_some]
  cases readStatements bound rest <;> rfl

/-- An empty line is passed over, at the cost of one round. -/
theorem readStatements_lineFeed (bound : Nat) (rest : List Char) :
    readStatements (bound + 1) ('\n' :: rest) = readStatements bound rest := by
  simp [readStatements, skipBlanks, isBlank, lineEnd_lineFeed]

/-- The gap before a statement is passed over, be it an empty line or none. -/
theorem readStatements_gap (w : s.Writable) (bound : Nat) (rest : List Char) :
    ∃ b, bound ≤ b ∧ readStatements (bound + 2) (s.gap ++ (s.write ++ rest)) =
      (readStatements b rest).map (s.canonical :: ·) := by
  cases s with
  | entry path v => exact ⟨bound + 1, Nat.le_succ _, readStatements_write w _ _⟩
  | header path | arrayHeader path =>
    refine ⟨bound, Nat.le_refl _, ?_⟩
    exact (readStatements_lineFeed _ _).trans (readStatements_write w _ _)

/-- Statements behind others, each behind its gap. -/
def writeRest (ss : List Statement) : List Char :=
  ss.flatMap fun s => s.gap ++ s.write

/-- Two lines are enough for every statement. -/
theorem readStatements_writeRest (w : ∀ s ∈ ss, s.Writable) {bound : Nat}
    (lt : 2 * ss.length < bound) :
    readStatements bound (writeRest ss) = some (ss.map (·.canonical)) := by
  induction ss generalizing bound with
  | nil =>
    obtain ⟨bound, rfl⟩ : ∃ b, bound = b + 1 := ⟨bound - 1, by omega⟩
    rfl
  | cons s ss ih =>
    obtain ⟨own, others⟩ := List.forall_mem_cons.1 w
    rw [List.length_cons] at lt
    obtain ⟨bound, rfl⟩ : ∃ b, bound = b + 2 := ⟨bound - 2, by omega⟩
    have text : writeRest (s :: ss) = s.gap ++ (s.write ++ writeRest ss) := by
      simp [writeRest]
    obtain ⟨b, le, read⟩ := readStatements_gap own bound (writeRest ss)
    rw [text, read, ih others (by omega)]
    rfl

/-- Every statement has two characters at least. -/
theorem two_le_length_write (s : Statement) : 2 ≤ s.write.length := by
  cases s with
  | entry path v | header path | arrayHeader path =>
    simp only [Statement.write, List.length_cons, List.length_append, List.length_nil]
    omega

/-- The length of a text bounds how many rounds are needed to read it. -/
theorem length_le_writeRest (ss : List Statement) : 2 * ss.length ≤ (writeRest ss).length := by
  induction ss with
  | nil => exact Nat.zero_le _
  | cons s ss ih =>
    have own := two_le_length_write s
    have text : writeRest (s :: ss) = s.gap ++ (s.write ++ writeRest ss) := by
      simp [writeRest]
    rw [text, List.length_append, List.length_append, List.length_cons]
    omega

/-- **Statements.** What is written is read back statement by statement. -/
theorem readStatements_writeStatements (w : ∀ s ∈ ss, s.Writable) :
    readStatements ((writeStatements ss).length + 1) (writeStatements ss) =
      some (ss.map (·.canonical)) := by
  cases ss with
  | nil => rfl
  | cons s ss =>
    obtain ⟨own, others⟩ := List.forall_mem_cons.1 w
    have written := two_le_length_write s
    have enough := length_le_writeRest ss
    have text : writeStatements (s :: ss) = s.write ++ writeRest ss := rfl
    rw [text, readStatements_write own, readStatements_writeRest others]
    · rfl
    · rw [List.length_append]
      omega

end Many

/-! ## Documents -/

section Documents

variable {s : Statement} {ss : List Statement}

/-- Without carriage returns line ends are as they were. -/
theorem joinBreaks_of_not_mem {cs : List Char} (absent : '\r' ∉ cs) : joinBreaks cs = cs := by
  induction cs with
  | nil => rfl
  | cons c cs ih =>
    obtain ⟨own, others⟩ := not_or.1 (fun either => absent (List.mem_cons.2 either))
    rw [joinBreaks, ih others]
    rintro cs' rfl
    exact absurd rfl own

/-- No written statement has a carriage return in it. -/
theorem Statement.Writable.cr_not_mem (w : s.Writable) : '\r' ∉ s.write := by
  cases s with
  | entry path v => simp [Statement.write, cr_not_mem_writeKeys, w.2.cr_not_mem]
  | header path | arrayHeader path => simp [Statement.write, cr_not_mem_writeKeys]

theorem cr_not_mem_writeStatements (w : ∀ s ∈ ss, s.Writable) : '\r' ∉ writeStatements ss := by
  cases ss with
  | nil => simp [writeStatements]
  | cons s ss =>
    obtain ⟨own, others⟩ := List.forall_mem_cons.1 w
    have gap : ∀ s : Statement, '\r' ∉ s.gap := by
      intro s
      cases s <;> simp [Statement.gap]
    have rest : '\r' ∉ ss.flatMap fun s => s.gap ++ s.write := by
      intro mem
      obtain ⟨t, memT, mem⟩ := List.mem_flatMap.1 mem
      exact (List.mem_append.1 mem).elim (gap t) (others t memT).cr_not_mem
    simp [writeStatements, own.cr_not_mem, rest]

/-- No written text starts with a byte order mark, so none is dropped. -/
theorem dropMark_writeStatements (ss : List Statement) :
    dropMark (writeStatements ss) = writeStatements ss := by
  cases ss with
  | nil => rfl
  | cons s ss =>
    obtain ⟨c, cs, text, starts⟩ := s.write_starts
    have mark : c ≠ '\ufeff' := starts.ne (by decide) (by decide)
    rw [writeStatements, text, List.cons_append, dropMark]
    intro cs' same
    exact mark (List.cons.inj same).1

/-- **Documents.** To read what was written is to assemble what was laid out. -/
theorem read_writeStatements (w : ∀ s ∈ ss, s.Writable) :
    read (String.ofList (writeStatements ss)) = assemble (ss.map (·.canonical)) := by
  rw [read, String.toList_ofList, dropMark_writeStatements,
    joinBreaks_of_not_mem (cr_not_mem_writeStatements w), readStatements_writeStatements w]
  rfl

end Documents

end SessionGrid.Toml
