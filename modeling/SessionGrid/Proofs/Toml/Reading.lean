import SessionGrid.Proofs.Text.Blank
import SessionGrid.Proofs.Toml.Token

/-!
# What is read

How the items of an array and the entries of an inline table were read, if they were. No key and no value
starts with a blank, of whatever kind (`readValue_blank`), so where blanks have been passed over up to one
that does not count between two parts, nothing is read.
-/

namespace SessionGrid.Toml

open Text (Reader)

variable {cs r : List Char} {c : Char} {item value : Reader Toml} {w : Toml} {ws : List Toml}
  {bound depth : Nat}

theorem skipBlanks_skipBlanks (cs : List Char) : skipBlanks (skipBlanks cs) = skipBlanks cs :=
  List.dropWhile_idempotent isBlank cs

/-! ## Items and entries -/

/-- The items end here, or an item comes first, and then the end or a comma. -/
theorem readItems_eq_some (read : readItems item (bound + 1) cs = some (ws, r)) :
    skipLines false cs = ']' :: r ∧ ws = [] ∨
      ∃ w next, item (skipLines false cs) = some (w, next) ∧
        (skipLines false next = ']' :: r ∧ ws = [w] ∨
          ∃ behind ws', skipLines false next = ',' :: behind ∧
            readItems item bound behind = some (ws', r) ∧ ws = w :: ws') := by
  rw [readItems] at read
  split at read
  · next close =>
    cases read
    exact .inl ⟨close, rfl⟩
  · obtain ⟨⟨w, next⟩, first, read⟩ := Option.bind_eq_some_iff.1 read
    refine .inr ⟨w, next, first, ?_⟩
    dsimp only at read
    split at read
    · next close =>
      cases read
      exact .inl ⟨close, rfl⟩
    · next behind comma =>
      obtain ⟨⟨ws', r'⟩, others, same⟩ := Option.map_eq_some_iff.1 read
      cases same
      exact .inr ⟨behind, ws', comma, others, rfl⟩
    · cases read

/-- An entry starts with a key, and a point or the sign of equality comes next. -/
theorem readEntry_eq_some {entry : Path × Toml} (read : readEntry value cs = some (entry, r)) :
    ∃ key next c, readKey (skipBlanks cs) = some (key, next) ∧ (skipBlanks next).head? = some c ∧
      (c = '.' ∨ c = '=') := by
  obtain ⟨⟨path, behind⟩, parts, read⟩ := Option.bind_eq_some_iff.1 read
  have parts : readParts (78 + 1) cs = some (path, behind) := parts
  rw [readParts] at parts
  obtain ⟨⟨key, next⟩, first, parts⟩ := Option.bind_eq_some_iff.1 parts
  dsimp only at parts read
  split at parts
  · next point => exact ⟨key, next, '.', first, by rw [point]; rfl, .inl rfl⟩
  · cases parts
    split at read
    · next equals => exact ⟨key, next, '=', first, by rw [equals]; rfl, .inr rfl⟩
    · cases read

/-- The first entry of an inline table is read. -/
theorem exists_readEntry {es es' : Bindings Draft} (read : readFields value bound es cs = some (es', r)) :
    ∃ entry next, readEntry value cs = some (entry, next) := by
  cases bound with
  | zero => cases read
  | succ bound =>
    obtain ⟨⟨⟨path, v⟩, next⟩, first, -⟩ := Option.bind_eq_some_iff.1 read
    exact ⟨(path, v), next, first⟩

/-- An inline table that was read is empty or starts with an entry. -/
theorem readInline_eq_some (read : readInline value cs = some (w, r)) :
    skipBlanks cs = '}' :: r ∧ w = .table [] ∨
      ∃ entry next, readEntry value (skipBlanks cs) = some (entry, next) := by
  unfold readInline at read
  split at read
  · next close =>
    cases read
    exact .inl ⟨close, rfl⟩
  · obtain ⟨⟨es, r'⟩, fields, -⟩ := Option.map_eq_some_iff.1 read
    exact .inr (exists_readEntry fields)

/-! ## Where nothing starts -/

/-- No character of bare keys is blank. -/
theorem isBare_not_blank (own : isBare c = true) : Text.isBlank c = false := by
  simp only [isBare, Bool.or_eq_true, beq_iff_eq] at own
  rcases own with (alphanum | rfl) | rfl
  · exact Text.isBlank_of_isAlphanum alphanum
  · decide
  · decide

theorem isTokenChar_not_blank (own : isTokenChar c = true) : Text.isBlank c = false := by
  simp only [isTokenChar, Bool.or_eq_true, beq_iff_eq] at own
  rcases own with ((bare | rfl) | rfl) | rfl
  · exact isBare_not_blank bare
  all_goals decide

theorem readToken_of_other (other : isTokenChar c = false) (cs : List Char) :
    readToken (c :: cs) = none := by
  have run : (c :: cs).span isTokenChar = ([], c :: cs) :=
    Text.span_append (s := []) (List.forall_mem_nil _) (by rintro d ⟨⟩; exact other)
  have date : DateTime.readDate [] = none := rfl
  simp only [readToken, run, date]
  rfl

theorem readValue_of_other (other : isTokenChar c = false) (apart : c ∉ ['"', '\'', '[', '{'])
    (cs : List Char) : readValue depth (c :: cs) = none := by
  simp only [List.mem_cons, List.not_mem_nil, or_false, not_or] at apart
  obtain ⟨double, single, bracket, brace⟩ := apart
  simp [readValue, double, single, bracket, brace, readToken_of_other other]

/-- At the greatest depth no array and no inline table starts. -/
theorem readValue_zero (bracket : c = '[' ∨ c = '{') (cs : List Char) : readValue 0 (c :: cs) = none := by
  rcases bracket with rfl | rfl
  all_goals
    rw [readValue, readToken_of_other (by decide)]
    all_goals simp

/-- A blank starts neither a token nor anything quoted or bracketed. -/
theorem blank_apart (blank : Text.isBlank c = true) :
    isTokenChar c = false ∧ c ∉ ['"', '\'', '[', '{'] := by
  constructor
  · refine Bool.eq_false_iff.2 fun own => ?_
    cases blank.symm.trans (isTokenChar_not_blank own)
  · intro mem
    have visible : ['"', '\'', '[', '{'].all (fun c => !Text.isBlank c) = true := by decide
    have own := List.all_eq_true.1 visible c mem
    rw [blank] at own
    cases own

/-- No value starts with a blank. -/
theorem readValue_blank (blank : Text.isBlank c = true) (cs : List Char) :
    readValue depth (c :: cs) = none :=
  readValue_of_other (blank_apart blank).1 (blank_apart blank).2 cs

/-- A key starts with a bare character or a quote. -/
theorem readKey_of_other (bare : isBare c = false) (double : c ≠ '"') (single : c ≠ '\'')
    (cs : List Char) : readKey (c :: cs) = none := by
  have line : Quoted.readLine (c :: cs) = none := by
    unfold Quoted.readLine
    split
    · next same => exact absurd (List.cons.inj same).1 double
    · next same => exact absurd (List.cons.inj same).1 single
    · rfl
  rw [readKey_of_quote bare, line, Option.map_none]

theorem readKey_blank (blank : Text.isBlank c = true) (cs : List Char) : readKey (c :: cs) = none := by
  apply readKey_of_other
  · refine Bool.eq_false_iff.2 fun own => ?_
    cases blank.symm.trans (isBare_not_blank own)
  all_goals
    rintro rfl
    cases blank

end SessionGrid.Toml
