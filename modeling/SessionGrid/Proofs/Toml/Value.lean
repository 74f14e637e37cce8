import SessionGrid.Proofs.Bindings
import SessionGrid.Proofs.Toml.Token

/-!
# Values are read back

A value is `Writable` with a bound on its depth if it nests no deeper, no table in it has a key twice,
no date or time is in it and its floats are finite and are read back from their texts. Such a value is
read back from its text with its keys in order, whatever follows that could not belong to it
(`Writable.readValue`). Items and fields are read by loops of their own, each with a lemma about any
reader of the values inside (`readItems_writeItems`, `readFields_writeFields`).
-/

namespace SessionGrid.Toml

open Text

/-- The value can be written and read back, with at most `depth` arrays and tables around anything in
it. -/
inductive Writable : Nat → Toml → Prop where
  | string {depth : Nat} (s : String) : Writable depth (.string s)
  | integer {depth : Nat} (n : TomlInt) : Writable depth (.integer n)
  | float {depth : Nat} {x : Binary64} (finite : x.isFinite = true)
    (exact : float? (writeFloat x) = some x) : Writable depth (.float x)
  | bool {depth : Nat} (b : Bool) : Writable depth (.bool b)
  | array {depth : Nat} {xs : List Toml} (items : ∀ x ∈ xs, Writable depth x) :
    Writable (depth + 1) (.array xs)
  | table {depth : Nat} {fs : List (String × Toml)} (distinct : (fs.map Prod.fst).Nodup)
    (fields : ∀ f ∈ fs, Writable depth f.2) : Writable (depth + 1) (.table fs)

/-- A bound on the depth may be raised. -/
theorem Writable.mono {depth depth' : Nat} {v : Toml} (w : Writable depth v) (le : depth ≤ depth') :
    Writable depth' v := by
  induction w generalizing depth' with
  | string s => exact .string s
  | integer n => exact .integer n
  | float finite exact => exact .float finite exact
  | bool b => exact .bool b
  | array items ih =>
    obtain ⟨depth', rfl⟩ : ∃ d, depth' = d + 1 := ⟨depth' - 1, by omega⟩
    exact .array fun x mem => ih x mem (Nat.le_of_succ_le_succ le)
  | table distinct fields ih =>
    obtain ⟨depth', rfl⟩ : ∃ d, depth' = d + 1 := ⟨depth' - 1, by omega⟩
    exact .table distinct fun f mem => ih f mem (Nat.le_of_succ_le_succ le)

theorem canonicalItems_eq_map (xs : List Toml) : canonicalItems xs = xs.map canonical := by
  induction xs with
  | nil => rfl
  | cons x xs ih => rw [canonicalItems, ih, List.map_cons]

theorem canonicalFields_eq_map (fs : List (String × Toml)) :
    canonicalFields fs = fs.map fun f => (f.1, f.2.canonical) := by
  induction fs with
  | nil => rfl
  | cons f fs ih => rw [canonicalFields, ih, List.map_cons]

/-! ## Where a value starts and ends -/

/-- A written value starts with this character. -/
def StartsValue (c : Char) : Prop :=
  isTokenChar c = true ∨ c ∈ ['"', '\'', '[', '{']

/-- Nothing that could belong to a value before it comes first. -/
def Ends (rest : List Char) : Prop :=
  ∀ c ∈ rest.head?, isTokenChar c = false ∧ c ≠ '"' ∧ c ≠ '\''

/-- A character that is no quote and none of tokens ends a value. -/
theorem ends_cons {c : Char} (other : isTokenChar c = false ∧ c ≠ '"' ∧ c ≠ '\'') (cs : List Char) :
    Ends (c :: cs) := by
  intro d same
  cases same
  exact other

/-- A value starts with a character of tokens, a quote or an opening bracket. -/
theorem StartsValue.ne {c d : Char} (starts : StartsValue c) (token : isTokenChar d = false)
    (other : d ∉ ['"', '\'', '[', '{']) : c ≠ d := by
  rintro rfl
  rcases starts with own | own
  · rw [token] at own
    cases own
  · exact other own

/-- The first character of a value is not skipped as blank. -/
theorem StartsValue.not_blank {c : Char} (starts : StartsValue c) : isBlank c = false := by
  have space : c ≠ ' ' := starts.ne (by decide) (by decide)
  have tab : c ≠ '\t' := starts.ne (by decide) (by decide)
  simp [isBlank, space, tab]

/-- A numeral starts like a token, with its sign or with a digit. -/
theorem Numeral.starts {negative : Bool} {body : List Char} (n : Numeral body) :
    ∃ c cs, signed negative body = c :: cs ∧ isTokenChar c = true := by
  cases text : signed negative body with
  | nil =>
    cases negative with
    | true => cases text
    | false => exact absurd text n.ne_nil
  | cons c cs =>
    have mem : c ∈ signed negative body := text ▸ List.mem_cons_self
    exact ⟨c, cs, rfl, n.tokenChars c mem⟩

theorem writeInt_starts (n : Int) : ∃ c cs, writeInt n = c :: cs ∧ isTokenChar c = true := by
  rw [writeInt_eq]
  exact (numeral_decimalDigits n.natAbs).starts

theorem writeFloat_starts {x : Binary64} (finite : x.isFinite = true) :
    ∃ c cs, writeFloat x = c :: cs ∧ isTokenChar c = true := by
  obtain ⟨body, text, pointed⟩ := writeFloat_eq finite
  rw [text]
  exact pointed.numeral.starts

/-- Every value that can be written has a first character, and it is one of these. -/
theorem Writable.starts {depth : Nat} {v : Toml} (w : Writable depth v) :
    ∃ c cs, writeValue v = c :: cs ∧ StartsValue c := by
  cases w with
  | string s =>
    rw [writeValue]
    obtain ⟨cs, double | single⟩ := Quoted.write_starts s.toList
    · exact ⟨_, cs, double, .inr (by decide)⟩
    · exact ⟨_, cs, single, .inr (by decide)⟩
  | integer n =>
    obtain ⟨c, cs, text, token⟩ := writeInt_starts n.1
    exact ⟨c, cs, text, .inl token⟩
  | float finite exact =>
    obtain ⟨c, cs, text, token⟩ := writeFloat_starts finite
    exact ⟨c, cs, text, .inl token⟩
  | bool b => cases b <;> exact ⟨_, _, rfl, .inl (by decide)⟩
  | @array _ xs items => 
    match xs with
    | [] | [_] | _ :: _ :: _ => exact ⟨_, _, by rw [writeValue], .inr (by decide)⟩
  | @table _ fs distinct fields =>
    match fs with
    | [] | _ :: _ => exact ⟨_, _, by rw [writeValue], .inr (by decide)⟩

/-- In front of a value no line is skipped. -/
theorem skipLines_starts {c : Char} (starts : StartsValue c) (cs : List Char) :
    skipLines false (c :: cs) = c :: cs := by
  have lineFeed : c ≠ '\n' := starts.ne (by decide) (by decide)
  have sharp : c ≠ '#' := starts.ne (by decide) (by decide)
  simp [skipLines, lineFeed, sharp, starts.not_blank]

/-! ## Items -/

section Items

variable {item : Reader Toml} {xs : List Toml} {x : Toml} {cs rest : List Char}

/-- The reader takes the text of `x` off the front of what is to be read. -/
structure ReadsBack (value : Reader Toml) (x : Toml) : Prop where
  starts : ∃ c cs, writeValue x = c :: cs ∧ StartsValue c
  read : ∀ {rest}, Ends rest → value (writeValue x ++ rest) = some (x.canonical, rest)

/-- Skipping lines stops at a written value. -/
theorem ReadsBack.skipLines (back : ReadsBack item x) (rest : List Char) :
    skipLines false (writeValue x ++ rest) = writeValue x ++ rest := by
  obtain ⟨c, cs, text, starts⟩ := back.starts
  rw [text, List.cons_append, skipLines_starts starts]

/-- Skipping blanks stops at a written value. -/
theorem ReadsBack.skipBlanks (back : ReadsBack item x) (rest : List Char) :
    skipBlanks (writeValue x ++ rest) = writeValue x ++ rest := by
  obtain ⟨c, cs, text, starts⟩ := back.starts
  rw [text, List.cons_append, skipBlanks_cons starts.not_blank]

/-- An item, then the closing bracket or a comma with the items behind it. -/
theorem ReadsBack.readItems (back : ReadsBack item x) (bound : Nat) (ends : Ends rest)
    (blanks : Toml.skipLines false cs = writeValue x ++ rest) :
    readItems item (bound + 1) cs =
      match Toml.skipLines false rest with
      | ']' :: cs => some ([x.canonical], cs)
      | ',' :: cs => (Toml.readItems item bound cs).map fun (xs, cs) => (x.canonical :: xs, cs)
      | _ => none := by
  obtain ⟨c, w, text, starts⟩ := back.starts
  have bracket : c ≠ ']' := starts.ne (by decide) (by decide)
  rw [Toml.readItems, blanks]
  split
  · next same =>
    rw [text] at same
    cases same
    exact absurd rfl bracket
  · rw [back.read ends]
    rfl

/-- The last item is followed by the closing bracket and no comma. -/
theorem readItems_singleton (back : ReadsBack item x) (bound : Nat) (rest : List Char) :
    readItems item (bound + 1) (writeValue x ++ ']' :: rest) = some ([x.canonical], rest) := by
  rw [back.readItems bound (ends_cons (by decide) rest) (back.skipLines _)]
  rfl

/-- **Items.** Written items are read back one after the other, whatever reads the values in them. -/
theorem readItems_writeItems (back : ∀ x ∈ xs, ReadsBack item x) {bound : Nat}
    (lt : xs.length < bound) (rest : List Char) :
    readItems item bound (writeItems xs ++ '\n' :: ']' :: rest) = some (xs.map canonical, rest) := by
  induction xs generalizing bound with
  | nil =>
    obtain ⟨bound, rfl⟩ : ∃ b, bound = b + 1 := ⟨bound - 1, by omega⟩
    rfl
  | cons x xs ih =>
    obtain ⟨bound, rfl⟩ : ∃ b, bound = b + 1 := ⟨bound - 1, by omega⟩
    obtain ⟨own, others⟩ := List.forall_mem_cons.1 back
    have blanks : Toml.skipLines false (writeItems (x :: xs) ++ '\n' :: ']' :: rest) =
        writeValue x ++ ',' :: (writeItems xs ++ '\n' :: ']' :: rest) := by
      rw [← own.skipLines, writeItems]
      simp [Toml.skipLines, isBlank]
    rw [own.readItems bound (ends_cons (by decide) _) blanks]
    have later := ih others (Nat.lt_of_succ_lt_succ lt)
    simp [Toml.skipLines, isBlank, later]

/-- Each item takes a character at least, so the text bounds how many there are. -/
theorem length_le_writeItems (xs : List Toml) : xs.length ≤ (writeItems xs).length := by
  induction xs with
  | nil => exact Nat.zero_le _
  | cons x xs ih =>
    simp only [writeItems, List.length_cons, List.length_append]
    omega

end Items

/-! ## Fields -/

section Fields

variable {value : Reader Toml} {fs : List (String × Toml)} {x : Toml}

theorem readEntry_blank (cs : List Char) : readEntry value (' ' :: cs) = readEntry value cs := by
  have path : readPath (' ' :: cs) = readPath cs := by
    rw [readPath, maxParts, readParts, readParts, skipBlanks_blank]
  rw [readEntry, readEntry, path]

theorem readFields_blank (bound : Nat) (es : Bindings Draft) (cs : List Char) :
    readFields value bound es (' ' :: cs) = readFields value bound es cs := by
  cases bound with
  | zero => rfl
  | succ bound => rw [readFields, readFields, readEntry_blank]

/-- An entry under a single key comes down to its value. -/
theorem readEntry_writeKey (k : String) (cs : List Char) :
    readEntry value (writeKey k ++ ' ' :: '=' :: ' ' :: cs) =
      (value (skipBlanks cs)).map fun (v, rest) => ((⟨[], k⟩, v), rest) := by
  have stops : skipBlanks (' ' :: '=' :: ' ' :: cs) = '=' :: ' ' :: cs := by
    rw [skipBlanks_blank, skipBlanks_cons (by decide)]
  have few : (Path.mk [] k).keys.length ≤ maxParts := Nat.le_of_ble_eq_true rfl
  have bare : ∀ c ∈ (' ' :: '=' :: ' ' :: cs).head?, isBare c = false := by
    rintro c ⟨⟩
    decide
  have path : readPath (writeKey k ++ ' ' :: '=' :: ' ' :: cs) = some (⟨[], k⟩, '=' :: ' ' :: cs) := by
    have read := readPath_writeKeys few bare (by rw [stops]; simp)
    rw [stops] at read
    exact read
  rw [readEntry, path]
  simp only [Option.bind_eq_bind, Option.bind_some, skipBlanks_blank]

/-- An entry is read back for a path of one key and its value. -/
theorem readEntry_write (k : String) (back : ReadsBack value x) {rest : List Char} (ends : Ends rest) :
    readEntry value (writeKey k ++ ' ' :: '=' :: ' ' :: (writeValue x ++ rest)) =
      some ((⟨[], k⟩, x.canonical), rest) := by
  rw [readEntry_writeKey, back.skipBlanks, back.read ends, Option.map_some]

/-- An entry with a new name, then the closing brace or a comma with the entries behind it. -/
theorem ReadsBack.readFields (back : ReadsBack value x) {k : String} {es : Bindings Draft}
    (new : Bindings.find? k es = none) (bound : Nat) {rest : List Char} (ends : Ends rest) :
    readFields value (bound + 1) es (writeKey k ++ ' ' :: '=' :: ' ' :: (writeValue x ++ rest)) =
      match Toml.skipBlanks rest with
      | '}' :: cs => some (Bindings.insert k (.value x.canonical) es, cs)
      | ',' :: cs => Toml.readFields value bound (Bindings.insert k (.value x.canonical) es) cs
      | _ => none := by
  have add : Draft.addEntry k x.canonical [] es =
      some (Bindings.insert k (.value x.canonical) es) := by
    rw [Draft.addEntry, new]
    rfl
  rw [Toml.readFields, readEntry_write k back ends]
  change (Draft.addEntry k x.canonical [] es).bind _ = _
  rw [add]
  rfl

/-- **Fields.** Written fields are read back into entries that have none of their names. -/
theorem readFields_writeFields (some : fs ≠ []) (back : ∀ f ∈ fs, ReadsBack value f.2)
    (distinct : (fs.map Prod.fst).Nodup) {es : Bindings Draft}
    (fresh : ∀ f ∈ fs, Bindings.find? f.1 es = none) {bound : Nat} (le : fs.length ≤ bound)
    (rest : List Char) :
    readFields value bound es (writeFields fs ++ ' ' :: '}' :: rest) =
      .some (Bindings.insertAll (Bindings.mapValues (.value ∘ canonical) fs) es, rest) := by
  induction fs generalizing es bound with
  | nil => exact absurd rfl some
  | cons f fs ih =>
    obtain ⟨k, x⟩ := f
    obtain ⟨bound, rfl⟩ : ∃ b, bound = b + 1 := ⟨bound - 1, by simp at le; omega⟩
    obtain ⟨own, others⟩ := List.forall_mem_cons.1 back
    obtain ⟨new, fresh⟩ := List.forall_mem_cons.1 fresh
    obtain ⟨apart, distinct⟩ := List.nodup_cons.1 distinct
    cases fs with
    | nil =>
      have text : writeFields [(k, x)] ++ ' ' :: '}' :: rest =
          writeKey k ++ ' ' :: '=' :: ' ' :: (writeValue x ++ ' ' :: '}' :: rest) := by
        simp [writeFields]
      have close : skipBlanks (' ' :: '}' :: rest) = '}' :: rest := by
        rw [skipBlanks_blank, skipBlanks_cons (by decide)]
      rw [text, own.readFields new bound (ends_cons (by decide) _), close]
      rfl
    | cons g fs =>
      have text : writeFields ((k, x) :: g :: fs) ++ ' ' :: '}' :: rest =
          writeKey k ++ ' ' :: '=' :: ' ' ::
            (writeValue x ++ ',' :: ' ' :: (writeFields (g :: fs) ++ ' ' :: '}' :: rest)) := by
        simp [writeFields]
      have comma : ∀ cs, skipBlanks (',' :: cs) = ',' :: cs := skipBlanks_cons (by decide)
      have fresh' : ∀ f ∈ g :: fs,
          Bindings.find? f.1 (Bindings.insert k (.value x.canonical) es) = none := by
        intro f mem
        have ne : k ≠ f.1 := fun same => apart (List.mem_map.2 ⟨f, mem, same.symm⟩)
        rw [Bindings.find?_insert, if_neg ne, fresh f mem]
      have later := ih nofun others distinct fresh' (Nat.le_of_succ_le_succ le)
      rw [text, own.readFields new bound (ends_cons (by decide) _), comma]
      exact (readFields_blank bound _ _).trans later

theorem length_le_writeFields (fs : List (String × Toml)) : fs.length ≤ (writeFields fs).length := by
  match fs with
  | [] => exact Nat.zero_le _
  | [(k, x)] =>
    simp only [writeFields, List.length_cons, List.length_append, List.length_nil]
    omega
  | (k, x) :: g :: fs =>
    have rest := length_le_writeFields (g :: fs)
    simp only [writeFields, List.length_cons, List.length_append] at rest ⊢
    omega

/-- Closing the entries closes each of them. -/
theorem closeEntries_eq (es : Bindings Draft) :
    Draft.closeEntries es = Bindings.mapValues Draft.close es := by
  induction es with
  | nil => rfl
  | cons e es ih => rw [Draft.closeEntries, ih]; rfl

theorem writeFields_starts (some : fs ≠ []) :
    ∃ c cs, writeFields fs = c :: cs ∧ StartsKey c := by
  match fs with
  | [(k, x)] | (k, x) :: _ :: _ =>
    obtain ⟨c, cs, text, starts⟩ := writeKey_starts k
    exact ⟨c, _, by rw [writeFields, text]; rfl, starts⟩

/-- **Inline tables.** A table with fields is read back with its keys in order. -/
theorem readInline_write (some : fs ≠ []) (back : ∀ f ∈ fs, ReadsBack value f.2)
    (distinct : (fs.map Prod.fst).Nodup) (rest : List Char) :
    readInline value (' ' :: (writeFields fs ++ ' ' :: '}' :: rest)) =
      .some (canonical (.table fs), rest) := by
  obtain ⟨c, cs, text, starts⟩ := writeFields_starts some
  have blanks : skipBlanks (' ' :: (writeFields fs ++ ' ' :: '}' :: rest)) =
      writeFields fs ++ ' ' :: '}' :: rest := by
    rw [skipBlanks_blank, text, List.cons_append, skipBlanks_cons starts.not_blank]
  have le : fs.length ≤ (writeFields fs ++ ' ' :: '}' :: rest).length := by
    have short := length_le_writeFields fs
    rw [List.length_append]
    omega
  have fresh : ∀ f ∈ fs, Bindings.find? f.1 ([] : Bindings Draft) = none := fun _ _ => rfl
  have fields := readFields_writeFields some back distinct fresh le rest
  have closed : Draft.closeEntries
      (Bindings.insertAll (Bindings.mapValues (.value ∘ canonical) fs) []) =
        Bindings.ofList (canonicalFields fs) := by
    rw [closeEntries_eq, Bindings.mapValues_insertAll, canonicalFields_eq_map,
      Bindings.ofList_eq_insertAll]
    simp [Bindings.mapValues, Function.comp_def, Draft.close]
  rw [readInline, blanks]
  split
  · next same =>
    rw [text] at same
    cases same
    exact absurd rfl (starts.ne (by decide) (by decide) (by decide))
  · rw [fields, canonical, ← closed]
    rfl

end Fields

/-! ## Values -/

/-- What starts with a character of tokens is read as a token. -/
theorem readValue_token (depth : Nat) {token : List Char}
    (starts : ∃ c cs, token = c :: cs ∧ isTokenChar c = true) (rest : List Char) :
    readValue depth (token ++ rest) = readToken (token ++ rest) := by
  obtain ⟨c, cs, rfl, own⟩ := starts
  have double : c ≠ '"' := by rintro rfl; revert own; decide
  have single : c ≠ '\'' := by rintro rfl; revert own; decide
  have bracket : c ≠ '[' := by rintro rfl; revert own; decide
  have brace : c ≠ '{' := by rintro rfl; revert own; decide
  simp [readValue, double, single, bracket, brace]

/-- A quoted text is read back if no quote follows it. -/
theorem readValue_string (depth : Nat) (s : String) {rest : List Char} (ends : Ends rest) :
    readValue depth (Quoted.write s.toList ++ rest) = some (.string s, rest) := by
  have double : rest.head? ≠ some '"' := fun same => (ends _ same).2.1 rfl
  have single : rest.head? ≠ some '\'' := fun same => (ends _ same).2.2 rfl
  have read := Quoted.read_write (s := s.toList) double single
  obtain ⟨cs, starts | starts⟩ := Quoted.write_starts s.toList
  all_goals
    rw [starts, List.cons_append] at read ⊢
    simp only [readValue, read, Option.map_some, String.ofList_toList]

/-- **Values.** A value that can be written is read back with its keys in order. -/
theorem Writable.readValue {depth : Nat} {v : Toml} (w : Writable depth v) {rest : List Char}
    (ends : Ends rest) : readValue depth (writeValue v ++ rest) = some (v.canonical, rest) := by
  have token : ∀ c ∈ rest.head?, isTokenChar c = false := fun c mem => (ends c mem).1
  induction w generalizing rest with
  | string s =>
    rw [writeValue]
    exact readValue_string _ s ends
  | integer n =>
    exact (readValue_token _ (writeInt_starts n.1) rest).trans (readToken_writeInt n token)
  | float finite exact =>
    exact (readValue_token _ (writeFloat_starts finite) rest).trans
      (readToken_writeFloat finite exact token)
  | bool b =>
    cases b with
    | true => exact (readValue_token _ ⟨_, _, rfl, by decide⟩ rest).trans (readToken_true token)
    | false => exact (readValue_token _ ⟨_, _, rfl, by decide⟩ rest).trans (readToken_false token)
  | @array depth xs items ih =>
    have back : ∀ x ∈ xs, ReadsBack (Toml.readValue depth) x := fun x mem =>
      ⟨(items x mem).starts, fun ends => ih x mem ends fun c mem => (ends c mem).1⟩
    rw [canonical, canonicalItems_eq_map]
    match xs with
    | [] => rfl
    | [x] =>
      have item := readItems_singleton (back x List.mem_cons_self)
      simp [writeValue, Toml.readValue, item]
    | x :: y :: xs =>
      have le := length_le_writeItems (x :: y :: xs)
      have text : writeValue (.array (x :: y :: xs)) ++ rest =
          '[' :: (writeItems (x :: y :: xs) ++ '\n' :: ']' :: rest) := by
        simp [writeValue]
      rw [text, Toml.readValue, readItems_writeItems back]
      · rfl
      · rw [List.length_append]
        omega
  | @table depth fs distinct fields ih =>
    have back : ∀ f ∈ fs, ReadsBack (Toml.readValue depth) f.2 := fun f mem =>
      ⟨(fields f mem).starts, fun ends => ih f mem ends fun c mem => (ends c mem).1⟩
    cases fs with
    | nil => rfl
    | cons f fs =>
      have inline := readInline_write (List.cons_ne_nil f fs) back distinct rest
      simp [writeValue, Toml.readValue, inline]

/-! ## No carriage returns -/

theorem Numeral.cr_not_mem {negative : Bool} {body : List Char} (n : Numeral body) :
    '\r' ∉ signed negative body :=
  n.not_mem_signed (by decide) (by decide) (by decide)

theorem cr_not_mem_writeItems {xs : List Toml} (items : ∀ x ∈ xs, '\r' ∉ writeValue x) :
    '\r' ∉ writeItems xs := by
  induction xs with
  | nil => simp [writeItems]
  | cons x xs ih =>
    obtain ⟨own, others⟩ := List.forall_mem_cons.1 items
    simp [writeItems, own, ih others]

theorem cr_not_mem_writeFields {fs : List (String × Toml)}
    (fields : ∀ f ∈ fs, '\r' ∉ writeValue f.2) : '\r' ∉ writeFields fs := by
  match fs with
  | [] => simp [writeFields]
  | [(k, x)] =>
    have own : '\r' ∉ writeValue x := fields (k, x) List.mem_cons_self
    simp [writeFields, own, cr_not_mem_writeKey]
  | (k, x) :: g :: fs =>
    obtain ⟨own, others⟩ := List.forall_mem_cons.1 fields
    have rest := cr_not_mem_writeFields others
    simp [writeFields, own, cr_not_mem_writeKey, rest]

/-- A written value has no carriage return in it, so line ends are left alone. -/
theorem Writable.cr_not_mem {depth : Nat} {v : Toml} (w : Writable depth v) :
    '\r' ∉ writeValue v := by
  induction w with
  | string s => simp [writeValue, Quoted.cr_not_mem_write]
  | integer n =>
    rw [writeValue, writeInt_eq]
    exact (numeral_decimalDigits _).cr_not_mem
  | float finite exact =>
    obtain ⟨body, text, pointed⟩ := writeFloat_eq finite
    rw [writeValue, text]
    exact pointed.numeral.cr_not_mem
  | bool b => cases b <;> simp [writeValue]
  | @array _ xs items ih =>
    match xs with
    | [] => simp [writeValue]
    | [x] => simp [writeValue, ih x]
    | x :: y :: xs => simp [writeValue, cr_not_mem_writeItems ih]
  | @table _ fs distinct fields ih =>
    match fs with
    | [] => simp [writeValue]
    | f :: fs => simp [writeValue, cr_not_mem_writeFields ih]

end SessionGrid.Toml
