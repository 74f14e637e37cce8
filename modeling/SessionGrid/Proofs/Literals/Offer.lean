import SessionGrid.Proofs.Literals.Value

/-!
# An offer and a request in the same words

A value that JSON reads, with blanks around or not, ends in TOML where it ends in JSON, if TOML reads one
there (`agrees_typed`). So a line that offers it under a name is an entry with a table of that one value
(`readStatement_offerLine`).
-/

namespace SessionGrid

open Text

/-- The line that offers the value `t` under the name `k`. -/
def offerLine (k t : String) : String :=
  "capabilities = [\x7b " ++ k ++ " = " ++ t ++ " \x7d]"

namespace Json

/-- What typing the text stands for, without the blanks around. -/
def typedText (t : String) : String :=
  String.ofList (strip t.toList)

section Typed

variable {t : String} {v : Json}

theorem skip_strip (t : String) : skip (strip t.toList) = strip t.toList := by
  refine dropWhile_of_head fun c head => ?_
  have visible := (trimmed_strip t.toList).starts c head
  refine Bool.eq_false_iff.2 fun space => ?_
  cases visible.symm.trans (isBlank_of_isSpace space)

/-- Behind a typed value there is nothing but blanks that JSON passes over. -/
theorem exists_readValue_typed (json : read (typedText t) = some v) :
    ∃ rest, readValue maxDepth (strip t.toList) = some (v, rest) ∧ skip rest = [] := by
  obtain ⟨rest, first, done⟩ := whole_eq_some json
  rw [typedText, String.toList_ofList, skip_strip] at first
  exact ⟨rest, first, done⟩

theorem literalsOf_typed {ls : List Literal} {rest : List Char}
    (lits : literals maxDepth (strip t.toList) = some (ls, rest)) (done : skip rest = []) :
    literalsOf (typedText t) = ls := by
  simp [literalsOf, whole, typedText, skip_strip, lits, done]

/-- A value that is met by whatever is offered, and a text, has no literals. -/
theorem literalsOf_eq_nil (json : read (typedText t) = some v) (plain : v = .null ∨ ∃ s, v = .string s) :
    literalsOf (typedText t) = [] := by
  obtain ⟨rest, first, done⟩ := exists_readValue_typed json
  refine literalsOf_typed ?_ done
  rcases plain with rfl | ⟨s, rfl⟩
  · cases readValue_readAs first with
    | null text =>
      rw [text] at first ⊢
      exact literals_of_other first (.inl rfl)
  · cases readValue_readAs first with
    | string string =>
      obtain ⟨inner, -, text, -⟩ := readString_eq_some string
      rw [text] at first ⊢
      exact literals_of_other first (by simp)

end Typed

end Json

/-! ## The line of an offer -/

section Line

open Json (typedText literalsOf)
open Toml (Path Draft Statement joinBreaks skipBlanks skipLines writeKey readFields readInline readStatement)

variable {k t : String} {cs next r : List Char} {v : Json} {w : Toml} {value : Reader Toml} {depth : Nat}

/-- The text of a value between blanks, as TOML reads it. -/
theorem joinBreaks_typed {front back : List Char} (text : t.toList = front ++ (strip t.toList ++ back))
    (start : ∃ c core, strip t.toList = c :: core ∧ isBlank c = false) :
    joinBreaks (t.toList ++ ' ' :: '}' :: cs) =
      joinBreaks front ++ (joinBreaks (strip t.toList) ++ joinBreaks ((back ++ [' ']) ++ '}' :: cs)) := by
  obtain ⟨c, core, first, visible⟩ := start
  have lineFeed : c ≠ '\n' := by
    rintro rfl
    cases visible
  have last : (strip t.toList).getLast? ≠ some '\r' := by
    intro same
    cases (trimmed_strip t.toList).ends _ same
  have whole : t.toList ++ ' ' :: '}' :: cs =
      front ++ (strip t.toList ++ ((back ++ [' ']) ++ '}' :: cs)) := by
    calc t.toList ++ ' ' :: '}' :: cs
        = front ++ (strip t.toList ++ back) ++ ' ' :: '}' :: cs := by rw [← text]
      _ = front ++ (strip t.toList ++ ((back ++ [' ']) ++ '}' :: cs)) := by simp
  rw [whole, Toml.joinBreaks_append_of (by simp [first, lineFeed]),
    Toml.joinBreaks_append_of (by simp [last])]

/-- Behind the value come blanks and the closing brace. -/
theorem closes_or_stops {skipper : List Char → List Char} (passes : Toml.Passes skipper)
    {rest back : List Char} (done : Json.skip rest = []) (blank : ∀ c ∈ back, isBlank c = true)
    (cs : List Char) :
    skipper (joinBreaks rest ++ joinBreaks ((back ++ [' ']) ++ '}' :: cs)) = '}' :: joinBreaks cs ∨
      ∃ b r, isBlank b = true ∧
        skipper (joinBreaks rest ++ joinBreaks ((back ++ [' ']) ++ '}' :: cs)) = b :: r := by
  have spaces : ∀ c ∈ rest, isBlank c = true :=
    fun c mem => Json.isBlank_of_isSpace (List.dropWhile_eq_nil_iff.1 done c mem)
  have blanks : ∀ c ∈ back ++ [' '], isBlank c = true :=
    List.forall_mem_append.2 ⟨blank, List.forall_mem_singleton.2 (by decide)⟩
  rcases passes.over spaces (joinBreaks ((back ++ [' ']) ++ '}' :: cs)) with passed | stopped
  · rw [passed]
    rw [← List.append_nil (joinBreaks _), ← List.append_nil (joinBreaks cs), ← List.cons_append,
      ← Toml.joinBreaks_visible (by decide)]
    exact passes.over_visible blanks (by decide) (by decide)
  · exact .inr stopped

/-- **Typed values.** Where TOML reads a value at the front of a typed text, the next visible character is
the one behind the text, and the value is the one that JSON reads exactly if all literals are read alike. -/
theorem agrees_typed (json : Json.read (typedText t) = some v)
    (toml : Toml.readValue depth (skipBlanks (joinBreaks (t.toList ++ ' ' :: '}' :: cs))) = some (w, next)) :
    (∀ c y, skipBlanks next = c :: y → isBlank c = false → c = '}' ∧ y = joinBreaks cs) ∧
      (v.same w.toJson = true ↔ ∀ l ∈ literalsOf (typedText t), l.ReadAlike) := by
  obtain ⟨rest, first, done⟩ := Json.exists_readValue_typed json
  obtain ⟨front, back, text, blank, blank'⟩ := exists_strip t.toList
  obtain ⟨c, core, start, visible, noComment, -⟩ := Json.exists_cons_of_readValue first
  rw [joinBreaks_typed text ⟨c, core, start, visible⟩] at toml
  rcases Toml.passes_skipBlanks.over blank
    (joinBreaks (strip t.toList) ++ joinBreaks ((back ++ [' ']) ++ '}' :: cs)) with
    passed | ⟨b, y, own, stopped⟩
  · have here : skipBlanks (joinBreaks (strip t.toList) ++ joinBreaks ((back ++ [' ']) ++ '}' :: cs)) =
        joinBreaks (strip t.toList) ++ joinBreaks ((back ++ [' ']) ++ '}' :: cs) := by
      rw [start, Toml.joinBreaks_visible visible]
      exact Toml.passes_skipBlanks.visible visible noComment _
    have ends : Toml.Ends (joinBreaks rest ++ joinBreaks ((back ++ [' ']) ++ '}' :: cs)) := by
      rcases closes_or_stops Toml.passes_id done blank' cs with close | ⟨b, y, own, stopped⟩
      · rw [id] at close
        rw [close]
        exact Toml.ends_cons (by decide) _
      · rw [id] at stopped
        rw [stopped]
        exact Toml.ends_of_blank own y
    rw [passed, here] at toml
    obtain ⟨rfl, ls, lits, alike⟩ := agrees_readValue _ depth _ first ends toml
    rw [Json.literalsOf_typed lits done]
    refine ⟨fun c y found visible => ?_, alike⟩
    rcases closes_or_stops Toml.passes_skipBlanks done blank' cs with close | ⟨b, y', own, stopped⟩
    · cases found.symm.trans close
      exact ⟨rfl, rfl⟩
    · cases found.symm.trans stopped
      cases own.symm.trans visible
  · rw [stopped, Toml.readValue_blank own] at toml
    cases toml

/-- Entries of an inline table that start with one under a single key. -/
theorem readFields_eq_some {bound : Nat} {es : Bindings Draft}
    (read : readFields value bound [] (writeKey k ++ ' ' :: '=' :: ' ' :: cs) = some (es, r)) :
    ∃ w next, value (skipBlanks cs) = some (w, next) ∧
      (skipBlanks next = '}' :: r ∧ es = [(k, .value w)] ∨ ∃ behind, skipBlanks next = ',' :: behind) := by
  cases bound with
  | zero => cases read
  | succ bound =>
    rw [readFields, Toml.readEntry_writeKey] at read
    cases item : value (skipBlanks cs) with
    | none =>
      rw [item] at read
      cases read
    | some p =>
      obtain ⟨w, next⟩ := p
      refine ⟨w, next, rfl, ?_⟩
      rw [item] at read
      have added : Draft.addEntry k w [] [] = some [(k, .value w)] := rfl
      simp only [Option.map_some, Option.bind_eq_bind, Option.bind_some, added] at read
      split at read
      · next close =>
        cases read
        exact .inl ⟨close, rfl⟩
      · next behind comma => exact .inr ⟨behind, comma⟩
      · cases read

theorem exists_readFields (read : readInline value (' ' :: (writeKey k ++ cs)) = some (w, r)) :
    ∃ es, readFields value (writeKey k ++ cs).length [] (writeKey k ++ cs) = some (es, r) ∧
      w = .table (Draft.closeEntries es) := by
  obtain ⟨c, cs', key, starts⟩ := Toml.writeKey_starts k
  have brace : c ≠ '}' := starts.ne (by decide) (by decide) (by decide)
  rw [readInline, Toml.skipBlanks_blank, Toml.skipBlanks_writeKey] at read
  split at read
  · next close =>
    rw [key] at close
    exact absurd (List.cons.inj close).1 brace
  · obtain ⟨⟨es, r'⟩, fields, same⟩ := Option.map_eq_some_iff.1 read
    cases same
    exact ⟨es, fields, rfl⟩

/-- A key that is written as it is. -/
def IsBareKey (k : String) : Prop :=
  k.toList ≠ [] ∧ k.toList.all Toml.isBare = true

theorem IsBareKey.writeKey (bare : IsBareKey k) : writeKey k = k.toList :=
  if_pos bare

theorem toList_offerLine (k t : String) :
    (offerLine k t).toList =
      "capabilities = [\x7b ".toList ++ (k.toList ++ ([' ', '=', ' '] ++ (t.toList ++ [' ', '}', ']']))) := by
  have join : ∀ a b c d e : String, (a ++ b ++ c ++ d ++ e).toList =
      a.toList ++ (b.toList ++ (c.toList ++ (d.toList ++ e.toList))) := by simp
  exact join _ _ _ _ _

theorem joinBreaks_offerLine (bare : IsBareKey k) (post : List Char) :
    joinBreaks ((offerLine k t).toList ++ post) =
      writeKey "capabilities" ++ ' ' :: '=' :: ' ' :: '[' :: '{' :: ' ' ::
        (writeKey k ++ ' ' :: '=' :: ' ' :: joinBreaks (t.toList ++ ' ' :: '}' :: ']' :: post)) := by
  have head : "capabilities = [\x7b ".toList =
      writeKey "capabilities" ++ [' ', '=', ' ', '[', '{', ' '] := rfl
  have front : '\r' ∉ "capabilities = [\x7b ".toList := by decide
  have key : '\r' ∉ k.toList := by
    intro mem
    have own := List.all_eq_true.1 bare.2 _ mem
    revert own
    decide
  rw [toList_offerLine, bare.writeKey]
  rw [head] at front ⊢
  generalize writeKey "capabilities" = name at front ⊢
  have split : name ++ [' ', '=', ' ', '[', '{', ' '] ++
      (k.toList ++ ([' ', '=', ' '] ++ (t.toList ++ [' ', '}', ']']))) ++ post =
        (name ++ [' ', '=', ' ', '[', '{', ' '] ++ (k.toList ++ [' ', '=', ' '])) ++
          (t.toList ++ ' ' :: '}' :: ']' :: post) := by simp
  have absent : '\r' ∉ name ++ [' ', '=', ' ', '[', '{', ' '] ++ (k.toList ++ [' ', '=', ' ']) := by
    intro mem
    rcases List.mem_append.1 mem with mem | mem
    · exact front mem
    · simp [key] at mem
  rw [split, Toml.joinBreaks_append absent]
  simp

/-- An array of one inline table with one entry under a single key. -/
theorem readValue_offer {array : Toml} {post : List Char} (json : Json.read (typedText t) = some v)
    (read : Toml.readValue (depth + 2) ('[' :: '{' :: ' ' ::
      (writeKey k ++ ' ' :: '=' :: ' ' :: joinBreaks (t.toList ++ ' ' :: '}' :: ']' :: post))) =
        some (array, r)) :
    ∃ w, array = .array [.table [(k, w)]] ∧
      (v.same w.toJson = true ↔ ∀ l ∈ literalsOf (typedText t), l.ReadAlike) := by
  rw [Toml.readValue] at read
  obtain ⟨⟨ws, r'⟩, items, same⟩ := Option.map_eq_some_iff.1 read
  cases same
  have visible : ∀ cs, skipLines false ('{' :: cs) = '{' :: cs :=
    Toml.passes_skipLines.visible (by decide) (by decide)
  rcases Toml.readItems_eq_some items with ⟨close, -⟩ | ⟨table, next, item, others⟩
  · rw [visible] at close
    cases close
  · rw [visible, Toml.readValue] at item
    obtain ⟨es, fields, rfl⟩ := exists_readFields item
    obtain ⟨w, behind, value, ends⟩ := readFields_eq_some fields
    obtain ⟨closes, alike⟩ := agrees_typed json value
    rcases ends with ⟨close, rfl⟩ | ⟨more, comma⟩
    · obtain ⟨-, rfl⟩ := closes _ _ close (by decide)
      refine ⟨w, ?_, alike⟩
      have bracket : skipLines false (joinBreaks (']' :: post)) = ']' :: joinBreaks post := by
        rw [Toml.joinBreaks_visible (by decide)]
        exact Toml.passes_skipLines.visible (by decide) (by decide) _
      rw [bracket] at others
      rcases others with ⟨-, rfl⟩ | ⟨_, _, comma, -⟩
      · rfl
      · cases comma
    · cases (closes _ _ comma (by decide)).1

/-- **Lines.** The line is an entry with a table of the one value that JSON reads as well. -/
theorem readStatement_offerLine (bare : IsBareKey k) (json : Json.read (typedText t) = some v)
    {post : List Char} {s : Statement}
    (read : readStatement (joinBreaks ((offerLine k t).toList ++ post)) = some (s, r)) :
    ∃ w, s = .entry ⟨[], "capabilities"⟩ (.array [.table [(k, w)]]) ∧
      (v.same w.toJson = true ↔ ∀ l ∈ literalsOf (typedText t), l.ReadAlike) := by
  have entry : ∀ cs, readStatement (writeKey "capabilities" ++ ' ' :: '=' :: ' ' :: cs) =
      (Toml.readEntry (Toml.readValue Toml.maxDepth) (writeKey "capabilities" ++ ' ' :: '=' :: ' ' :: cs)).map
        fun p => (.entry p.1.1 p.1.2, p.2) := fun _ => rfl
  rw [joinBreaks_offerLine bare, entry, Toml.readEntry_writeKey, Option.map_map,
    Toml.skipBlanks_cons (by decide)] at read
  obtain ⟨⟨array, next⟩, value, same⟩ := Option.map_eq_some_iff.1 read
  cases same
  obtain ⟨w, rfl, alike⟩ := readValue_offer json value
  exact ⟨w, rfl, alike⟩

end Line

end SessionGrid
