import SessionGrid.Proofs.Json.Reading
import SessionGrid.Proofs.Literals.Number
import SessionGrid.Proofs.Literals.Quoted
import SessionGrid.Proofs.Toml.Reading
import SessionGrid.Proofs.Toml.Value

/-!
# Values in both formats

Where both formats read a value at the same place, they stop at the same place, and the values are the same
exactly if all number literals in the text are read alike (`agrees_readValue`). TOML does not have `null`
and separates the fields of an object in its own way, so that an object that both formats read is empty.
Blanks that only JSON passes over, and line breaks where TOML has none, stop TOML before the next part
(`Passes.over`).
-/

namespace SessionGrid

open Text

namespace Json

/-- The number literals of the value at the front, from left to right. -/
def literals : Nat → Reader (List Literal)
  | depth + 1, '[' :: cs => (items (literals depth) cs).map fun (ls, rest) => (ls.flatten, rest)
  | depth + 1, '{' :: cs =>
    fields readString
      (fun _ ls cs => (literals depth cs).map fun (ls', rest) => (ls ++ ls', rest)) [] cs
  | _, cs =>
    match Literal.read cs with
    | some (l, rest) => some ([l], rest)
    | none => (readScalar cs).map fun (_, rest) => ([], rest)

/-- The number literals of a text, from left to right. -/
def literalsOf (t : String) : List Literal :=
  (whole (literals maxDepth) t).getD []

theorem isBlank_of_isSpace {c : Char} (space : isSpace c = true) : isBlank c = true := by
  simp only [isSpace, Bool.or_eq_true, beq_iff_eq] at space
  rcases space with ((rfl | rfl) | rfl) | rfl <;> decide

/-- What is skipped are blanks. -/
theorem exists_blanks (cs : List Char) :
    ∃ blanks, cs = blanks ++ skip cs ∧ ∀ b ∈ blanks, isBlank b = true :=
  ⟨cs.takeWhile isSpace, List.takeWhile_append_dropWhile.symm,
    fun _ mem => isBlank_of_isSpace (List.mem_takeWhile_imp mem)⟩

/-- How the value at the front of a text starts. -/
theorem exists_cons_of_readValue {depth : Nat} {cs rest : List Char} {v : Json}
    (read : readValue depth cs = some (v, rest)) :
    ∃ c cs', cs = c :: cs' ∧ isBlank c = false ∧ c ≠ '#' ∧ c ≠ ']' := by
  cases readValue_readAs read with
  | null text => exact ⟨_, _, text, by decide⟩
  | bool b text => cases b <;> exact ⟨_, _, text, by decide⟩
  | string string =>
    obtain ⟨inner, -, text, -⟩ := readString_eq_some string
    exact ⟨_, _, text, by decide⟩
  | number literal =>
    obtain ⟨c, cs', text, numeral⟩ := exists_cons_of_read literal
    refine ⟨c, cs', text, numeral.not_blank, ?_, ?_⟩ <;> rintro rfl <;> revert numeral <;> simp [IsNumeral]
  | array _ text => exact ⟨_, _, text, by decide⟩
  | object _ text => exact ⟨_, _, text, by decide⟩

end Json

namespace Toml

/-! ## Blanks -/

section Blanks

variable {skipper : List Char → List Char} {blanks cs x : List Char} {c : Char}

theorem joinBreaks_keep {b : Char} (apart : ¬ (b = '\r' ∧ cs.head? = some '\n')) :
    joinBreaks (b :: cs) = b :: joinBreaks cs := by
  rw [joinBreaks]
  rintro cs' rfl rfl
  exact apart ⟨rfl, rfl⟩

/-- A carriage return before a line feed is dropped. -/
theorem joinBreaks_drop {b : Char} (feed : b = '\r' ∧ cs.head? = some '\n') :
    joinBreaks (b :: cs) = joinBreaks cs := by
  obtain ⟨rfl, head⟩ := feed
  obtain ⟨cs', rfl⟩ := List.head?_eq_some_iff.1 head
  rw [joinBreaks, joinBreaks_cons (by decide)]

/-- Two texts are joined apart unless a line break is made of both. -/
theorem joinBreaks_append_of {y : List Char} (apart : ¬ (cs.getLast? = some '\r' ∧ y.head? = some '\n')) :
    joinBreaks (cs ++ y) = joinBreaks cs ++ joinBreaks y := by
  induction cs with
  | nil => rfl
  | cons c cs ih =>
    cases cs with
    | nil =>
      rw [List.singleton_append, joinBreaks_keep (by simpa using apart), joinBreaks_keep (by simp)]
      rfl
    | cons d cs =>
      have later := ih (by simpa using apart)
      have head : (d :: cs ++ y).head? = (d :: cs).head? := rfl
      rw [List.cons_append]
      by_cases feed : c = '\r' ∧ (d :: cs).head? = some '\n'
      · rw [joinBreaks_drop (head ▸ feed), joinBreaks_drop feed, later]
      · rw [joinBreaks_keep (head ▸ feed), joinBreaks_keep feed, later, List.cons_append]

theorem joinBreaks_visible (visible : Text.isBlank c = false) (cs : List Char) :
    joinBreaks (c :: cs) = c :: joinBreaks cs := by
  apply joinBreaks_cons
  rintro rfl
  cases visible

/-- Passes over some blanks and over comments. -/
structure Passes (skipper : List Char → List Char) : Prop where
  blank : ∀ {b}, Text.isBlank b = true → ∀ cs,
    skipper (b :: cs) = skipper cs ∨ skipper (b :: cs) = b :: cs
  visible : ∀ {c}, Text.isBlank c = false → c ≠ '#' → ∀ cs, skipper (c :: cs) = c :: cs

theorem not_blank (visible : Text.isBlank c = false) : isBlank c = false := by
  refine Bool.eq_false_iff.2 fun blank => ?_
  rcases Bool.or_eq_true_iff.1 blank with own | own
  all_goals
    rw [eq_of_beq own] at visible
    cases visible

theorem passes_skipBlanks : Passes skipBlanks where
  blank := by
    intro b _ cs
    rw [skipBlanks, List.dropWhile_cons]
    split
    · exact .inl rfl
    · exact .inr rfl
  visible visible _ cs := skipBlanks_cons (not_blank visible) cs

/-- Line ends are passed over as well. -/
theorem passes_skipLines : Passes (skipLines false) where
  blank := by
    intro b blank cs
    have noComment : b ≠ '#' := by
      rintro rfl
      cases blank
    rw [skipLines]
    split
    · exact .inl rfl
    · rw [if_neg (by simp)]
      split
      · exact .inl rfl
      · exact .inr (if_neg (by simp [noComment]))
  visible := by
    intro c visible noComment cs
    have lineFeed : c ≠ '\n' := by
      rintro rfl
      cases visible
    rw [skipLines]
    simp [lineFeed, noComment, not_blank visible]

/-- All blanks are passed over, or TOML stops at one of them. -/
theorem Passes.over (passes : Passes skipper) (blank : ∀ b ∈ blanks, Text.isBlank b = true)
    (y : List Char) :
    skipper (joinBreaks blanks ++ y) = skipper y ∨
      ∃ b r, Text.isBlank b = true ∧ skipper (joinBreaks blanks ++ y) = b :: r := by
  induction blanks with
  | nil => exact .inl rfl
  | cons b blanks ih =>
    have later := ih fun d mem => blank d (List.mem_cons_of_mem b mem)
    have own := blank b List.mem_cons_self
    by_cases feed : b = '\r' ∧ blanks.head? = some '\n'
    · rw [joinBreaks_drop feed]
      exact later
    · rw [joinBreaks_keep feed, List.cons_append]
      rcases passes.blank own (joinBreaks blanks ++ y) with passed | stopped
      · rw [passed]
        exact later
      · exact .inr ⟨b, _, own, stopped⟩

/-- So it is with blanks before a visible character. -/
theorem Passes.over_visible (passes : Passes skipper) (blank : ∀ b ∈ blanks, Text.isBlank b = true)
    (visible : Text.isBlank c = false) (noComment : c ≠ '#') :
    skipper (joinBreaks (blanks ++ c :: cs) ++ x) = joinBreaks (c :: cs) ++ x ∨
      ∃ b r, Text.isBlank b = true ∧ skipper (joinBreaks (blanks ++ c :: cs) ++ x) = b :: r := by
  have lineFeed : c ≠ '\n' := by
    rintro rfl
    cases visible
  have first := passes.over blank (joinBreaks (c :: cs) ++ x)
  rw [joinBreaks_append_of (by simp [lineFeed]), List.append_assoc]
  rw [joinBreaks_visible visible, List.cons_append, passes.visible visible noComment] at first
  rwa [joinBreaks_visible visible]

variable {rest r : List Char}

theorem passes_id : Passes id where
  blank _ _ := .inr rfl
  visible _ _ _ := rfl

/-- TOML passes over blanks as JSON does, or stops at one of them. -/
theorem Passes.of_skip (passes : Passes skipper) (behind : Json.skip cs = c :: rest)
    (visible : Text.isBlank c = false) (noComment : c ≠ '#') (x : List Char) :
    skipper (joinBreaks cs ++ x) = joinBreaks (Json.skip cs) ++ x ∨
      ∃ b r, Text.isBlank b = true ∧ skipper (joinBreaks cs ++ x) = b :: r := by
  obtain ⟨blanks, text, blank⟩ := Json.exists_blanks cs
  rw [behind] at text ⊢
  rw [text]
  exact passes.over_visible blank visible noComment

/-- What TOML finds behind blanks, if it is visible, is what JSON finds there. -/
theorem Passes.eq_of_skip (passes : Passes skipper) (behind : Json.skip cs = c :: rest)
    (visible : Text.isBlank c = false) (noComment : c ≠ '#') {d : Char}
    (found : skipper (joinBreaks cs ++ x) = d :: r) (visible' : Text.isBlank d = false) :
    d = c ∧ r = joinBreaks rest ++ x := by
  rcases passes.of_skip behind visible noComment x with passed | ⟨b, r', blank, stopped⟩
  · rw [behind, joinBreaks_visible visible] at passed
    cases found.symm.trans passed
    exact ⟨rfl, rfl⟩
  · cases found.symm.trans stopped
    cases blank.symm.trans visible'

theorem ends_of_blank (blank : Text.isBlank c = true) (cs : List Char) : Ends (c :: cs) := by
  obtain ⟨token, other⟩ := blank_apart blank
  exact ends_cons ⟨token, fun same => other (by simp [same]), fun same => other (by simp [same])⟩ cs

end Blanks

end Toml

/-! ## Items -/

section Items

open Json (Literal literals skip moreItems items sameItems)
open Toml (joinBreaks skipLines skipBlanks readItems)

variable {depth depth' : Nat} {cs rest x r : List Char} {c : Char} {v : Json} {w : Toml}

/-- Where both formats read a value, they stop at the same place, and the values are the same exactly if
all literals are read alike. The JSON text goes on with `x` for TOML. -/
def Agrees (depth depth' : Nat) (x : List Char) : Prop :=
  ∀ {cs rest v w r}, Json.readValue depth cs = some (v, rest) → Toml.Ends (joinBreaks rest ++ x) →
    Toml.readValue depth' (joinBreaks cs ++ x) = some (w, r) →
    r = joinBreaks rest ++ x ∧ ∃ ls, literals depth cs = some (ls, rest) ∧
      (v.same w.toJson = true ↔ ∀ l ∈ ls, l.ReadAlike)

/-- In front of a character that ends a value, with blanks between or not, no value goes on. -/
theorem ends_of_skip (behind : skip cs = c :: rest) (stop : c = ']' ∨ c = ',' ∨ c = '}')
    (x : List Char) : Toml.Ends (joinBreaks cs ++ x) := by
  have apart : isBlank c = false ∧ c ≠ '#' ∧ Toml.isTokenChar c = false ∧ c ≠ '"' ∧ c ≠ '\'' := by
    rcases stop with rfl | rfl | rfl <;> decide
  have first := Toml.passes_id.of_skip behind apart.1 apart.2.1 x
  rw [id, behind, Toml.joinBreaks_visible apart.1] at first
  rcases first with first | ⟨b, r, blank, first⟩
  · rw [first]
    exact Toml.ends_cons apart.2.2 _
  · rw [first]
    exact Toml.ends_of_blank blank r

/-- Where TOML stops at a blank, it reads no item. -/
theorem readItems_stopped {b : Char} {bound : Nat} (blank : isBlank b = true)
    (stopped : skipLines false cs = b :: r) : readItems (Toml.readValue depth') bound cs = none := by
  cases read : readItems (Toml.readValue depth') bound cs with
  | none => rfl
  | some p =>
    exfalso
    obtain ⟨ws, r'⟩ := p
    cases bound with
    | zero => cases read
    | succ bound =>
      rcases Toml.readItems_eq_some read with ⟨close, -⟩ | ⟨w, next, first, -⟩
      · rw [stopped] at close
        cases close
        cases blank
      · rw [stopped, Toml.readValue_blank blank] at first
        cases first

theorem exists_cons_of_moreItems {bound : Nat} {vs : List Json}
    (read : moreItems (Json.readValue depth) bound cs = some (vs, rest)) :
    ∃ c cs', cs = c :: cs' ∧ isBlank c = false ∧ c ≠ '#' ∧ c ≠ ']' := by
  cases bound with
  | zero => cases read
  | succ bound =>
    obtain ⟨v, next, first, -⟩ := Json.moreItems_eq_some read
    exact Json.exists_cons_of_readValue first

/-- Items that both formats read are the same exactly if their literals are read alike. -/
theorem Agrees.moreItems (agrees : Agrees depth depth' x) {bound bound' : Nat} {vs : List Json}
    {ws : List Toml} {cs' : List Char}
    (json : moreItems (Json.readValue depth) bound cs = some (vs, rest))
    (same : skipLines false cs' = joinBreaks cs ++ x)
    (toml : readItems (Toml.readValue depth') bound' cs' = some (ws, r)) :
    r = joinBreaks rest ++ x ∧ ∃ lss, Json.moreItems (literals depth) bound cs = some (lss, rest) ∧
      (sameItems vs (Toml.itemsToJson ws) = true ↔ ∀ l ∈ lss.flatten, l.ReadAlike) := by
  have lines := Toml.passes_skipLines
  induction bound generalizing bound' cs cs' vs ws with
  | zero => cases json
  | succ bound ih =>
    cases bound' with
    | zero => cases toml
    | succ bound' =>
      obtain ⟨v, next, first, more⟩ := Json.moreItems_eq_some json
      rcases Toml.readItems_eq_some toml with ⟨close, -⟩ | ⟨w, next', first', more'⟩
      · obtain ⟨c, inner, rfl, visible, -, open_⟩ := Json.exists_cons_of_readValue first
        rw [same, Toml.joinBreaks_visible visible] at close
        exact absurd (List.cons.inj close).1 open_
      rw [same] at first'
      rcases more with ⟨close, rfl⟩ | ⟨behind, vs', comma, others, rfl⟩
      · obtain ⟨rfl, ls, lits, alike⟩ := agrees first (ends_of_skip close (.inl rfl) x) first'
        rcases more' with ⟨close', rfl⟩ | ⟨behind', ws', comma', -, -⟩
        · refine ⟨(lines.eq_of_skip close (by decide) (by decide) close' (by decide)).2, [ls], ?_, ?_⟩
          · simp [Json.moreItems, lits, close]
          · simpa [sameItems, Toml.itemsToJson] using alike
        · cases (lines.eq_of_skip close (by decide) (by decide) comma' (by decide)).1
      · obtain ⟨rfl, ls, lits, alike⟩ := agrees first (ends_of_skip comma (.inr (.inl rfl)) x) first'
        rcases more' with ⟨close', -⟩ | ⟨behind', ws', comma', others', rfl⟩
        · cases (lines.eq_of_skip comma (by decide) (by decide) close' (by decide)).1
        · rw [(lines.eq_of_skip comma (by decide) (by decide) comma' (by decide)).2] at others'
          obtain ⟨c, inner, start, visible, noComment, -⟩ := exists_cons_of_moreItems others
          rcases lines.of_skip start visible noComment x with passed | ⟨b, r', blank, stopped⟩
          · obtain ⟨left, lss, lits', alikes⟩ := ih others passed others'
            refine ⟨left, ls :: lss, ?_, ?_⟩
            · simp [Json.moreItems, lits, comma, lits']
            · simp [sameItems, Toml.itemsToJson, alike, alikes, or_imp, forall_and]
          · rw [readItems_stopped blank stopped] at others'
            cases others'

theorem Agrees.items (agrees : Agrees depth depth' x) {bound : Nat} {vs : List Json} {ws : List Toml}
    (json : items (Json.readValue depth) cs = some (vs, rest))
    (toml : readItems (Toml.readValue depth') bound (joinBreaks cs ++ x) = some (ws, r)) :
    r = joinBreaks rest ++ x ∧ ∃ lss, Json.items (literals depth) cs = some (lss, rest) ∧
      (sameItems vs (Toml.itemsToJson ws) = true ↔ ∀ l ∈ lss.flatten, l.ReadAlike) := by
  have lines := Toml.passes_skipLines
  rcases Json.items_eq_some json with ⟨close, rfl⟩ | more
  · cases bound with
    | zero => cases toml
    | succ bound =>
      rcases Toml.readItems_eq_some toml with ⟨close', rfl⟩ | ⟨w, next, first, -⟩
      · refine ⟨(lines.eq_of_skip close (by decide) (by decide) close' (by decide)).2, [], ?_, ?_⟩
        · simp [Json.items, close]
        · simp [sameItems, Toml.itemsToJson]
      · rcases lines.of_skip close (by decide) (by decide) x with passed | ⟨b, r', blank, stopped⟩
        · rw [passed, close, Toml.joinBreaks_visible (by decide), List.cons_append,
            Toml.readValue_of_other (by decide) (by decide)] at first
          cases first
        · rw [stopped, Toml.readValue_blank blank] at first
          cases first
  · obtain ⟨c, inner, start, visible, noComment, open_⟩ := exists_cons_of_moreItems more
    rcases lines.of_skip start visible noComment x with passed | ⟨b, r', blank, stopped⟩
    · obtain ⟨left, lss, lits, alike⟩ := agrees.moreItems more passed toml
      refine ⟨left, lss, ?_, alike⟩
      rw [start] at lits
      simp [Json.items, start, open_, ← lits]
    · rw [readItems_stopped blank stopped] at toml
      cases toml

end Items

/-! ## Objects -/

section Objects

open Json (fields readString skip)
open Toml (Path joinBreaks readEntry readInline)

variable {σ : Type} {cs rest x r : List Char} {field : String → σ → Reader σ} {s s' : σ} {w : Toml}
  {value : Reader Toml}

theorem quote_of_moreFields {bound : Nat}
    (read : Json.moreFields readString field bound s cs = some (s', rest)) :
    ∃ inner, cs = '"' :: inner := by
  cases bound with
  | zero => cases read
  | succ bound =>
    obtain ⟨k, next, behind, s₁, next', name, -⟩ := Json.moreFields_eq_some read
    obtain ⟨inner, t, text, -⟩ := Json.readString_eq_some name
    exact ⟨inner, text⟩

/-- No entry of an inline table starts where JSON reads a field: behind the name comes a colon. -/
theorem readEntry_of_field {entry : Path × Toml} {bound : Nat}
    (json : Json.moreFields readString field bound s cs = some (s', rest))
    (toml : readEntry value (joinBreaks cs ++ x) = some (entry, r)) : False := by
  cases bound with
  | zero => cases json
  | succ bound =>
    obtain ⟨k, next, behind, s₁, next', name, colon, -⟩ := Json.moreFields_eq_some json
    obtain ⟨inner, t, rfl, tail, -⟩ := Json.readString_eq_some name
    obtain ⟨key, left, c, first, head, sign⟩ := Toml.readEntry_eq_some toml
    rw [Toml.joinBreaks_cons (by decide), List.cons_append, Toml.skipBlanks_cons (by decide),
      Toml.readKey_of_quote (by decide)] at first
    obtain ⟨⟨t', left'⟩, line, same⟩ := Option.map_eq_some_iff.1 first
    cases same
    obtain ⟨-, rfl⟩ := Toml.escapedTail_of_stringTail tail line
    obtain ⟨y, found⟩ := List.head?_eq_some_iff.1 head
    have visible : isBlank c = false := by rcases sign with rfl | rfl <;> decide
    have same := (Toml.passes_skipBlanks.eq_of_skip colon (by decide) (by decide) found visible).1
    rcases sign with rfl | rfl <;> cases same

/-- An object that is read as an inline table has no fields. -/
theorem fields_of_readInline (json : fields readString field s cs = some (s', rest))
    (toml : readInline value (joinBreaks cs ++ x) = some (w, r)) :
    skip cs = '}' :: rest ∧ s' = s ∧ w = .table [] ∧ r = joinBreaks rest ++ x := by
  have blanks := Toml.passes_skipBlanks
  rcases Json.fields_eq_some json with ⟨close, rfl⟩ | more
  · refine ⟨close, rfl, ?_⟩
    rcases Toml.readInline_eq_some toml with ⟨close', rfl⟩ | ⟨entry, next, first⟩
    · exact ⟨rfl, (blanks.eq_of_skip close (by decide) (by decide) close' (by decide)).2⟩
    · exfalso
      obtain ⟨key, left, c, first, -⟩ := Toml.readEntry_eq_some first
      rw [Toml.skipBlanks_skipBlanks] at first
      rcases blanks.of_skip close (by decide) (by decide) x with passed | ⟨b, y, blank, stopped⟩
      · rw [passed, close, Toml.joinBreaks_visible (by decide), List.cons_append,
          Toml.readKey_of_other (by decide) (by decide) (by decide)] at first
        cases first
      · rw [stopped, Toml.readKey_blank blank] at first
        cases first
  · exfalso
    obtain ⟨inner, start⟩ := quote_of_moreFields more
    rcases Toml.readInline_eq_some toml with ⟨close', -⟩ | ⟨entry, next, first⟩
    · cases (blanks.eq_of_skip start (by decide) (by decide) close' (by decide)).1
    · rcases blanks.of_skip start (by decide) (by decide) x with passed | ⟨b, y, blank, stopped⟩
      · rw [passed] at first
        exact readEntry_of_field more first
      · obtain ⟨key, left, c, first, -⟩ := Toml.readEntry_eq_some first
        rw [Toml.skipBlanks_skipBlanks, stopped, Toml.readKey_blank blank] at first
        cases first

end Objects

/-! ## Values -/

section Values

open Json (Literal literals)
open Toml (joinBreaks)

variable {depth depth' : Nat} {cs rest x r : List Char} {c : Char} {l : Literal} {v : Json}

theorem literals_of_literal (read : Literal.read cs = some (l, rest)) :
    literals depth cs = some ([l], rest) := by
  obtain ⟨c, cs, rfl, numeral⟩ := Json.exists_cons_of_read read
  have array : c ≠ '[' := by
    rintro rfl
    revert numeral
    simp [Json.IsNumeral]
  have object : c ≠ '{' := by
    rintro rfl
    revert numeral
    simp [Json.IsNumeral]
  simp [literals, array, object, read]

/-- What is no number, array or object has no literals. -/
theorem literals_of_other (read : Json.readValue depth (c :: cs) = some (v, rest))
    (other : c = 'n' ∨ c = 't' ∨ c = 'f' ∨ c = '"') : literals depth (c :: cs) = some ([], rest) := by
  have noLiteral : Literal.read (c :: cs) = none := by
    apply Literal.read_cons_of_not_digit
    all_goals rcases other with rfl | rfl | rfl | rfl <;> decide
  have array : c ≠ '[' := by rcases other with rfl | rfl | rfl | rfl <;> decide
  have object : c ≠ '{' := by rcases other with rfl | rfl | rfl | rfl <;> decide
  have scalar : Json.readScalar (c :: cs) = some (v, rest) := by
    rwa [Json.readValue_of_other (by simpa using array) (by simpa using object)] at read
  simp [literals, array, object, noLiteral, scalar]

/-- A token that is no date is read alone. -/
theorem tokenValue?_of_readValue {token : List Char} {w : Toml}
    (start : ∃ c cs, token = c :: cs ∧ Toml.isTokenChar c = true)
    (chars : ∀ c ∈ token, Toml.isTokenChar c = true) (date : DateTime.readDate token = none)
    (ends : Toml.Ends (joinBreaks rest ++ x))
    (read : Toml.readValue depth (joinBreaks (token ++ rest) ++ x) = some (w, r)) :
    Toml.tokenValue? token = some w ∧ r = joinBreaks rest ++ x := by
  have absent : '\r' ∉ token := by
    intro mem
    have own := chars _ mem
    revert own
    decide
  rw [Toml.joinBreaks_append absent, List.append_assoc, Toml.readValue_token depth start,
    Toml.readToken_append chars (fun c head => (ends c head).1) date] at read
  obtain ⟨w', value, same⟩ := Option.map_eq_some_iff.1 read
  cases same
  exact ⟨value, rfl⟩

/-- **Values.** Both formats read values alike but for their number literals. -/
theorem agrees_readValue (depth depth' : Nat) (x : List Char) : Agrees depth depth' x := by
  induction depth using Nat.strongRecOn generalizing depth' with
  | ind depth ih =>
    intro cs rest v w r json ends toml
    cases Json.readValue_readAs json with
    | null text =>
      subst text
      obtain ⟨value, -⟩ := tokenValue?_of_readValue ⟨_, _, rfl, by decide⟩
        (List.all_eq_true.1 (by decide)) (by decide) ends toml
      cases value
    | bool b text =>
      subst text
      cases b
      all_goals
        obtain ⟨value, rfl⟩ := tokenValue?_of_readValue ⟨_, _, rfl, by decide⟩
          (List.all_eq_true.1 (by decide)) (by decide) ends toml
        cases value
        refine ⟨rfl, [], literals_of_other json (by simp), ?_⟩
        exact iff_of_true (Json.bool_same_iff.2 rfl) nofun
    | @string s string =>
      obtain ⟨inner, t, rfl, tail, rfl⟩ := Json.readString_eq_some string
      rw [Toml.joinBreaks_cons (by decide), List.cons_append, Toml.readValue] at toml
      obtain ⟨⟨t', r'⟩, read, same⟩ := Option.map_eq_some_iff.1 toml
      cases same
      obtain ⟨rfl, rfl⟩ := Toml.read_of_stringTail tail (fun head => (ends _ head).2.1 rfl) read
      refine ⟨rfl, [], literals_of_other json (by simp), ?_⟩
      exact iff_of_true (Json.string_same_iff.2 rfl) nofun
    | @number l n literal value =>
      obtain ⟨point, power, spelled, text⟩ := Literal.spelled_of_read literal
      have text : cs = Toml.signed l.negative (l.whole ++ (point ++ power)) ++ rest := by
        rw [text]
        cases l.negative <;> rfl
      rw [text] at toml
      obtain ⟨read, rfl⟩ :=
        tokenValue?_of_readValue spelled.starts spelled.tokenChars spelled.readDate ends toml
      refine ⟨rfl, [l], literals_of_literal literal, ?_⟩
      rw [List.forall_mem_singleton]
      exact Literal.same_iff_readAlike spelled value read
    | @array d inner vs deeper text items =>
      subst deeper text
      rw [Toml.joinBreaks_cons (by decide), List.cons_append] at toml
      cases depth' with
      | zero =>
        rw [Toml.readValue_zero (.inl rfl)] at toml
        cases toml
      | succ d' =>
        rw [Toml.readValue] at toml
        obtain ⟨⟨ws, r'⟩, read, same⟩ := Option.map_eq_some_iff.1 toml
        cases same
        have inner : Agrees d d' x := ih d (Nat.lt_succ_self d) d'
        obtain ⟨rfl, lss, lits, alike⟩ := inner.items items read
        refine ⟨rfl, lss.flatten, ?_, ?_⟩
        · rw [literals, lits, Option.map_some]
        · simpa [Json.same, Toml.toJson] using alike
    | @object d inner fs deeper text fields =>
      subst deeper text
      rw [Toml.joinBreaks_cons (by decide), List.cons_append] at toml
      cases depth' with
      | zero =>
        rw [Toml.readValue_zero (.inr rfl)] at toml
        cases toml
      | succ d' =>
        rw [Toml.readValue] at toml
        obtain ⟨close, rfl, rfl, rfl⟩ := fields_of_readInline fields toml
        refine ⟨rfl, [], ?_, ?_⟩
        · simp [literals, Json.fields, close]
        · simp [Json.same, Json.sameFields, Toml.toJson, Toml.fieldsToJson]

end Values

end SessionGrid
