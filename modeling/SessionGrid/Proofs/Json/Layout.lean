import SessionGrid.Proofs.Json.Number
import SessionGrid.Proofs.Json.Quoted
import SessionGrid.Proofs.Json.Tree
import SessionGrid.Proofs.Bindings

/-!
# Values are read back from either layout

The compact and the pretty text of a value differ in blanks only: `Layout` says where they stand, and
both texts are cases of one `Layout.write` (`compact_write`, `pretty_write`). The reader passes over
blanks between the parts, so that arrays and objects are read back if their parts are (`items_inner`,
`fields_inner`), and with them every value in order whose floats are read back (`reads_write`). A reader
that keeps all fields in the order of the text (`readAsWritten`) shows that they are written in the order
of the value.
-/

namespace SessionGrid.Json

open Text

/-- Where a layout leaves blanks. -/
structure Layout where
  /-- Before an item at a level, and before the bracket that closes the items. -/
  gap : Nat → List Char
  /-- Behind the colon of a field. -/
  colon : List Char
  gap_blank : ∀ level, ∀ c ∈ gap level, isSpace c = true
  colon_blank : ∀ c ∈ colon, isSpace c = true

namespace Layout

/-- Without a blank. -/
def compact : Layout where
  gap _ := []
  colon := []
  gap_blank _ := nofun
  colon_blank := nofun

/-- With one item a line. -/
def pretty : Layout where
  gap := newLine
  colon := [' ']
  gap_blank level c mem := by
    rcases List.mem_cons.1 mem with rfl | indent
    · rfl
    · rw [List.eq_of_mem_replicate indent]
      rfl
  colon_blank c mem := by
    rw [List.mem_singleton.1 mem]
    rfl

@[simp] theorem compact_gap (level : Nat) : compact.gap level = [] := rfl

@[simp] theorem compact_colon : compact.colon = [] := rfl

@[simp] theorem pretty_gap (level : Nat) : pretty.gap level = newLine level := rfl

@[simp] theorem pretty_colon : pretty.colon = [' '] := rfl

variable (l : Layout)

/-- The items behind the first one, and the closing bracket. -/
def later (close : Char) (level : Nat) : List (List Char) → List Char
  | [] => l.gap level ++ [close]
  | t :: ts => ',' :: (l.gap (level + 1) ++ (t ++ later close level ts))

/-- What follows an opening bracket: the items and the closing bracket. -/
def inner (close : Char) (level : Nat) : List (List Char) → List Char
  | [] => [close]
  | t :: ts => l.gap (level + 1) ++ (t ++ l.later close level ts)

def field (name : String) (text : List Char) : List Char :=
  quoted name ++ ':' :: (l.colon ++ text)

mutual

/-- The text of a value that stands at `level`. -/
def write (level : Nat) : Json → List Char
  | .null => ['n', 'u', 'l', 'l']
  | .bool true => ['t', 'r', 'u', 'e']
  | .bool false => ['f', 'a', 'l', 's', 'e']
  | .number n => writeNumber n
  | .string s => quoted s
  | .array xs => '[' :: l.inner ']' level (writeItems (level + 1) xs)
  | .object fs => '{' :: l.inner '}' level (writeFields (level + 1) fs)

def writeItems (level : Nat) : List Json → List (List Char)
  | [] => []
  | x :: xs => write level x :: writeItems level xs

def writeFields (level : Nat) : List (String × Json) → List (List Char)
  | [] => []
  | (k, x) :: fs => l.field k (write level x) :: writeFields level fs

end

/-! ## The two layouts -/

mutual

/-- **Compact.** The layout without blanks is the compact text. -/
theorem compact_write (level : Nat) : ∀ v, compact.write level v = v.writeCompact
  | .null => rfl
  | .bool true => rfl
  | .bool false => rfl
  | .number _ => rfl
  | .string _ => rfl
  | .array xs => by rw [write, writeCompact, compact_items]
  | .object fs => by rw [write, writeCompact, compact_fields]

theorem compact_items (level : Nat) :
    ∀ xs, compact.inner ']' level (compact.writeItems (level + 1) xs) = compactItems xs ++ [']']
  | [] => rfl
  | [x] => by simp [writeItems, inner, later, compactItems, compact_write]
  | x :: y :: xs => by
    have others := compact_items level (y :: xs)
    simp only [writeItems, inner, later, compactItems, compact_write, compact_gap,
      List.nil_append, List.append_assoc, List.cons_append] at others ⊢
    rw [others]

theorem compact_fields (level : Nat) :
    ∀ fs, compact.inner '}' level (compact.writeFields (level + 1) fs) = compactFields fs ++ ['}']
  | [] => rfl
  | [(k, x)] => by simp [writeFields, inner, later, field, compactFields, compact_write]
  | (k, x) :: (k', x') :: fs => by
    have others := compact_fields level ((k', x') :: fs)
    simp only [writeFields, inner, later, field, compactFields, compact_write, compact_gap,
      compact_colon, List.nil_append, List.append_assoc, List.cons_append] at others ⊢
    rw [others]

end

mutual

/-- **Pretty.** The layout of lines is the pretty text. -/
theorem pretty_write (level : Nat) : ∀ v, pretty.write level v = v.writePretty level
  | .null => rfl
  | .bool true => rfl
  | .bool false => rfl
  | .number _ => rfl
  | .string _ => rfl
  | .array [] => rfl
  | .array (x :: xs) => by rw [write, writePretty, pretty_items level (x :: xs) nofun]
  | .object [] => rfl
  | .object (f :: fs) => by rw [write, writePretty, pretty_fields level (f :: fs) nofun]

theorem pretty_items (level : Nat) :
    ∀ xs, xs ≠ [] → pretty.inner ']' level (pretty.writeItems (level + 1) xs) =
      prettyItems (level + 1) xs ++ newLine level ++ [']']
  | [], more => absurd rfl more
  | [x], _ => by simp [writeItems, inner, later, prettyItems, pretty_write]
  | x :: y :: xs, _ => by
    have others := pretty_items level (y :: xs) nofun
    simp only [writeItems, inner, later, prettyItems, pretty_write, pretty_gap,
      List.append_assoc, List.cons_append] at others ⊢
    rw [others]

theorem pretty_fields (level : Nat) :
    ∀ fs, fs ≠ [] → pretty.inner '}' level (pretty.writeFields (level + 1) fs) =
      prettyFields (level + 1) fs ++ newLine level ++ ['}']
  | [], more => absurd rfl more
  | [(k, x)], _ => by simp [writeFields, inner, later, field, prettyFields, pretty_write]
  | (k, x) :: (k', x') :: fs, _ => by
    have others := pretty_fields level ((k', x') :: fs) nofun
    simp only [writeFields, inner, later, field, prettyFields, pretty_write, pretty_gap,
      pretty_colon, List.append_assoc, List.cons_append, List.nil_append] at others ⊢
    rw [others]

end

end Layout

/-! ## Blanks -/

/-- The text of a value ends here. -/
def Ends (rest : List Char) : Prop :=
  ∀ c ∈ rest.head?, isSpace c = true ∨ c = ',' ∨ c = ']' ∨ c = '}'

theorem ends_nil : Ends [] := nofun

/-- A blank, a comma or a closing bracket ends a value. -/
theorem ends_cons {c : Char} (stop : isSpace c = true ∨ c = ',' ∨ c = ']' ∨ c = '}')
    (rest : List Char) : Ends (c :: rest) := by
  intro d head
  cases head
  exact stop

/-- What ends a value ends a number. -/
theorem Ends.literal {rest : List Char} (ends : Ends rest) : Literal.Ends rest := by
  intro c head
  rcases ends c head with space | rfl | rfl | rfl
  · simp only [isSpace, Bool.or_eq_true, beq_iff_eq] at space
    rcases space with ((rfl | rfl) | rfl) | rfl <;> decide
  all_goals decide

/-- Nothing is skipped in front of what can be seen. -/
theorem skip_cons {c : Char} (visible : isSpace c = false) (cs : List Char) :
    skip (c :: cs) = c :: cs := by
  rw [skip, List.dropWhile_cons, visible]
  rfl

/-- Blanks are skipped. -/
theorem skip_append {blanks : List Char} (blank : ∀ c ∈ blanks, isSpace c = true) (cs : List Char) :
    skip (blanks ++ cs) = skip cs :=
  List.dropWhile_append_of_pos blank

/-! ## Reading back -/

section Reading

variable {α β σ : Type} {reader item : Reader α} {text rest : List Char} {x : α}

/-- The reader takes the text off the front of what is to be read, with the value `x`. -/
structure Reads (reader : Reader α) (text : List Char) (x : α) : Prop where
  starts : ∃ c cs, text = c :: cs ∧ isSpace c = false ∧ c ≠ ']'
  read : ∀ {rest}, Ends rest → reader (text ++ rest) = some (x, rest)

/-- A text that is read back starts with something that can be seen. -/
theorem Reads.skip_eq (reads : Reads reader text x) (rest : List Char) :
    skip (text ++ rest) = text ++ rest := by
  obtain ⟨c, cs, rfl, visible, -⟩ := reads.starts
  exact skip_cons visible (cs ++ rest)

/-- What reads the same value of the text with whatever follows. -/
theorem Reads.of_read {reader' : Reader β} {y : β} (reads : Reads reader text x)
    (read : ∀ {rest}, reader (text ++ rest) = some (x, rest) →
      reader' (text ++ rest) = some (y, rest)) :
    Reads reader' text y :=
  ⟨reads.starts, fun ends => read (reads.read ends)⟩

variable (l : Layout)

/-- What follows an item is a comma, a blank or the bracket, and so ends it. -/
theorem Layout.later_ends {close : Char} (closes : close = ']' ∨ close = '}') (level : Nat)
    (ts : List (List Char)) (rest : List Char) : Ends (l.later close level ts ++ rest) := by
  have stop : isSpace close = true ∨ close = ',' ∨ close = ']' ∨ close = '}' := .inr (.inr closes)
  cases ts with
  | nil =>
    rw [later, List.append_assoc]
    cases gap : l.gap level with
    | nil => exact ends_cons stop rest
    | cons c cs => exact ends_cons (.inl (l.gap_blank level c (gap ▸ List.mem_cons_self))) _
  | cons t ts => exact ends_cons (.inr (.inl rfl)) _

/-- Each item takes a character at least, so the text bounds how many there are. -/
theorem Layout.length_lt_later (close : Char) (level : Nat) (ts : List (List Char)) :
    ts.length < (l.later close level ts).length := by
  induction ts with
  | nil => simp [later]
  | cons t ts ih =>
    simp only [later, List.length_cons, List.length_append]
    omega

/-- Behind the last item comes the bracket. -/
theorem Layout.skip_later_nil {close : Char} (visible : isSpace close = false) (level : Nat)
    (rest : List Char) : skip (l.later close level [] ++ rest) = close :: rest := by
  rw [later, List.append_assoc, skip_append (l.gap_blank level)]
  exact skip_cons visible rest

/-- Behind any other item comes a comma, and then the next one. -/
theorem Layout.skip_later_cons (close : Char) (level : Nat) (t : List Char) (ts : List (List Char))
    (rest : List Char) :
    skip (l.later close level (t :: ts) ++ rest) =
      ',' :: (l.gap (level + 1) ++ (t ++ (l.later close level ts ++ rest))) := by
  rw [later, List.cons_append, skip_cons (by decide)]
  simp only [List.append_assoc]

/-- Blanks before the first item. -/
theorem Layout.skip_inner_cons (close : Char) (level : Nat) (t : List Char) (ts : List (List Char))
    (rest : List Char) :
    skip (l.inner close level (t :: ts) ++ rest) = skip (t ++ (l.later close level ts ++ rest)) := by
  rw [inner, List.append_assoc, skip_append (l.gap_blank (level + 1)), List.append_assoc]

/-- **Items.** Items are read back one by one up to the bracket. -/
theorem moreItems_later {t : List Char} {ts : List (List Char)} {xs : List α}
    (first : Reads item t x) (others : List.Forall₂ (Reads item) ts xs) {bound : Nat}
    (le : ts.length < bound) (level : Nat) (rest : List Char) :
    moreItems item bound (t ++ (l.later ']' level ts ++ rest)) = some (x :: xs, rest) := by
  induction others generalizing t x bound with
  | nil =>
    obtain ⟨bound, rfl⟩ : ∃ b, bound = b + 1 := ⟨bound - 1, by omega⟩
    have close := l.skip_later_nil (show isSpace ']' = false by decide) level rest
    rw [moreItems, first.read (l.later_ends (.inl rfl) level [] rest)]
    simp [close]
  | @cons t' x' ts xs second others ih =>
    obtain ⟨bound, rfl⟩ : ∃ b, bound = b + 1 := ⟨bound - 1, by omega⟩
    have comma := l.skip_later_cons ']' level t' ts rest
    have blanks : skip (l.gap (level + 1) ++ (t' ++ (l.later ']' level ts ++ rest))) =
        t' ++ (l.later ']' level ts ++ rest) := by
      rw [skip_append (l.gap_blank (level + 1)), second.skip_eq]
    rw [moreItems, first.read (l.later_ends (.inl rfl) level (t' :: ts) rest)]
    simp [comma, blanks, ih second (Nat.lt_of_succ_lt_succ le)]

/-- **Arrays.** Items are read back from their texts, whatever blanks stand between them. -/
theorem items_inner {ts : List (List Char)} {xs : List α} (each : List.Forall₂ (Reads item) ts xs)
    (level : Nat) (rest : List Char) :
    items item (l.inner ']' level ts ++ rest) = some (xs, rest) := by
  cases each with
  | nil => rfl
  | @cons t x ts xs first others =>
    have blanks : skip (l.inner ']' level (t :: ts) ++ rest) =
        t ++ (l.later ']' level ts ++ rest) := by
      rw [l.skip_inner_cons, first.skip_eq]
    have enough : ts.length < (t ++ (l.later ']' level ts ++ rest)).length := by
      have short := l.length_lt_later ']' level ts
      simp only [List.length_append]
      omega
    rw [items, blanks]
    split
    · next same =>
      obtain ⟨c, cs, rfl, -, noBracket⟩ := first.starts
      cases same
      exact absurd rfl noBracket
    · exact moreItems_later l first others enough level rest

/-! ## Fields -/

/-- The reader takes in the texts of the fields one after the other, from one state to another. -/
inductive Takes (field : String → σ → Reader σ) (write : Json → List Char) :
    List (String × Json) → σ → σ → Prop where
  | nil {s : σ} : Takes field write [] s s
  | cons {k : String} {v : Json} {fs : List (String × Json)} {s s₁ s₂ : σ}
    (first : Reads (field k s) (write v) s₁) (others : Takes field write fs s₁ s₂) :
    Takes field write ((k, v) :: fs) s s₂

variable {field : String → σ → Reader σ} {k : String} {v : Json} {fs : List (String × Json)}
  {s s₁ s₂ : σ} {level bound : Nat}

theorem Layout.length_writeFields (level : Nat) (fs : List (String × Json)) :
    (l.writeFields level fs).length = fs.length := by
  induction fs with
  | nil => rfl
  | cons f fs ih => rw [writeFields, List.length_cons, List.length_cons, ih]

theorem skip_field (k : String) (text rest : List Char) :
    skip (l.field k text ++ rest) = l.field k text ++ rest :=
  skip_cons (by decide) _

/-- The name of a field is read back up to its colon. -/
theorem readString_field (k : String) (text rest : List Char) :
    readString (l.field k text ++ rest) = some (k, ':' :: (l.colon ++ (text ++ rest))) := by
  have parts : l.field k text ++ rest = quoted k ++ ':' :: (l.colon ++ (text ++ rest)) := by
    simp [Layout.field]
  rw [parts, readString_quoted]

/-- Behind the colon the value comes next, after blanks or at once. -/
theorem Reads.skip_colon (reads : Reads reader text x) (rest : List Char) :
    skip (l.colon ++ (text ++ rest)) = text ++ rest := by
  rw [skip_append l.colon_blank, reads.skip_eq]

/-- A field before the closing brace. -/
theorem Reads.moreFields_close (first : Reads (field k s) text s₁) (bound : Nat) (ends : Ends rest)
    {cs : List Char} (close : skip rest = '}' :: cs) :
    moreFields readString field (bound + 1) s (l.field k text ++ rest) = some (s₁, cs) := by
  have colon : skip (':' :: (l.colon ++ (text ++ rest))) = ':' :: (l.colon ++ (text ++ rest)) :=
    skip_cons (by decide) _
  rw [moreFields, readString_field]
  simp [colon, first.skip_colon, first.read ends, close]

/-- A field before a comma and other fields. -/
theorem Reads.moreFields_comma (first : Reads (field k s) text s₁) (bound : Nat) (ends : Ends rest)
    {cs : List Char} (comma : skip rest = ',' :: cs) :
    moreFields readString field (bound + 1) s (l.field k text ++ rest) =
      moreFields readString field bound s₁ (skip cs) := by
  have colon : skip (':' :: (l.colon ++ (text ++ rest))) = ':' :: (l.colon ++ (text ++ rest)) :=
    skip_cons (by decide) _
  conv_lhs => rw [moreFields, readString_field]
  simp [colon, first.skip_colon, first.read ends, comma]

/-- **Fields.** Fields are read back one by one up to the bracket, each by what is done with those before
it. -/
theorem moreFields_later (first : Reads (field k s) (l.write (level + 1) v) s₁)
    (others : Takes field (l.write (level + 1)) fs s₁ s₂) (le : fs.length < bound)
    (rest : List Char) :
    moreFields readString field bound s (l.field k (l.write (level + 1) v) ++
      (l.later '}' level (l.writeFields (level + 1) fs) ++ rest)) = some (s₂, rest) := by
  induction others generalizing k v s bound with
  | nil =>
    obtain ⟨bound, rfl⟩ : ∃ b, bound = b + 1 := ⟨bound - 1, by omega⟩
    have close := l.skip_later_nil (show isSpace '}' = false by decide) level rest
    exact first.moreFields_close l bound (l.later_ends (.inr rfl) level [] rest) close
  | @cons k' v' fs s s₁ s₂ second others ih =>
    obtain ⟨bound, rfl⟩ : ∃ b, bound = b + 1 := ⟨bound - 1, by omega⟩
    have comma := l.skip_later_cons '}' level (l.field k' (l.write (level + 1) v'))
      (l.writeFields (level + 1) fs) rest
    have blanks : skip (l.gap (level + 1) ++ (l.field k' (l.write (level + 1) v') ++
        (l.later '}' level (l.writeFields (level + 1) fs) ++ rest))) =
          l.field k' (l.write (level + 1) v') ++
            (l.later '}' level (l.writeFields (level + 1) fs) ++ rest) := by
      rw [skip_append (l.gap_blank (level + 1)), skip_field]
    rw [Layout.writeFields,
      first.moreFields_comma l bound (l.later_ends (.inr rfl) level _ rest) comma, blanks]
    exact ih second (Nat.lt_of_succ_lt_succ le)

/-- **Objects.** Fields are taken in from their texts, whatever blanks stand between them. -/
theorem fields_inner (each : Takes field (l.write (level + 1)) fs s s₁) (rest : List Char) :
    fields readString field s (l.inner '}' level (l.writeFields (level + 1) fs) ++ rest) =
      some (s₁, rest) := by
  cases each with
  | nil => rfl
  | @cons k v fs s s₁ s₂ first others =>
    have blanks : skip (l.inner '}' level (l.writeFields (level + 1) ((k, v) :: fs)) ++ rest) =
        l.field k (l.write (level + 1) v) ++
          (l.later '}' level (l.writeFields (level + 1) fs) ++ rest) := by
      rw [Layout.writeFields, l.skip_inner_cons, skip_field]
    have enough : fs.length < (l.field k (l.write (level + 1) v) ++
        (l.later '}' level (l.writeFields (level + 1) fs) ++ rest)).length := by
      have short := l.length_lt_later '}' level (l.writeFields (level + 1) fs)
      simp only [List.length_append]
      rw [l.length_writeFields] at short
      omega
    rw [fields, blanks]
    split
    · next same => cases same
    · exact moreFields_later l first others enough rest

/-- What is read is read from a text with blanks behind it. -/
theorem whole_of_reads {part : Reader α} {text blanks : List Char} {x : α}
    (reads : Reads part text x) (blank : ∀ c ∈ blanks, isSpace c = true) :
    whole part (String.ofList (text ++ blanks)) = some x := by
  have ends : Ends blanks := fun c head => .inl (blank c (List.mem_of_mem_head? head))
  have rest : skip blanks = [] := by
    have all := skip_append blank []
    rwa [List.append_nil] at all
  rw [whole, String.toList_ofList, reads.skip_eq, reads.read ends]
  simp [rest]

end Reading

/-! ## Values -/

/-- The floats in the value are read back from their own texts. -/
def FloatsExact (v : Json) : Prop :=
  ∀ x, Contains (.number (.float x)) v → FloatExact x

/-- What an object keeps of the fields before one of the given name and value. -/
abbrev Keeping := String → Json → List (String × Json) → List (String × Json)

/-- As `readValue`, with what objects keep of their fields left open. -/
def readWith (keep : Keeping) : Nat → Reader Json
  | depth + 1, '[' :: cs => (items (readWith keep depth) cs).map fun (xs, rest) => (.array xs, rest)
  | depth + 1, '{' :: cs =>
    (fields readString
      (fun k fs cs => (readWith keep depth cs).map fun (x, rest) => (keep k x fs, rest))
      [] cs).map fun (fs, rest) => (.object fs, rest)
  | _, cs => readScalar cs

/-- A value as it is written: with all fields of its objects, in the order of the text. -/
def readAsWritten : Nat → Reader Json :=
  readWith fun k x fs => fs ++ [(k, x)]

section Values

variable {α : Type} {item : Reader α} {text : List Char} {v : Json} {depth level : Nat} {keep : Keeping}
  (l : Layout)

/-- What is no array and no object is read as a scalar, whatever objects keep. -/
theorem readWith_of_other {cs : List Char} (array : cs.head? ≠ some '[')
    (object : cs.head? ≠ some '\x7b') (depth : Nat) : readWith keep depth cs = readScalar cs := by
  unfold readWith
  split
  · exact absurd rfl array
  · exact absurd rfl object
  · rfl

/-- To read with every field bound under its name is to read a value. -/
theorem readWith_insert (depth : Nat) : readWith Bindings.insert depth = readValue depth := by
  induction depth with
  | zero =>
    funext cs
    unfold readWith readValue
    rfl
  | succ depth ih =>
    funext cs
    by_cases array : cs.head? = some '['
    · obtain ⟨cs, rfl⟩ := List.head?_eq_some_iff.1 array
      rw [readWith, readValue, ih]
    · by_cases object : cs.head? = some '\x7b'
      · obtain ⟨cs, rfl⟩ := List.head?_eq_some_iff.1 object
        rw [readWith, readValue, ih]
      · rw [readWith_of_other array object, readValue_of_other array object]

/-- What is read as a scalar is read as a value of any depth. -/
theorem Reads.value (reads : Reads readScalar text v) (depth : Nat) :
    Reads (readWith keep depth) text v := by
  have noBracket : ∀ {c : Char} {cs : List Char}, c = '[' ∨ c = '{' → text ≠ c :: cs := by
    rintro c cs bracket rfl
    have read := reads.read ends_nil
    rw [List.cons_append, readScalar_bracket bracket] at read
    cases read
  obtain ⟨c, cs, same, -⟩ := reads.starts
  refine reads.of_read fun {rest} read => ?_
  have head : (text ++ rest).head? = some c := by rw [same]; rfl
  rw [readWith_of_other _ _ depth, read]
  · rw [head]
    rintro ⟨⟩
    exact noBracket (.inl rfl) same
  · rw [head]
    rintro ⟨⟩
    exact noBracket (.inr rfl) same

theorem reads_null : Reads readScalar (l.write level .null) .null :=
  ⟨⟨'n', _, rfl, by decide, by decide⟩, fun _ => rfl⟩

theorem reads_bool (b : Bool) : Reads readScalar (l.write level (.bool b)) (.bool b) := by
  cases b with
  | true => exact ⟨⟨'t', _, rfl, by decide, by decide⟩, fun _ => rfl⟩
  | false => exact ⟨⟨'f', _, rfl, by decide, by decide⟩, fun _ => rfl⟩

theorem reads_quoted (s : String) : Reads readString (l.write level (.string s)) s :=
  ⟨⟨'"', _, rfl, by decide, by decide⟩, fun _ => readString_quoted s _⟩

theorem reads_string (s : String) : Reads readScalar (l.write level (.string s)) (.string s) := by
  refine ⟨⟨'"', _, rfl, by decide, by decide⟩, fun {rest} _ => ?_⟩
  change (readString (quoted s ++ rest)).map _ = _
  rw [readString_quoted]
  rfl

/-- A number is read back if its float is, in case it is one. -/
theorem reads_number {n : JsonNumber} (exact : ∀ x, n = .float x → FloatExact x) :
    Reads readScalar (l.write level (.number n)) (.number n) := by
  obtain ⟨literal, read, value⟩ := exists_literal exact
  obtain ⟨c, cs, text, numeral⟩ := exists_cons_of_read read
  have noBracket : c ≠ ']' := by
    rintro rfl
    revert numeral
    simp [IsNumeral]
  refine ⟨⟨c, cs, text, numeral.visible, noBracket⟩, fun {rest} ends => ?_⟩
  change readScalar (writeNumber n ++ rest) = _
  rw [readScalar_of_literal (Literal.read_append read ends.literal), value]
  rfl

/-- The texts of the items are read back one by one. -/
theorem forall₂_writeItems {xs : List α} {f : α → Json}
    (each : ∀ x ∈ xs, Reads item (l.write level (f x)) x) :
    List.Forall₂ (Reads item) (l.writeItems level (xs.map f)) xs := by
  induction xs with
  | nil => exact .nil
  | cons x xs ih =>
    obtain ⟨own, others⟩ := List.forall_mem_cons.1 each
    exact .cons own (ih others)

/-- Fields are kept one after the other, in whatever way they are kept. -/
theorem takes_keep {fs : List (String × Json)}
    (each : ∀ f ∈ fs, Reads (readWith keep depth) (l.write level f.2) f.2)
    (kept : List (String × Json)) :
    Takes (fun k fs cs => (readWith keep depth cs).map fun (x, rest) => (keep k x fs, rest))
      (l.write level) fs kept (fs.foldl (fun kept f => keep f.1 f.2 kept) kept) := by
  induction fs generalizing kept with
  | nil => exact .nil
  | cons f fs ih =>
    obtain ⟨own, others⟩ := List.forall_mem_cons.1 each
    refine .cons (own.of_read fun read => ?_) (ih others _)
    rw [read]
    rfl

/-- **Values.** A value is read back from either layout, at any depth that it fits in, if every object
keeps just its fields and floats are read back from their texts. -/
theorem reads_write_keeping
    (kept : ∀ fs, Contains (.object fs) v → fs.foldl (fun kept f => keep f.1 f.2 kept) [] = fs)
    (shallow : v.depth ≤ depth) (exact : v.FloatsExact)
    (level : Nat) : Reads (readWith keep depth) (l.write level v) v := by
  -- By induction over the value: behind a bracket the level is one higher and the depth one lower.
  induction v using nested generalizing depth level with
  | null => exact (reads_null l).value depth
  | bool b => exact (reads_bool l b).value depth
  | number n =>
    have own : ∀ x, n = .float x → FloatExact x := by
      rintro x rfl
      exact exact x .self
    exact (reads_number l own).value depth
  | string s => exact (reads_string l s).value depth
  | array xs ih =>
    rw [Json.depth] at shallow
    obtain ⟨depth, rfl⟩ : ∃ d, depth = d + 1 := ⟨depth - 1, by omega⟩
    have each : ∀ x ∈ xs, Reads (readWith keep depth) (l.write (level + 1) x) x := by
      intro x mem
      have le : x.depth ≤ depth := (depth_le_of_mem_items mem).trans (Nat.le_of_succ_le_succ shallow)
      exact ih x mem (fun fs inside => kept fs (.item mem inside)) le
        (fun y inside => exact y (.item mem inside)) (level + 1)
    have items := forall₂_writeItems l (f := id) each
    rw [List.map_id] at items
    refine ⟨⟨'[', _, rfl, by decide, by decide⟩, fun {rest} _ => ?_⟩
    rw [Layout.write, List.cons_append, readWith, items_inner l items]
    rfl
  | object fs ih =>
    rw [Json.depth] at shallow
    obtain ⟨depth, rfl⟩ : ∃ d, depth = d + 1 := ⟨depth - 1, by omega⟩
    have each : ∀ f ∈ fs, Reads (readWith keep depth) (l.write (level + 1) f.2) f.2 := by
      intro f mem
      have le : f.2.depth ≤ depth :=
        (depth_le_of_mem_fields mem).trans (Nat.le_of_succ_le_succ shallow)
      exact ih f mem (fun fs inside => kept fs (.field mem inside)) le
        (fun y inside => exact y (.field mem inside)) (level + 1)
    have taken := takes_keep l each []
    rw [kept fs .self] at taken
    refine ⟨⟨'{', _, rfl, by decide, by decide⟩, fun {rest} _ => ?_⟩
    rw [Layout.write, List.cons_append, readWith, fields_inner l taken]
    rfl

/-- A value in order is read back. -/
theorem reads_write (ordered : v.Ordered) (shallow : v.depth ≤ depth)
    (exact : v.FloatsExact) (level : Nat) :
    Reads (readValue depth) (l.write level v) v := by
  rw [← readWith_insert]
  exact reads_write_keeping l (fun fs inside => (ordered fs inside).ofList) shallow exact level

/-- What is written is the value itself, with all fields of its objects in their order. -/
theorem readsAsWritten_write (shallow : v.depth ≤ depth)
    (exact : v.FloatsExact) (level : Nat) :
    Reads (readAsWritten depth) (l.write level v) v := by
  refine reads_write_keeping l (fun fs _ => ?_) shallow exact level
  simp [← List.flatMap_def]

theorem whole_compact {part : Reader α} {x : α} (reads : Reads part (Layout.compact.write 0 v) x) :
    whole part v.compact = some x := by
  have read : whole part (String.ofList (Layout.compact.write 0 v ++ [])) = some x :=
    whole_of_reads reads nofun
  rwa [List.append_nil, Layout.compact_write] at read

/-- **Round trip.** A value in order is read back from its compact text. -/
theorem read_compact (ordered : v.Ordered) (shallow : v.depth ≤ maxDepth) (exact : v.FloatsExact) :
    Json.read v.compact = some v :=
  whole_compact (reads_write Layout.compact ordered shallow exact 0)

end Values

end SessionGrid.Json
