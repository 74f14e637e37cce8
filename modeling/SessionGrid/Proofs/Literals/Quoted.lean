import SessionGrid.Proofs.Json.Quoted
import SessionGrid.Toml.Reader

/-!
# Text in double quotes in both formats

JSON and TOML have their own escapes and leave out different control characters. Where both read a text in
double quotes they read the same one and stop at the same quote (`escapedTail_of_stringTail`). A TOML
document has its line breaks joined before it is read, which changes no text of one line.
-/

namespace SessionGrid

open Text

namespace Json

/-- How the rest of a text in quotes goes on, where it is one. -/
inductive TailAs (cs rest : List Char) : List Char → Prop where
  | close (text : cs = '"' :: rest) : TailAs cs rest []
  | itself {c : Char} {cs' s : List Char} (text : cs = c :: cs') (quote : c ≠ '"')
    (backslash : c ≠ '\\') (printable : ¬ c.toNat < 0x20)
    (later : stringTail none cs' = some (s, rest)) : TailAs cs rest (c :: s)
  | letter {c e : Char} {cs' s : List Char} (text : cs = '\\' :: e :: cs')
    (means : unescape e = some c) (later : stringTail none cs' = some (s, rest)) :
    TailAs cs rest (c :: s)
  | number {a b c d : Char} {n : Nat} {cs' s : List Char}
    (text : cs = '\\' :: 'u' :: a :: b :: c :: d :: cs') (digits : hexNumber? [a, b, c, d] = some n)
    (later : stringTail none cs' = some (s, rest)) : TailAs cs rest (Char.ofNat n :: s)
  /-- The first of two surrogates, which both stand for one character. -/
  | surrogate {a b c d : Char} {n : Nat} {cs' s : List Char}
    (text : cs = '\\' :: 'u' :: a :: b :: c :: d :: cs') (digits : hexNumber? [a, b, c, d] = some n)
    (high : 0xD800 ≤ n ∧ n < 0xDC00) : TailAs cs rest s

/-- Reading a text in JSON is one of the steps listed, up to its quote. -/
theorem stringTail_tailAs {cs s rest : List Char} (read : stringTail none cs = some (s, rest)) :
    TailAs cs rest s := by
  rw [stringTail.eq_def] at read
  split at read
  · cases read
  · next cs' =>
    split at read
    · cases read
    · next same => cases same
    · next n digits _ =>
      split at read
      · next high => exact .surrogate rfl digits high
      · split at read
        · cases read
        · obtain ⟨⟨s', rest'⟩, later, same⟩ := Option.map_eq_some_iff.1 read
          cases same
          exact .number rfl digits later
  · next c cs' _ =>
    rw [if_neg (by simp)] at read
    split at read
    · next quote =>
      cases read
      exact .close (by rw [quote])
    · next quote =>
      split at read
      · next backslash =>
        split at read
        · next e cs'' =>
          obtain ⟨c, means, read⟩ := Option.bind_eq_some_iff.1 read
          obtain ⟨⟨s', rest'⟩, later, same⟩ := Option.bind_eq_some_iff.1 read
          cases same
          exact .letter (by rw [backslash]) means later
        · cases read
      · next backslash =>
        split at read
        · cases read
        · next printable =>
          obtain ⟨⟨s', rest'⟩, later, same⟩ := Option.map_eq_some_iff.1 read
          cases same
          exact .itself rfl quote backslash printable later

end Json

namespace Toml

variable {cs s s' rest r x : List Char}

theorem joinBreaks_cons {c : Char} (other : c ≠ '\r') (cs : List Char) :
    joinBreaks (c :: cs) = c :: joinBreaks cs := by
  rw [joinBreaks]
  rintro _ rfl
  exact absurd rfl other

/-- Line ends are joined in what follows, if there is no carriage return before it. -/
theorem joinBreaks_append {cs : List Char} (absent : '\r' ∉ cs) (rest : List Char) :
    joinBreaks (cs ++ rest) = cs ++ joinBreaks rest := by
  induction cs with
  | nil => rfl
  | cons c cs ih =>
    obtain ⟨own, others⟩ := not_or.1 (mt List.mem_cons.2 absent)
    rw [List.cons_append, joinBreaks_cons (Ne.symm own), ih others, List.cons_append]

/-- One character that is no digit spoils the number. -/
theorem hexNumber?_of_mem {c : Char} (mem : c ∈ cs) (other : hexValue? c = none) :
    hexNumber? cs = none := by
  have all : ∀ n, cs.foldlM (fun n c => (hexValue? c).map (16 * n + ·)) n = none := by
    induction cs with
    | nil => cases mem
    | cons d cs ih =>
      intro n
      rw [List.foldlM_cons]
      rcases List.mem_cons.1 mem with rfl | later
      · rw [other]
        rfl
      · cases hexValue? d with
        | none => rfl
        | some m => exact ih later _
  exact all 0

/-- What is pushed in front of a text is its first character. -/
theorem Quoted.push_eq_some {c : Option Char} {later : Option (List Char × List Char)}
    (pushed : Quoted.push c later = some (s, r)) :
    ∃ d s', c = some d ∧ later = some (s', r) ∧ s = d :: s' := by
  obtain ⟨d, own, pushed⟩ := Option.bind_eq_some_iff.1 pushed
  obtain ⟨⟨s', r'⟩, others, same⟩ := Option.bind_eq_some_iff.1 pushed
  cases same
  exact ⟨d, s', own, others, rfl⟩

theorem Quoted.escapedTail_quote (cs : List Char) : escapedTail ('"' :: cs) = some ([], cs) := by
  simp [escapedTail]

/-- A character that is no quote and no backslash stands for itself, if it may. -/
theorem Quoted.escapedTail_itself {c : Char} (quote : c ≠ '"') (backslash : c ≠ '\\')
    (cs : List Char) :
    escapedTail (c :: cs) = if isPlain c then push c (escapedTail cs) else none := by
  simp [escapedTail, quote, backslash]

/-- Behind a backslash a letter is the short form of a character. -/
theorem Quoted.escapedTail_letter {e : Char} (u : e ≠ 'u') (U : e ≠ 'U') (cs : List Char) :
    escapedTail ('\\' :: e :: cs) = push (unescape e) (escapedTail cs) := by
  simp [escapedTail, u, U]

/-- Four digits behind `\u` are the number of a character in TOML as well. -/
theorem escapedTail_number {a b c d : Char} {n : Nat} (digits : hexNumber? [a, b, c, d] = some n) :
    Quoted.escapedTail (joinBreaks ('\\' :: 'u' :: a :: b :: c :: d :: cs) ++ x) =
      Quoted.push (Quoted.scalar? [a, b, c, d]) (Quoted.escapedTail (joinBreaks cs ++ x)) := by
  have absent : '\r' ∉ [a, b, c, d] := by
    intro mem
    rw [hexNumber?_of_mem mem rfl] at digits
    cases digits
  have whole : '\r' ∉ ['\\', 'u', a, b, c, d] := by simpa using absent
  have join := joinBreaks_append whole cs
  rw [List.cons_append, List.cons_append, List.cons_append, List.cons_append, List.cons_append,
    List.cons_append, List.nil_append] at join
  rw [join]
  simp [Quoted.escapedTail]

/-- Only the number of a valid character is taken. -/
theorem scalar?_eq_some {ds : List Char} {n : Nat} {c : Char} (digits : hexNumber? ds = some n)
    (read : Quoted.scalar? ds = some c) : n.isValidChar ∧ c = Char.ofNat n := by
  rw [Quoted.scalar?, digits] at read
  simp only [Option.bind_eq_bind, Option.bind_some] at read
  split at read
  · next valid =>
    cases read
    exact ⟨valid, rfl⟩
  · cases read

/-- No letter of an escape is a line break or starts a number. -/
theorem unescape_apart {e c : Char} (means : Json.unescape e = some c) :
    e ≠ '\r' ∧ e ≠ 'u' ∧ e ≠ 'U' := by
  refine ⟨?_, ?_, ?_⟩ <;> rintro rfl <;> cases means

/-- The letters of escapes have one meaning at most. -/
theorem unescape_unique {e c d : Char} (json : Json.unescape e = some c)
    (toml : Quoted.unescape e = some d) : c = d := by
  unfold Json.unescape at json
  split at json <;> cases json <;> cases toml <;> rfl

/-- **Strings.** Where the rest of a text in double quotes is read in both formats, the text is the same,
and so is what is left. -/
theorem escapedTail_of_stringTail (json : Json.stringTail none cs = some (s, rest))
    (toml : Quoted.escapedTail (joinBreaks cs ++ x) = some (s', r)) :
    s' = s ∧ r = joinBreaks rest ++ x := by
  -- By induction over the length of the text, as an escape takes up to six characters of it.
  induction n : cs.length using Nat.strongRecOn generalizing cs s s' with
  | ind n ih =>
    subst n
    have go : ∀ {cs' t t' : List Char}, cs'.length < cs.length →
        Json.stringTail none cs' = some (t, rest) →
        Quoted.escapedTail (joinBreaks cs' ++ x) = some (t', r) → t' = t ∧ r = joinBreaks rest ++ x :=
      fun shorter json toml => ih _ shorter json toml rfl
    cases Json.stringTail_tailAs json with
    | close text =>
      subst text
      rw [joinBreaks_cons (by decide), List.cons_append, Quoted.escapedTail_quote] at toml
      cases toml
      exact ⟨rfl, rfl⟩
    | @itself c cs' t text quote backslash printable later =>
      subst text
      have visible : c ≠ '\r' := by
        rintro rfl
        exact printable (by decide)
      rw [joinBreaks_cons visible, List.cons_append, Quoted.escapedTail_itself quote backslash] at toml
      split at toml
      · obtain ⟨d, t', own, others, rfl⟩ := Quoted.push_eq_some toml
        cases own
        obtain ⟨rfl, left⟩ := go (Nat.lt_succ_self _) later others
        exact ⟨rfl, left⟩
      · cases toml
    | @letter c e cs' t text means later =>
      subst text
      obtain ⟨visible, u, U⟩ := unescape_apart means
      rw [joinBreaks_cons (by decide), joinBreaks_cons visible, List.cons_append, List.cons_append,
        Quoted.escapedTail_letter u U] at toml
      obtain ⟨d, t', own, others, rfl⟩ := Quoted.push_eq_some toml
      obtain ⟨rfl, left⟩ := go (by simp) later others
      exact ⟨by rw [unescape_unique means own], left⟩
    | @number a b c d n cs' t text digits later =>
      subst text
      rw [escapedTail_number digits] at toml
      obtain ⟨e, t', own, others, rfl⟩ := Quoted.push_eq_some toml
      obtain ⟨rfl, left⟩ := go (by simp; omega) later others
      obtain ⟨-, rfl⟩ := scalar?_eq_some digits own
      exact ⟨rfl, left⟩
    | @surrogate a b c d n cs' t text digits high =>
      subst text
      rw [escapedTail_number digits] at toml
      obtain ⟨e, t', own, -, -⟩ := Quoted.push_eq_some toml
      -- TOML takes no surrogate for a character.
      rcases (scalar?_eq_some digits own).1 with below | above <;> omega

/-- Text in quotes, and not the first two quotes of three. -/
theorem read_of_stringTail (json : Json.stringTail none cs = some (s, rest))
    (stops : (joinBreaks rest ++ x).head? ≠ some '"')
    (toml : Quoted.read ('"' :: (joinBreaks cs ++ x)) = some (s', r)) :
    s' = s ∧ r = joinBreaks rest ++ x := by
  unfold Quoted.read at toml
  split at toml
  · next y triple =>
    have two : joinBreaks cs ++ x = '"' :: '"' :: y := (List.cons.inj triple).2
    exfalso
    cases Json.stringTail_tailAs json with
    | close text =>
      rw [text, joinBreaks_cons (by decide), List.cons_append] at two
      exact stops (by rw [(List.cons.inj two).2]; rfl)
    | @itself c cs' t text quote _ printable _ =>
      have visible : c ≠ '\r' := by
        rintro rfl
        exact printable (by decide)
      rw [text, joinBreaks_cons visible] at two
      exact quote (List.cons.inj two).1
    | letter text | number text | surrogate text =>
      rw [text, joinBreaks_cons (by decide)] at two
      cases (List.cons.inj two).1
  · next single =>
    cases (List.cons.inj single).1
  · exact escapedTail_of_stringTail json toml

end Toml

end SessionGrid
