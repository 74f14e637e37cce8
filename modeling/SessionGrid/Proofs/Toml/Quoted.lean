import Mathlib
import SessionGrid.Toml.Quoted

/-!
# Quoted text is read back

Whatever form `Quoted.write` chooses for a text, `Quoted.read` takes it off the front of what is to
be read (`read_write`), and `Quoted.readLine` does the same for `Quoted.writeLine`
(`readLine_writeLine`). In the forms for several lines the quotes at the end of the text run into the
closing ones, so that what follows must not be a quote. No carriage return is ever written
(`cr_not_mem_write`).
-/

namespace SessionGrid.Toml.Quoted

/-! ## Escapes -/

section Escapes

variable {c e : Char}

/-- All control characters are ASCII. -/
theorem toNat_lt_of_isControl (control : isControl c = true) : c.toNat < 128 := by
  simp only [isControl, isPlain, Bool.not_eq_true', Bool.or_eq_false_iff, Bool.and_eq_false_iff,
    decide_eq_false_iff_not, bne_eq_false_iff_eq] at control
  omega

/-- The four hexadecimal digits of a control character stand for it. -/
theorem scalar?_hexDigits (small : c.toNat < 128) :
    scalar? ['0', '0', hexDigit (c.toNat / 16), hexDigit (c.toNat % 16)] = some c := by
  have all : ∀ n < 128, scalar? ['0', '0', hexDigit (n / 16), hexDigit (n % 16)] =
      some (Char.ofNat n) := by decide
  rw [all _ small, Char.ofNat_toNat]

/-- How a character is written in double quotes: by a letter or by its number behind a backslash, or
as it is. -/
inductive Escaped (c : Char) : List Char → Prop where
  | letter {e : Char} (means : unescape e = some c) (plain : isPlain e = true) : Escaped c ['\\', e]
  | number {d e : Char} (means : scalar? ['0', '0', d, e] = some c)
    (plain : isPlain d = true ∧ isPlain e = true) : Escaped c ['\\', 'u', '0', '0', d, e]
  | itself (plain : isPlain c = true) (quote : c ≠ '"') (backslash : c ≠ '\\') : Escaped c [c]

theorem isPlain_hexDigit {n : Nat} (lt : n < 16) : isPlain (hexDigit n) = true := by
  have all : ∀ n < 16, isPlain (hexDigit n) = true := by decide
  exact all n lt

/-- Every character is written as itself or as an escape of one of the two kinds. -/
theorem escaped_escape (c : Char) : Escaped c (escape c) := by
  unfold escape
  split_ifs with quote backslash b t n f r control
  · exact .letter (by simp [unescape, quote]) rfl
  · exact .letter (by simp [unescape, backslash]) rfl
  · exact .letter (by simp [unescape, b]) rfl
  · exact .letter (by simp [unescape, t]) rfl
  · exact .letter (by simp [unescape, n]) rfl
  · exact .letter (by simp [unescape, f]) rfl
  · exact .letter (by simp [unescape, r]) rfl
  · have small := toNat_lt_of_isControl control
    exact .number (scalar?_hexDigits small)
      ⟨isPlain_hexDigit (by omega), isPlain_hexDigit (by omega)⟩
  · exact .itself (by simpa [isControl] using control) quote backslash

/-- An escape has nothing in it that would need one. -/
theorem Escaped.isPlain {w : List Char} (written : Escaped c w) : ∀ d ∈ w, isPlain d = true := by
  cases written with
  | letter means plain => simpa [Toml.isPlain] using plain
  | number means plain => simpa [Toml.isPlain] using plain
  | itself plain quote backslash => simpa using plain

/-- The letters of escapes that stand for something else: numbers in hexadecimal and folded lines. -/
theorem unescape_apart (means : unescape e = some c) :
    e ≠ 'u' ∧ e ≠ 'U' ∧ e ≠ '\n' ∧ isBlank e = false := by
  refine ⟨?_, ?_, ?_, ?_⟩
  · rintro rfl
    cases means
  · rintro rfl
    cases means
  · rintro rfl
    cases means
  · rw [Bool.eq_false_iff]
    intro blank
    simp only [isBlank, Bool.or_eq_true, beq_iff_eq] at blank
    rcases blank with rfl | rfl <;> cases means

/-- Between quotes an escaped character is read back. -/
theorem escapedTail_escaped {w : List Char} (written : Escaped c w) (cs : List Char) :
    escapedTail (w ++ cs) = push c (escapedTail cs) := by
  cases written with
  | letter means plain =>
    obtain ⟨u, U, -, -⟩ := unescape_apart means
    simp [escapedTail, u, U, means]
  | number means plain =>
    simp [escapedTail, means]
  | itself plain quote backslash =>
    simp [escapedTail, plain, quote, backslash]

theorem escapedLines_escaped {w : List Char} (written : Escaped c w) (cs : List Char) :
    escapedLines .text (w ++ cs) = push c (escapedLines .text cs) := by
  cases written with
  | letter means plain =>
    obtain ⟨u, U, n, blank⟩ := unescape_apart means
    simp [escapedLines, u, U, n, blank, means]
  | number means plain =>
    simp [escapedLines, means]
  | itself plain quote backslash =>
    simp [escapedLines, plain, quote, backslash]

end Escapes

/-! ## Closing quotes -/

section Closing

variable {quote : Char} {rest : List Char}

/-- Of the quotes behind the first three of a closing run, two at most belong to the text. -/
theorem closing_replicate {k : Nat} (le : k ≤ 2) (stops : rest.head? ≠ some quote) :
    closing quote (List.replicate k quote ++ rest) = (List.replicate k quote, rest) := by
  have run : (List.replicate k quote ++ rest).takeWhile (· == quote) = List.replicate k quote := by
    rw [List.takeWhile_append_of_pos (by simp)]
    cases rest with
    | nil => simp
    | cons c cs =>
      have other : (c == quote) = false := by simpa using stops
      simp [other]
  rw [closing, run, List.length_replicate, Nat.min_eq_right le, List.drop_left' (by simp)]

/-- A closing run that begins in the text begins with its own three quotes just as well. -/
theorem replicate_append_triple (quote : Char) (k : Nat) (rest : List Char) :
    List.replicate k quote ++ ([quote, quote, quote] ++ rest) =
      quote :: quote :: quote :: (List.replicate k quote ++ rest) := by
  have slide : List.replicate k quote ++ List.replicate 3 quote =
      List.replicate 3 quote ++ List.replicate k quote := by
    rw [← List.replicate_add, ← List.replicate_add, Nat.add_comm]
  calc List.replicate k quote ++ ([quote, quote, quote] ++ rest)
      = (List.replicate k quote ++ List.replicate 3 quote) ++ rest := (List.append_assoc ..).symm
    _ = (List.replicate 3 quote ++ List.replicate k quote) ++ rest := by rw [slide]

/-- Up to two quotes at the end of a raw text belong to it, and the closing ones follow. -/
theorem rawLines_closing {k : Nat} (le : k ≤ 2) (stops : rest.head? ≠ some '\'') :
    rawLines (List.replicate k '\'' ++ (['\'', '\'', '\''] ++ rest)) =
      some (List.replicate k '\'', rest) := by
  rw [replicate_append_triple, rawLines, closing_replicate le stops]

theorem escapedLines_closing {k : Nat} (le : k ≤ 2) (stops : rest.head? ≠ some '"') :
    escapedLines .text (List.replicate k '"' ++ (['"', '"', '"'] ++ rest)) =
      some (List.replicate k '"', rest) := by
  rw [replicate_append_triple, escapedLines, closing_replicate le stops]
  nofun

end Closing

/-! ## The forms -/

section Forms

variable {s rest : List Char}

/-- An escaped text is read back up to its quote. -/
theorem escapedTail_write (s rest : List Char) :
    escapedTail (s.flatMap escape ++ '"' :: rest) = some (s, rest) := by
  induction s with
  | nil => simp [escapedTail]
  | cons c s ih =>
    rw [List.flatMap_cons, List.append_assoc, escapedTail_escaped (escaped_escape c), ih]
    rfl

/-- A raw text is read back up to its quote, if it needs no escape and has no quote in it. -/
theorem rawTail_append (plain : ∀ c ∈ s, isPlain c = true ∧ c ≠ '\'') (rest : List Char) :
    rawTail (s ++ '\'' :: rest) = some (s, rest) := by
  induction s with
  | nil => rfl
  | cons c s ih =>
    obtain ⟨⟨own, quote⟩, others⟩ := List.forall_mem_cons.1 plain
    rw [List.cons_append, rawTail, if_neg quote, if_pos own, ih others]
    rfl

/-- A character that does not start the closing quotes belongs to the text. -/
theorem rawLines_cons {c : Char} {cs : List Char} (plain : isPlain c = true ∨ c = '\n')
    (apart : ∀ t, c :: cs ≠ '\'' :: '\'' :: '\'' :: t) :
    rawLines (c :: cs) = push c (rawLines cs) := by
  have either : (isPlain c || c = '\n') = true := by simpa using plain
  rw [rawLines, if_pos either]
  simpa using apart

/-- Three quotes before the end of a text without three in a row are the closing run. -/
theorem eq_replicate_of_triple {quote : Char} {t : List Char} (apart : hasTriple quote s = false)
    (triple : s ++ ([quote, quote, quote] ++ rest) = quote :: quote :: quote :: t) :
    ∃ k ≤ 2, s = List.replicate k quote := by
  match s with
  | [] => exact ⟨0, by decide, rfl⟩
  | [a] =>
    simp only [List.cons_append, List.cons.injEq] at triple
    exact ⟨1, by decide, by rw [triple.1]; rfl⟩
  | [a, b] =>
    simp only [List.cons_append, List.cons.injEq] at triple
    exact ⟨2, by decide, by rw [triple.1, triple.2.1]; rfl⟩
  | a :: b :: c :: s =>
    simp only [List.cons_append, List.cons.injEq] at triple
    simp [hasTriple, triple] at apart

/-- The rest of a text has no three quotes in a row either. -/
theorem hasTriple_tail {quote c : Char} (apart : hasTriple quote (c :: s) = false) :
    hasTriple quote s = false := by
  match s with
  | [] | [_] => rfl
  | a :: b :: s => exact (Bool.or_eq_false_iff.1 apart).2

/-- A raw text of several lines is read back if it has no three quotes in a row. -/
theorem rawLines_append (plain : ∀ c ∈ s, isPlain c = true ∨ c = '\n')
    (apart : hasTriple '\'' s = false) (stops : rest.head? ≠ some '\'') :
    rawLines (s ++ (['\'', '\'', '\''] ++ rest)) = some (s, rest) := by
  induction s with
  | nil => exact rawLines_closing (Nat.zero_le 2) stops
  | cons c s ih =>
    obtain ⟨own, others⟩ := List.forall_mem_cons.1 plain
    -- The next three characters are the closing run, or the first of them is just a character.
    by_cases run : ∃ t, c :: (s ++ (['\'', '\'', '\''] ++ rest)) = '\'' :: '\'' :: '\'' :: t
    · obtain ⟨t, triple⟩ := run
      obtain ⟨k, le, same⟩ := eq_replicate_of_triple apart triple
      rw [same]
      exact rawLines_closing le stops
    · rw [List.cons_append, rawLines_cons own (not_exists.1 run), ih others (hasTriple_tail apart)]
      rfl

/-- What is written for a character starts with no quote. -/
theorem Escaped.head {c d : Char} {w r t : List Char} (written : Escaped c w)
    (starts : w ++ r = d :: t) : d ≠ '"' ∧ Toml.isPlain d = true := by
  cases written with
  | letter means plain | number means plain =>
    cases starts
    decide
  | itself plain quote backslash =>
    cases starts
    exact ⟨quote, plain⟩

/-- Only a quote is written as a quote, and only if there were not two before it. -/
theorem escapeLines_eq_cons {n : Nat} {c : Char} {r t : List Char}
    (starts : escapeLines n (c :: s) ++ r = '"' :: t) :
    c = '"' ∧ n ≠ 2 ∧ t = escapeLines (n + 1) s ++ r := by
  rw [escapeLines] at starts
  split at starts
  · next quote =>
    split at starts
    · simp at starts
    · next two =>
      rw [List.cons_append, List.cons.injEq] at starts
      exact ⟨quote, two, starts.2.symm⟩
  · split at starts
    · simp at starts
    · rw [List.append_assoc] at starts
      exact absurd rfl ((escaped_escape c).head starts).1

/-- Three quotes in escaped text of several lines are the closing run. -/
theorem eq_replicate_of_escaped_triple {n : Nat} {t : List Char} (le : n ≤ 2)
    (triple : escapeLines n s ++ (['"', '"', '"'] ++ rest) = '"' :: '"' :: '"' :: t) :
    ∃ k ≤ 2, escapeLines n s = List.replicate k '"' ∧ s = List.replicate k '"' := by
  match s with
  | [] => exact ⟨0, by decide, rfl, rfl⟩
  | [a] =>
    obtain ⟨rfl, two, -⟩ := escapeLines_eq_cons triple
    exact ⟨1, by decide, by simp [escapeLines, two], rfl⟩
  | [a, b] =>
    obtain ⟨rfl, two, second⟩ := escapeLines_eq_cons triple
    obtain ⟨rfl, two', -⟩ := escapeLines_eq_cons second.symm
    exact ⟨2, by decide, by simp [escapeLines, two, two'], rfl⟩
  | a :: b :: c :: s =>
    obtain ⟨-, two, second⟩ := escapeLines_eq_cons triple
    obtain ⟨-, two', third⟩ := escapeLines_eq_cons second.symm
    obtain ⟨-, two'', -⟩ := escapeLines_eq_cons third.symm
    omega

/-- A quote that does not start the closing ones belongs to the text. -/
theorem escapedLines_quote {cs : List Char} (apart : ∀ t, '"' :: cs ≠ '"' :: '"' :: '"' :: t) :
    escapedLines .text ('"' :: cs) = push '"' (escapedLines .text cs) := by
  rw [escapedLines]
  · rfl
  all_goals simp_all

theorem escapedLines_lineFeed (cs : List Char) :
    escapedLines .text ('\n' :: cs) = push '\n' (escapedLines .text cs) := by
  simp [escapedLines, isBlank]

/-- An escaped text of several lines is read back, since at most two of its quotes stand in a row. -/
theorem escapedLines_write {n : Nat} (le : n ≤ 2) (stops : rest.head? ≠ some '"') :
    escapedLines .text (escapeLines n s ++ (['"', '"', '"'] ++ rest)) = some (s, rest) := by
  induction s generalizing n with
  | nil => exact escapedLines_closing (Nat.zero_le 2) stops
  | cons c s ih =>
    have done := ih (Nat.zero_le 2)
    -- The next three characters are the closing run, or the first of them is just a character.
    by_cases run : ∃ t, escapeLines n (c :: s) ++ (['"', '"', '"'] ++ rest) = '"' :: '"' :: '"' :: t
    · obtain ⟨t, triple⟩ := run
      obtain ⟨k, le, written, same⟩ := eq_replicate_of_escaped_triple le triple
      rw [written, same]
      exact escapedLines_closing le stops
    · by_cases quote : c = '"'
      · subst quote
        by_cases two : n = 2
        · have escaped : Escaped '"' ['\\', '"'] := .letter rfl rfl
          have written : escapeLines n ('"' :: s) = ['\\', '"'] ++ escapeLines 0 s := by
            simp [escapeLines, two]
          rw [written, List.append_assoc, escapedLines_escaped escaped, done]
          rfl
        · have written : escapeLines n ('"' :: s) = '"' :: escapeLines (n + 1) s := by
            simp [escapeLines, two]
          rw [written, List.cons_append] at run ⊢
          rw [escapedLines_quote (not_exists.1 run), ih (by omega)]
          rfl
      · rw [escapeLines, if_neg quote]
        split
        · next lineFeed =>
          rw [List.append_assoc, lineFeed, List.singleton_append, escapedLines_lineFeed, done]
          rfl
        · rw [List.append_assoc, escapedLines_escaped (escaped_escape c), done]
          rfl

end Forms

/-! ## Reading what was written -/

section Written

variable {s rest : List Char}

/-- The line break that opens text with line breaks is dropped, and nothing else. -/
theorem dropBreak_opening {w : List Char} (starts : s.contains '\n' = false → w.head? ≠ some '\n') :
    dropBreak (opening s ++ w) = w := by
  unfold opening
  split
  · rfl
  · next plain =>
    have other := starts (by simpa using plain)
    cases w with
    | nil => rfl
    | cons c w =>
      have ne : c ≠ '\n' := by simpa using other
      simp [dropBreak, ne]

/-- Without a line feed the text does not start with one, so none is dropped behind the opening quotes. -/
theorem head?_escapeLines (breaks : s.contains '\n' = false) :
    (escapeLines 0 s ++ (['"', '"', '"'] ++ rest)).head? ≠ some '\n' := by
  cases s with
  | nil => simp [escapeLines]
  | cons c s =>
    have ne : c ≠ '\n' := by
      rintro rfl
      simp at breaks
    by_cases quote : c = '"'
    · simp [escapeLines, quote]
    · rw [escapeLines, if_neg quote, if_neg ne, List.append_assoc]
      intro starts
      obtain ⟨t, starts⟩ := List.head?_eq_some_iff.1 starts
      cases ((escaped_escape c).head starts).2

/-- **Escaped, one line.** The first form is read back if no quote follows. -/
theorem read_writeEscaped (stops : rest.head? ≠ some '"') :
    read (writeEscaped s ++ rest) = some (s, rest) := by
  have apart : ∀ t, s.flatMap escape ++ '"' :: rest ≠ '"' :: '"' :: t := by
    intro t triple
    cases s with
    | nil => simp_all
    | cons c s =>
      rw [List.flatMap_cons, List.append_assoc] at triple
      exact ((escaped_escape c).head triple).1 rfl
  have text : writeEscaped s ++ rest = '"' :: (s.flatMap escape ++ '"' :: rest) := by
    simp [writeEscaped]
  rw [text, read, readLine, escapedTail_write]
  · simpa using apart
  · nofun

/-- **Raw, one line.** The second form is for texts that need no escape and have no quote. -/
theorem read_writeRaw (plain : ∀ c ∈ s, isPlain c = true ∧ c ≠ '\'') (stops : rest.head? ≠ some '\'') :
    read (writeRaw s ++ rest) = some (s, rest) := by
  have apart : ∀ t, s ++ '\'' :: rest ≠ '\'' :: '\'' :: t := by
    intro t triple
    cases s with
    | nil => simp_all
    | cons c s =>
      rw [List.cons_append, List.cons.injEq] at triple
      exact (plain c List.mem_cons_self).2 triple.1
  have text : writeRaw s ++ rest = '\'' :: (s ++ '\'' :: rest) := by
    simp [writeRaw]
  rw [text, read, readLine, rawTail_append plain]
  · nofun
  · simpa using apart

/-- **Escaped, several lines.** The third form keeps line feeds and most quotes as they are. -/
theorem read_writeEscapedLines (stops : rest.head? ≠ some '"') :
    read (writeEscapedLines s ++ rest) = some (s, rest) := by
  have text : writeEscapedLines s ++ rest =
      '"' :: '"' :: '"' :: (opening s ++ (escapeLines 0 s ++ (['"', '"', '"'] ++ rest))) := by
    simp [writeEscapedLines]
  rw [text, read, dropBreak_opening head?_escapeLines, escapedLines_write (by decide) stops]

/-- **Raw, several lines.** The last form is for texts without three quotes in a row. -/
theorem read_writeRawLines (plain : ∀ c ∈ s, isPlain c = true ∨ c = '\n')
    (apart : hasTriple '\'' s = false) (stops : rest.head? ≠ some '\'') :
    read (writeRawLines s ++ rest) = some (s, rest) := by
  have text : writeRawLines s ++ rest =
      '\'' :: '\'' :: '\'' :: (opening s ++ (s ++ (['\'', '\'', '\''] ++ rest))) := by
    simp [writeRawLines]
  have starts : s.contains '\n' = false → (s ++ (['\'', '\'', '\''] ++ rest)).head? ≠ some '\n' := by
    intro breaks
    cases s with
    | nil => simp
    | cons c s =>
      rintro same
      simp_all
  rw [text, read, dropBreak_opening starts, rawLines_append plain apart stops]

theorem ne_of_contains {c d : Char} (absent : s.contains d = false) (mem : c ∈ s) : c ≠ d := by
  rintro rfl
  simp [mem] at absent

/-- A text without control characters but line feeds needs no escape. -/
theorem plain_or_of_any (controls : (s.any fun c => isControl c && c != '\n') = false) :
    ∀ c ∈ s, isPlain c = true ∨ c = '\n' := by
  intro c mem
  have either := List.any_eq_false.1 controls c mem
  by_cases lineFeed : c = '\n'
  · exact .inr lineFeed
  · simpa [isControl, lineFeed] using either

/-- **Quoted text.** What is written is read back, up to the first character behind it. -/
theorem read_write (double : rest.head? ≠ some '"') (single : rest.head? ≠ some '\'') :
    read (write s ++ rest) = some (s, rest) := by
  unfold write
  simp only [Bool.and_eq_true, Bool.not_eq_true']
  split_ifs with plain raw lines rawLines breaks
  · exact read_writeEscaped double
  · obtain ⟨⟨controls, quotes⟩, breaks⟩ := raw
    refine read_writeRaw (fun c mem => ⟨?_, ne_of_contains quotes mem⟩) single
    exact (plain_or_of_any controls c mem).resolve_right (ne_of_contains breaks mem)
  · exact read_writeEscapedLines double
  · exact read_writeRawLines (plain_or_of_any rawLines.1) rawLines.2 single
  · exact read_writeEscapedLines double
  · exact read_writeEscaped double

/-- Quoted text of one line is read back. -/
theorem readLine_writeLine (s rest : List Char) : readLine (writeLine s ++ rest) = some (s, rest) := by
  have escaped : readLine (writeEscaped s ++ rest) = some (s, rest) := by
    have text : writeEscaped s ++ rest = '"' :: (s.flatMap escape ++ '"' :: rest) := by
      simp [writeEscaped]
    rw [text, readLine, escapedTail_write]
  unfold writeLine
  simp only [Bool.and_eq_true, Bool.not_eq_true']
  split_ifs with plain raw
  · exact escaped
  · obtain ⟨controls, quotes⟩ := raw
    have own : ∀ c ∈ s, isPlain c = true ∧ c ≠ '\'' := by
      intro c mem
      have plain := List.any_eq_false.1 controls c mem
      exact ⟨by simpa [isControl] using plain, ne_of_contains quotes mem⟩
    have text : writeRaw s ++ rest = '\'' :: (s ++ '\'' :: rest) := by
      simp [writeRaw]
    rw [text, readLine, rawTail_append own]
  · exact escaped

end Written

/-! ## The characters of written text -/

/-- A text starts with a quote of one kind, whatever form it is in. -/
theorem write_starts (s : List Char) : ∃ cs, write s = '"' :: cs ∨ write s = '\'' :: cs := by
  unfold write
  simp only [Bool.and_eq_true, Bool.not_eq_true']
  split_ifs
  · exact ⟨_, .inl rfl⟩
  · exact ⟨_, .inr rfl⟩
  · exact ⟨_, .inl rfl⟩
  · exact ⟨_, .inr rfl⟩
  · exact ⟨_, .inl rfl⟩
  · exact ⟨_, .inl rfl⟩

theorem writeLine_starts (s : List Char) :
    ∃ cs, writeLine s = '"' :: cs ∨ writeLine s = '\'' :: cs := by
  unfold writeLine
  simp only [Bool.and_eq_true, Bool.not_eq_true']
  split_ifs
  · exact ⟨_, .inl rfl⟩
  · exact ⟨_, .inr rfl⟩
  · exact ⟨_, .inl rfl⟩

section CarriageReturns

variable {s : List Char}

/-- A carriage return is a control character. -/
theorem cr_not_mem_of_plain (plain : ∀ c ∈ s, isPlain c = true ∨ c = '\n') : '\r' ∉ s := by
  intro mem
  rcases plain _ mem with impossible | impossible <;> cases impossible

theorem cr_not_mem_escape (c : Char) : '\r' ∉ escape c :=
  cr_not_mem_of_plain fun d mem => .inl ((escaped_escape c).isPlain d mem)

theorem cr_not_mem_writeEscaped (s : List Char) : '\r' ∉ writeEscaped s := by
  simp [writeEscaped, cr_not_mem_escape]

theorem cr_not_mem_escapeLines (n : Nat) (s : List Char) : '\r' ∉ escapeLines n s := by
  induction s generalizing n with
  | nil => simp [escapeLines]
  | cons c s ih =>
    rw [escapeLines]
    split_ifs <;> simp [ih, cr_not_mem_escape]

theorem cr_not_mem_opening (s : List Char) : '\r' ∉ opening s := by
  unfold opening
  split <;> simp

theorem cr_not_mem_writeEscapedLines (s : List Char) : '\r' ∉ writeEscapedLines s := by
  simp [writeEscapedLines, cr_not_mem_opening, cr_not_mem_escapeLines]

/-- **No carriage return.** None of the forms writes one. -/
theorem cr_not_mem_write (s : List Char) : '\r' ∉ write s := by
  unfold write
  simp only [Bool.and_eq_true, Bool.not_eq_true']
  split_ifs with plain raw lines rawLines breaks
  · exact cr_not_mem_writeEscaped s
  · simp [writeRaw, cr_not_mem_of_plain (plain_or_of_any raw.1.1)]
  · exact cr_not_mem_writeEscapedLines s
  · simp [writeRawLines, cr_not_mem_opening, cr_not_mem_of_plain (plain_or_of_any rawLines.1)]
  · exact cr_not_mem_writeEscapedLines s
  · exact cr_not_mem_writeEscaped s

theorem cr_not_mem_writeLine (s : List Char) : '\r' ∉ writeLine s := by
  unfold writeLine
  simp only [Bool.and_eq_true, Bool.not_eq_true']
  split_ifs with plain raw
  · exact cr_not_mem_writeEscaped s
  · have own : '\r' ∉ s := by
      intro mem
      exact absurd rfl (List.any_eq_false.1 raw.1 _ mem)
    simp [writeRaw, own]
  · exact cr_not_mem_writeEscaped s

end CarriageReturns

end SessionGrid.Toml.Quoted
