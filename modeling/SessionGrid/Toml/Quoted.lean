import SessionGrid.Text.Reader

/-!
# Quoted text

Text in double quotes has escapes, text in single quotes has none. Both come in a form for one line
and in a form of three quotes for several lines, in which a line break right behind the opening
quotes does not count and up to two quotes may stand anywhere, also at the end. In double quotes of
several lines a backslash at the end of a line takes the break and the blanks after it with it.

`Quoted.write` chooses the form: the first that needs no escapes, one line before several and double
quotes before single ones, else double quotes with escapes.
-/

namespace SessionGrid.Toml

open Text

def isBlank (c : Char) : Bool :=
  c == ' ' || c == '\t'

/-- Stands in comments and quoted text as it is: no control character but the tab. -/
def isPlain (c : Char) : Bool :=
  c == '\t' || (decide (0x20 ≤ c.toNat) && c.toNat != 0x7F)

namespace Quoted

/-! ## Reading -/

/-- The character that an escape of one letter stands for. -/
def unescape : Char → Option Char
  | 'b' => some '\x08'
  | 't' => some '\t'
  | 'n' => some '\n'
  | 'f' => some '\x0c'
  | 'r' => some '\r'
  | '"' => some '"'
  | '\\' => some '\\'
  | _ => none

/-- The character with the given number in hexadecimal. -/
def scalar? (ds : List Char) : Option Char := do
  let n ← hexNumber? ds
  if n.isValidChar then some (Char.ofNat n) else none

/-- Puts a character in front of what was read. -/
def push (c : Option Char) (rest : Option (List Char × List Char)) :
    Option (List Char × List Char) := do
  let c ← c
  let (s, cs) ← rest
  some (c :: s, cs)

/-- The rest of a line in double quotes. -/
def escapedTail : Reader (List Char)
  | [] => none
  | '\\' :: 'u' :: a :: b :: c :: d :: cs => push (scalar? [a, b, c, d]) (escapedTail cs)
  | '\\' :: 'U' :: a :: b :: c :: d :: e :: f :: g :: h :: cs =>
    push (scalar? [a, b, c, d, e, f, g, h]) (escapedTail cs)
  | '\\' :: c :: cs => push (unescape c) (escapedTail cs)
  | c :: cs => if c = '"' then some ([], cs) else if isPlain c then push c (escapedTail cs) else none

/-- The rest of a line in single quotes. -/
def rawTail : Reader (List Char)
  | [] => none
  | c :: cs => if c = '\'' then some ([], cs) else if isPlain c then push c (rawTail cs) else none

/-- The quotes before the last three of a closing run, two at most. The first three of the run have
been read. -/
def closing (quote : Char) (cs : List Char) : List Char × List Char :=
  let extra := min 2 (cs.takeWhile (· == quote)).length
  (List.replicate extra quote, cs.drop extra)

/-- Where the reader of escaped lines stands. -/
inductive Fold where
  | text
  /-- Behind a backslash at the end of a line: only blanks come before the break. -/
  | opened
  /-- Behind the break: blanks and further breaks do not count. -/
  | skipping

/-- The rest of several lines in double quotes. -/
def escapedLines : Fold → Reader (List Char)
  | _, [] => none
  | .opened, c :: cs =>
    if c = '\n' then escapedLines .skipping cs
    else if isBlank c then escapedLines .opened cs
    else none
  | _, '"' :: '"' :: '"' :: cs => some (closing '"' cs)
  | _, '\\' :: 'u' :: a :: b :: c :: d :: cs =>
    push (scalar? [a, b, c, d]) (escapedLines .text cs)
  | _, '\\' :: 'U' :: a :: b :: c :: d :: e :: f :: g :: h :: cs =>
    push (scalar? [a, b, c, d, e, f, g, h]) (escapedLines .text cs)
  | _, '\\' :: c :: cs =>
    if c = '\n' then escapedLines .skipping cs
    else if isBlank c then escapedLines .opened cs
    else push (unescape c) (escapedLines .text cs)
  | fold, c :: cs =>
    if isBlank c || c = '\n' then
      match fold with
      | .skipping => escapedLines .skipping cs
      | _ => push c (escapedLines .text cs)
    else if isPlain c then push c (escapedLines .text cs)
    else none

/-- The rest of several lines in single quotes. -/
def rawLines : Reader (List Char)
  | [] => none
  | '\'' :: '\'' :: '\'' :: cs => some (closing '\'' cs)
  | c :: cs => if isPlain c || c = '\n' then push c (rawLines cs) else none

/-- The rest without a line break at the front. -/
def dropBreak : List Char → List Char
  | '\n' :: cs => cs
  | cs => cs

/-- Quoted text of one line. -/
def readLine : Reader (List Char)
  | '"' :: cs => escapedTail cs
  | '\'' :: cs => rawTail cs
  | _ => none

/-- Quoted text in any form. -/
def read : Reader (List Char)
  | '"' :: '"' :: '"' :: cs => escapedLines .text (dropBreak cs)
  | '\'' :: '\'' :: '\'' :: cs => rawLines (dropBreak cs)
  | cs => readLine cs

/-! ## Writing -/

/-- A control character that only escapes can stand for on a line. -/
def isControl (c : Char) : Bool :=
  !isPlain c

/-- Three times `quote` in a row. -/
def hasTriple (quote : Char) : List Char → Bool
  | a :: b :: c :: cs => (a == quote && b == quote && c == quote) || hasTriple quote (b :: c :: cs)
  | _ => false

/-- The digit `n < 16` in upper case. -/
def hexDigit (n : Nat) : Char :=
  (Nat.digitChar n).toUpper

/-- The escape of a character within double quotes, or the character itself. -/
def escape (c : Char) : List Char :=
  if c = '"' then ['\\', '"']
  else if c = '\\' then ['\\', '\\']
  else if c = '\x08' then ['\\', 'b']
  else if c = '\t' then ['\\', 't']
  else if c = '\n' then ['\\', 'n']
  else if c = '\x0c' then ['\\', 'f']
  else if c = '\r' then ['\\', 'r']
  else if isControl c then ['\\', 'u', '0', '0', hexDigit (c.toNat / 16), hexDigit (c.toNat % 16)]
  else [c]

def writeEscaped (s : List Char) : List Char :=
  '"' :: (s.flatMap escape ++ ['"'])

def writeRaw (s : List Char) : List Char :=
  '\'' :: (s ++ ['\''])

/-- Escaped text of several lines, in which every third quote in a row is escaped. `quotes` counts
the quotes that came right before. -/
def escapeLines (quotes : Nat) : List Char → List Char
  | [] => []
  | c :: cs =>
    if c = '"' then
      if quotes = 2 then '\\' :: '"' :: escapeLines 0 cs else '"' :: escapeLines (quotes + 1) cs
    else (if c = '\n' then ['\n'] else escape c) ++ escapeLines 0 cs

/-- The line break that opens text with line breaks. -/
def opening (s : List Char) : List Char :=
  if s.contains '\n' then ['\n'] else []

def writeEscapedLines (s : List Char) : List Char :=
  ['"', '"', '"'] ++ opening s ++ escapeLines 0 s ++ ['"', '"', '"']

def writeRawLines (s : List Char) : List Char :=
  ['\'', '\'', '\''] ++ opening s ++ s ++ ['\'', '\'', '\'']

/-- Quoted text in the form that suits it best. -/
def write (s : List Char) : List Char :=
  let controls := s.any fun c => isControl c && c != '\n'
  let breaks := s.contains '\n'
  if !controls && !s.contains '\\' && !s.contains '"' && !breaks then writeEscaped s
  else if !controls && !s.contains '\'' && !breaks then writeRaw s
  else if !controls && !s.contains '\\' && !hasTriple '"' s then writeEscapedLines s
  else if !controls && !hasTriple '\'' s then writeRawLines s
  else if breaks then writeEscapedLines s
  else writeEscaped s

/-- Quoted text of one line in the form that suits it best. -/
def writeLine (s : List Char) : List Char :=
  let controls := s.any isControl
  if !controls && !s.contains '\\' && !s.contains '"' then writeEscaped s
  else if !controls && !s.contains '\'' then writeRaw s
  else writeEscaped s

end Quoted

end SessionGrid.Toml
