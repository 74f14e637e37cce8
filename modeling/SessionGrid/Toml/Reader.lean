import SessionGrid.Toml.Draft
import SessionGrid.Toml.Number

/-!
# Reading TOML

Lines end in a line feed, with a carriage return before it or not; a carriage return anywhere else is
an error, so all text is first brought to plain line feeds. A value without quotes and brackets is the
longest run of the characters that such values are made of (`isTokenChar`), only a time may follow its
date after a blank. Loops carry a bound that the length of the text never lets them reach.
-/

namespace SessionGrid.Toml

open Text

/-- Arrays and inline tables may be nested this deep. -/
def maxDepth : Nat := 79

/-! ## Blanks, comments and line ends -/

/-- Text with a line feed for every carriage return and line feed. -/
def joinBreaks : List Char → List Char
  | [] => []
  | '\r' :: '\n' :: cs => '\n' :: joinBreaks cs
  | c :: cs => c :: joinBreaks cs

/-- The rest behind blanks, line ends and comments. A comment goes on to the end of its line. -/
def skipLines (comment : Bool) : List Char → List Char
  | [] => []
  | c :: cs =>
    if c = '\n' then skipLines false cs
    else if comment && isPlain c then skipLines true cs
    else if !comment && isBlank c then skipLines false cs
    else if !comment && c = '#' then skipLines true cs
    else c :: cs

/-- The rest behind the end of a line, before which blanks and a comment may stand. -/
def lineEnd (cs : List Char) : Option (List Char) :=
  let cs := match skipBlanks cs with
    | '#' :: cs => cs.dropWhile isPlain
    | cs => cs
  match cs with
  | [] => some []
  | '\n' :: cs => some cs
  | _ => none

/-! ## Values -/

def isTokenChar (c : Char) : Bool :=
  isBare c || c == '+' || c == '.' || c == ':'

/-- What a token stands for. -/
def tokenValue? (token : List Char) : Option Toml :=
  if token = ['t', 'r', 'u', 'e'] then some (.bool true)
  else if token = ['f', 'a', 'l', 's', 'e'] then some (.bool false)
  else match DateTime.read? token with
    | some d => some (.dateTime d)
    | none => match integer? token with
      | some n => some (.integer n)
      | none => (float? token).map .float

/-- A value without quotes and brackets. -/
def readToken : Reader Toml := fun cs =>
  let (token, rest) := cs.span isTokenChar
  match DateTime.readDate token, rest with
  | some (_, []), ' ' :: c :: cs =>
    if c.isDigit then
      let (time, rest) := (c :: cs).span isTokenChar
      (tokenValue? (token ++ ' ' :: time)).map (·, rest)
    else (tokenValue? token).map (·, rest)
  | _, _ => (tokenValue? token).map (·, rest)

/-- Items up to the closing bracket, at most `bound` of them. A comma may follow the last. -/
def readItems (item : Reader Toml) : Nat → Reader (List Toml)
  | 0, _ => none
  | bound + 1, cs =>
    match skipLines false cs with
    | ']' :: cs => some ([], cs)
    | cs => do
      let (x, cs) ← item cs
      match skipLines false cs with
      | ']' :: cs => some ([x], cs)
      | ',' :: cs => (readItems item bound cs).map fun (xs, cs) => (x :: xs, cs)
      | _ => none

/-- `path = value` -/
def readEntry (value : Reader Toml) : Reader (Path × Toml) := fun cs => do
  let (path, cs) ← readPath cs
  match cs with
  | '=' :: cs => (value (skipBlanks cs)).map fun (v, cs) => ((path, v), cs)
  | _ => none

/-- Entries of an inline table up to the closing brace, at most `bound` of them. -/
def readFields (value : Reader Toml) : Nat → Bindings Draft → Reader (Bindings Draft)
  | 0, _, _ => none
  | bound + 1, es, cs => do
    let ((path, v), cs) ← readEntry value cs
    let es ← Draft.addEntry path.name v path.parents es
    match skipBlanks cs with
    | '}' :: cs => some (es, cs)
    | ',' :: cs => readFields value bound es cs
    | _ => none

/-- An inline table whose brace has been read. -/
def readInline (value : Reader Toml) : Reader Toml := fun cs =>
  match skipBlanks cs with
  | '}' :: cs => some (.table [], cs)
  | cs => (readFields value cs.length [] cs).map fun (es, cs) => (.table (Draft.closeEntries es), cs)

/-- A value in which arrays and inline tables are nested at most `depth` deep. -/
def readValue : Nat → Reader Toml
  | _, '"' :: cs => (Quoted.read ('"' :: cs)).map fun (s, cs) => (.string (String.ofList s), cs)
  | _, '\'' :: cs => (Quoted.read ('\'' :: cs)).map fun (s, cs) => (.string (String.ofList s), cs)
  | depth + 1, '[' :: cs =>
    (readItems (readValue depth) (cs.length + 1) cs).map fun (xs, cs) => (.array xs, cs)
  | depth + 1, '{' :: cs => readInline (readValue depth) cs
  | _, cs => readToken cs

/-! ## Documents -/

/-- A statement, without the end of its line. -/
def readStatement : Reader Statement
  | '[' :: '[' :: cs => do
    let (path, cs) ← readPath cs
    let cs ← Reader.word [']', ']'] cs
    some (.arrayHeader path, cs)
  | '[' :: cs => do
    let (path, cs) ← readPath cs
    let cs ← Reader.word [']'] cs
    some (.header path, cs)
  | cs => (readEntry (readValue maxDepth) cs).map fun ((path, v), cs) => (.entry path v, cs)

/-- The statements of at most `bound` lines. -/
def readStatements : Nat → List Char → Option (List Statement)
  | 0, _ => none
  | bound + 1, cs =>
    match skipBlanks cs with
    | [] => some []
    | c :: cs =>
      if c = '\n' || c = '#' then (lineEnd (c :: cs)).bind (readStatements bound)
      else do
        let (s, cs) ← readStatement (c :: cs)
        let ss ← readStatements bound (← lineEnd cs)
        some (s :: ss)

/-- A text without the mark of byte order that may open it. -/
def dropMark : List Char → List Char
  | '\ufeff' :: cs => cs
  | cs => cs

/-- The table that a text describes. -/
def read (s : String) : Option (Bindings Toml) :=
  let cs := joinBreaks (dropMark s.toList)
  (readStatements (cs.length + 1) cs).bind assemble

end SessionGrid.Toml
