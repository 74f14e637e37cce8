import SessionGrid.Json.Number

/-!
# Reading JSON

Readers for the parts of a JSON text. Blanks are the four of the format; the reader of a part starts
at its first character, and whoever calls it has skipped the blanks before. `readValue` is bounded in
depth, `ignored` reads what nobody asks for: it checks the form of the text, but neither the size of
numbers nor the pairing of surrogates, nor the depth. Objects are built up field by field
(`fields`), so that a reader of records can treat its own names apart. A loop carries the length of
its text as a bound, and every round reads at least one character, so the bound never stops it.
-/

namespace SessionGrid.Json

open Text

/-- Arrays and objects may be nested this deep. -/
def maxDepth : Nat := 127

def isSpace (c : Char) : Bool :=
  c == ' ' || c == '\t' || c == '\n' || c == '\r'

def skip (cs : List Char) : List Char :=
  cs.dropWhile isSpace

/-! ## Strings -/

/-- The character that a one-letter escape stands for. -/
def unescape : Char → Option Char
  | '"' => some '"'
  | '\\' => some '\\'
  | '/' => some '/'
  | 'b' => some '\x08'
  | 'f' => some '\x0c'
  | 'n' => some '\n'
  | 'r' => some '\r'
  | 't' => some '\t'
  | _ => none

/-- The rest of a string after its opening quote. `high` is a first surrogate that waits for its
second. -/
def stringTail (high : Option Nat) : Reader (List Char)
  | [] => none
  | '\\' :: 'u' :: a :: b :: c :: d :: cs =>
    match hexNumber? [a, b, c, d], high with
    | none, _ => none
    | some n, some h =>
      if 0xDC00 ≤ n ∧ n < 0xE000 then
        (stringTail none cs).map fun (s, rest) =>
          (Char.ofNat (0x10000 + (h - 0xD800) * 0x400 + (n - 0xDC00)) :: s, rest)
      else none
    | some n, none =>
      if 0xD800 ≤ n ∧ n < 0xDC00 then stringTail (some n) cs
      else if 0xDC00 ≤ n ∧ n < 0xE000 then none
      else (stringTail none cs).map fun (s, rest) => (Char.ofNat n :: s, rest)
  | c :: cs =>
    if high.isSome then none
    else if c = '"' then some ([], cs)
    else if c = '\\' then
      match cs with
      | e :: cs => do
        let e ← unescape e
        let (s, rest) ← stringTail none cs
        some (e :: s, rest)
      | [] => none
    else if c.toNat < 0x20 then none
    else (stringTail none cs).map fun (s, rest) => (c :: s, rest)

def readString : Reader String
  | '"' :: cs => (stringTail none cs).map fun (s, rest) => (String.ofList s, rest)
  | _ => none

/-- The rest after an ignored string whose opening quote has been read. -/
def ignoredTail : List Char → Option (List Char)
  | [] => none
  | '\\' :: 'u' :: a :: b :: c :: d :: cs =>
    if (hexNumber? [a, b, c, d]).isSome then ignoredTail cs else none
  | c :: cs =>
    if c = '"' then some cs
    else if c = '\\' then
      match cs with
      | e :: cs => if (unescape e).isSome then ignoredTail cs else none
      | [] => none
    else if c.toNat < 0x20 then none
    else ignoredTail cs

def ignoredString : Reader Unit
  | '"' :: cs => (ignoredTail cs).map ((), ·)
  | _ => none

/-! ## Arrays and objects -/

/-- Items up to the closing bracket, at most `bound` of them. -/
def moreItems {α : Type} (item : Reader α) : Nat → Reader (List α)
  | 0, _ => none
  | bound + 1, cs => do
    let (x, cs) ← item cs
    match skip cs with
    | ']' :: cs => some ([x], cs)
    | ',' :: cs =>
      let (xs, cs) ← moreItems item bound (skip cs)
      some (x :: xs, cs)
    | _ => none

/-- The items of an array whose bracket has been read. -/
def items {α : Type} (item : Reader α) : Reader (List α) := fun cs =>
  match skip cs with
  | ']' :: cs => some ([], cs)
  | cs => moreItems item cs.length cs

/-- Fields up to the closing brace, at most `bound` of them, each taken in by `field`. -/
def moreFields {κ σ : Type} (key : Reader κ) (field : κ → σ → Reader σ) : Nat → σ → Reader σ
  | 0, _, _ => none
  | bound + 1, s, cs => do
    let (k, cs) ← key cs
    match skip cs with
    | ':' :: cs =>
      let (s, cs) ← field k s (skip cs)
      match skip cs with
      | '}' :: cs => some (s, cs)
      | ',' :: cs => moreFields key field bound s (skip cs)
      | _ => none
    | _ => none

/-- The fields of an object whose brace has been read, taken in from left to right. -/
def fields {κ σ : Type} (key : Reader κ) (field : κ → σ → Reader σ) (s : σ) : Reader σ := fun cs =>
  match skip cs with
  | '}' :: cs => some (s, cs)
  | cs => moreFields key field cs.length s cs

/-- Values up to the closing bracket, each taken in by the reader of its place; no value goes without
a reader. -/
def morePlaces {σ : Type} : List (σ → Reader σ) → σ → Reader σ
  | [], _, _ => none
  | place :: later, s, cs => do
    let (s, cs) ← place s cs
    match skip cs with
    | ']' :: cs => some (s, cs)
    | ',' :: cs => morePlaces later s (skip cs)
    | _ => none

/-- The values of an array whose bracket has been read, taken in from left to right. -/
def places {σ : Type} (readers : List (σ → Reader σ)) (s : σ) : Reader σ := fun cs =>
  match skip cs with
  | ']' :: cs => some (s, cs)
  | cs => morePlaces readers s cs

/-! ## Values -/

/-- A value that is no array and no object. -/
def readScalar : Reader Json
  | 'n' :: cs => (Reader.word ['u', 'l', 'l'] cs).map (.null, ·)
  | 't' :: cs => (Reader.word ['r', 'u', 'e'] cs).map (.bool true, ·)
  | 'f' :: cs => (Reader.word ['a', 'l', 's', 'e'] cs).map (.bool false, ·)
  | '"' :: cs => (readString ('"' :: cs)).map fun (s, rest) => (.string s, rest)
  | cs => do
    let (l, rest) ← Literal.read cs
    let n ← l.value?
    some (.number n, rest)

/-- A value in which arrays and objects are nested at most `depth` deep. Of two fields with one name
the later counts. -/
def readValue : Nat → Reader Json
  | depth + 1, '[' :: cs => (items (readValue depth) cs).map fun (xs, rest) => (.array xs, rest)
  | depth + 1, '{' :: cs =>
    (fields readString
      (fun k b cs => (readValue depth cs).map fun (x, rest) => (Bindings.insert k x b, rest))
      [] cs).map fun (b, rest) => (.object b, rest)
  | _, cs => readScalar cs

/-- An object in which arrays and objects are nested at most `depth` deep, itself counted. -/
def readObject (depth : Nat) : Reader (Bindings Json) := fun cs =>
  match readValue depth cs with
  | some (.object b, rest) => some (b, rest)
  | _ => none

def ignoredScalar : Reader Unit
  | 'n' :: cs => (Reader.word ['u', 'l', 'l'] cs).map ((), ·)
  | 't' :: cs => (Reader.word ['r', 'u', 'e'] cs).map ((), ·)
  | 'f' :: cs => (Reader.word ['a', 'l', 's', 'e'] cs).map ((), ·)
  | '"' :: cs => ignoredString ('"' :: cs)
  | cs => (Literal.read cs).map fun (_, rest) => ((), rest)

/-- A value nobody asks for, nested at most `depth` deep. -/
def ignoredWithin : Nat → Reader Unit
  | depth + 1, '[' :: cs => (items (ignoredWithin depth) cs).map fun (_, rest) => ((), rest)
  | depth + 1, '{' :: cs => fields ignoredString (fun _ _ cs => ignoredWithin depth cs) () cs
  | _, cs => ignoredScalar cs

/-- A value nobody asks for. Its length bounds its depth. -/
def ignored : Reader Unit := fun cs =>
  ignoredWithin cs.length cs

/-! ## Records -/

/-- A record with the given fields, in order: an object that names them, or an array of the first few
of them. The object may have other fields, the array no further values. -/
def record {σ : Type} (known : List (String × (σ → Reader σ))) (s : σ) : Reader σ
  | '{' :: cs =>
    fields readString
      (fun k s cs =>
        match Bindings.find? k known with
        | some field => field s cs
        | none => (ignored cs).map fun (_, cs) => (s, cs))
      s cs
  | '[' :: cs => places (known.map (·.2)) s cs
  | _ => none

/-- A field that may be given once. -/
def once {σ α : Type} (get : σ → Option α) (set : α → σ → σ) (value : Reader α) : σ → Reader σ :=
  fun s cs => if (get s).isSome then none else (value cs).map fun (x, cs) => (set x s, cs)

/-! ## Whole texts -/

/-- What `part` reads if nothing but blanks surrounds it. -/
def whole {α : Type} (part : Reader α) (s : String) : Option α :=
  match part (skip s.toList) with
  | some (x, rest) => if (skip rest).isEmpty then some x else none
  | none => none

/-- The value of a text. -/
def read (s : String) : Option Json :=
  whole (readValue maxDepth) s

end SessionGrid.Json
