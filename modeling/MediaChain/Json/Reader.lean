import MediaChain.Json.Basic

/-!
# Reading JSON

`Json.parse?` reads a text that holds exactly one JSON value between blanks. The readers below it
take characters from the front of a text and return what is left.
-/

namespace MediaChain

namespace Json

namespace Reader

/-- The text behind the blanks at its front. -/
def skipBlanks (cs : List Char) : List Char :=
  cs.dropWhile fun c => c = ' ' || c = '\t' || c = '\n' || c = '\r'

/-! ## Numbers -/

/-- Reads at least one digit. -/
def digits? (cs : List Char) : Option (List Char × List Char) :=
  match cs.takeWhile Char.isDigit with
  | [] => none
  | ds => some (ds, cs.dropWhile Char.isDigit)

/-- The number that digits spell. -/
def spelled (ds : List Char) : Nat := ds.foldl (fun n d => 10 * n + (d.toNat - '0'.toNat)) 0

/-- Reads the digits before the point: a zero alone, or digits that do not begin with one. -/
def whole? : List Char → Option (List Char × List Char)
  | '0' :: rest => some (['0'], rest)
  | cs => digits? cs

/-- Reads a fraction, if there is one; says whether there was. -/
def fraction? : List Char → Option (Bool × List Char)
  | '.' :: rest => (digits? rest).map fun (_, rest) => (true, rest)
  | cs => some (false, cs)

/-- Reads an exponent, if there is one; says whether there was. -/
def exponent? : List Char → Option (Bool × List Char)
  | c :: rest =>
    if c = 'e' ∨ c = 'E' then
      let unsigned := match rest with
        | '+' :: rest => rest
        | '-' :: rest => rest
        | rest => rest
      (digits? unsigned).map fun (_, rest) => (true, rest)
    else some (false, c :: rest)
  | [] => some (false, [])

/-- Reads a number. -/
def number? (cs : List Char) : Option (Json × List Char) := do
  let (negative, cs) := match cs with
    | '-' :: rest => (true, rest)
    | cs => (false, cs)
  let (ds, cs) ← whole? cs
  let (fractional, cs) ← fraction? cs
  let (scaled, cs) ← exponent? cs
  let n := spelled ds
  if fractional || scaled || (negative && n == 0) then some (.real, cs)
  else some (.int (if negative then -n else n), cs)

/-! ## Strings -/

/-- The value of a hexadecimal digit. -/
def hexDigit? (c : Char) : Option Nat :=
  if '0' ≤ c ∧ c ≤ '9' then some (c.toNat - '0'.toNat)
  else if 'a' ≤ c ∧ c ≤ 'f' then some (c.toNat - 'a'.toNat + 10)
  else if 'A' ≤ c ∧ c ≤ 'F' then some (c.toNat - 'A'.toNat + 10)
  else none

/-- The 16-bit unit that four hexadecimal digits spell. -/
def unit? (a b c d : Char) : Option Nat := do
  return ((16 * (← hexDigit? a) + (← hexDigit? b)) * 16 + (← hexDigit? c)) * 16 + (← hexDigit? d)

/-- The character that a one-letter escape stands for. -/
def escaped? : Char → Option Char
  | '"' => some '"'
  | '\\' => some '\\'
  | '/' => some '/'
  | 'b' => some '\x08'
  | 'f' => some '\x0c'
  | 'n' => some '\n'
  | 'r' => some '\r'
  | 't' => some '\t'
  | _ => none

/-- A part of a string as it is written: a character, or a 16-bit unit given by its number. -/
inductive Part
  | char (c : Char)
  | unit (n : Nat)

/-- The character in front of other characters, if there are any. -/
def consChar (c : Char) (more : Option (List Char)) : Option (List Char) := more.map (c :: ·)

/-- The characters that parts stand for. Two units that are the halves of a surrogate pair stand
for one; half a pair alone stands for none. -/
def assemble : List Part → Option (List Char)
  | [] => some []
  | .char c :: parts => consChar c (assemble parts)
  | .unit high :: .unit low :: parts =>
    if 0xD800 ≤ high ∧ high < 0xDC00 then
      if 0xDC00 ≤ low ∧ low < 0xE000 then
        consChar (Char.ofNat (0x10000 + (high - 0xD800) * 0x400 + (low - 0xDC00))) (assemble parts)
      else none
    else if 0xDC00 ≤ high ∧ high < 0xE000 then none
    else consChar (Char.ofNat high) (assemble (.unit low :: parts))
  | .unit n :: parts =>
    if 0xD800 ≤ n ∧ n < 0xE000 then none else consChar (Char.ofNat n) (assemble parts)

/-- Reads the parts of a string up to and including the closing quotation mark. Control characters
have to be escaped. -/
def parts? : List Char → Option (List Part × List Char)
  | [] => none
  | '"' :: rest => some ([], rest)
  | '\\' :: 'u' :: a :: b :: c :: d :: rest =>
    match unit? a b c d, parts? rest with
    | some n, some (parts, rest) => some (.unit n :: parts, rest)
    | _, _ => none
  | '\\' :: c :: rest =>
    match escaped? c, parts? rest with
    | some c, some (parts, rest) => some (.char c :: parts, rest)
    | _, _ => none
  | c :: rest =>
    if c.toNat < 0x20 ∨ c = '\\' then none
    else (parts? rest).map fun (parts, rest) => (.char c :: parts, rest)

/-- Reads a string behind its opening quotation mark. -/
def string? (cs : List Char) : Option (Option String × List Char) :=
  (parts? cs).map fun (parts, rest) => ((assemble parts).map String.ofList, rest)

/-! ## Values -/

mutual

/-- Reads a value, nested at most as deep as `fuel` allows. -/
def value? : Nat → List Char → Option (Json × List Char)
  | 0, _ => none
  | fuel + 1, cs =>
    match skipBlanks cs with
    | '\x7b' :: rest =>
      match skipBlanks rest with
      | '\x7d' :: rest => some (.object [], rest)
      | rest => (members? fuel rest).map fun (members, rest) => (.object members, rest)
    | '[' :: rest =>
      match skipBlanks rest with
      | ']' :: rest => some (.array [], rest)
      | rest => (items? fuel rest).map fun (items, rest) => (.array items, rest)
    | '"' :: rest => (string? rest).map fun (s, rest) => (.text s, rest)
    | 'n' :: 'u' :: 'l' :: 'l' :: rest => some (.null, rest)
    | 't' :: 'r' :: 'u' :: 'e' :: rest => some (.bool true, rest)
    | 'f' :: 'a' :: 'l' :: 's' :: 'e' :: rest => some (.bool false, rest)
    | cs => number? cs

/-- Reads the items of an array, of which there is at least one, and the closing bracket. -/
def items? : Nat → List Char → Option (List Json × List Char)
  | 0, _ => none
  | fuel + 1, cs =>
    match value? fuel cs with
    | none => none
    | some (item, rest) =>
      match skipBlanks rest with
      | ']' :: rest => some ([item], rest)
      | ',' :: rest => (items? fuel rest).map fun (items, rest) => (item :: items, rest)
      | _ => none

/-- Reads the members of an object, of which there is at least one, and the closing brace. -/
def members? : Nat → List Char → Option (List (Option String × Json) × List Char)
  | 0, _ => none
  | fuel + 1, cs =>
    match skipBlanks cs with
    | '"' :: rest =>
      match string? rest with
      | none => none
      | some (name, rest) =>
        match skipBlanks rest with
        | ':' :: rest =>
          match value? fuel rest with
          | none => none
          | some (value, rest) =>
            match skipBlanks rest with
            | '\x7d' :: rest => some ([(name, value)], rest)
            | ',' :: rest =>
              (members? fuel rest).map fun (members, rest) => ((name, value) :: members, rest)
            | _ => none
        | _ => none
    | _ => none

end

end Reader

/-- The value that a text holds. Every step of the reader takes at least one character, except the
two that open an array and its first item, so twice the length is fuel enough. -/
def parse? (s : String) : Option Json :=
  match Reader.value? (2 * s.length + 2) s.toList with
  | some (value, rest) => if Reader.skipBlanks rest = [] then some value else none
  | none => none

end Json

end MediaChain
