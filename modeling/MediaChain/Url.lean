import MediaChain.Text.Utf8

/-!
# Urls

Urls are stored encoded. `Url.encode` and `Url.decode?` convert between a stored url and the text
it names; `Url.base` and `Url.args?` split a stored url at its first question mark into the part
that names the stream and the decoded arguments behind it.
-/

namespace MediaChain

namespace Url

/-! ## Hexadecimal digits -/

/-- The upper-case digit of a number below sixteen. -/
def hexDigit (n : UInt8) : UInt8 := if n < 10 then 0x30 + n else 0x37 + n

/-- The value of a digit of either case. -/
def hexValue? (b : UInt8) : Option UInt8 :=
  if 0x30 ≤ b ∧ b ≤ 0x39 then some (b - 0x30)
  else if 0x41 ≤ b ∧ b ≤ 0x46 then some (b - 0x37)
  else if 0x61 ≤ b ∧ b ≤ 0x66 then some (b - 0x57)
  else none

/-! ## Escapes -/

/-- The percent sign, which opens an escape. -/
def percent : UInt8 := 0x25

/-- The printable ASCII characters that are escaped: the quotation mark, number sign, percent sign,
ampersand, plus sign, angle brackets, question mark, grave accent and braces. -/
def reserved : Bytes :=
  [0x22, 0x23, 0x25, 0x26, 0x2B, 0x3C, 0x3E, 0x3F, 0x60, 0x7B, 0x7D]

/-- Whether a byte stands for itself in an encoded url. -/
def isPlain (b : UInt8) : Bool := 0x20 < b && b < 0x7F && !reserved.contains b

/-- The written form of one byte. -/
def escape (b : UInt8) : Bytes :=
  if isPlain b then [b] else [percent, hexDigit (b / 16), hexDigit (b % 16)]

/-- Whether two digits follow each percent sign. -/
def isEscaped : Bytes → Bool
  | [] => true
  | b :: bs =>
    (b ≠ percent || (2 ≤ bs.length && (bs.take 2).all fun d => (hexValue? d).isSome)) &&
      isEscaped bs

/-- Reads escapes back. A percent sign without two digits behind it stands for itself. -/
def readEscapes : Bytes → Bytes
  | [] => []
  | b :: bs =>
    if b = percent then
      match bs with
      | high :: low :: rest =>
        match hexValue? high, hexValue? low with
        | some x, some y => (16 * x + y) :: readEscapes rest
        | _, _ => b :: readEscapes (high :: low :: rest)
      | bs => b :: readEscapes bs
    else b :: readEscapes bs

/-- A text with spaces for its plus signs. -/
def spaced (raw : String) : String :=
  String.ofList (raw.toList.map fun c => if c = '+' then ' ' else c)

/-! ## Coding -/

/-- The stored form of a text: every byte that is not plain is escaped. -/
def encode (s : String) : String :=
  String.ofList (((Utf8.encode s).flatMap escape).map Char.ofUInt8)

/-- The text that a stored form names; `none` for a broken escape or text that is not UTF-8. Plus
signs are read as spaces, those that come out of escapes are not. -/
def decode? (raw : String) : Option String :=
  if isEscaped (Utf8.encode raw) then Utf8.decode? (readEscapes (Utf8.encode (spaced raw)))
  else none

/-! ## Arguments -/

/-- An argument of a url, decoded: `key=value`, or a bare `key`. -/
inductive Arg
  | pair (key value : String)
  | flag (key : String)
deriving DecidableEq, Repr

/-- The name of an argument. -/
def Arg.key : Arg → String
  | pair key _ => key
  | flag key => key

/-- Reads one written argument, split at its first equals sign. -/
def Arg.read? (param : List Char) : Option Arg :=
  match param.dropWhile (· ≠ '=') with
  | [] => (decode? (String.ofList param)).map .flag
  | _ :: value =>
    match decode? (String.ofList (param.takeWhile (· ≠ '='))), decode? (String.ofList value) with
    | some key, some value => some (.pair key value)
    | _, _ => none

/-- The part of a url before its first question mark, still encoded. -/
def base (url : String) : String := String.ofList (url.toList.takeWhile (· ≠ '?'))

/-- The written arguments of a url; empty ones do not count. -/
def params (url : String) : List (List Char) :=
  (((url.toList.dropWhile (· ≠ '?')).drop 1).splitOn '&').filter (· ≠ [])

/-- The arguments of a url; `none` if one of them cannot be decoded. -/
def args? (url : String) : Option (List Arg) := (params url).mapM Arg.read?

end Url

end MediaChain
