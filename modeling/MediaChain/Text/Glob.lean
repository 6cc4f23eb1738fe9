import MediaChain.Text.Utf8

/-!
# Glob patterns

A pattern stands for a set of byte strings: a star for any bytes, a question mark for any one byte,
every other byte for itself. `Glob.Derives` says so rule by rule; `Glob.accepts` decides it by
cutting the pattern at its stars, fixing the first piece at the front, each middle piece at its
leftmost place, and the last piece at the end.
-/

namespace MediaChain

namespace Glob

/-- The byte that stands for any bytes. -/
def star : UInt8 := 0x2A

/-- The byte that stands for any one byte. -/
def anyByte : UInt8 := 0x3F

/-- The texts that a pattern stands for. -/
inductive Derives : Bytes → Bytes → Prop
  | nil : Derives [] []
  | many {p : Bytes} (skipped : Bytes) {t : Bytes} :
      Derives p t → Derives (star :: p) (skipped ++ t)
  | one {p : Bytes} (b : UInt8) {t : Bytes} : Derives p t → Derives (anyByte :: p) (b :: t)
  | same {p : Bytes} {b : UInt8} {t : Bytes} :
      b ≠ star → b ≠ anyByte → Derives p t → Derives (b :: p) (b :: t)

/-! ## Pieces without a star -/

/-- What is left of a text behind a piece at its front. -/
def strip? : Bytes → Bytes → Option Bytes
  | [], t => some t
  | _ :: _, [] => none
  | p :: ps, b :: t => if p = anyByte ∨ p = b then strip? ps t else none

/-- What is left of a text behind the leftmost place of a piece. -/
def seek? (piece : Bytes) : Bytes → Option Bytes
  | [] => strip? piece []
  | b :: t =>
    match strip? piece (b :: t) with
    | some rest => some rest
    | none => seek? piece t

/-- Whether a piece stands at the end of a text. -/
def endsWith (piece t : Bytes) : Bool :=
  piece.length ≤ t.length && strip? piece (t.drop (t.length - piece.length)) == some []

/-! ## Patterns -/

/-- Matches the pieces that follow the first star of a pattern. -/
def acceptsPieces : List Bytes → Bytes → Bool
  | [], t => t.isEmpty
  | [last], t => endsWith last t
  | piece :: more, t =>
    match seek? piece t with
    | some rest => acceptsPieces more rest
    | none => false

/-- Whether a pattern stands for a text. -/
def accepts (pattern t : Bytes) : Bool :=
  match pattern.splitOn star with
  | [] => false
  | first :: more =>
    match strip? first t with
    | some rest => acceptsPieces more rest
    | none => false

/-- Whether a written pattern stands for a text, byte by byte. -/
def acceptsText (pattern text : String) : Bool :=
  accepts (Utf8.encode pattern) (Utf8.encode text)

end Glob

end MediaChain
