import MediaChain.Json.Basic
import MediaChain.Text.Utf8

/-!
# Values

A `Value` is what a fact, a mark or a parameter of a stream type carries. It has a JSON form
without a tag: `Value.ofJson?` tells the three kinds apart by their shapes and reads back what
`Value.toJson` writes (`ofJson?_toJson`).
-/

namespace MediaChain

/-- A number, a text or raw bytes. -/
inductive Value
  | int (n : Int64)
  | text (s : String)
  | bytes (bs : Bytes)
deriving DecidableEq, Repr

namespace Value

def int? : Value → Option Int64
  | int n => some n
  | _ => none

def text? : Value → Option String
  | text s => some s
  | _ => none

def bytes? : Value → Option Bytes
  | bytes bs => some bs
  | _ => none

/-- The name of a value's kind. -/
def kind : Value → String
  | int _ => "int"
  | text _ => "string"
  | bytes _ => "bin"

/-- The value as it is shown to people. -/
def describe : Value → String
  | int n => toString n.toInt
  | text s => s
  | bytes bs => s!"<{bs.length} bytes>"

/-! ## JSON form -/

def toJson : Value → Json
  | int n => .int n.toInt
  | text s => .text (some s)
  | bytes bs => .array (bs.map fun b => .int b.toNat)

/-- The byte that a JSON number stands for. -/
def byteOfJson? (j : Json) : Option UInt8 := (j.intWithin? 0 255).map fun n => UInt8.ofNat n.toNat

/-- Reads a number of 64 bits, a string, or an array of bytes. -/
def ofJson? : Json → Option Value
  | .array items => (items.mapM byteOfJson?).map bytes
  | .text s => s.map text
  | j => (j.intWithin? Int64.minValue.toInt Int64.maxValue.toInt).map fun n => int (Int64.ofInt n)

theorem byteOfJson?_eq_some_iff {j : Json} {b : UInt8} :
    byteOfJson? j = some b ↔ j = .int b.toNat := by
  constructor
  · intro h
    obtain ⟨n, hn, rfl⟩ := Option.map_eq_some_iff.mp h
    obtain ⟨rfl, hlow, hhigh⟩ := Json.intWithin?_eq_some_iff.mp hn
    have hsize : n.toNat < UInt8.size := by
      rw [show UInt8.size = 256 from rfl]
      omega
    rw [UInt8.toNat_ofNat_of_lt' hsize, Int.toNat_of_nonneg hlow]
  · rintro rfl
    have h : b.toNat < 256 := b.toNat_lt
    simp [byteOfJson?, Json.intWithin?]
    omega

theorem ofJson?_toJson (v : Value) : ofJson? v.toJson = some v := by
  cases v with
  | int n =>
    have h₁ := Int64.minValue_le_toInt n
    have h₂ := Int64.toInt_le n
    simp_all [toJson, ofJson?, Json.intWithin?]
  | text s => rfl
  | bytes bs =>
    have h : (bs.map fun b => Json.int b.toNat).mapM byteOfJson? = some bs :=
      (mapM_eq_some_iff_of_writer _ fun _ _ => byteOfJson?_eq_some_iff).mpr rfl
    rw [toJson, ofJson?, h, Option.map_some]

end Value

end MediaChain
