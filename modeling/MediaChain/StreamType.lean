import Std.Data.ExtTreeMap
import MediaChain.SampleFormat
import MediaChain.Text.Glob
import MediaChain.Value

/-!
# Stream types

A `StreamType` describes what a stage produces, or, used as a pattern, what a plugin accepts:
`StreamType.accepts` asks that every parameter of the pattern is met by the candidate. Texts of a
pattern are glob patterns, and the integer -1 stands for any integer.
-/

namespace MediaChain

open Std

/-- The parameters of a stream, by name. -/
structure StreamType where
  params : ExtTreeMap String Value
deriving DecidableEq

namespace StreamType

/-! ## Well-known parameters -/

def mimetypeKey : String := "mimetype"
def urlKey : String := "url"
def formatKey : String := "fmt_format"
def channelsKey : String := "fmt_channels"
def sampleRateKey : String := "fmt_samplerate"

/-- The media type of a url that has not been opened. -/
def urlMime : String := "application/x-url"

/-- The media type of plain samples. -/
def pcmMime : String := "audio/pcm"

/-- The integer that stands for any integer. -/
def anyInt : Int64 := -1

/-! ## Building and reading -/

/-- The type without parameters. -/
def untyped : StreamType := ⟨∅⟩

instance : Inhabited StreamType := ⟨untyped⟩

def set (t : StreamType) (key : String) (value : Value) : StreamType := ⟨t.params.insert key value⟩

def setText (t : StreamType) (key value : String) : StreamType := t.set key (.text value)

def setInt (t : StreamType) (key : String) (value : Int64) : StreamType := t.set key (.int value)

def get? (t : StreamType) (key : String) : Option Value := t.params[key]?

def text? (t : StreamType) (key : String) : Option String := (t.get? key).bind Value.text?

def int? (t : StreamType) (key : String) : Option Int64 := (t.get? key).bind Value.int?

@[simp]
theorem get?_set (t : StreamType) (key : String) (value : Value) (key' : String) :
    (t.set key value).get? key' = if key = key' then some value else t.get? key' := by
  simp [get?, set, ExtTreeMap.getElem?_insert]

/-- A type with a media type only. -/
def ofMime (mimetype : String) : StreamType := untyped.setText mimetypeKey mimetype

/-- The type of a url that has not been opened. -/
def ofUrl (url : String) : StreamType := (ofMime urlMime).setText urlKey url

/-- The type of plain samples; what is not given stands for anything. -/
def pcm (format : Option SampleFormat) (channels sampleRate : Option Int64) : StreamType :=
  (((ofMime pcmMime).setInt formatKey ((format.map SampleFormat.code).getD anyInt)).setInt
    channelsKey (channels.getD anyInt)).setInt sampleRateKey (sampleRate.getD anyInt)

def mimetype? (t : StreamType) : Option String := t.text? mimetypeKey

def sampleFormat? (t : StreamType) : Option SampleFormat :=
  (t.int? formatKey).bind SampleFormat.ofCode?

/-! ## Matching -/

/-- Whether a parameter of a pattern is met by a value. -/
def meets : Value → Value → Bool
  | .text pattern, .text actual => Glob.acceptsText pattern actual
  | .int expected, .int actual => expected == anyInt || expected == actual
  | expected, actual => expected == actual

/-- Whether a candidate has every parameter of a pattern, each with a value that meets it. -/
def accepts (pattern candidate : StreamType) : Bool :=
  pattern.params.toList.all fun (key, expected) =>
    match candidate.get? key with
    | some actual => meets expected actual
    | none => false

theorem accepts_iff (pattern candidate : StreamType) :
    pattern.accepts candidate = true ↔ ∀ key expected, pattern.get? key = some expected →
      ∃ actual, candidate.get? key = some actual ∧ meets expected actual = true := by
  simp only [accepts, List.all_eq_true, Prod.forall, ExtTreeMap.mem_toList_iff_getElem?_eq_some]
  refine forall_congr' fun key => forall_congr' fun expected => imp_congr Iff.rfl ?_
  cases candidate.get? key <;> simp

/-! ## Written forms -/

/-- The type as it is shown to people: the media type, then the other parameters by name. -/
def describe (t : StreamType) : String :=
  let others := (t.params.toList.filter (·.1 ≠ mimetypeKey)).map fun (key, value) =>
    key ++ "=" ++ value.describe
  let head := t.mimetype?.getD "<untyped>"
  if others.isEmpty then head else head ++ "; " ++ String.intercalate ", " others

/-- The name under which the JSON form holds the parameters. -/
def paramsField : String := "params"

def toJson (t : StreamType) : Json :=
  .object [(some paramsField, .object (t.params.toList.map fun (key, v) => (some key, v.toJson)))]

/-- Reads the parameters; of a name that is repeated the last counts. -/
def paramsOfJson? (j : Json) : Option (ExtTreeMap String Value) := do
  let members ← j.members?
  let params ← members.mapM fun (key, value) => (Value.ofJson? value).map (key, ·)
  return ExtTreeMap.ofList params

def ofJson? (j : Json) : Option StreamType :=
  match j.fields? [paramsField] with
  | some [some params] => (paramsOfJson? params).map StreamType.mk
  | _ => none

end StreamType

end MediaChain
