import Std.Data.ExtTreeMap
import MediaChain.Value

/-!
# Snapshots

A `Snapshot` holds at most one value for each key and source. It is filled newest fact first, so
`Snapshot.add` keeps what is already there. It is shown as one JSON object (`toJson`), which
`broadcastJson` fills member by member.
-/

namespace MediaChain

open Std

/-- Values by key and source. No key is without a source. -/
structure Snapshot where
  facts : ExtTreeMap String (ExtTreeMap String Value)
deriving DecidableEq

namespace Snapshot

def empty : Snapshot := ⟨∅⟩

instance : Inhabited Snapshot := ⟨empty⟩

/-- What the sources say about a key. -/
def sources (s : Snapshot) (key : String) : ExtTreeMap String Value := s.facts[key]?.getD ∅

def get? (s : Snapshot) (key source : String) : Option Value := (s.sources key)[source]?

/-- Records a value unless there is one for its key and source. -/
def add (s : Snapshot) (key source : String) (value : Value) : Snapshot :=
  ⟨s.facts.insert key ((s.sources key).insertIfNew source value)⟩

/-- Whether `add` would record a value. -/
def lacks (s : Snapshot) (key source : String) : Bool := (s.get? key source).isNone

theorem get?_add (s : Snapshot) (key source : String) (value : Value) (key' source' : String) :
    (s.add key source value).get? key' source' =
      if key = key' ∧ source = source' ∧ s.get? key source = none then some value
      else s.get? key' source' := by
  by_cases hk : key = key'
  · subst hk
    simp [add, get?, sources, ExtTreeMap.getElem?_insertIfNew]
  · simp [add, get?, sources, ExtTreeMap.getElem?_insert, hk]

def isEmpty (s : Snapshot) : Bool := s.facts.isEmpty

/-- The values with their keys and sources, by key and then by source. -/
def toList (s : Snapshot) : List (String × String × Value) :=
  s.facts.toList.flatMap fun (key, sources) =>
    sources.toList.map fun (source, value) => (key, source, value)

/-- The number of values. -/
def size (s : Snapshot) : Nat := s.toList.length

/-! ## JSON form -/

/-- An object that maps keys to objects that map sources to values. -/
def toJson (s : Snapshot) : Json :=
  .object (s.facts.toList.map fun (key, sources) =>
    (some key, .object (sources.toList.map fun (source, value) => (some source, value.toJson))))

/-- A value as a broadcast shows it: a number, a string, or an array of numbers. -/
def render : Value → Json
  | .int n => .int n.toInt
  | .text s => .text (some s)
  | .bytes bs => .array (bs.map fun b => .int b.toNat)

/-- What the sources say about a key, put into an object one by one. -/
def renderSources (sources : ExtTreeMap String Value) : Json :=
  .ofMap (sources.foldl (fun members source value => members.insert source (render value)) ∅)

/-- The object that is filled key by key, with an object that is filled source by source. -/
def broadcastJson (s : Snapshot) : Json :=
  .ofMap (s.facts.foldl (fun members key sources => members.insert key (renderSources sources)) ∅)

end Snapshot

end MediaChain
