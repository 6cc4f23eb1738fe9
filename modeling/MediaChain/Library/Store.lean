import Std.Data.ExtTreeMap
import MediaChain.Value

/-!
# The media library

A `Library.Store` holds entries, each a set of properties, and counts its changes. Sessions read
and write it (`MediaChain.Library.Session`).
-/

namespace MediaChain

open Std

/-- The number of a library entry. -/
abbrev EntryId := UInt32

/-- The source of facts and properties that no stage wrote. -/
def serverSource : String := "server"

/-! ## Well-known properties -/

namespace Property

def idKey : String := "id"
def urlKey : String := "url"
def chainKey : String := "chain"
def timesPlayedKey : String := "timesplayed"
def lastStartedKey : String := "laststarted"
def sampleFormatKey : String := "sample_format"
def sampleRateKey : String := "samplerate"
def channelsKey : String := "channels"

end Property

/-- The value of a property and who wrote it. -/
structure Property where
  value : Value
  source : String
deriving DecidableEq, Repr

namespace Library

/-- The properties of one entry, by name. -/
abbrev Properties := ExtTreeMap String Property

/-- The content of a library. Every change counts one generation. -/
structure Store where
  generation : Nat
  lastId : EntryId
  entries : ExtTreeMap EntryId Properties
deriving DecidableEq

namespace Store

def empty : Store := ⟨0, 0, ∅⟩

/-- The properties of an entry; an entry that was never written has none. -/
def properties (s : Store) (entry : EntryId) : Properties := s.entries[entry]?.getD ∅

def property? (s : Store) (entry : EntryId) (key : String) : Option Property :=
  (s.properties entry)[key]?

/-- Who wrote a property. -/
def source? (s : Store) (entry : EntryId) (key : String) : Option String :=
  (s.property? entry key).map Property.source

/-- Sets a property without counting a change. -/
def put (s : Store) (entry : EntryId) (key : String) (p : Property) : Store :=
  { s with entries := s.entries.insert entry ((s.properties entry).insert key p) }

/-- Makes a new entry that holds its url, as it is given. -/
def addEntry (s : Store) (url : String) : EntryId × Store :=
  let id := s.lastId + 1
  let created : Properties := (∅ : Properties).insert Property.urlKey ⟨.text url, serverSource⟩
  (id, ⟨s.generation + 1, id, s.entries.insert id created⟩)

theorem property?_put (s : Store) (entry : EntryId) (key : String) (p : Property)
    (entry' : EntryId) (key' : String) :
    (s.put entry key p).property? entry' key' =
      if entry = entry' ∧ key = key' then some p else s.property? entry' key' := by
  by_cases he : entry = entry' <;> by_cases hk : key = key' <;>
    simp_all [put, property?, properties, ExtTreeMap.getElem?_insert]

end Store

end Library

end MediaChain
