import Std.Data.ExtTreeMap
import MediaChain.Value

/-!
# Marks

A stage marks positions of its output with values. `Marks` keeps those that the reader has not come
to, by their distance from the reader, and the values of those it has passed. A mark at distance
zero counts as reached: `Marks.get?` sees it at once, and `Marks.land` moves it to the values that
were passed.
-/

namespace MediaChain

open Std

/-- A position at some distance from the reader, and the value it is marked with, if any. -/
structure Mark where
  distance : Nat
  datum : Option (String × Value)
deriving DecidableEq, Repr

/-- The values that are in force, by key. -/
abbrev Landed := ExtTreeMap String Value

/-- Lets one mark take effect. -/
def Mark.settle (landed : Landed) (m : Mark) : Landed :=
  match m.datum with
  | some (key, value) => landed.insert key value
  | none => landed

/-- The marks ahead of the reader, in the order in which they were set, and the values in force. -/
structure Marks where
  pending : List Mark
  landed : Landed
deriving DecidableEq

namespace Marks

def empty : Marks := ⟨[], ∅⟩

/-- Sets a mark behind all others. -/
def push (ms : Marks) (m : Mark) : Marks := { ms with pending := ms.pending ++ [m] }

/-- Lets the marks in front that have been reached take effect. -/
def land (ms : Marks) : Marks :=
  ⟨ms.pending.dropWhile (·.distance = 0),
    (ms.pending.takeWhile (·.distance = 0)).foldl Mark.settle ms.landed⟩

/-- The distance of the mark in front. -/
def next? (ms : Marks) : Option Nat := ms.pending.head?.map Mark.distance

/-- Moves the reader ahead. -/
def advance (ms : Marks) (consumed : Nat) : Marks :=
  { ms with pending := ms.pending.map fun m => { m with distance := m.distance - consumed } }

/-- Drops the marks that the reader has not come to. -/
def clear (ms : Marks) : Marks := { ms with pending := [] }

/-- The value of a key that a reader sees. -/
def get? (ms : Marks) (key : String) : Option Value := ms.land.landed[key]?

/-- The value of a key once all marks have been reached. -/
def latest? (ms : Marks) (key : String) : Option Value :=
  (ms.pending.foldl Mark.settle ms.landed)[key]?

/-- Sets a value at a distance, unless it is a number or a text that is the newest of its key
already. -/
def put (ms : Marks) (distance : Nat) (key : String) (value : Value) : Marks :=
  match value with
  | .bytes _ => ms.push ⟨distance, some (key, value)⟩
  | _ =>
    if ms.latest? key = some value then ms else ms.push ⟨distance, some (key, value)⟩

/-- Makes readers stop at a distance. -/
def bar (ms : Marks) (distance : Nat) : Marks := ms.push ⟨distance, none⟩

end Marks

end MediaChain
