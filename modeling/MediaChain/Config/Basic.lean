import MediaChain.Broadcast

/-!
# Configuration

A `Config` maps paths to values. Setting a value is announced to the subscribers if it changes
what a lookup answers; registering a default is not.
-/

namespace MediaChain

open Std

namespace Config

/-- The announcement that a path has a new value. -/
structure Change where
  path : String
  value : String
deriving DecidableEq, Repr

end Config

structure Config where
  values : ExtTreeMap String String
  changes : Broadcast Config.Change

namespace Config

def empty : Config := ⟨∅, .empty⟩

def lookup (c : Config) (path : String) : Option String := c.values[path]?

/-- Sets a value and announces it if it is new. -/
def set (c : Config) (path value : String) : Config :=
  if c.lookup path = some value then c
  else ⟨c.values.insert path value, c.changes.send ⟨path, value⟩⟩

/-- Gives a path a value unless it has one. -/
def register (c : Config) (path default : String) : Config :=
  { c with values := c.values.insertIfNew path default }

theorem lookup_set (c : Config) (path value path' : String) :
    (c.set path value).lookup path' = if path = path' then some value else c.lookup path' := by
  rw [set]
  split
  · split <;> simp_all
  · simp [lookup, ExtTreeMap.getElem?_insert]

theorem lookup_register (c : Config) (path default path' : String) :
    (c.register path default).lookup path' =
      if path = path' ∧ c.lookup path = none then some default else c.lookup path' := by
  simp only [register, lookup, ExtTreeMap.getElem?_insertIfNew, Std.compare_eq_iff_eq]
  simp

end Config

end MediaChain
