import Std.Data.ExtTreeMap
import MediaChain.Text.Lowercase
import MediaChain.Text.Natural
import MediaChain.Url
import MediaChain.Value

/-!
# Listings

A `Listing` collects what lies below a url that is browsed. Every entry has the encoded path of the
thing it stands for. `Listing.sorted` orders the entries by their sort numbers where they have
them, and by their paths in natural order otherwise.
-/

namespace MediaChain

open Std

namespace Listing

def pathKey : String := "path"
def isDirKey : String := "isdir"
def realPathKey : String := "realpath"
def sortKey : String := "intsort"

/-- One thing that was listed, described by properties. -/
structure Entry where
  properties : ExtTreeMap String Value
deriving DecidableEq

namespace Entry

def get? (e : Entry) (key : String) : Option Value := e.properties[key]?

def set (e : Entry) (key : String) (value : Value) : Entry := ⟨e.properties.insert key value⟩

@[simp]
theorem get?_set (e : Entry) (key : String) (value : Value) (key' : String) :
    (e.set key value).get? key' = if key = key' then some value else e.get? key' := by
  simp [get?, set, ExtTreeMap.getElem?_insert]

def path? (e : Entry) : Option String := (e.get? pathKey).bind Value.text?

def isDir (e : Entry) : Bool := (e.get? isDirKey).bind Value.int? = some 1

def sortNumber? (e : Entry) : Option Int64 := (e.get? sortKey).bind Value.int?

/-- Two entries with sort numbers are ordered by them, others by their paths; entries without a
path are not told apart. -/
def order (a b : Entry) : Ordering :=
  match a.sortNumber?, b.sortNumber? with
  | some x, some y => compare x y
  | _, _ =>
    match a.path?, b.path? with
    | some x, some y => Natural.order lowercase x y
    | _, _ => .eq

end Entry

end Listing

/-- The entries that were added below a url, oldest first, and the number for the next link
without a name. -/
structure Listing where
  base : String
  entries : List Listing.Entry
  /-- It has no bound here. A counter of 32 bits is the same for the first `2 ^ 32` such links, and
  starts over or overflows behind them. -/
  nextIndex : Nat
deriving DecidableEq

namespace Listing

def empty (base : String) : Listing := ⟨base, [], 0⟩

/-- What stands between the url and the names below it. -/
def separator (base : String) : String :=
  if base.toList = [] ∨ base.toList.getLast? = some '/' then "" else "/"

/-- The encoded path of a name below a url. -/
def pathOf (base name : String) : String :=
  Url.encode base ++ separator base ++ Url.encode name

/-- Adds an entry; a name with a slash is refused. -/
def addEntry (l : Listing) (name : String) (isDir : Bool) : Bool × Listing :=
  if '/' ∈ name.toList then (false, l)
  else
    let entry : Entry := ⟨∅⟩
    let entry := entry.set pathKey (.text (pathOf l.base name))
    let entry := entry.set isDirKey (.int (if isDir then 1 else 0))
    (true, { l with entries := l.entries ++ [entry] })

/-- Sets a property of the newest entry; refused if there is none. -/
def addProperty (l : Listing) (key : String) (value : Value) : Bool × Listing :=
  match l.entries.getLast? with
  | none => (false, l)
  | some entry => (true, { l with entries := l.entries.dropLast ++ [entry.set key value] })

/-- The encoded url with its arguments, as they are given. -/
def target (url : String) (args : List String) : String :=
  match args with
  | [] => Url.encode url
  | args => Url.encode url ++ "?" ++ String.intercalate "&" args

/-- Adds an entry that stands for another url; without a name it gets the next number. -/
def addLink (l : Listing) (name : Option String) (url : String) (args : List String) :
    Bool × Listing :=
  let (name, l) :=
    match name with
    | some name => (name, l)
    | none => (toString l.nextIndex, { l with nextIndex := l.nextIndex + 1 })
  match l.addEntry name false with
  | (true, l) => l.addProperty realPathKey (.text (target url args))
  | (false, l) => (false, l)

/-- The entries in order; those that are not told apart stay as they were added. Where some entries
have sort numbers and others have none, the order need not be transitive. Sorting leaves open what
comes of such entries, and `mergeSort` stands for one way to do it; only entries among which the
order is transitive are brought into the same order by every stable sort. -/
def sorted (l : Listing) : List Entry := l.entries.mergeSort fun a b => a.order b != .gt

end Listing

end MediaChain
