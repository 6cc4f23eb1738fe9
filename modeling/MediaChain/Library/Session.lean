import MediaChain.Library.Store

/-!
# Sessions

A session reads the store as it is now, under its own writes, and commits all its writes or none:
`Session.commit` fails if the store has changed since the session began. `Library.withSession`
runs a piece of work in one session after the other until one commits.
-/

namespace MediaChain

open Std

namespace Library

/-- A property that a session is going to set. -/
structure Write where
  entry : EntryId
  key : String
  property : Property
deriving DecidableEq, Repr

/-- A session: the generation it began at, and its writes, oldest first. A refused session never
commits. -/
structure Session where
  generation : Nat
  refused : Bool
  writes : List Write
deriving DecidableEq, Repr

namespace Session

/-- The session's own newest write of a property. -/
def pending? (s : Session) (entry : EntryId) (key : String) : Option Property :=
  (s.writes.reverse.find? fun w => w.entry = entry ∧ w.key = key).map Write.property

/-- The value of a property as the session sees it. -/
def get? (s : Session) (store : Store) (entry : EntryId) (key : String) : Option Value :=
  ((s.pending? entry key).or (store.property? entry key)).map Property.value

/-- The properties of an entry as the session sees them, by name. -/
def properties (s : Session) (store : Store) (entry : EntryId) : List (String × Value) :=
  let own := s.writes.filter (·.entry = entry)
  let merged := own.foldl (fun props w => props.insert w.key w.property) (store.properties entry)
  merged.toList.map fun (key, p) => (key, p.value)

/-- Notes a property to be set. -/
def set (s : Session) (entry : EntryId) (key : String) (value : Value) (source : String) :
    Session :=
  { s with writes := s.writes ++ [⟨entry, key, ⟨value, source⟩⟩] }

/-- Ends the session; says whether it took effect. A session without writes always does, unless it
is refused. -/
def commit (s : Session) (store : Store) : Bool × Store :=
  if s.refused then (false, store)
  else if s.writes.isEmpty then (true, store)
  else if s.generation ≠ store.generation then (false, store)
  else
    let written := s.writes.foldl (fun store w => store.put w.entry w.key w.property) store
    (true, { written with generation := store.generation + 1 })

end Session

/-- Begins a session that will not be refused. -/
def Store.begin (s : Store) : Session := ⟨s.generation, false, []⟩

/-- Sets one property in a session of its own. -/
def Store.write (s : Store) (entry : EntryId) (key : String) (value : Value) (source : String) :
    Store :=
  ((s.begin.set entry key value source).commit s).2

end Library

/-- A library: its store, and how many of the sessions begun from now on will be refused. -/
structure Library where
  store : Library.Store
  refusals : Nat
deriving DecidableEq

namespace Library

def empty : Library := ⟨.empty, 0⟩

/-- Begins a session. -/
def begin (lib : Library) : Session × Library :=
  ({ lib.store.begin with refused := lib.refusals ≠ 0 }, { lib with refusals := lib.refusals - 1 })

def commit (lib : Library) (s : Session) : Bool × Library :=
  let (committed, store) := s.commit lib.store
  (committed, { lib with store })

/-! ## Retrying -/

/-- What is done between the beginning and the end of a session. -/
abbrev Work (α : Type) := Store → Session → α × Session

/-- Runs a piece of work in one session, with `rival` changing the store in between. -/
def attempt {α : Type} (rival : Store → Store) (work : Work α) (lib : Library) :
    α × Bool × Library :=
  let (session, lib) := lib.begin
  let lib := { lib with store := rival lib.store }
  let (result, session) := work lib.store session
  let (committed, lib) := lib.commit session
  (result, committed, lib)

/-- Runs a piece of work up to `patience` times and then once more, until it commits. Gives the
result of the last run and the number of runs. -/
def retry {α : Type} (work : Work α) : Nat → List (Store → Store) → Library → (α × Nat) × Library
  | 0, rivals, lib =>
    let (result, _, lib) := lib.attempt (rivals.headD id) work
    ((result, 1), lib)
  | patience + 1, rivals, lib =>
    match lib.attempt (rivals.headD id) work with
    | (result, true, lib) => ((result, 1), lib)
    | (_, false, lib) =>
      let ((result, runs), lib) := retry work patience rivals.tail lib
      ((result, runs + 1), lib)

/-- Runs a piece of work until its session commits. The `rivals` change the store during the first
runs, one each; only they and refusals can make a run fail, so the last run allowed always
commits. -/
def withSession {α : Type} (lib : Library) (rivals : List (Store → Store)) (work : Work α) :
    (α × Nat) × Library :=
  retry work (lib.refusals + rivals.length) rivals lib

end Library

end MediaChain
