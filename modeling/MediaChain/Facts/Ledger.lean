import MediaChain.Broadcast
import MediaChain.Facts.Log
import MediaChain.Library.Session
import MediaChain.Url

/-!
# Ledgers

A `Ledger` is a log of facts with what it reports to. `Ledger.react` hands out the facts that are
new up to a token and writes the persistent ones to the library; what could not be written is
offered again. `Ledger.reset` starts a new log from the properties of a library entry.
-/

namespace MediaChain

namespace Facts

/-- What one reaction found. -/
structure Report where
  token : Token
  /-- The facts that no earlier reaction reported. -/
  changed : Snapshot
  /-- The persistent facts that were offered to the library. -/
  persistent : Snapshot
  /-- Whether the library took them. -/
  persisted : Bool
deriving DecidableEq

/-- What a hub tells its subscribers. -/
structure Announcement where
  token : Token
  facts : Snapshot
deriving DecidableEq

/-- A hub passes new facts on to its subscribers. -/
abbrev Hub := Broadcast Announcement

/-- Passes a report on, unless it brings nothing new. -/
def Hub.observe (hub : Hub) (report : Report) : Hub :=
  if report.changed.isEmpty then hub else hub.send ⟨report.token, report.changed⟩

/-- Who is told of a reaction. -/
inductive Observer
  | hub (name : String)
  | listener (name : String)
deriving DecidableEq, Repr

end Facts

/-- A log of facts, whether its persistent facts go to the library, and who is told of its
reactions, in order. -/
structure Ledger where
  log : Facts.Log
  backed : Bool
  observers : List Facts.Observer
deriving DecidableEq

namespace Ledger

open Facts

/-- A ledger without facts; its persistent facts go to the library if it is backed by one. -/
def empty (backed : Bool) : Ledger := ⟨.empty, backed, []⟩

def observe (l : Ledger) (observer : Observer) : Ledger :=
  { l with observers := l.observers ++ [observer] }

/-! ## Reacting -/

/-- The source under which the library holds what a stage wrote. -/
def librarySource (source : String) : String := "plugin/" ++ source

/-- Writes facts to a library entry; says whether the library took them. -/
def store (lib : Library) (entry : EntryId) (facts : Snapshot) : Bool × Library :=
  let (session, lib) := lib.begin
  lib.commit (facts.toList.foldl (fun session (key, source, value) =>
    session.set entry key value (librarySource source)) session)

/-- Writes facts where they belong. There is nothing to fail without facts, entry or library. -/
def persist (l : Ledger) (lib : Library) (facts : Snapshot) : Bool × Library :=
  match l.log.entry with
  | some entry => if l.backed && !facts.isEmpty then store lib entry facts else (true, lib)
  | none => (true, lib)

/-- Reports the facts up to a token that were not reported before, and persists those that were
not persisted before. -/
def react (l : Ledger) (lib : Library) (token : Token) : Report × Ledger × Library :=
  let log := l.log
  let horizon := log.horizon token
  let changed := snapshot (log.between log.reacted horizon)
  let persistent :=
    snapshot ((log.between log.persisted horizon).filter (·.lifetime = .persistent))
  let (persisted, lib) := l.persist lib persistent
  let log :=
    { log with reacted := horizon, persisted := if persisted then horizon else log.persisted }
  (⟨token, changed, persistent, persisted⟩, { l with log }, lib)

/-! ## Seeding -/

/-- The fact that an argument of a url states. -/
def argValue : Url.Arg → Value
  | .pair _ value => .text value
  | .flag _ => .int 1

/-- Seeds a fact for each argument of a url, or none if one of them cannot be decoded. -/
def seedArgs (log : Log) (url : String) : Log :=
  ((Url.args? url).getD []).foldl (fun log arg => log.seed arg.key (argValue arg)) log

/-- Seeds the facts that a property of a library entry states. -/
def seedProperty (log : Log) (key : String) (value : Value) : Log :=
  if key = Property.idKey then log
  else
    match value with
    | .text url =>
      if key = Property.urlKey then (seedArgs log url).seed Property.urlKey (.text (Url.base url))
      else log.seed key value
    | value => log.seed key value

/-- Starts a new log for an entry with these properties. -/
def reset (l : Ledger) (entry : EntryId) (properties : List (String × Value)) : Ledger :=
  let log := { Log.empty with entry := some entry }
  let log := log.seed Property.idKey (.int (Int64.ofNat entry.toNat))
  { l with log := properties.foldl (fun log (key, value) => seedProperty log key value) log }

end Ledger

end MediaChain
