import MediaChain.Config.Basic
import MediaChain.Facts.Ledger
import MediaChain.Plugin.Script

/-!
# The journal

Everything that is done to plugins and observers is written down as an `Event`, in the order in
which it happens. Every attempt to set up a stage gets a number, by which the events of one stage
are told from those of another.
-/

namespace MediaChain

/-- Something that happened. -/
inductive Event (ε : Type)
  /-- A plugin is asked to set up a stage. -/
  | init (plugin : String) (id : Nat) (order : Nat) (token : Token)
  /-- The plugin has done so; it is owed a `destroy` if it wants one. -/
  | opened (id : Nat) (owed : Bool)
  | read (plugin : String) (id : Nat) (size : Nat)
  | seek (plugin : String) (id : Nat) (offset : Int) (whence : Whence)
  | browse (plugin : String) (id : Nat) (url : String)
  | destroy (plugin : String) (id : Nat)
  /-- A plugin noted something down. -/
  | note (plugin : String) (entry : ε)
  /-- A listener was told of a reaction. -/
  | reaction (listener : String) (report : Facts.Report)

/-- What the stages of all chains have in common: the configuration, the journal, and how many
attempts to set up a stage there were. -/
structure Backstage (ε : Type) where
  config : Config
  journal : Array (Event ε)
  births : Nat

namespace Backstage

variable {ε : Type}

def empty : Backstage ε := ⟨.empty, #[], 0⟩

def record (b : Backstage ε) (event : Event ε) : Backstage ε :=
  { b with journal := b.journal.push event }

end Backstage

/-- What a callback acts upon besides stages: the facts of its chain, and what all chains have in
common. -/
structure Scene (ε : Type) where
  log : Facts.Log
  backstage : Backstage ε

namespace Scene

variable {ε : Type}

def record (s : Scene ε) (event : Event ε) : Scene ε :=
  { s with backstage := s.backstage.record event }

end Scene

end MediaChain
