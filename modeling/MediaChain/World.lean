import MediaChain.Journal

/-!
# The world

A `World` is what chains share: the configuration and the journal, the library, and the hubs that
pass new facts on. `World.react` lets a ledger react and tells its observers.
-/

namespace MediaChain

open Std

structure World (ε : Type) where
  backstage : Backstage ε
  library : Library
  /-- The hubs, by name. -/
  hubs : ExtTreeMap String Facts.Hub

namespace World

variable {ε : Type}

def empty : World ε := ⟨.empty, .empty, ∅⟩

/-- A hub that nobody has used yet has no subscribers. -/
def hub (w : World ε) (name : String) : Facts.Hub := w.hubs[name]?.getD .empty

def setHub (w : World ε) (name : String) (hub : Facts.Hub) : World ε :=
  { w with hubs := w.hubs.insert name hub }

/-- Tells one observer of a reaction. -/
def tell (report : Facts.Report) (w : World ε) : Facts.Observer → World ε
  | .hub name => w.setHub name ((w.hub name).observe report)
  | .listener name => { w with backstage := w.backstage.record (.reaction name report) }

/-- Lets a ledger react to a token, and tells its observers in order. -/
def react (w : World ε) (ledger : Ledger) (token : Token) : Facts.Report × Ledger × World ε :=
  let (report, ledger, library) := ledger.react w.library token
  (report, ledger, ledger.observers.foldl (tell report) { w with library })

/-- What stages act upon whose facts go to a ledger. -/
def scene (w : World ε) (ledger : Ledger) : Scene ε := ⟨ledger.log, w.backstage⟩

/-- The ledger and the world after stages have acted upon them. -/
def absorb (w : World ε) (ledger : Ledger) (scene : Scene ε) : Ledger × World ε :=
  ({ ledger with log := scene.log }, { w with backstage := scene.backstage })

end World

end MediaChain
