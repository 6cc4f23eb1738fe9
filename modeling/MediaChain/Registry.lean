import MediaChain.Plugin.Basic

/-!
# The registry

Plugins are registered under their names, and asked in the order of their registration.
`Registry.best?` gives the plugin with the best claim on a stream type.
-/

namespace MediaChain

variable {ι ε : Type}

/-- The plugins, in the order of their registration. -/
structure Registry (ι ε : Type) where
  plugins : List (Plugin ι ε)

namespace Registry

def empty : Registry ι ε := ⟨[]⟩

def find? (r : Registry ι ε) (name : String) : Option (Plugin ι ε) :=
  r.plugins.find? (·.name = name)

/-- Adds a plugin; a name that is taken is refused. -/
def register (r : Registry ι ε) (p : Plugin ι ε) : Bool × Registry ι ε :=
  if (r.find? p.name).isSome then (false, r) else (true, ⟨r.plugins ++ [p]⟩)

/-- Takes out the plugin with a name. -/
def unregister (r : Registry ι ε) (name : String) : Registry ι ε :=
  ⟨r.plugins.eraseP (·.name = name)⟩

/-- The priority that a claim has to beat to count. -/
def noPriority : Int := -1

/-- The better of the best plugin so far, with its priority, and another one. The one that came
first is kept unless the other has a higher priority. -/
def better (type : StreamType) (best : Option (Plugin ι ε × Int)) (p : Plugin ι ε) :
    Option (Plugin ι ε × Int) :=
  match p.claim type with
  | none => best
  | some priority =>
    if (best.map Prod.snd).getD noPriority < priority then some (p, priority) else best

/-- The plugin with the best claim on a type; of equal claims the first. -/
def best? (r : Registry ι ε) (type : StreamType) : Option (Plugin ι ε) :=
  (r.plugins.foldl (better type) none).map Prod.fst

end Registry

end MediaChain
