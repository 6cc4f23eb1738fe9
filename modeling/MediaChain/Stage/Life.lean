import MediaChain.Stage.Flow

/-!
# Setting up and releasing stages

`Stage.create` asks a plugin to set up a stage in front of which others stand already.
`Stage.release` ends a stage, and `Stage.releaseAll` ends several, tail first.
-/

namespace MediaChain

variable {ι ε : Type}

namespace Stage

/-- Tells a plugin that its stage is released, if it wants to know. -/
def farewell (plugin : Plugin ι ε) (id : Nat) (b : Backstage ε) : Backstage ε :=
  if plugin.capabilities.destroy then b.record (.destroy plugin.name id) else b

def release (s : Stage ι ε) (b : Backstage ε) : Backstage ε :=
  match s.engine with
  | some engine => farewell engine.plugin engine.id b
  | none => b

/-- Releases stages in the order in which they are listed. -/
def releaseAll (stages : List (Stage ι ε)) (b : Backstage ε) : Backstage ε :=
  stages.foldl (fun b s => s.release b) b

/-- The order of a stage that reads from these. -/
def nextOrder : List (Stage ι ε) → Nat
  | [] => 0
  | s :: _ => min (s.order + 1) (Settings.maxOrders - 1)

/-- The first read horizon of a stage that reads from these. -/
def nextToken : List (Stage ι ε) → Token
  | [] => Token.origin
  | s :: _ => s.token

/-- Sets up a stage that reads from those in `f`. It fails if the plugin does, or if it declares no
output type; then it is released at once. -/
def create (plugin : Plugin ι ε) (settings : Settings) (goals : List StreamType)
    (f : Front ι ε) : Except StageError (Stage ι ε) × Front ι ε :=
  let id := f.scene.backstage.births
  let token := nextToken f.stages
  let post := Post.ofSettings settings goals plugin.name (nextOrder f.stages)
  let born := { f.scene.backstage with births := id + 1 }
  let f := { f with scene := { f.scene with backstage := born } }
  let f := f.record (.init plugin.name id post.order token)
  let tap := Tap.reaching f.stages.length
  let (reply, bench) := plugin.init.run (answer tap post 0 true) ⟨⟨token, .empty, []⟩, none, f⟩
  match reply with
  | .error e => (.error (.initFailed plugin.name e), bench.front)
  | .ok state =>
    let f := bench.front.record (.opened id plugin.capabilities.destroy)
    match bench.outType with
    | none =>
      let backstage := farewell plugin id f.scene.backstage
      (.error (.outTypeUnset plugin.name), { f with scene := { f.scene with backstage } })
    | some outType =>
      let engine := some { plugin, id, state }
      (.ok ⟨post, bench.desk, engine, outType, [], [], false, false⟩, f)

end Stage

end MediaChain
