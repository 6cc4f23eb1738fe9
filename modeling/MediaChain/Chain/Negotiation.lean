import MediaChain.Chain.Basic
import MediaChain.Registry

/-!
# Negotiation

`Builder.decode` builds the stages that lead from a url to a stream of one of the goal types: as
long as the tail produces none of them, the plugin with the best claim on what it produces sets up
the next stage.
-/

namespace MediaChain

variable {ι ε : Type}

/-- What chains are built with: the plugins, the settings, and whether there is a library that
keeps account of what is played. -/
structure Builder (ι ε : Type) where
  registry : Registry ι ε
  settings : Settings
  backed : Bool

namespace Builder

/-- The url that the stages were set up for. -/
def urlOf (stages : List (Stage ι ε)) : String :=
  (stages.getLast?.bind (·.outType.text? StreamType.urlKey)).getD ""

/-- Sets up the stage that has the best claim on what the tail produces. -/
def next (b : Builder ι ε) (goals : List StreamType) (f : Front ι ε) :
    Except ChainError (Stage ι ε) × Front ι ε :=
  if b.settings.stageLimit ≤ f.stages.length then
    (.error (.chainTooLong (urlOf f.stages) b.settings.stageLimit), f)
  else
    let type := Chain.tailType f.stages
    match b.registry.best? type with
    | none => (.error (.noMatchingPlugin (urlOf f.stages) type.describe), f)
    | some plugin =>
      let (result, f) := Stage.create plugin b.settings goals f
      (result.mapError .stage, f)

/-- Whether a type is one of the goals. -/
def reached (goals : List StreamType) (type : StreamType) : Bool := goals.any (·.accepts type)

/-- Adds stages until a goal is reached, `rounds` at most. -/
def negotiate (b : Builder ι ε) (goals : List StreamType) : Nat → Front ι ε →
    Except ChainError Unit × Front ι ε
  | 0, f => (.error (.chainTooLong (urlOf f.stages) b.settings.stageLimit), f)
  | rounds + 1, f =>
    match b.next goals f with
    | (.error e, f) => (.error e, f)
    | (.ok stage, f) =>
      let f := { f with stages := stage :: f.stages }
      if reached goals stage.outType then (.ok (), f) else negotiate b goals rounds f

/-! ## Format metadata -/

/-- An integer that is not the one that stands for any. -/
def concrete (n : Option Int64) : Option Int64 := n.filter (· ≠ StreamType.anyInt)

/-- What the type of plain samples says about them. -/
def formatFacts (type : StreamType) : List (String × Value) :=
  if type.mimetype? = some StreamType.pcmMime then
    let format := type.sampleFormat?.map fun f => (Property.sampleFormatKey, Value.text f.name)
    let rate := (concrete (type.int? StreamType.sampleRateKey)).map fun n =>
      (Property.sampleRateKey, Value.int n)
    let channels := (concrete (type.int? StreamType.channelsKey)).map fun n =>
      (Property.channelsKey, Value.int n)
    [format, rate, channels].filterMap id
  else []

/-- Records facts of a stage one after the other. -/
def recordAll (facts : List (String × Value)) (s : Stage ι ε) (log : Facts.Log) :
    Stage ι ε × Facts.Log :=
  facts.foldl (fun (s, log) (key, value) => s.recordFact log key value) (s, log)

/-- Records what the tail says about its samples. -/
def recordFormat (f : Front ι ε) : Front ι ε :=
  match f.stages with
  | [] => f
  | tail :: rest =>
    let (tail, log) := recordAll (formatFacts tail.outType) tail f.scene.log
    ⟨tail :: rest, { f.scene with log }⟩

/-! ## Decoding -/

/-- Releases all stages. -/
def abandon (f : Front ι ε) : Scene ε :=
  { f.scene with backstage := Stage.releaseAll f.stages f.scene.backstage }

/-- Builds the stages from a url, still encoded, to a goal. The arguments of the url become facts of
the origin first. If the goals cannot be reached all stages are released. -/
def decode (b : Builder ι ε) (goals : List StreamType) (url : String) (scene : Scene ε) :
    Except ChainError (List (Stage ι ε)) × Scene ε :=
  let scene := { scene with log := Ledger.seedArgs scene.log url }
  match Url.decode? (Url.base url) with
  | none => (.error (.malformedUrl url), scene)
  | some decoded =>
    match b.negotiate goals (b.settings.stageLimit + 1)
      ⟨[.ofUrl b.settings goals decoded], scene⟩ with
    | (.error e, f) => (.error e, abandon f)
    | (.ok (), f) =>
      let f := recordFormat f
      (.ok f.stages, f.scene)

end Builder

end MediaChain
