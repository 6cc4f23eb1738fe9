import MediaChain.Stage.Life

/-!
# Chains

A `Chain` is a list of stages, tail first, from which bytes are read at the tail. Its first
`decoderLength` stages, counted from the url, decode the stream; the others are effects and can be
replaced. What the chain looks like is published under a growing generation.
-/

namespace MediaChain

variable {ι ε : Type}

namespace Chain

/-- What is told about a chain. -/
structure Info where
  url : String
  entry : Option EntryId
  /-- The names of the stages that plugins drive, from the url on. -/
  stages : List String
  outType : StreamType
deriving DecidableEq

/-- The stages of a chain in one text. -/
def Info.name (i : Info) : String := String.intercalate ":" i.stages

/-- What was told last about a chain, and how often it was told anew. -/
structure Bulletin where
  generation : Nat
  info : Info
deriving DecidableEq

end Chain

structure Chain (ι ε : Type) where
  /-- All stages, tail first. -/
  stages : List (Stage ι ε)
  decoderLength : Nat
  /-- The url that the chain was built for, still encoded. -/
  url : String
  entry : Option EntryId
  goals : List StreamType
  /-- Whether the chain is only there to collect metadata; then it has no effects and its playing
  does not count. -/
  rehash : Bool
  bulletin : Chain.Bulletin

namespace Chain

/-- The stages that plugins drive, from the url on. -/
def driven (stages : List (Stage ι ε)) : List (Stage ι ε) :=
  stages.reverse.filter (·.engine.isSome)

/-- The output type of the tail. -/
def tailType (stages : List (Stage ι ε)) : StreamType :=
  (stages.head?.map Stage.outType).getD .untyped

def outType (c : Chain ι ε) : StreamType := tailType c.stages

/-- The read horizon of the tail. -/
def token (c : Chain ι ε) : Token := (c.stages.head?.map Stage.token).getD Token.origin

/-- Whether the tail has come to the end of the stream. -/
def done (c : Chain ι ε) : Bool := (c.stages.head?.map Stage.done).getD false

/-- The stages that decode the stream, without the one that stands for the url. -/
def decoderStages (c : Chain ι ε) : Nat := c.decoderLength - 1

/-- What is to be told about a chain. -/
def info (c : Chain ι ε) : Info :=
  ⟨c.url, c.entry, (driven c.stages).map Stage.name, c.outType⟩

def name (c : Chain ι ε) : String := c.info.name

/-- Tells anew what the chain looks like. -/
def publish (c : Chain ι ε) : Chain ι ε :=
  { c with bulletin := ⟨c.bulletin.generation + 1, c.info⟩ }

/-! ## Reading -/

/-- Does something to the tail. -/
def operate {α : Type} (c : Chain ι ε) (scene : Scene ε) (op : Tap ι ε → StageOp ι ε α) :
    Except StageError α × Chain ι ε × Scene ε :=
  match c.stages with
  | [] => (.error (.notReadable c.url), c, scene)
  | tail :: rest =>
    let (result, tail, f) := op (Tap.reaching rest.length) tail ⟨rest, scene⟩
    (result, { c with stages := tail :: f.stages }, f.scene)

/-- Takes bytes from the tail into a window. -/
def readInto (c : Chain ι ε) (scene : Scene ε) (window : Window) :
    Except StageError Reply × Chain ι ε × Scene ε :=
  c.operate scene (Stage.read · window)

/-- Takes at most `size` bytes from the tail. -/
def read (c : Chain ι ε) (scene : Scene ε) (size : Nat) :
    Except StageError Bytes × Chain ι ε × Scene ε :=
  let window := Window.blank size
  let (result, c, scene) := c.readInto scene window
  (result.map (·.bytes window), c, scene)

def peek (c : Chain ι ε) (scene : Scene ε) (size : Nat) :
    Except StageError Bytes × Chain ι ε × Scene ε :=
  c.operate scene (Stage.peek · size)

def seek (c : Chain ι ε) (scene : Scene ε) (offset : Int) (whence : Whence) :
    Except StageError Nat × Chain ι ε × Scene ε :=
  c.operate scene (Stage.seek · offset whence)

/-- Reads up to `times` times into one window, until a read brings nothing or fails. Gives what each
read brought, and the failure if there was one. -/
def drain (window : Window) : Nat → Chain ι ε → Scene ε →
    (List Bytes × Option StageError) × Chain ι ε × Scene ε
  | 0, c, scene => (([], none), c, scene)
  | times + 1, c, scene =>
    match c.readInto scene window with
    | (.error e, c, scene) => (([], some e), c, scene)
    | (.ok reply, c, scene) =>
      let bytes := reply.bytes window
      if bytes = [] then (([bytes], none), c, scene)
      else
        let ((more, failed), c, scene) := drain (window.write reply.written) times c scene
        ((bytes :: more, failed), c, scene)

/-! ## Releasing -/

/-- Releases the effects. -/
def dropEffects (c : Chain ι ε) (b : Backstage ε) : Chain ι ε × Backstage ε :=
  let effects := c.stages.length - c.decoderLength
  ({ c with stages := c.stages.drop effects }, Stage.releaseAll (c.stages.take effects) b)

/-- Releases the whole chain. -/
def release (c : Chain ι ε) (b : Backstage ε) : Backstage ε := Stage.releaseAll c.stages b

end Chain

end MediaChain
