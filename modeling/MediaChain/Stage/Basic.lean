import MediaChain.Config.Settings
import MediaChain.Journal
import MediaChain.Plugin.Basic
import MediaChain.Stage.Marks

/-!
# Stages

A `Stage` is one step of a chain: the place it was given (`Post`), what its own callbacks may
change (`Desk`), the plugin that drives it (`Engine`), its output type, and the bytes it has
produced ahead of its reader. The stages of a chain are listed tail first, so that behind a stage
in the list come the stages it reads from (`Front`).
-/

namespace MediaChain

variable {ι ε : Type}

/-- The place of a stage, which never changes. -/
structure Post where
  name : String
  /-- The number of stages in front. -/
  order : Nat
  goals : List StreamType
  /-- How many bytes are asked for when reading ahead. -/
  readChunk : Nat
  /-- The longest line, without its terminator. -/
  lineCap : Nat
  readChunk_pos : 0 < readChunk
  lineCap_pos : 0 < lineCap

namespace Post

/-- The place of a stage of a chain that is built with these settings. -/
def ofSettings (settings : Settings) (goals : List StreamType) (name : String) (order : Nat) :
    Post where
  name := name
  order := order
  goals := goals
  readChunk := max settings.readChunk 1
  lineCap := max settings.maxLineSize 2 - 1
  readChunk_pos := by omega
  lineCap_pos := by omega

end Post

/-- What the callbacks of a stage may change of it: its read horizon, the marks on its output, and
the bytes it has read of a line. -/
structure Desk where
  token : Token
  marks : Marks
  line : Bytes

/-- A plugin with the state it keeps for a stage, and the number under which the stage was set
up. -/
structure Engine (ι ε : Type) where
  plugin : Plugin ι ε
  id : Nat
  state : ι

structure Stage (ι ε : Type) where
  post : Post
  desk : Desk
  /-- There is none in the stage that stands for the url. -/
  engine : Option (Engine ι ε)
  outType : StreamType
  /-- Bytes that were produced and not read yet. -/
  buffer : Bytes
  /-- What the window for reading ahead holds since it was used last. -/
  scratch : Bytes
  /-- Whether the plugin has come to the end of the stream. -/
  done : Bool
  /-- Whether a callback has failed. -/
  errored : Bool

namespace Stage

def name (s : Stage ι ε) : String := s.post.name

def order (s : Stage ι ε) : Nat := s.post.order

def token (s : Stage ι ε) : Token := s.desk.token

/-- The name of the stage that stands for the url. -/
def urlName : String := "url"

/-- The stage that every chain starts from. It holds a url and produces nothing. -/
def ofUrl (settings : Settings) (goals : List StreamType) (url : String) : Stage ι ε where
  post := .ofSettings settings goals urlName 0
  desk := ⟨Token.origin, .empty, []⟩
  engine := none
  outType := .ofUrl url
  buffer := []
  scratch := []
  done := false
  errored := false

/-- The window for reading ahead. -/
def window (s : Stage ι ε) : Window := ⟨s.post.readChunk, s.scratch⟩

/-- The value of the marks that the reader of a stage has come to. -/
def marked? (s : Stage ι ε) (key : String) : Option Value := s.desk.marks.get? key

/-- The newest fact that a stage sees. -/
def known? (s : Stage ι ε) (log : Facts.Log) (key : String) : Option Value :=
  log.find? s.token s.order s.name key

/-- Records a persistent fact of a stage, which then sees it. -/
def recordFact (s : Stage ι ε) (log : Facts.Log) (key : String) (value : Value) :
    Stage ι ε × Facts.Log :=
  let (token, log) := log.append s.order s.name key value .persistent
  ({ s with desk := { s.desk with token := max s.token token } }, log)

end Stage

/-- What a stage works on: the stages in front of it, nearest first, and the scene. -/
structure Front (ι ε : Type) where
  stages : List (Stage ι ε)
  scene : Scene ε

namespace Front

def record (f : Front ι ε) (event : Event ε) : Front ι ε :=
  { f with scene := f.scene.record event }

end Front

end MediaChain
