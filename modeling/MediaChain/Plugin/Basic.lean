import MediaChain.Listing
import MediaChain.Plugin.Script

/-!
# Plugins

A `Plugin` says what it accepts, and has the callbacks of the stages that are made from it. `ι` is
the state that a stage keeps for its plugin, `ε` what plugins note down.
-/

namespace MediaChain

namespace Plugin

/-- What a plugin provides beyond being set up. -/
structure Capabilities where
  read : Bool := true
  seek : Bool := false
  browse : Bool := false
  /-- Whether it wants to be told when a stage is released. -/
  destroy : Bool := false
deriving DecidableEq, Repr

/-- A pattern of input types and the priority with which they are claimed. -/
structure Input where
  pattern : StreamType
  priority : Int
deriving DecidableEq

structure Descriptor where
  name : String
  description : String := ""
  capabilities : Capabilities := {}
  inputs : List Input := []
deriving DecidableEq

/-- The best priority among the patterns that accept a type. -/
def Descriptor.claim (d : Descriptor) (type : StreamType) : Option Int :=
  ((d.inputs.filter (·.pattern.accepts type)).map Input.priority).max?

end Plugin

structure Plugin (ι ε : Type) where
  descriptor : Plugin.Descriptor
  /-- The priority with which a type is claimed, if it is. -/
  claim : StreamType → Option Int := descriptor.claim
  /-- Sets up a stage; it has to declare the output type. -/
  init : Script ε (Except PluginError ι)
  /-- Writes to a window, and says how many of its bytes count; none is the end of the stream. -/
  read : ι → Window → Script ε (Except PluginError Reply × ι)
  seek : ι → Int → Whence → Script ε (Except PluginError Nat × ι) :=
    fun state _ _ => return (.error (.unsupported "seek"), state)
  /-- Lists what lies below a url. -/
  browse : ι → String → Listing → Script ε (Except PluginError Listing × ι) :=
    fun state _ _ => return (.error (.unsupported "browse"), state)

namespace Plugin

variable {ι ε : Type}

def name (p : Plugin ι ε) : String := p.descriptor.name

def capabilities (p : Plugin ι ε) : Capabilities := p.descriptor.capabilities

end Plugin

end MediaChain
