import MediaChain.Json.Reader

/-!
# Settings

`Settings` are the tunables of building and running chains. `Settings.parse?` reads them from JSON,
where what is left out keeps its default.
-/

namespace MediaChain

structure Settings where
  /-- How many bytes a stage asks its plugin for when it reads ahead. -/
  readChunk : Nat := 4096
  /-- The longest line, with its terminator. -/
  maxLineSize : Nat := 1024
  /-- The effect that is put behind the decoders to collect metadata of segments. -/
  segmentPlugin : String := "segment"
  /-- What the paths of the numbered effect list begin with. -/
  effectOrderPrefix : String := "effect.order."
  /-- The most stages of a chain, with the url stage. -/
  maxStages : Nat := 255
deriving DecidableEq, Repr

namespace Settings

instance : Inhabited Settings := ⟨{}⟩

/-- The most stages that can have orders of their own. -/
def maxOrders : Nat := 256

/-- The most stages that a chain may grow to. -/
def stageLimit (s : Settings) : Nat := min s.maxStages maxOrders

/-- The path that holds the name of an effect. -/
def effectPath (s : Settings) (index : Nat) : String := s.effectOrderPrefix ++ toString index

/-- What the path of a switch of an effect ends with. -/
def enabledSuffix : String := ".enabled"

/-- The path that switches an effect. -/
def enabledPath (effect : String) : String := effect ++ enabledSuffix

/-- Whether a change at a path can change the effects of a chain. -/
def affectsEffects (s : Settings) (path : String) : Bool :=
  s.effectOrderPrefix.toList.isPrefixOf path.toList
    || enabledSuffix.toList.isSuffixOf path.toList

/-! ## JSON form -/

/-- The largest size, of 64 bits. -/
def maxSize : Int := 0xFFFFFFFFFFFFFFFF

/-- Reads a size, or takes the default if there is none. -/
def size? (default : Nat) : Option Json → Option Nat
  | none => some default
  | some j => (j.intWithin? 0 maxSize).map Int.toNat

/-- Reads a text, or takes the default if there is none. -/
def text? (default : String) : Option Json → Option String
  | none => some default
  | some j => j.text?

/-- The names of the settings in the JSON form. -/
def fieldNames : List String :=
  ["read_chunk", "max_line_size", "segment_plugin", "effect_order_prefix", "max_stages"]

def ofJson? (j : Json) : Option Settings := do
  let [readChunk, maxLineSize, segmentPlugin, effectOrderPrefix, maxStages] ←
    j.fields? fieldNames | none
  return {
    readChunk := ← size? (default : Settings).readChunk readChunk
    maxLineSize := ← size? (default : Settings).maxLineSize maxLineSize
    segmentPlugin := ← text? (default : Settings).segmentPlugin segmentPlugin
    effectOrderPrefix := ← text? (default : Settings).effectOrderPrefix effectOrderPrefix
    maxStages := ← size? (default : Settings).maxStages maxStages
  }

/-- Reads settings from a JSON text. -/
def parse? (s : String) : Option Settings := (Json.parse? s).bind ofJson?

end Settings

end MediaChain
