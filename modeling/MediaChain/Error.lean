/-!
# Errors

What can go wrong, by cause: `PluginError` is what a plugin reports, `StageError` what a stage
answers its reader, `ChainError` what building or browsing a chain ends with. Each has its text in
`message`.
-/

namespace MediaChain

/-- What a callback of a plugin reports. -/
inductive PluginError
  /-- The callback is not provided. -/
  | unsupported (callback : String)
  /-- The data or the stream type was rejected. -/
  | invalidInput (message : String)
  /-- The resource underneath failed. -/
  | io (message : String)
  | failed (message : String)
deriving DecidableEq, Repr

def PluginError.message : PluginError → String
  | unsupported callback => "unsupported: " ++ callback
  | invalidInput message => "invalid input: " ++ message
  | io message => "io failed: " ++ message
  | failed message => "plugin failure: " ++ message

/-- What a stage answers when it cannot do what it was asked. -/
inductive StageError
  /-- An earlier callback failed; the stage stays errored. -/
  | errored (stage : String)
  /-- The plugin does not seek. -/
  | seekUnsupported (stage : String)
  /-- There is no plugin that produces bytes. -/
  | notReadable (stage : String)
  /-- There is no stage to read from. -/
  | noInput (stage : String)
  /-- The plugin claimed more bytes than it was asked for. -/
  | readOutOfRange (stage : String) (returned requested : Nat)
  /-- The plugin failed before the stage existed. -/
  | initFailed (stage : String) (source : PluginError)
  /-- The plugin declared no output type. -/
  | outTypeUnset (stage : String)
  /-- The plugin failed while streaming. -/
  | plugin (stage : String) (source : PluginError)
deriving DecidableEq, Repr

def StageError.message : StageError → String
  | errored stage => s!"read on errored xform '{stage}'"
  | seekUnsupported stage => s!"seek not implemented in '{stage}'"
  | notReadable stage => s!"xform '{stage}' cannot be read"
  | noInput stage => s!"xform '{stage}' has no upstream stage"
  | readOutOfRange stage returned requested =>
    s!"read method of '{stage}' returned {returned} for a {requested} byte buffer - bug in plugin"
  | initFailed stage source => s!"xform '{stage}' failed to initialize: " ++ source.message
  | outTypeUnset stage =>
    s!"xform '{stage}' did not set an output type during init - bug in plugin"
  | plugin stage source => s!"xform '{stage}' failed: " ++ source.message

/-- Why a chain could not be built or a url not be browsed. -/
inductive ChainError
  /-- No plugin accepts the output type reached so far. -/
  | noMatchingPlugin (url streamType : String)
  /-- Nothing is known about the url of the current entry. -/
  | missingUrl
  | malformedUrl (url : String)
  /-- The limit on stages was met before a goal was. -/
  | chainTooLong (url : String) (maxStages : Nat)
  | browseUnsupported (url : String)
  | stage (error : StageError)
deriving DecidableEq, Repr

def ChainError.message : ChainError → String
  | noMatchingPlugin url streamType =>
    s!"couldn't set up chain for '{url}': no plugin supports {streamType}"
  | missingUrl => "no url known for the current entry"
  | malformedUrl url => s!"malformed url '{url}'"
  | chainTooLong url maxStages => s!"chain for '{url}' exceeded {maxStages} stages"
  | browseUnsupported url => s!"couldn't browse '{url}'"
  | stage error => error.message

end MediaChain
