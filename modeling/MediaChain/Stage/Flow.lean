import MediaChain.Stage.Callback

/-!
# Reading from a stage

`Stage.read` takes bytes from a stage into a window, `Stage.peek` looks at them, `Stage.seek` moves
its plugin. A read serves what was produced ahead first and then asks the plugin; it stops before
the next mark. All three refuse a stage that is errored. `Tap.reaching` ties the stages of a chain
together.
-/

namespace MediaChain

variable {ι ε : Type}

namespace Stage

/-! ## Asking the plugin -/

/-- Asks the plugin to fill a window. A failure and a reply by which more bytes count than there are
leave the stage errored. -/
def pull (tap : Tap ι ε) (window : Window) : StageOp ι ε Reply := fun s f =>
  match s.engine with
  | none => (.error (.notReadable s.name), s, f)
  | some engine =>
    let f := f.record (.read s.name engine.id window.size)
    let ((reply, state), s, f) := s.play tap f (engine.plugin.read engine.state window)
    let s := { s with engine := some { engine with state } }
    match reply with
    | .ok reply =>
      if reply.count ≤ window.size then (.ok reply, s, f)
      else (.error (.readOutOfRange s.name reply.count window.size), { s with errored := true }, f)
    | .error e => (.error (.plugin s.name e), { s with errored := true }, f)

/-! ## Taking bytes -/

/-- Puts bytes that count in front of those of a reply. -/
def prepend (bytes : Bytes) :
    Except StageError Reply × Stage ι ε × Front ι ε →
      Except StageError Reply × Stage ι ε × Front ι ε
  | (result, s, f) => (result.map fun r => ⟨bytes.length + r.count, bytes ++ r.written⟩, s, f)

/-- Asks the plugin until the window is full, the stream ends, or a mark is pending; the bytes that
come with a pending mark are kept for later, though they stand in the window. As long as the reader
has got nothing (`fresh`), marks at its position take effect. -/
def fill (tap : Tap ι ε) (fresh : Bool) (window : Window) (s : Stage ι ε) (f : Front ι ε) :
    Except StageError Reply × Stage ι ε × Front ι ε :=
  if window.size = 0 then (.ok ⟨0, []⟩, s, f)
  else
    match s.pull tap window f with
    | (.error e, s, f) => (.error e, s, f)
    | (.ok reply, s, f) =>
      let window := window.write reply.written
      if reply.count = 0 then (.ok ⟨0, window.held⟩, { s with done := true }, f)
      else
        let bytes := window.bytes reply.count
        let marks := if fresh then s.desk.marks.land else s.desk.marks
        let s := { s with desk := { s.desk with marks } }
        if marks.pending = [] then
          prepend bytes (fill tap false (window.drop reply.count) s f)
        else (.ok ⟨0, window.held⟩, { s with buffer := s.buffer ++ bytes }, f)
termination_by window.size
decreasing_by simp only [Window.size_drop, Window.size_write]; omega

/-- Takes at most as many bytes as the window holds, and none from behind the next mark. -/
def read (tap : Tap ι ε) (window : Window) : StageOp ι ε Reply := fun s f =>
  if s.errored then (.error (.errored s.name), s, f)
  else
    let marks := s.desk.marks.land
    let size := (marks.next?.map (min window.size)).getD window.size
    let served := s.buffer.take size
    let marks := marks.advance served.length
    let s := { s with desk := { s.desk with marks }, buffer := s.buffer.drop size }
    if s.done then (.ok (.ofBytes served), s, f)
    else prepend served (fill tap served.isEmpty ((window.take size).drop served.length) s f)

/-! ## Looking ahead -/

/-- Asks the plugin until `size` bytes are at hand or the stream ends. -/
def lookAhead (tap : Tap ι ε) (size : Nat) (s : Stage ι ε) (f : Front ι ε) :
    Except StageError Unit × Stage ι ε × Front ι ε :=
  if size ≤ s.buffer.length ∨ s.done then (.ok (), s, f)
  else
    match s.pull tap s.window f with
    | (.error e, s, f) => (.error e, s, f)
    | (.ok reply, s', f) =>
      let window := s.window.write reply.written
      let s' := { s' with scratch := window.held }
      if reply.count = 0 then (.ok (), { s' with done := true }, f)
      else
        let buffer := s.buffer ++ window.bytes reply.count
        lookAhead tap size { s' with buffer } f
termination_by size - s.buffer.length
decreasing_by simp only [List.length_append, Window.length_bytes]; omega

/-- Shows at most `size` of the bytes that the next reads will take. -/
def peek (tap : Tap ι ε) (size : Nat) : StageOp ι ε Bytes := fun s f =>
  if s.errored then (.error (.errored s.name), s, f)
  else
    match lookAhead tap size s f with
    | (.ok (), s, f) => (.ok (s.buffer.take size), s, f)
    | (.error e, s, f) => (.error e, s, f)

/-! ## Seeking -/

/-- The offset that the plugin is asked for. Its own position is behind the bytes that were
produced ahead. Offsets have no bound here. In 64 bits the difference is the same as long as it
fits, and overflows if the offset lies below `- 2 ^ 63` plus the number of these bytes. -/
def seekOffset (s : Stage ι ε) (offset : Int) : Whence → Int
  | .here => offset - s.buffer.length
  | .start => offset
  | .finish => offset

/-- Moves the plugin, and drops what was produced ahead with the marks on it. -/
def seek (tap : Tap ι ε) (offset : Int) (whence : Whence) : StageOp ι ε Nat := fun s f =>
  if s.errored then (.error (.errored s.name), s, f)
  else
    match s.engine with
    | none => (.error (.seekUnsupported s.name), s, f)
    | some engine =>
      if engine.plugin.capabilities.seek then
        let offset := s.seekOffset offset whence
        let f := f.record (.seek s.name engine.id offset whence)
        let ((reply, state), s, f) := s.play tap f (engine.plugin.seek engine.state offset whence)
        let s := { s with engine := some { engine with state } }
        match reply with
        | .ok position =>
          let desk := { s.desk with marks := s.desk.marks.clear }
          (.ok position, { s with desk, buffer := [], done := false }, f)
        | .error e => (.error (.plugin s.name e), { s with errored := true }, f)
      else (.error (.seekUnsupported s.name), s, f)

end Stage

/-! ## Chains of stages -/

namespace Tap

/-- Reaches no stage. -/
def closed : Tap ι ε where
  read _ := fun s f => (.error (.notReadable s.name), s, f)
  peek _ := fun s f => (.error (.notReadable s.name), s, f)
  seek _ _ := fun s f => (.error (.seekUnsupported s.name), s, f)

/-- Works a stage whose own callbacks reach through another tap. -/
def through (tap : Tap ι ε) : Tap ι ε where
  read := Stage.read tap
  peek := Stage.peek tap
  seek := Stage.seek tap

/-- Reaches a stage and those in front of it, `depth` in all. -/
def reaching : Nat → Tap ι ε
  | 0 => closed
  | depth + 1 => through (reaching depth)

end Tap

end MediaChain
