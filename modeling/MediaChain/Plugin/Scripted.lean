import Std.Data.ExtTreeMap
import MediaChain.Plugin.Basic

/-!
# Scripted plugins

A `Scripted` plugin is described by data: which requests its callbacks make, in which calls it
fails, and how it produces bytes. It notes every request with its answer. `Scripted.plugin` is the
plugin that a description stands for.
-/

namespace MediaChain

open Std

namespace Scripted

/-! ## Requests and notes -/

/-- A request as it is written in a description. -/
inductive Call
  | name
  | order
  | token
  | done
  | url
  | goals
  | inType
  | outType
  | inText (key : String)
  | inInt (key : String)
  | findText (key : String)
  | read (size : Nat)
  | peek (size : Nat)
  | seek (offset : Int) (whence : Whence)
  | readLine
  | setOut (type : StreamType)
  | copyOut
  | mark (key : String) (value : Value)
  | barrier
  | marked (key : String)
  | recordInt (key : String) (value : Int64)
  | recordText (key value : String)
  | recordBytes (key : String) (bs : Bytes)
  | known (key : String)
  | lookup (key : String)

/-- What was answered. -/
inductive Outcome
  | nothing
  | flag (b : Bool)
  | number (n : Nat)
  | int (n : Option Int64)
  | text (s : Option String)
  | type (t : Option StreamType)
  | types (ts : List StreamType)
  | bytes (r : Except StageError Bytes)
  | position (r : Except StageError Nat)
  | line (r : Except StageError (Option String))
  /-- The value of a mark. -/
  | marked (v : Option Value)
  /-- The value of a fact. -/
  | fact (v : Option Value)

/-- An element of a listing as it is written in a description. -/
inductive Item
  | entry (name : String) (isDir : Bool)
  | property (key : String) (value : Value)
  | link (name : Option String) (url : String) (args : List String)
  | info
  | call (c : Call)
  | fail (e : PluginError)

/-- What a scripted plugin notes down. -/
inductive Note
  | call (c : Call) (outcome : Outcome)
  /-- An element was added to a listing, or refused. -/
  | item (i : Item) (accepted : Bool)
  | info (base : String) (size : Nat) (isEmpty : Bool)

abbrev Act := Script Note

/-- Makes a request and gives its outcome. -/
def Call.ask : Call → Act Outcome
  | name => return .text (← Script.request .view).name
  | order => return .number (← Script.request .view).order
  | token => return .number (← Script.request .view).token
  | done => return .flag (← Script.request .view).frontDone
  | url => return .text (← Script.url)
  | goals => return .types (← Script.request .view).goals
  | inType => return .type (← Script.request .view).inTypes.head?
  | outType => return .type (← Script.request .view).outType
  | inText key => return .text ((← Script.request .view).inTypes.head?.bind (·.text? key))
  | inInt key => return .int ((← Script.request .view).inTypes.head?.bind (·.int? key))
  | findText key => return .text (← Script.findText key)
  | read size => return .bytes (← Script.readBytes size)
  | peek size => return .bytes (← Script.request (.peek size))
  | seek offset whence => return .position (← Script.request (.seek offset whence))
  | readLine => return .line (← Script.request .readLine)
  | setOut type => return .flag (← Script.request (.setOutType type))
  | copyOut => return .flag (← Script.copyOutType)
  | mark key value => do
    Script.request (.mark key value)
    return .nothing
  | barrier => do
    Script.request .barrier
    return .nothing
  | marked key => return .marked (← Script.request (.marked key))
  | recordInt key value => do
    Script.request (.recordInt key value)
    return .flag true
  | recordText key value => do
    Script.request (.recordText key value)
    return .flag true
  | recordBytes key bs => return .flag (← Script.recordBytes key bs)
  | known key => return .fact (← Script.request (.known key))
  | lookup key => return .text (← Script.request (.lookup key))

/-- Makes a request and notes it with its outcome. -/
def Call.perform (c : Call) : Act Unit := do
  Script.request (.note (.call c (← c.ask)))

/-- Makes requests in order. -/
def performAll : List Call → Act Unit
  | [] => return ()
  | c :: cs => do
    c.perform
    performAll cs

/-! ## Descriptions -/

/-- How a read produces bytes. -/
inductive ReadMode
  /-- From the plugin's own data. -/
  | feed
  /-- From the stage in front, with a mask over every byte. -/
  | relay (mask : UInt8)
  /-- From the lines of the stage in front. -/
  | lines
  /-- Not at all. -/
  | silent
deriving DecidableEq, Repr

/-- How a seek finds its position. -/
inductive SeekMode
  /-- In the plugin's own data. -/
  | feed
  /-- By seeking in the stage in front. -/
  | forward
  | fail (e : PluginError)
  | missing
deriving DecidableEq, Repr

/-- What the state of a stage holds: its position in the data, and how often it was read. -/
structure State where
  position : Nat
  calls : Nat
deriving DecidableEq, Repr

end Scripted

structure Scripted where
  descriptor : Plugin.Descriptor
  initCalls : List Scripted.Call
  initError : Option PluginError
  data : Bytes
  mode : Scripted.ReadMode
  /-- The most bytes of one read, if there is such a limit. -/
  perCall : Option Nat
  /-- Requests of every read. -/
  readCalls : List Scripted.Call
  /-- Requests of single reads, by their numbers. -/
  callsAt : ExtTreeMap Nat (List Scripted.Call)
  failAt : ExtTreeMap Nat PluginError
  /-- The reads that write nothing and let a whole window count, and by how much more or less. -/
  overAt : ExtTreeMap Nat Int
  seekCalls : List Scripted.Call
  seekMode : Scripted.SeekMode
  items : Option (List Scripted.Item)

namespace Scripted

/-- An error of the stage in front as an error of the plugin. -/
def ioError (e : StageError) : PluginError := .io e.message

/-! ## Callbacks -/

def init (p : Scripted) : Act (Except PluginError State) := do
  performAll p.initCalls
  match p.initError with
  | some e => return .error e
  | none => return .ok ⟨0, 0⟩

/-- What stands behind a line when lines are produced. -/
def lineEnd : UInt8 := 0x7C

/-- Puts a mask over the bytes of a window that count. -/
def masked (mask : UInt8) (window : Window) (r : Reply) : Reply :=
  ⟨r.count, (r.bytes window).map (· ^^^ mask) ++ r.written.drop r.count⟩

/-- Fills a window. -/
def produce (p : Scripted) (s : State) (window : Window) : Act (Except PluginError Reply × State) :=
  match p.mode with
  | .feed =>
    let bytes := (p.data.drop s.position).take window.size
    return (.ok (.ofBytes bytes), { s with position := s.position + bytes.length })
  | .relay mask => do
    match ← Script.request (.read window) with
    | .ok reply => return (.ok (masked mask window reply), s)
    | .error e => return (.error (ioError e), s)
  | .lines => do
    match ← Script.request .readLine with
    | .ok (some line) =>
      return (.ok (.ofBytes ((Utf8.encode line ++ [lineEnd]).take window.size)), s)
    | .ok none => return (.ok (.ofBytes []), s)
    | .error e => return (.error (ioError e), s)
  | .silent => return (.ok (.ofBytes []), s)

/-- How many bytes of a window are said to count when nothing was written. The number is a word of
64 bits. -/
def unwritten (size : Nat) (excess : Int) : Nat := ((size + excess) % 0x10000000000000000).toNat

def read (p : Scripted) (s : State) (window : Window) : Act (Except PluginError Reply × State) := do
  let s := { s with calls := s.calls + 1 }
  performAll p.readCalls
  performAll (p.callsAt[s.calls]?.getD [])
  match p.failAt[s.calls]?, p.overAt[s.calls]? with
  | some e, _ => return (.error e, s)
  | none, some excess => return (.ok ⟨unwritten window.size excess, []⟩, s)
  | none, none => p.produce s (window.take (p.perCall.getD window.size))

/-- The position that a seek in the plugin's own data asks for. -/
def target (p : Scripted) (s : State) (offset : Int) : Whence → Int
  | .start => offset
  | .here => s.position + offset
  | .finish => p.data.length + offset

def seek (p : Scripted) (s : State) (offset : Int) (whence : Whence) :
    Act (Except PluginError Nat × State) := do
  performAll p.seekCalls
  match p.seekMode with
  | .feed =>
    let target := p.target s offset whence
    if 0 ≤ target ∧ target ≤ p.data.length then
      return (.ok target.toNat, { s with position := target.toNat })
    else return (.error (.invalidInput "seek out of range"), s)
  | .forward =>
    match ← Script.request (.seek offset whence) with
    | .ok position => return (.ok position, s)
    | .error e => return (.error (ioError e), s)
  | .fail e => return (.error e, s)
  | .missing => return (.error (.unsupported "seek"), s)

/-- Adds an element to a listing and notes whether it was accepted. -/
def noteItem (i : Item) : Bool × Listing → Act Listing
  | (accepted, l) => do
    Script.request (.note (.item i accepted))
    return l

/-- Works through the elements of a listing. -/
def list : List Item → Listing → Act (Except PluginError Listing)
  | [], l => return .ok l
  | i :: more, l => do
    match i with
    | .entry name isDir => list more (← noteItem i (l.addEntry name isDir))
    | .property key value => list more (← noteItem i (l.addProperty key value))
    | .link name url args => list more (← noteItem i (l.addLink name url args))
    | .info =>
      Script.request (.note (.info l.base l.entries.length l.entries.isEmpty))
      list more l
    | .call c =>
      c.perform
      list more l
    | .fail e => return .error e

def browse (p : Scripted) (s : State) (l : Listing) : Act (Except PluginError Listing × State) :=
  match p.items with
  | none => return (.error (.unsupported "browse"), s)
  | some items => return (← list items l, s)

/-- The plugin that a description stands for. -/
def plugin (p : Scripted) : Plugin State Note where
  descriptor := p.descriptor
  init := p.init
  read := p.read
  seek := p.seek
  browse := fun s _ l => p.browse s l

end Scripted

end MediaChain
