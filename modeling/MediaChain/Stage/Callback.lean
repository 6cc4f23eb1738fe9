import MediaChain.Stage.Basic
import MediaChain.Text.Line

/-!
# Callbacks

`Stage.answer` answers the requests of a script on behalf of a stage. It reaches the stages in
front through a `Tap`, which knows how to read from a stage; `Stage.play` plays one callback of a
stage that has been set up.
-/

namespace MediaChain

variable {ι ε : Type}

/-- An operation on a stage and what it works on: it ends with an answer or an error, and leaves
both changed. -/
abbrev StageOp (ι ε α : Type) :=
  Stage ι ε → Front ι ε → Except StageError α × Stage ι ε × Front ι ε

/-- How a stage is read from. -/
structure Tap (ι ε : Type) where
  read : Window → StageOp ι ε Reply
  peek : Nat → StageOp ι ε Bytes
  seek : Int → Whence → StageOp ι ε Nat

/-- What a script acts upon: the desk of its stage, the output type if it is known, and the stages
in front. -/
structure Bench (ι ε : Type) where
  desk : Desk
  outType : Option StreamType
  front : Front ι ε

namespace Bench

/-- Does something to the stage in front of the one with the given name. -/
def reach {α : Type} (b : Bench ι ε) (name : String) (op : StageOp ι ε α) :
    Except StageError α × Bench ι ε :=
  match b.front.stages with
  | [] => (.error (.noInput name), b)
  | stage :: rest =>
    let (result, stage, front) := op stage { b.front with stages := rest }
    (result, { b with front := { front with stages := stage :: front.stages } })

/-- Raises the read horizon to that of the stage in front. -/
def catchUp (b : Bench ι ε) : Bench ι ε :=
  match b.front.stages with
  | [] => b
  | stage :: _ => { b with desk := { b.desk with token := max b.desk.token stage.token } }

def setMarks (b : Bench ι ε) (marks : Marks) : Bench ι ε :=
  { b with desk := { b.desk with marks } }

def setLine (b : Bench ι ε) (line : Bytes) : Bench ι ε := { b with desk := { b.desk with line } }

def setLog (b : Bench ι ε) (log : Facts.Log) : Bench ι ε :=
  { b with front := { b.front with scene := { b.front.scene with log } } }

def log (b : Bench ι ε) : Facts.Log := b.front.scene.log

/-- Takes bytes from the stage in front; what it knew when it gave them is within the horizon
then. -/
def read (b : Bench ι ε) (tap : Tap ι ε) (post : Post) (window : Window) :
    Except StageError Reply × Bench ι ε :=
  match b.reach post.name (tap.read window) with
  | (.ok reply, b) => (.ok reply, b.catchUp)
  | (.error e, b) => (.error e, b)

/-- Seeks in the stage in front, and forgets the line that was begun. -/
def seek (b : Bench ι ε) (tap : Tap ι ε) (post : Post) (offset : Int) (whence : Whence) :
    Except StageError Nat × Bench ι ε :=
  match b.reach post.name (tap.seek offset whence) with
  | (.ok position, b) => (.ok position, b.setLine [])
  | (.error e, b) => (.error e, b)

/-- Takes the first line from the bytes at hand; no bytes are no line. -/
def takeLine (b : Bench ι ε) (bytes : Bytes) : Option String × Bench ι ε :=
  if bytes = [] then (none, b.setLine [])
  else (some (Utf8.lossy (Line.split bytes).1), b.setLine (Line.split bytes).2)

/-- Takes a line from the stage in front, with at most one read, and only if the bytes at hand hold
no newline and leave room. -/
def readLine (b : Bench ι ε) (tap : Tap ι ε) (post : Post) :
    Except StageError (Option String) × Bench ι ε :=
  let begun := b.desk.line
  if Line.newline ∈ begun ∨ post.lineCap ≤ begun.length then
    let (line, b) := b.takeLine begun
    (.ok line, b)
  else
    let window := Window.blank (post.lineCap - begun.length)
    match b.read tap post window with
    | (.ok reply, b) =>
      let (line, b) := b.takeLine (begun ++ reply.bytes window)
      (.ok line, b)
    | (.error e, b) => (.error e, b)

/-- The newest fact that the stage sees. -/
def known? (b : Bench ι ε) (post : Post) (key : String) : Option Value :=
  b.log.find? b.desk.token post.order post.name key

/-- Records a persistent fact, which the stage then sees. -/
def recordFact (b : Bench ι ε) (post : Post) (key : String) (value : Value) : Bench ι ε :=
  let (token, log) := b.log.append post.order post.name key value .persistent
  { b with desk := { b.desk with token := max b.desk.token token } }.setLog log

/-- What a stage shows to its plugin. -/
def view (b : Bench ι ε) (post : Post) : View where
  name := post.name
  order := post.order
  token := b.desk.token
  goals := post.goals
  inTypes := b.front.stages.map Stage.outType
  outType := b.outType
  frontDone := (b.front.stages.head?.map Stage.done).getD true

end Bench

namespace Stage

/-- Answers a request for the stage at a post that has produced `ahead` bytes its reader has not
taken. Only while it is set up can its output type be declared. -/
def answer (tap : Tap ι ε) (post : Post) (ahead : Nat) (settingUp : Bool) :
    (q : Request ε) → Bench ι ε → q.Answer × Bench ι ε
  | .view, b => (b.view post, b)
  | .setOutType type, b => if settingUp then (true, { b with outType := some type }) else (false, b)
  | .read window, b => b.read tap post window
  | .peek size, b => b.reach post.name (tap.peek size)
  | .seek offset whence, b => b.seek tap post offset whence
  | .readLine, b => b.readLine tap post
  | .mark key value, b => ((), b.setMarks (b.desk.marks.put ahead key value))
  | .barrier, b => ((), b.setMarks (b.desk.marks.bar ahead))
  | .marked key, b => (b.front.stages.head?.bind (·.marked? key), b)
  | .recordInt key value, b => ((), b.recordFact post key (.int value))
  | .recordText key value, b =>
    if b.known? post key = some (.text value) then ((), b)
    else ((), b.recordFact post key (.text value))
  | .known key, b => (b.known? post key, b)
  | .lookup key, b => (b.front.scene.backstage.config.lookup (post.name ++ "." ++ key), b)
  | .note entry, b => ((), { b with front := b.front.record (.note post.name entry) })

/-- Plays a callback of a stage that has been set up. -/
def play {α : Type} (tap : Tap ι ε) (s : Stage ι ε) (f : Front ι ε) (script : Script ε α) :
    α × Stage ι ε × Front ι ε :=
  let (result, bench) :=
    script.run (answer tap s.post s.buffer.length false) ⟨s.desk, some s.outType, f⟩
  (result, { s with desk := bench.desk }, bench.front)

end Stage

end MediaChain
