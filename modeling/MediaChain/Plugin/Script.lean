import MediaChain.Error
import MediaChain.Facts.Log
import MediaChain.StreamType
import MediaChain.Window

/-!
# Scripts

A callback of a plugin is a `Script`: it asks the stage that runs it one `Request` after another,
goes on with the answers, and is done with a result. What a script may ask is all that a plugin can
learn of its surroundings and do to them. `Script.run` plays a script against any way of answering.
-/

namespace MediaChain

/-- What a position to seek to is counted from. -/
inductive Whence
  | start
  | here
  | finish
deriving DecidableEq, Repr

/-- What a stage shows to its plugin. -/
structure View where
  name : String
  order : Nat
  /-- The read horizon of the stage. -/
  token : Token
  goals : List StreamType
  /-- The output types of the stages in front, nearest first. -/
  inTypes : List StreamType
  outType : Option StreamType
  /-- Whether the stage in front has come to its end; so has a stage that is not there. -/
  frontDone : Bool

/-- What a script may ask for. `ε` is what it may note down. -/
inductive Request (ε : Type)
  | view
  /-- Declares the output type of the stage; only taken while the stage is set up. -/
  | setOutType (type : StreamType)
  | read (window : Window)
  /-- Reads ahead without taking the bytes. -/
  | peek (size : Nat)
  | seek (offset : Int) (whence : Whence)
  | readLine
  /-- Marks the end of what the stage has produced with a value. -/
  | mark (key : String) (value : Value)
  /-- Marks it without a value, so that readers stop there. -/
  | barrier
  /-- The value of the marks that the stage in front has come to. -/
  | marked (key : String)
  | recordInt (key : String) (value : Int64)
  /-- Records a text as a fact, unless the stage already sees that very text. -/
  | recordText (key value : String)
  /-- The newest fact that the stage sees. -/
  | known (key : String)
  /-- A value of the stage's own part of the configuration. -/
  | lookup (key : String)
  | note (entry : ε)

namespace Request

/-- What a request is answered with. -/
abbrev Answer {ε : Type} : Request ε → Type
  | view => View
  | setOutType _ => Bool
  | read _ => Except StageError Reply
  | peek _ => Except StageError Bytes
  | seek _ _ => Except StageError Nat
  | readLine => Except StageError (Option String)
  | mark _ _ => Unit
  | barrier => Unit
  | marked _ => Option Value
  | recordInt _ _ => Unit
  | recordText _ _ => Unit
  | known _ => Option Value
  | lookup _ => Option String
  | note _ => Unit

end Request

/-- A computation that ends with a result or asks a request and goes on with the answer. -/
inductive Script (ε α : Type)
  | done (result : α)
  | ask (request : Request ε) (next : request.Answer → Script ε α)

namespace Script

variable {ε α β σ : Type}

protected def bind : Script ε α → (α → Script ε β) → Script ε β
  | done a, f => f a
  | ask q next, f => ask q fun answer => (next answer).bind f

instance : Monad (Script ε) where
  pure := done
  bind := Script.bind

theorem pure_eq_done (a : α) : (pure a : Script ε α) = done a := rfl

theorem done_bind (a : α) (f : α → Script ε β) : done a >>= f = f a := rfl

theorem ask_bind (q : Request ε) (next : q.Answer → Script ε α) (f : α → Script ε β) :
    ask q next >>= f = ask q fun answer => next answer >>= f := rfl

theorem id_map (x : Script ε α) : id <$> x = x := by
  induction x with
  | done a => rfl
  | ask q next ih => exact congrArg (ask q) (funext ih)

theorem bind_assoc {γ : Type} (x : Script ε α) (f : α → Script ε β) (g : β → Script ε γ) :
    x >>= f >>= g = x >>= fun a => f a >>= g := by
  induction x with
  | done a => rfl
  | ask q next ih => exact congrArg (ask q) (funext ih)

instance : LawfulMonad (Script ε) :=
  LawfulMonad.mk' (Script ε) id_map (fun _ _ => rfl) bind_assoc

/-- Asks one request. -/
def request (q : Request ε) : Script ε q.Answer := ask q done

/-- Plays a script, with `answer` giving the answers and keeping a state between them. -/
def run (answer : (q : Request ε) → σ → q.Answer × σ) : Script ε α → σ → α × σ
  | done a, s => (a, s)
  | ask q next, s => (next (answer q s).1).run answer (answer q s).2

@[simp]
theorem run_done (answer : (q : Request ε) → σ → q.Answer × σ) (a : α) (s : σ) :
    (done a).run answer s = (a, s) := rfl

@[simp]
theorem run_ask (answer : (q : Request ε) → σ → q.Answer × σ) (q : Request ε)
    (next : q.Answer → Script ε α) (s : σ) :
    (ask q next).run answer s = (next (answer q s).1).run answer (answer q s).2 := rfl

theorem run_bind (answer : (q : Request ε) → σ → q.Answer × σ) (x : Script ε α)
    (f : α → Script ε β) (s : σ) :
    (x >>= f).run answer s = (f (x.run answer s).1).run answer (x.run answer s).2 := by
  induction x generalizing s with
  | done a => rfl
  | ask q next ih => exact ih _ _

/-- What every answer keeps, a whole script keeps. -/
theorem run_invariant {answer : (q : Request ε) → σ → q.Answer × σ} {P : σ → Prop}
    (h : ∀ q s, P s → P (answer q s).2) (x : Script ε α) (s : σ) (hs : P s) :
    P (x.run answer s).2 := by
  induction x generalizing s with
  | done a => exact hs
  | ask q next ih => exact ih _ _ (h q s hs)

/-! ## Derived requests -/

/-- Reads into a window of its own, and gives the bytes that count. -/
def readBytes (size : Nat) : Script ε (Except StageError Bytes) := do
  return (← request (.read (.blank size))).map (·.bytes (.blank size))

/-- Declares the type of the stage in front as the output type. -/
def copyOutType : Script ε Bool := do
  match (← request .view).inTypes.head? with
  | some type => request (.setOutType type)
  | none => return false

/-- The nearest text that a stage in front has for a parameter. -/
def findText (key : String) : Script ε (Option String) := do
  return (← request .view).inTypes.findSome? (·.text? key)

/-- The url of the stream that the stage ultimately reads. -/
def url : Script ε (Option String) := findText StreamType.urlKey

/-- Records bytes as a text; says whether they are one. -/
def recordBytes (key : String) (bs : Bytes) : Script ε Bool :=
  match Utf8.decode? bs with
  | some s => do
    request (.recordText key s)
    return true
  | none => return false

end Script

end MediaChain
