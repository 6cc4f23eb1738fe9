import MediaChain.Facts.Snapshot
import MediaChain.Library.Store

/-!
# The log of facts

Stages and the server append facts to a `Log`. Every fact but those of the origin gets a `Token` of
its own, larger than all before it. A reader names a token and an order: it sees the facts that
were issued by then at its own or an earlier place in the chain, and the facts of the origin by
their source (`Fact.visible`).
-/

namespace MediaChain

/-- The number of a fact that was written while the chain ran. -/
abbrev Token := Nat

/-- The token of facts that were there before the chain ran. -/
def Token.origin : Token := 0

/-- How long a fact lasts. -/
inductive Lifetime
  /-- It was known before any stage ran. -/
  | origin
  /-- It is written back to the library. -/
  | persistent
  | volatile
deriving DecidableEq, Repr

/-- A value that someone gave to a key. -/
structure Fact where
  token : Token
  /-- The last token that had been issued when the fact was written. -/
  stamp : Token
  /-- The place in the chain of the stage that wrote it. -/
  order : Nat
  source : String
  key : String
  value : Value
  lifetime : Lifetime
deriving DecidableEq, Repr

/-- Whether a reader sees a fact. Facts of the origin are seen by their source, and the server sees
and shows all. -/
def Fact.visible (f : Fact) (token : Token) (order : Nat) (source : String) : Bool :=
  match f.lifetime with
  | .origin => f.source = source || f.source = serverSource || source = serverSource
  | _ => f.token ≤ token && f.order ≤ order

namespace Facts

/-- The facts that were written for an entry, oldest first, and how many of the oldest have been
reported and persisted. -/
structure Log where
  facts : List Fact
  lastToken : Token
  reacted : Nat
  persisted : Nat
  entry : Option EntryId
deriving DecidableEq

namespace Log

def empty : Log := ⟨[], Token.origin, 0, 0, none⟩

instance : Inhabited Log := ⟨empty⟩

/-- Appends a fact. Only a fact that is not of the origin gets a new token. -/
def append (log : Log) (order : Nat) (source key : String) (value : Value) (lifetime : Lifetime) :
    Token × Log :=
  match lifetime with
  | .origin =>
    let fact := ⟨Token.origin, log.lastToken, order, source, key, value, lifetime⟩
    (Token.origin, { log with facts := log.facts ++ [fact] })
  | _ =>
    let token := log.lastToken + 1
    let fact := ⟨token, token, order, source, key, value, lifetime⟩
    (token, { log with facts := log.facts ++ [fact], lastToken := token })

/-- Appends a fact of the server that was known before any stage ran. -/
def seed (log : Log) (key : String) (value : Value) : Log :=
  (log.append 0 serverSource key value .origin).2

/-- The newest fact about a key that a reader sees. -/
def find? (log : Log) (token : Token) (order : Nat) (source key : String) : Option Value :=
  (log.facts.reverse.find? fun f => f.visible token order source && f.key = key).map Fact.value

def int? (log : Log) (token : Token) (order : Nat) (source key : String) : Option Int64 :=
  (log.find? token order source key).bind Value.int?

def text? (log : Log) (token : Token) (order : Nat) (source key : String) : Option String :=
  (log.find? token order source key).bind Value.text?

/-- What the server knows about a key from before any stage ran. -/
def originInt? (log : Log) (key : String) : Option Int64 :=
  log.int? Token.origin 0 serverSource key

def originText? (log : Log) (key : String) : Option String :=
  log.text? Token.origin 0 serverSource key

/-! ## Horizons -/

/-- How many of the oldest facts have been reported or were written by the time of a token. -/
def horizon (log : Log) (token : Token) : Nat :=
  max (log.facts.takeWhile (·.stamp ≤ token)).length log.reacted

/-- The facts between two positions. -/
def between (log : Log) (first last : Nat) : List Fact := (log.facts.take last).drop first

end Log

/-- The newest of some facts for each key and source. -/
def snapshot (facts : List Fact) : Snapshot :=
  facts.foldr (fun f s => s.add f.key f.source f.value) .empty

end Facts

end MediaChain
