import MediaChain.Chain.Browse
import MediaChain.Chain.Build

/-!
# The host

A `Host` keeps what a media server keeps: the plugins and settings that chains are built with, the
world they share, and ledgers, chains and library sessions under names of their own. A ledger is
there as soon as it is named.
-/

namespace MediaChain

open Std

variable {ι ε : Type}

/-- A chain and the name of the ledger that its facts go to. -/
structure Running (ι ε : Type) where
  ledger : String
  chain : Chain ι ε

structure Host (ι ε : Type) where
  builder : Builder ι ε
  world : World ε
  ledgers : ExtTreeMap String Ledger
  chains : ExtTreeMap String (Running ι ε)
  /-- What was told last about the chains of each name; it outlives them. -/
  bulletins : ExtTreeMap String Chain.Bulletin
  sessions : ExtTreeMap String Library.Session

namespace Host

/-- A host without plugins, whose ledgers and chains use the library if it is backed by one. -/
def empty (settings : Settings) (backed : Bool) : Host ι ε :=
  ⟨⟨.empty, settings, backed⟩, .empty, ∅, ∅, ∅, ∅⟩

/-! ## Parts -/

def registry (h : Host ι ε) : Registry ι ε := h.builder.registry

def setRegistry (h : Host ι ε) (registry : Registry ι ε) : Host ι ε :=
  { h with builder := { h.builder with registry } }

def setSettings (h : Host ι ε) (settings : Settings) : Host ι ε :=
  { h with builder := { h.builder with settings } }

def config (h : Host ι ε) : Config := h.world.backstage.config

def setBackstage (h : Host ι ε) (backstage : Backstage ε) : Host ι ε :=
  { h with world := { h.world with backstage } }

def setConfig (h : Host ι ε) (config : Config) : Host ι ε :=
  h.setBackstage { h.world.backstage with config }

def library (h : Host ι ε) : Library := h.world.library

def setLibrary (h : Host ι ε) (library : Library) : Host ι ε :=
  { h with world := { h.world with library } }

def ledger (h : Host ι ε) (name : String) : Ledger :=
  h.ledgers[name]?.getD (.empty h.builder.backed)

def setLedger (h : Host ι ε) (name : String) (ledger : Ledger) : Host ι ε :=
  { h with ledgers := h.ledgers.insert name ledger }

/-- Takes what has been journalled since the journal was taken last. -/
def takeJournal (h : Host ι ε) : List (Event ε) × Host ι ε :=
  (h.world.backstage.journal.toList, h.setBackstage { h.world.backstage with journal := #[] })

/-! ## The library -/

def addEntry (h : Host ι ε) (url : String) : EntryId × Host ι ε :=
  let (id, store) := h.library.store.addEntry url
  (id, h.setLibrary { h.library with store })

/-- Begins a session under a name. -/
def beginSession (h : Host ι ε) (name : String) : Host ι ε :=
  let (session, library) := h.library.begin
  { h.setLibrary library with sessions := h.sessions.insert name session }

def setSession (h : Host ι ε) (name : String) (session : Library.Session) : Host ι ε :=
  { h with sessions := h.sessions.insert name session }

/-- Commits the session of a name, if there is one, and ends it. -/
def commitSession (h : Host ι ε) (name : String) : Option Bool × Host ι ε :=
  match h.sessions[name]? with
  | none => (none, h)
  | some session =>
    let (committed, library) := h.library.commit session
    (some committed, { h.setLibrary library with sessions := h.sessions.erase name })

/-- The property that rival sessions set. -/
def rivalKey : String := "rival"

/-- Sets properties of an entry in one session, against rival sessions that each commit during one
of the first runs. Gives how often the session was run, and what the rivals had set by then. -/
def writeAgainst (h : Host ι ε) (rivals : Nat) (entry : EntryId) (source : String)
    (sets : List (String × Value)) : Nat × Option Value × Host ι ε :=
  let rival := fun run : Nat => fun store : Library.Store =>
    store.write entry rivalKey (.int (Int64.ofNat (run + 1))) rivalKey
  let work : Library.Work (Option Value) := fun store session =>
    let session := sets.foldl (fun s (key, value) => s.set entry key value source) session
    (session.get? store entry rivalKey, session)
  let ((seen, runs), library) := h.library.withSession ((List.range rivals).map rival) work
  (runs, seen, h.setLibrary library)

/-! ## Ledgers -/

/-- Appends a fact to a ledger. -/
def setFact (h : Host ι ε) (ledger : String) (order : Nat) (source key : String) (value : Value)
    (lifetime : Lifetime) : Token × Host ι ε :=
  let l := h.ledger ledger
  let (token, log) := l.log.append order source key value lifetime
  (token, h.setLedger ledger { l with log })

/-- Lets a ledger react, and tells its observers. -/
def react (h : Host ι ε) (ledger : String) (token : Token) : Facts.Report × Host ι ε :=
  let (report, l, world) := h.world.react (h.ledger ledger) token
  (report, { h with world }.setLedger ledger l)

/-- Resets a ledger for an entry, as the session of a name sees it. Without a name, or if no session
has it, the entry is taken as it is in the library. -/
def reset (h : Host ι ε) (ledger : String) (entry : EntryId) (name : Option String) : Host ι ε :=
  let session := (name.bind (h.sessions[·]?)).getD h.library.store.begin
  h.setLedger ledger
    ((h.ledger ledger).reset entry (session.properties h.library.store entry))

def observe (h : Host ι ε) (ledger : String) (observer : Facts.Observer) : Host ι ε :=
  h.setLedger ledger ((h.ledger ledger).observe observer)

/-! ## Hubs -/

/-- Ends a subscription, whichever hub it is with. -/
def unsubscribe (h : Host ι ε) (owner : String) : Host ι ε :=
  { h with world := { h.world with hubs := h.world.hubs.map fun _ hub => hub.unsubscribe owner } }

/-- Subscribes to a hub, in place of an older subscription of the same name. -/
def subscribe (h : Host ι ε) (hub owner : String) : Host ι ε :=
  let world := (h.unsubscribe owner).world
  { h with world := world.setHub hub ((world.hub hub).subscribe owner) }

/-- What waits for a subscriber, if it has a subscription. -/
def waiting? (h : Host ι ε) (owner : String) : Option (List Facts.Announcement) :=
  h.world.hubs.toList.findSome? fun (_, hub) => hub.inbox? owner

/-- Empties the inbox of a subscriber. -/
def takeWaiting (h : Host ι ε) (owner : String) : Host ι ε :=
  { h with world := { h.world with hubs := h.world.hubs.map fun _ hub => hub.take owner } }

/-- Announces facts through a hub. -/
def announce (h : Host ι ε) (hub : String) (message : Facts.Announcement) : Host ι ε :=
  { h with world := h.world.setHub hub ((h.world.hub hub).send message) }

/-! ## Chains -/

/-- Keeps a chain under its name with what was told about it. -/
def setChain (h : Host ι ε) (name : String) (r : Running ι ε) : Host ι ε :=
  { h with
    chains := h.chains.insert name r
    bulletins := h.bulletins.insert name r.chain.bulletin }

/-- Releases the chain of a name, if there is one. -/
def dropChain (h : Host ι ε) (name : String) : Host ι ε :=
  match h.chains[name]? with
  | none => h
  | some r =>
    { h.setBackstage (r.chain.release h.world.backstage) with chains := h.chains.erase name }

/-- Builds a chain, for a url if one is given and else for the entry of its ledger. An older chain
of the name is released once the new one stands. -/
def build (h : Host ι ε) (name ledger : String) (goals : List StreamType) (rehash : Bool)
    (url : Option String) (now : Int64) : Except ChainError (Chain ι ε) × Host ι ε :=
  let (result, l, world) :=
    match url with
    | some url => h.builder.buildFrom goals rehash now url (h.ledger ledger) h.world
    | none => h.builder.build goals rehash now (h.ledger ledger) h.world
  let h := { h with world }.setLedger ledger l
  match result with
  | .error e => (.error e, h)
  | .ok chain => (.ok chain, (h.dropChain name).setChain name ⟨ledger, chain⟩)

/-- Runs an operation of a chain. -/
def operate {α : Type} (h : Host ι ε) (name : String)
    (op : Chain ι ε → Scene ε → α × Chain ι ε × Scene ε) : Option α × Host ι ε :=
  match h.chains[name]? with
  | none => (none, h)
  | some r =>
    let l := h.ledger r.ledger
    let (result, chain, scene) := op r.chain (h.world.scene l)
    let (l, world) := h.world.absorb l scene
    (some result, ({ h with world }.setLedger r.ledger l).setChain name { r with chain })

/-- Hands a change of the configuration to a chain; says whether it was rebuilt. -/
def handleChange (h : Host ι ε) (name : String) (change : Config.Change) :
    Option Bool × Host ι ε :=
  match h.chains[name]? with
  | none => (none, h)
  | some r =>
    let (rebuilt, chain, l, world) :=
      h.builder.handleChange change r.chain (h.ledger r.ledger) h.world
    (some rebuilt, ({ h with world }.setLedger r.ledger l).setChain name { r with chain })

/-- Replaces the effects of a chain. -/
def rebuild (h : Host ι ε) (name : String) : Host ι ε :=
  match h.chains[name]? with
  | none => h
  | some r =>
    let (chain, l, world) := h.builder.rebuild r.chain (h.ledger r.ledger) h.world
    ({ h with world }.setLedger r.ledger l).setChain name { r with chain }

/-- Lets the ledger of a chain react up to the read horizon of its tail. -/
def reactChain (h : Host ι ε) (name : String) : Option Facts.Report × Host ι ε :=
  match h.chains[name]? with
  | none => (none, h)
  | some r =>
    let (report, h) := h.react r.ledger r.chain.token
    (some report, h)

/-- Lists what lies below a url. -/
def browse (h : Host ι ε) (url : String) :
    Except ChainError (List Listing.Entry) × Host ι ε :=
  let (result, backstage) := h.builder.browse url h.world.backstage
  (result, h.setBackstage backstage)

/-- Releases all chains in the order of their names. -/
def shutDown (h : Host ι ε) : Host ι ε :=
  h.chains.toList.foldl (fun h (name, _) => h.dropChain name) h

end Host

end MediaChain
