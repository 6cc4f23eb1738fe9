import MediaChain.Chain.Effects
import MediaChain.World

/-!
# Building chains

`Builder.buildFrom` builds a chain for a url and `Builder.build` one for the url of the entry that
a ledger was reset for; both keep account of the playing in the library. `Builder.rebuild` replaces
the effects of a chain, and `Builder.handleChange` does so when the configuration changes.
-/

namespace MediaChain

variable {ι ε : Type}

namespace Builder

/-! ## Keeping account -/

/-- The entry that the facts of the origin name. -/
def originEntry (log : Facts.Log) : Option EntryId :=
  (log.originInt? Property.idKey).bind fun id =>
    if 0 ≤ id ∧ id.toInt < UInt32.size then some (UInt32.ofNat id.toInt.toNat) else none

/-- How often something was played, where anything but a count is none at all. -/
def playCount : Option Value → Int64
  | some (.int n) => if n < 0 then 0 else n
  | _ => 0

/-- Writes down that an entry is played with a chain of this name. A rehash neither counts nor
changes when the entry was played last. -/
def recordPlay (name : String) (entry : EntryId) (rehash : Bool) (now : Int64) :
    Library.Work Unit := fun store session =>
  let played := playCount (session.get? store entry Property.timesPlayedKey)
  let last := (session.get? store entry Property.lastStartedKey).bind Value.int?
  let played := if rehash then played else played + 1
  let started := if rehash then last else some now
  let session := session.set entry Property.chainKey (.text name) serverSource
  let session := session.set entry Property.timesPlayedKey (.int played) serverSource
  match started with
  | some time => ((), session.set entry Property.lastStartedKey (.int time) serverSource)
  | none => ((), session)

/-- Reacts to what was recorded while a chain was built, and keeps account of its playing. -/
def finalize (b : Builder ι ε) (c : Chain ι ε) (now : Int64) (ledger : Ledger) (w : World ε) :
    Ledger × World ε :=
  let (_, ledger, w) := w.react ledger c.token
  match c.entry with
  | none => (ledger, w)
  | some entry =>
    if b.backed then
      let (_, library) := w.library.withSession [] (recordPlay c.name entry c.rehash now)
      (ledger, { w with library })
    else (ledger, w)

/-! ## Building -/

/-- Builds a chain for a url, still encoded: the stages that decode it, the effect that collects
metadata of segments, and the configured effects. -/
def buildFrom (b : Builder ι ε) (goals : List StreamType) (rehash : Bool) (now : Int64)
    (url : String) (ledger : Ledger) (w : World ε) :
    Except ChainError (Chain ι ε) × Ledger × World ε :=
  match b.decode goals url (w.scene ledger) with
  | (.error e, scene) => (.error e, w.absorb ledger scene)
  | (.ok stages, scene) =>
    let (_, f) := b.addEffect goals b.settings.segmentPlugin ⟨stages, scene⟩
    let decoderLength := f.stages.length
    let f := if rehash then f else b.addEffects goals f
    let (ledger, w) := w.absorb ledger f.scene
    let entry := originEntry ledger.log
    let unpublished := ⟨0, ⟨"", none, [], .untyped⟩⟩
    let chain := Chain.publish
      { stages := f.stages, decoderLength, url, entry, goals, rehash, bulletin := unpublished }
    (.ok chain, b.finalize chain now ledger w)

/-- Builds a chain for the url that the facts of the origin name. -/
def build (b : Builder ι ε) (goals : List StreamType) (rehash : Bool) (now : Int64)
    (ledger : Ledger) (w : World ε) : Except ChainError (Chain ι ε) × Ledger × World ε :=
  match ledger.log.originText? Property.urlKey with
  | none => (.error .missingUrl, ledger, w)
  | some url => b.buildFrom goals rehash now url ledger w

/-! ## Rebuilding -/

/-- Replaces the effects of a chain by those that are configured now. -/
def rebuild (b : Builder ι ε) (c : Chain ι ε) (ledger : Ledger) (w : World ε) :
    Chain ι ε × Ledger × World ε :=
  let (c, backstage) := c.dropEffects w.backstage
  let f := b.addEffects c.goals ⟨c.stages, ⟨ledger.log, backstage⟩⟩
  (Chain.publish { c with stages := f.stages }, w.absorb ledger f.scene)

/-- Rebuilds a chain if a change of the configuration may concern its effects; says whether it
did. -/
def handleChange (b : Builder ι ε) (change : Config.Change) (c : Chain ι ε) (ledger : Ledger)
    (w : World ε) : Bool × Chain ι ε × Ledger × World ε :=
  if c.rehash || !b.settings.affectsEffects change.path then (false, c, ledger, w)
  else (true, b.rebuild c ledger w)

end Builder

end MediaChain
