import MediaChain.Proofs.Chain.Following
import MediaChain.Proofs.Chain.Malformed
import MediaChain.Proofs.Listing.Paths

/-!
# Two ways to a chain

A chain can be built for an entry of the library, whose url was split when the ledger was reset, or
for a url. The first way stores the part before the arguments as a fact and splits it once more,
which leaves it as it is (`Url.base_base`). With typed plugins only that part counts
(`Builder.buildFrom_layout`), so both ways come to the same, and the server sees the same arguments
(`Builder.build_agrees`).
-/

namespace MediaChain

open Chain (layout Heads)
open Facts Ledger

variable {ι ε κ : Type}

/-! ## Kinds of errors -/

inductive StageError.Kind
  | errored
  | seekUnsupported
  | notReadable
  | noInput
  | readOutOfRange
  | initFailed
  | outTypeUnset
  | plugin

def StageError.kind : StageError → Kind
  | errored _ => .errored
  | seekUnsupported _ => .seekUnsupported
  | notReadable _ => .notReadable
  | noInput _ => .noInput
  | readOutOfRange _ _ _ => .readOutOfRange
  | initFailed _ _ => .initFailed
  | outTypeUnset _ => .outTypeUnset
  | plugin _ _ => .plugin

inductive ChainError.Kind
  | noMatchingPlugin
  | missingUrl
  | malformedUrl
  | chainTooLong
  | browseUnsupported
  | stage (kind : StageError.Kind)

def ChainError.kind : ChainError → Kind
  | noMatchingPlugin _ _ => .noMatchingPlugin
  | missingUrl => .missingUrl
  | malformedUrl _ => .malformedUrl
  | chainTooLong _ _ => .chainTooLong
  | browseUnsupported _ => .browseUnsupported
  | stage error => .stage error.kind

/-! ## Bases of urls -/

namespace Url

theorem questionMark_not_mem_base (url : String) : '?' ∉ (base url).toList := by
  unfold base
  rw [String.toList_ofList]
  intro h
  have hne := List.mem_takeWhile_imp h
  simp at hne

theorem base_base (url : String) : base (base url) = base url :=
  (of_questionMark_not_mem (questionMark_not_mem_base url)).1

theorem arguments_base (url : String) : arguments (base url) = [] := by
  unfold arguments
  rw [(of_questionMark_not_mem (questionMark_not_mem_base url)).2, Option.getD_some]

end Url

/-! ## Facts of the origin -/

/-- After a reset for an entry that has a url and nothing else, the server knows the part of the url
before the arguments, the arguments and the number of the entry. -/
theorem Ledger.origin?_reset_url (l : Ledger) (entry : EntryId) (url key : String) :
    (l.reset entry [(Property.urlKey, .text url)]).log.origin? key =
      if Property.urlKey = key then some (.text (Url.base url))
      else ((lastArg? (Url.arguments url) key).map argValue).or
        (if Property.idKey = key then some (.int (Int64.ofNat entry.toNat)) else none) := by
  have hne : Property.urlKey ≠ Property.idKey := by decide
  unfold reset seedProperty
  dsimp only [List.foldl_cons, List.foldl_nil]
  rw [if_neg hne, if_pos rfl, Log.origin?_seed, origin?_seedArgs, Log.origin?_seed]
  rfl

namespace Builder

variable {b : Builder ι ε} {view : ChainError → κ}

/-- Whether or not a chain could be built, the server then sees the arguments of its url. -/
theorem origin?_buildFrom (b : Builder ι ε) (goals : List StreamType) (rehash : Bool) (now : Int64)
    (url : String) (l : Ledger) (w : World ε) (key : String) :
    (b.buildFrom goals rehash now url l w).2.1.log.origin? key =
      ((lastArg? (Url.arguments url) key).map argValue).or (l.log.origin? key) := by
  obtain ⟨log, hgains, hend⟩ := b.buildFrom_cases goals rehash now url l w
  have hlog : log.origin? key =
      ((lastArg? (Url.arguments url) key).map argValue).or (l.log.origin? key) :=
    (hgains.origin? key).trans (origin?_seedArgs l.log url key)
  obtain ⟨e, w', heq⟩ | ⟨c, w', heq, -, -⟩ := hend
  · rw [heq]
    exact hlog
  · rw [heq, b.finalize_ledger]
    exact hlog

/-! ## What a chain comes to -/

/-- With typed plugins, and with effects listed alike, what a chain looks like is told by the part
of its url before the arguments, and so is the reason why it cannot be built. -/
theorem buildFrom_layout (hb : ∀ p ∈ b.registry.plugins, p.TypedBy view b.settings)
    (goals : List StreamType) (rehash : Bool) (now now' : Int64) {url url' : String}
    (hbase : Url.base url = Url.base url')
    (hview : view (.malformedUrl url) = view (.malformedUrl url')) (l l' : Ledger) {w w' : World ε}
    (hlisted : b.listed w.backstage.config = b.listed w'.backstage.config) :
    ((b.buildFrom goals rehash now url l w).1.map
        fun c => (layout c.stages, c.decoderLength)).mapError view =
      ((b.buildFrom goals rehash now' url' l' w').1.map
        fun c => (layout c.stages, c.decoderLength)).mapError view := by
  have hdecode := decode_layout hb goals hbase hview (w.scene l) (w'.scene l')
  unfold buildFrom
  rcases hf : b.decode goals url (w.scene l) with ⟨e | ss, scene⟩ <;>
    rcases hg : b.decode goals url' (w'.scene l') with ⟨e' | ss', scene'⟩
  all_goals rw [hf, hg] at hdecode
  · exact congrArg Except.error (Except.error.inj hdecode)
  · cases hdecode
  · cases hdecode
  · have hsegment := addEffect_layout hb goals b.settings.segmentPlugin (f := ⟨ss, scene⟩)
      (g := ⟨ss', scene'⟩) (Except.ok.inj hdecode)
    have heffects := addEffects_layout hb goals hsegment (by
      rw [addEffect_listed, addEffect_listed, decode_config hf, decode_config hg]
      exact hlisted)
    refine congrArg Except.ok (Prod.ext ?_ (Chain.length_of_layout hsegment))
    cases rehash with
    | true => exact hsegment
    | false => exact heffects

/-- A chain that could be built holds what the part of its url before the arguments names. -/
theorem heads_of_buildFrom {goals : List StreamType} {rehash : Bool} {now : Int64} {url : String}
    {l : Ledger} {w : World ε} {c : Chain ι ε}
    (hc : (b.buildFrom goals rehash now url l w).1 = .ok c) :
    ∃ text, Url.decode? (Url.base url) = some text ∧ Heads text c.stages := by
  cases hdecoded : Url.decode? (Url.base url) with
  | none =>
    rw [buildFrom_malformed_iff.mpr ⟨rfl, hdecoded⟩] at hc
    cases hc
  | some text => exact ⟨text, rfl, buildFrom_heads hdecoded hc⟩

/-- Two attempts to build a chain for a url come to the same: both fail with errors of one kind, or
both lead to chains that look alike from outside and begin with a stage for the same text. -/
inductive Agree (url : String) :
    Except ChainError (Chain ι ε) → Except ChainError (Chain ι ε) → Prop
  | failed {e e' : ChainError} (kind : e.kind = e'.kind) : Agree url (.error e) (.error e')
  | built {c c' : Chain ι ε} {text : String} (stages : c.info.stages = c'.info.stages)
    (outType : c.outType = c'.outType) (decoderLength : c.decoderLength = c'.decoderLength)
    (decode : Url.decode? (Url.base url) = some text) (heads : Heads text c.stages)
    (heads' : Heads text c'.stages) : Agree url (.ok c) (.ok c')

/-- Whatever else the urls and the ledgers are, building comes to the same for urls with one part
before the arguments. -/
theorem buildFrom_agree (hb : ∀ p ∈ b.registry.plugins, p.TypedBy ChainError.kind b.settings)
    (goals : List StreamType) (rehash : Bool) (now now' : Int64) {url url' : String}
    (hbase : Url.base url = Url.base url') (l l' : Ledger) {w w' : World ε}
    (hlisted : b.listed w.backstage.config = b.listed w'.backstage.config) :
    Agree url' (b.buildFrom goals rehash now url l w).1
      (b.buildFrom goals rehash now' url' l' w').1 := by
  have hlayout := buildFrom_layout hb goals rehash now now' hbase rfl l l' hlisted
  rcases hbuild : (b.buildFrom goals rehash now url l w).1 with e | c <;>
    rcases hbuild' : (b.buildFrom goals rehash now' url' l' w').1 with e' | c'
  all_goals rw [hbuild, hbuild'] at hlayout
  · exact .failed (Except.error.inj hlayout)
  · cases hlayout
  · cases hlayout
  · obtain ⟨hstages, hlength⟩ := Prod.mk.inj (Except.ok.inj hlayout)
    obtain ⟨text, hdecoded, hheads⟩ := heads_of_buildFrom hbuild
    rw [hbase] at hdecoded
    exact .built (Chain.driven_of_layout hstages) (Chain.tailType_of_layout hstages) hlength
      hdecoded hheads (buildFrom_heads hdecoded hbuild')

/-- A chain for an entry that has a url and nothing else is one for the part of the url before the
arguments. -/
theorem build_reset_url (b : Builder ι ε) (goals : List StreamType) (rehash : Bool) (now : Int64)
    (l : Ledger) (entry : EntryId) (url : String) (w : World ε) :
    b.build goals rehash now (l.reset entry [(Property.urlKey, .text url)]) w =
      b.buildFrom goals rehash now (Url.base url)
        (l.reset entry [(Property.urlKey, .text url)]) w := by
  have hstored : (l.reset entry [(Property.urlKey, .text url)]).log.originText? Property.urlKey =
      some (Url.base url) := by
    show (Log.origin? _ _).bind Value.text? = _
    rw [origin?_reset_url, if_pos rfl]
    rfl
  unfold build
  rw [hstored]

/-- **Chains for entries and chains for urls.** Let the plugins be typed, and let an entry have a
url and nothing else. To build a chain for the entry on a ledger that was reset for it, and to build
one for the url on an empty ledger, either both fail with errors of one kind, or both lead to stages
of the same names, behind a stage for the same text, with the same output type and as many of them
to decode the stream. Either way the server sees for a key the last argument that is called like it,
if all arguments decode, except for the number and the url that the entry itself states. -/
theorem build_agrees (hb : ∀ p ∈ b.registry.plugins, p.TypedBy ChainError.kind b.settings)
    (goals : List StreamType) (rehash : Bool) (now now' : Int64) {session : Library.Session}
    {store : Library.Store} {entry : EntryId} {url : String}
    (honly : session.properties store entry = [(Property.urlKey, .text url)]) (l : Ledger)
    (backed : Bool) (w w' : World ε)
    (hvalues : w.backstage.config.values = w'.backstage.config.values) :
    let ofEntry := b.build goals rehash now (l.reset entry (session.properties store entry)) w
    let ofUrl := b.buildFrom goals rehash now' url (.empty backed) w'
    Agree url ofEntry.1 ofUrl.1 ∧
      ∀ key, key ≠ Property.idKey → key ≠ Property.urlKey →
        ofEntry.2.1.log.origin? key = (lastArg? (Url.arguments url) key).map argValue ∧
          ofUrl.2.1.log.origin? key = (lastArg? (Url.arguments url) key).map argValue := by
  rw [honly]
  dsimp only
  rw [b.build_reset_url]
  refine ⟨buildFrom_agree hb goals rehash now now' (Url.base_base url) _ _
    (listed_of_values hvalues), fun key hid hurl => ⟨?_, ?_⟩⟩
  · rw [origin?_buildFrom, Url.arguments_base, origin?_reset_url, if_neg (Ne.symm hurl),
      if_neg (Ne.symm hid), Option.or_none]
    rfl
  · rw [origin?_buildFrom]
    exact Option.or_none

/-! ## A song with arguments -/

open Follower (tuner passing refusing)

/-- What the plugins of the tuner make of a stream is settled by its type, and so are failures. -/
theorem tuner_typedBy (view : ChainError → κ) :
    ∀ p ∈ tuner.registry.plugins, p.TypedBy view tuner.settings := by
  have hpassing : ∀ name, (passing name).TypedBy view tuner.settings := by
    intro name goals
    refine ⟨fun types => .ok (types.head?.getD .untyped), fun f hf => ?_⟩
    obtain ⟨stages, scene⟩ := f
    cases stages with
    | nil => cases hf rfl
    | cons s stages => rfl
  have hconverter : ∀ name input output,
      (Chain.converter name input output).TypedBy view tuner.settings :=
    fun _ _ output _ => ⟨fun _ => .ok (.ofMime output), fun _ _ => rfl⟩
  have hrefusing : ∀ name, (refusing name).TypedBy view tuner.settings :=
    fun name _ => ⟨fun _ => .error (view (.stage (.initFailed name (.unsupported "init")))),
      fun _ _ => rfl⟩
  simp only [tuner, List.forall_mem_cons]
  exact ⟨hconverter _ _ _, hpassing _, hpassing _, hrefusing _, hconverter _ _ _,
    List.forall_mem_nil _⟩

/-- The title of the song contains a question mark, and a second argument is called like the url. -/
def song : String := "memfile://song.raw?title=a?b&url=c"

/-- A library with an entry for it. -/
def songs : Library.Store := (Library.Store.empty.addEntry song).2

/-- The gain is listed as an effect. -/
def amplified : Backstage Unit :=
  { Backstage.empty with config := Config.empty.register "effect.order.0" "gain" }

def ofEntry : Except ChainError (Chain Unit Unit) × Ledger × World Unit :=
  tuner.build Chain.samples false 7
    ((Ledger.empty true).reset 1 (songs.begin.properties songs 1)) ⟨amplified, ⟨songs, 0⟩, ∅⟩

def ofUrl : Except ChainError (Chain Unit Unit) × Ledger × World Unit :=
  tuner.buildFrom Chain.samples false 8 song (.empty false) ⟨amplified, .empty, ∅⟩

/-- The chain for the entry looks as the one for the url, and the title is the same. -/
theorem song_agrees :
    ∃ c c', ofEntry.1 = .ok c ∧ ofUrl.1 = .ok c' ∧
      c.info.stages = ["feed", "segment", "gain"] ∧ c'.info.stages = c.info.stages ∧
      c'.decoderLength = c.decoderLength ∧ Heads "memfile://song.raw" c.stages ∧
      Heads "memfile://song.raw" c'.stages ∧
      ofEntry.2.1.log.origin? "title" = some (.text "a?b") ∧
      ofUrl.2.1.log.origin? "title" = some (.text "a?b") := by
  have honly : songs.begin.properties songs 1 = [(Property.urlKey, .text song)] := by
    decide +kernel
  have hok : ofEntry.1.toOption.map (fun c => c.info.stages) =
      some ["feed", "segment", "gain"] := by decide +kernel
  have hdecode : Url.decode? (Url.base song) = some "memfile://song.raw" := by decide +kernel
  have htitle : (lastArg? (Url.arguments song) "title").map argValue = some (.text "a?b") := by
    decide +kernel
  obtain ⟨hagree, hkeys⟩ := build_agrees (tuner_typedBy ChainError.kind) Chain.samples false 7 8
    honly (.empty true) false ⟨amplified, ⟨songs, 0⟩, ∅⟩ ⟨amplified, .empty, ∅⟩ rfl
  obtain ⟨hentry, hurl⟩ := hkeys "title" (by decide) (by decide)
  rw [htitle] at hentry hurl
  -- the attempts are not to be computed from here on
  unfold ofEntry ofUrl at *
  generalize tuner.build _ _ _ _ _ = x at hagree hok hentry ⊢
  generalize tuner.buildFrom _ _ _ _ _ _ = y at hagree hurl ⊢
  obtain ⟨result, l, w⟩ := x
  obtain ⟨result', l', w'⟩ := y
  cases hagree with
  | failed => cases hok
  | @built c c' text hstages hout hlength hdecoded hheads hheads' =>
    rw [hdecode] at hdecoded
    obtain rfl := Option.some.inj hdecoded
    exact ⟨c, c', rfl, rfl, Option.some.inj hok, hstages.symm, hlength.symm, hheads, hheads',
      hentry, hurl⟩

end Builder

end MediaChain
