import MediaChain.Proofs.Facts.Retries
import MediaChain.Proofs.Stage.Life

/-!
# Recording facts

A stage that records a number writes a persistent fact under its own name, which the reactions that
cover it offer to the library (`Ledger.newest_unsaved_own`). A stage that records a text leaves that
out if it sees the very text already. But what it sees may come from elsewhere: from an argument of
the url, from a stage in front, or from a fact that is not persistent. Such a fact hides the text
from the library (`Bench.Hides`), and nothing else does (`Stage.recordText_records_iff`).
-/

namespace MediaChain

open Facts

/-! ## The last word of a source -/

namespace Facts

variable {log : Log} {source key : String} {value : Value} {f : Fact} {token : Token}

namespace Log

/-- The newest fact about a key that a source has written. -/
def own? (log : Log) (source key : String) : Option Fact :=
  log.facts.reverse.find? fun f => f.key = key ∧ f.source = source

/-- The newest fact about a key that a source has written is persistent and has a value. -/
def Records (log : Log) (source key : String) (value : Value) : Prop :=
  (log.own? source key).map (fun f => (f.lifetime, f.value)) = some (.persistent, value)

instance (log : Log) (source key : String) (value : Value) :
    Decidable (log.Records source key value) :=
  inferInstanceAs (Decidable (_ = _))

/-- No fact behind it is about the key and from the source. -/
theorem own?_eq_some (h : log.own? source key = some f) :
    f.key = key ∧ f.source = source ∧ ∃ older newer, log.facts = older ++ f :: newer ∧
      ∀ g ∈ newer, ¬(g.key = key ∧ g.source = source) := by
  obtain ⟨hmatch, newer, older, hsplit, hnewer⟩ := List.find?_eq_some_iff_append.mp h
  have hmatch : f.key = key ∧ f.source = source := by simpa using hmatch
  refine ⟨hmatch.1, hmatch.2, older.reverse, newer.reverse, ?_, fun g hg => ?_⟩
  · rw [← List.reverse_reverse log.facts, hsplit]
    simp
  · have hother := hnewer g (List.mem_reverse.mp hg)
    exact fun hown => by simp [hown] at hother

/-- A persistent fact that is written becomes the last word of its source. -/
theorem records_append (log : Log) (order : Nat) (source key : String) (value : Value) :
    (log.append order source key value .persistent).2.Records source key value := by
  simp [Records, own?, append]

/-! ## What is offered -/

/-- A fact is covered by all reactions to its stamp or to later tokens. -/
theorem Sound.lt_horizon (h : log.Sound) {older newer : List Fact}
    (hsplit : log.facts = older ++ f :: newer) (hf : f.stamp ≤ token) :
    older.length < log.horizon token := by
  have holder : ∀ g ∈ older, decide (g.stamp ≤ token) = true := fun g hg => by
    have hsorted := h.sorted
    rw [hsplit, List.pairwise_append] at hsorted
    exact decide_eq_true (Nat.le_trans (hsorted.2.2 g hg f List.mem_cons_self) hf)
  refine Nat.lt_of_lt_of_le ?_ (Nat.le_max_left _ _)
  rw [hsplit, List.takeWhile_append_of_pos holder,
    List.takeWhile_cons_of_pos (by simpa using hf), List.length_append, List.length_cons]
  omega

end Log

end Facts

namespace Ledger

variable {l : Ledger} {lib : Library} {source key : String} {f : Fact} {token : Token}

/-- The last word of a source about a key, if it is persistent and no reaction has persisted it, is
among the facts that a reaction offers, and no newer one of the key and source is. -/
theorem newest_unsaved_own (h : l.log.Sound) (hown : l.log.own? source key = some f)
    (hlasting : f.lifetime = .persistent) (hnew : f ∉ l.log.facts.take l.log.persisted)
    (hf : f.stamp ≤ token) :
    f ∈ l.log.unsaved token ∧ newest (l.log.unsaved token) key source = some f.value := by
  obtain ⟨rfl, rfl, older, newer, hsplit, hnewer⟩ := Log.own?_eq_some hown
  have hat : l.log.facts[older.length]? = some f := by rw [hsplit]; simp
  have hlast := h.lt_horizon hsplit hf
  have hfirst : l.log.persisted ≤ older.length := by
    by_contra hlt
    refine hnew (List.mem_iff_getElem?.mpr ⟨older.length, ?_⟩)
    rw [List.getElem?_take, if_pos (by omega), hat]
  constructor
  · refine mem_lasting.mpr ⟨List.mem_iff_getElem?.mpr ⟨older.length - l.log.persisted, ?_⟩, hlasting⟩
    rw [Log.between, List.getElem?_drop, List.getElem?_take, if_pos (by omega), ← hat]
    congr 1
    omega
  · obtain ⟨m, g, hm, hg, -, hkey, hsource, hnewest⟩ :=
      newest_lasting_of_mem hat hlasting hfirst hlast
    refine hnewest.trans ?_
    rcases Nat.eq_or_lt_of_le hm with rfl | hlt
    · rw [hat] at hg
      rw [Option.some.inj hg]
    · -- nothing behind it is about the key and from the source
      have hmem : g ∈ newer := by
        rw [hsplit, List.getElem?_append_right (by omega), List.getElem?_cons] at hg
        rw [if_neg (by omega)] at hg
        exact List.mem_of_getElem? hg
      exact absurd ⟨hkey, hsource⟩ (hnewer g hmem)

/-- Once it is taken, the library holds it, unless a source of the key comes behind by name. -/
theorem react_property?_own {entry : EntryId} (hentry : l.log.entry = some entry)
    (hbacked : l.backed = true) (h : (l.react lib token).1.persisted = true)
    (hf : f ∈ l.log.unsaved token) (hkey : f.key = key) (hsource : f.source = source)
    (hnewest : newest (l.log.unsaved token) key source = some f.value)
    (hlast : ∀ g ∈ l.log.unsaved token, g.key = key → g.source ≤ source) :
    (l.react lib token).2.2.store.property? entry key = some ⟨f.value, librarySource source⟩ := by
  obtain ⟨g, hg, hgkey, hgnewest, hglast, hkept⟩ := kept_spec hf hkey
  have hsame : g.source = source :=
    Std.le_antisymm (hlast g hg hgkey) (hsource ▸ hglast f hf hkey)
  rw [hsame, hnewest] at hgnewest
  rw [react_property? hentry hbacked h, if_pos rfl, hkept, Option.some_or, hsame,
    Option.some.inj hgnewest]

end Ledger

/-! ## Recording -/

variable {ι ε : Type}

/-- The stage sees a text for a key, which it has not recorded itself. -/
def Bench.Hides (b : Bench ι ε) (post : Post) (key text : String) : Prop :=
  b.known? post key = some (.text text) ∧ ¬b.log.Records post.name key (.text text)

instance (b : Bench ι ε) (post : Post) (key text : String) : Decidable (b.Hides post key text) :=
  inferInstanceAs (Decidable (_ ∧ _))

theorem Bench.recordFact_records (b : Bench ι ε) (post : Post) (key : String) (value : Value) :
    (b.recordFact post key value).log.Records post.name key value :=
  b.log.records_append post.order post.name key value

namespace Stage

variable (tap : Tap ι ε) (post : Post) (ahead : Nat) (settingUp : Bool) (b : Bench ι ε)
  (key text : String)

theorem answer_recordText :
    (answer tap post ahead settingUp (.recordText key text) b).2 =
      if b.known? post key = some (.text text) then b else b.recordFact post key (.text text) := by
  show (if _ then ((), b) else ((), b.recordFact post key (.text text))).2 = _
  split <;> rfl

/-- **Recording a text.** Whatever is in the log, a text that a stage records is its last word about
the key, and persistent, if and only if nothing hides it; else all stays as it is. Bytes that are the
text do the same and are accepted. A number is recorded in any case. And the persistent last word of
the stage about a key, if no reaction has persisted it yet, is offered by each reaction that covers
it; once the library takes it, the library holds it under the name of the stage, unless the reaction
brings a fact about the key whose source comes behind by name. -/
theorem recordText_records_iff :
    ((answer tap post ahead settingUp (.recordText key text) b).2.log.Records post.name key
      (.text text) ↔ ¬b.Hides post key text) ∧
    (b.Hides post key text → (answer tap post ahead settingUp (.recordText key text) b).2 = b) ∧
    (∀ bytes, Utf8.decode? bytes = some text →
      (Script.recordBytes key bytes).run (answer tap post ahead settingUp) b =
        (true, (answer tap post ahead settingUp (.recordText key text) b).2)) ∧
    (∀ value, (answer tap post ahead settingUp (.recordInt key value) b).2.log.Records post.name
      key (.int value)) ∧
    ∀ (l : Ledger) (lib : Library) (f : Fact) (token : Token), l.log.Sound →
      l.log.own? post.name key = some f → f.lifetime = .persistent →
        f ∉ l.log.facts.take l.log.persisted → f.stamp ≤ token →
          (l.react lib token).1.persistent.get? key post.name = some f.value ∧
          ∀ entry, l.log.entry = some entry → l.backed = true →
            (l.react lib token).1.persisted = true →
              (∀ g ∈ l.log.unsaved token, g.key = key → g.source ≤ post.name) →
                (l.react lib token).2.2.store.property? entry key =
                  some ⟨f.value, Ledger.librarySource post.name⟩ := by
  rw [answer_recordText]
  refine ⟨?_, fun hhides => if_pos hhides.1, fun bytes hbytes => ?_,
    fun value => b.recordFact_records post key (.int value), ?_⟩
  · by_cases hknown : b.known? post key = some (.text text)
    · rw [if_pos hknown, Bench.Hides, not_and_not_right]
      exact ⟨fun h _ => h, fun h => h hknown⟩
    · rw [if_neg hknown]
      exact iff_of_true (b.recordFact_records post key (.text text)) fun hhides => hknown hhides.1
  · rw [← answer_recordText tap post ahead settingUp]
    unfold Script.recordBytes
    rw [hbytes]
    rfl
  · intro l lib f token hsound hown hlasting hnew hf
    obtain ⟨hmem, hnewest⟩ := Ledger.newest_unsaved_own hsound hown hlasting hnew hf
    obtain ⟨hkey, hsource, -⟩ := Log.own?_eq_some hown
    refine ⟨(snapshot_get? (l.log.unsaved token) key post.name).trans hnewest, ?_⟩
    intro entry hentry hbacked htaken hlast
    exact Ledger.react_property?_own hentry hbacked htaken hmem hkey hsource hnewest hlast

/-! ## Arguments of a url -/

/-- A plugin that knows the title of what it plays. -/
def titling : Plugin Unit Unit where
  descriptor := { name := "titling" }
  init := do
    let _ ← Script.request (.setOutType .untyped)
    Script.request (.recordText "title" "song")
    return .ok ()
  read _ _ := return (.ok (.ofBytes []), ())

/-- What setting up a stage begins with, for an entry with some url. -/
def labelled (url : String) : Bench Unit Unit :=
  firstBench titling
    ⟨[], ⟨((Ledger.empty true).reset 1 [(Property.urlKey, .text url)]).log, .empty⟩⟩

/-- The ledger of the entry after the stage has recorded the title. -/
def titled (url : String) : Ledger :=
  ⟨(answer .closed (firstPost titling {} [] ⟨[], ⟨.empty, .empty⟩⟩) 0 true
    (.recordText "title" "song") (labelled url)).2.log, true, []⟩

theorem titled_log (url : String) :
    (titled url).log = (answer .closed (firstPost titling {} [] ⟨[], ⟨.empty, .empty⟩⟩) 0 true
      (.recordText "title" "song") (labelled url)).2.log := rfl

/-- A title comes from the stage to the library, whatever else the url says. -/
theorem recordText_records_title :
    (titled "file:///a.raw?artist=song").log.Records "titling" "title" (.text "song") ∧
      ((titled "file:///a.raw?artist=song").react .empty 1).2.2.store.property? 1 "title" =
        some ⟨.text "song", "plugin/titling"⟩ := by
  obtain ⟨hrecords, -, -, -, hoffers⟩ := recordText_records_iff .closed
    (firstPost titling {} [] ⟨[], ⟨.empty, .empty⟩⟩) 0 true (labelled "file:///a.raw?artist=song")
    "title" "song"
  have hsound : (titled "file:///a.raw?artist=song").log.Sound := by
    constructor <;> decide +kernel
  obtain ⟨-, hlibrary⟩ := hoffers (titled "file:///a.raw?artist=song") .empty
    ⟨1, 1, 0, "titling", "title", .text "song", .persistent⟩ 1 hsound (by decide +kernel) rfl
    (by decide +kernel) (by decide)
  refine ⟨?_, hlibrary 1 (by decide +kernel) rfl (by decide +kernel) (by decide +kernel)⟩
  rw [titled_log]
  exact hrecords.mpr (by decide +kernel)

/-- An argument of the url that says the same hides the title, so that the library never gets it. -/
theorem recordText_hidden_title :
    ¬(titled "file:///a.raw?title=song").log.Records "titling" "title" (.text "song") ∧
      ((titled "file:///a.raw?title=song").react .empty 1).1.persistent.isEmpty = true ∧
      ((titled "file:///a.raw?title=song").react .empty 1).2.2.store.property? 1 "title" = none := by
  decide +kernel

end Stage

end MediaChain
