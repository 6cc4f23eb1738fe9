import MediaChain.Proofs.Facts.Origin

/-!
# Arguments and properties after a reset

A log that was just reset holds facts of the server only, and everybody sees all of them
(`Facts.Log.Seeded.find?_eq`). The properties of the entry are seeded in the order of their names,
and the arguments of its url when it is their turn. So the last argument with a name is what stages
see, unless the entry has a property of that name, and one that comes behind `url`
(`Ledger.find?_reset_iff`).
-/

namespace MediaChain

open Facts

namespace Facts.Log

variable {log : Log}

/-- All facts are of the server, from before any stage ran. -/
def Seeded (log : Log) : Prop :=
  ∀ f ∈ log.facts, f.lifetime = .origin ∧ f.source = serverSource

theorem Seeded.seed (h : log.Seeded) (key : String) (value : Value) :
    (log.seed key value).Seeded := by
  intro f hf
  rcases List.mem_append.mp hf with hf | hf
  · exact h f hf
  · rw [List.mem_singleton.mp hf]
    exact ⟨rfl, rfl⟩

theorem Seeded.find?_eq (h : log.Seeded) (token : Token) (order : Nat) (source key : String) :
    log.find? token order source key = log.origin? key := by
  have hvisible : ∀ f ∈ log.facts, ∀ token order source, f.visible token order source = true := by
    intro f hf token order source
    obtain ⟨hlifetime, hsource⟩ := h f hf
    simp [Fact.visible, hlifetime, hsource]
  unfold origin? find?
  rw [← List.head?_filter, ← List.head?_filter, List.filter_congr fun f hf => ?_]
  rw [hvisible f (List.mem_reverse.mp hf), hvisible f (List.mem_reverse.mp hf)]

end Facts.Log

namespace Ledger

variable {log : Log} {key : String} {properties : List (String × Value)}

theorem seeded_reset (l : Ledger) (entry : EntryId) (properties : List (String × Value)) :
    (l.reset entry properties).log.Seeded :=
  reset_invariant (fun _ key value h => h.seed key value) l entry properties fun _ hf =>
    absurd hf List.not_mem_nil

/-! ## What comes last -/

/-- A property states its own fact, and the one that holds the url states the arguments too. -/
theorem origin?_seedProperty (log : Log) (key' : String) (value : Value)
    (hid : key ≠ Property.idKey) (hurl : key ≠ Property.urlKey) :
    (seedProperty log key' value).origin? key =
      if key' = Property.urlKey then
        ((lastArg? (urlArgs (some value)) key).map argValue).or (log.origin? key)
      else if key' = key then some value else log.origin? key := by
  have hne : Property.urlKey ≠ Property.idKey := by decide
  by_cases hkey : key' = Property.urlKey
  · subst hkey
    rw [if_pos rfl]
    unfold seedProperty
    rw [if_neg hne]
    cases value with
    | text url =>
      dsimp only
      rw [if_pos rfl, Log.origin?_seed, if_neg hurl.symm, origin?_seedArgs]
      rfl
    | int | bytes =>
      dsimp only
      rw [Log.origin?_seed, if_neg hurl.symm]
      rfl
  · rw [if_neg hkey]
    unfold seedProperty
    split
    next hkey' =>
      rw [if_neg fun heq => hid (heq.symm.trans hkey')]
    next =>
      split <;> exact log.origin?_seed _ _ _

/-- Behind a name there are no names that do not come after it. -/
theorem lookup_eq_none {name name' : String} (h : ∀ p ∈ properties, name < p.1)
    (hlt : ¬name < name') : properties.lookup name' = none := by
  refine List.lookup_eq_none_iff.mpr fun p hp => ?_
  have hne : name' ≠ p.1 := fun heq => hlt (heq ▸ h p hp)
  simpa using hne

/-- Of properties in the order of their names, one that comes behind the url is seeded after its
arguments, and one that comes before it is overridden by them. -/
theorem origin?_seedProperties_of_ne (h : properties.Pairwise (·.1 < ·.1)) (log : Log)
    (hid : key ≠ Property.idKey) (hurl : key ≠ Property.urlKey) :
    (properties.foldl (fun log (key, value) => seedProperty log key value) log).origin? key =
      (if Property.urlKey < key then properties.lookup key else none).or
        (((lastArg? (urlArgs (properties.lookup Property.urlKey)) key).map argValue).or
          ((properties.lookup key).or (log.origin? key))) := by
  induction properties generalizing log with
  | nil => simp [urlArgs, lastArg?]
  | cons property properties ih =>
    obtain ⟨key', value⟩ := property
    obtain ⟨hfirst, hrest⟩ := List.pairwise_cons.mp h
    rw [List.foldl_cons, ih hrest, origin?_seedProperty log key' value hid hurl,
      List.lookup_cons, List.lookup_cons]
    by_cases hkey' : key' = Property.urlKey
    · -- the arguments come now, in front of the properties whose names are greater
      subst hkey'
      rw [lookup_eq_none hfirst (String.lt_irrefl _), if_pos rfl, beq_self_eq_true,
        beq_false_of_ne hurl]
      by_cases hlt : Property.urlKey < key
      · cases properties.lookup key <;> simp [hlt, urlArgs, lastArg?]
      · simp [hlt, lookup_eq_none hfirst hlt, urlArgs, lastArg?]
    · rw [if_neg hkey', beq_false_of_ne (Ne.symm hkey')]
      by_cases hkey : key' = key
      · subst hkey
        rw [if_pos rfl, beq_self_eq_true, lookup_eq_none hfirst (String.lt_irrefl _)]
        by_cases hlt : Property.urlKey < key'
        · -- the url would have come before this property
          simp [hlt, lookup_eq_none hfirst (String.lt_asymm hlt), urlArgs, lastArg?]
        · simp [hlt]
      · rw [if_neg hkey, beq_false_of_ne (Ne.symm hkey)]

theorem origin?_reset_of_ne (l : Ledger) (session : Library.Session) (store : Library.Store)
    (entry : EntryId) (hid : key ≠ Property.idKey) (hurl : key ≠ Property.urlKey) :
    (l.reset entry (session.properties store entry)).log.origin? key =
      (if Property.urlKey < key then session.get? store entry key else none).or
        (((lastArg? (urlArgs (session.get? store entry Property.urlKey)) key).map argValue).or
          (session.get? store entry key)) := by
  have hempty : ({ Log.empty with entry := some entry } : Log).origin? key = none := rfl
  unfold reset
  dsimp only
  rw [origin?_seedProperties_of_ne (session.properties_sorted store entry) _ hid hurl,
    session.lookup_properties, session.lookup_properties, Log.origin?_seed, if_neg hid.symm,
    hempty, Option.or_none]

/-- **Arguments after a reset.** Everybody sees the last argument of the url that has some name,
unless the entry has another value in a property of that name which comes behind `url`; then
everybody sees the property. -/
theorem find?_reset_iff (l : Ledger) (session : Library.Session) (store : Library.Store)
    (entry : EntryId) {url : String} {args : List Url.Arg} {arg : Url.Arg}
    (hstored : session.get? store entry Property.urlKey = some (.text url))
    (hargs : Url.args? url = some args) (hlast : lastArg? args arg.key = some arg)
    (hid : arg.key ≠ Property.idKey) (hurl : arg.key ≠ Property.urlKey) (token : Token)
    (order : Nat) (source : String) :
    ((l.reset entry (session.properties store entry)).log.find? token order source arg.key =
        some (argValue arg) ↔
      ∀ value, Property.urlKey < arg.key → session.get? store entry arg.key = some value →
        value = argValue arg) ∧
      ∀ value, Property.urlKey < arg.key → session.get? store entry arg.key = some value →
        (l.reset entry (session.properties store entry)).log.find? token order source arg.key =
          some value := by
  have harguments : lastArg? (urlArgs (some (.text url))) arg.key = some arg := by
    unfold urlArgs Url.arguments
    simpa [Value.text?, hargs] using hlast
  rw [(seeded_reset l entry _).find?_eq, l.origin?_reset_of_ne session store entry hid hurl, hstored,
    harguments, Option.map_some, Option.some_or]
  by_cases hlt : Property.urlKey < arg.key
  · rw [if_pos hlt]
    cases session.get? store entry arg.key with
    | none => simp
    | some value => simp [hlt]
  · simp [hlt]

/-! ## An entry with a property beside an argument -/

/-- A store with one entry, whose url is given, and which has a tag. -/
def tagged (url key tag : String) : Library.Store :=
  (Library.Store.empty.addEntry url).2.write 1 key (.text tag) "tag"

/-- The title that the url gives is seen, and not the one that is stored. -/
theorem find?_reset_title :
    ((Ledger.empty true).reset 1 ((tagged "file:///a.mod?title=New&loop" "title"
        "Old").begin.properties (tagged "file:///a.mod?title=New&loop" "title" "Old") 1)).log.find?
      Token.origin 7 "decoder" "title" = some (.text "New") := by
  have hstored : (tagged "file:///a.mod?title=New&loop" "title" "Old").begin.get?
      (tagged "file:///a.mod?title=New&loop" "title" "Old") 1 Property.urlKey =
        some (.text "file:///a.mod?title=New&loop") := by decide +kernel
  have hargs : Url.args? "file:///a.mod?title=New&loop" =
      some [.pair "title" "New", .flag "loop"] := by decide +kernel
  have hlast : lastArg? [.pair "title" "New", .flag "loop"] (Url.Arg.pair "title" "New").key =
      some (.pair "title" "New") := by decide
  obtain ⟨hsees, -⟩ := find?_reset_iff (.empty true)
    (tagged "file:///a.mod?title=New&loop" "title" "Old").begin _ 1 hstored hargs hlast
    (by decide) (by decide) Token.origin 7 "decoder"
  exact hsees.mpr fun value hlt => absurd hlt (by decide)

/-- The year that is stored is seen, and not the one that the url gives. -/
theorem find?_reset_year :
    Url.args? "file:///a.mod?year=1999" = some [.pair "year" "1999"] ∧
      ((Ledger.empty true).reset 1 ((tagged "file:///a.mod?year=1999" "year"
          "1987").begin.properties (tagged "file:///a.mod?year=1999" "year" "1987") 1)).log.find?
        Token.origin 7 "decoder" "year" = some (.text "1987") := by
  decide +kernel

end Ledger

end MediaChain
