import MediaChain.Facts.Snapshot
import MediaChain.StreamType

/-!
# JSON forms

Values and stream types are read back from their JSON forms as they were written
(`Value.ofJson?_eq_some_iff`, `StreamType.ofJson?_toJson`). A value needs no tag: its kinds are
tried one after the other (`Value.ofJson?_eq_findSome?`), and each is read from forms of its own
only (`Value.eq_toJson_of_reads`). A snapshot that is filled member by member has the form that it
has when it is written at once (`Snapshot.broadcastJson_eq_toJson`), and shows of every key and
source the value that was recorded first (`Json.lossless`).
-/

namespace MediaChain

open Std

namespace Json

/-! ## Objects -/

/-- An object that has a member for each name that has a value, one each, and nothing else. -/
def Maps (j : Json) (value? : String → Option Json) : Prop :=
  ∃ members : List (String × Json),
    j = .object (members.map fun (name, value) => (some name, value)) ∧
      (members.map Prod.fst).Nodup ∧
      ∀ name value, (name, value) ∈ members ↔ value? name = some value

theorem maps_ofMap (m : ExtTreeMap String Json) : (ofMap m).Maps (m[·]?) := by
  refine ⟨m.toList, rfl, ?_, fun _ _ => ExtTreeMap.mem_toList_iff_getElem?_eq_some⟩
  rw [ExtTreeMap.map_fst_toList_eq_keys]
  exact ExtTreeMap.nodup_keys

end Json

/-! ## Values -/

namespace Value

variable {j : Json} {v : Value}

/-- Reads a number of 64 bits. -/
def intOfJson? (j : Json) : Option Value :=
  (j.intWithin? Int64.minValue.toInt Int64.maxValue.toInt).map fun n => int (Int64.ofInt n)

/-- Reads a string. -/
def textOfJson? (j : Json) : Option Value := j.text?.map text

/-- Reads an array of bytes. -/
def bytesOfJson? : Json → Option Value
  | .array items => (items.mapM byteOfJson?).map bytes
  | _ => none

/-- The readers of the three kinds, in the order in which they are tried. -/
def readers : List (Json → Option Value) := [intOfJson?, textOfJson?, bytesOfJson?]

/-- A value is read as the first kind that can be read. -/
theorem ofJson?_eq_findSome? (j : Json) : ofJson? j = readers.findSome? fun read => read j := by
  have hor : (readers.findSome? fun read => read j) =
      (intOfJson? j).or ((textOfJson? j).or (bytesOfJson? j)) := by
    simp only [readers, List.findSome?_cons, List.findSome?_nil]
    cases intOfJson? j <;> cases textOfJson? j <;> cases bytesOfJson? j <;> rfl
  rw [hor]
  cases j with
  | int n => exact Option.or_none.symm
  | text s => exact Option.or_none.symm
  | _ => rfl

/-- Each kind is read from the forms of its own values only. -/
theorem eq_toJson_of_reads {read : Json → Option Value} (hread : read ∈ readers)
    (h : read j = some v) : j = v.toJson := by
  simp only [readers, List.mem_cons, List.not_mem_nil, or_false] at hread
  obtain rfl | rfl | rfl := hread
  · obtain ⟨n, hn, rfl⟩ := Option.map_eq_some_iff.mp h
    obtain ⟨rfl, hlow, hhigh⟩ := Json.intWithin?_eq_some_iff.mp hn
    have hlow' : Int64.minValue.toInt = -2 ^ 63 := rfl
    have hhigh' : Int64.maxValue.toInt = 2 ^ 63 - 1 := rfl
    rw [toJson, Int64.toInt_ofInt_of_le (by omega) (by omega)]
  · obtain ⟨s, hs, rfl⟩ := Option.map_eq_some_iff.mp h
    cases j with
    | text s' => exact congrArg Json.text hs
    | _ => cases hs
  · cases j with
    | array items =>
      obtain ⟨bs, hbs, rfl⟩ := Option.map_eq_some_iff.mp h
      exact congrArg Json.array
        ((mapM_eq_some_iff_of_writer _ fun _ _ => byteOfJson?_eq_some_iff).mp hbs)
    | _ => cases h

/-- A tree is read as a value if and only if it is the form of the value. -/
theorem ofJson?_eq_some_iff : ofJson? j = some v ↔ j = v.toJson := by
  constructor
  · intro h
    rw [ofJson?_eq_findSome?] at h
    obtain ⟨read, hread, hv⟩ := List.exists_of_findSome?_eq_some h
    exact eq_toJson_of_reads hread hv
  · rintro rfl
    exact ofJson?_toJson v

theorem toJson_injective {w : Value} (h : v.toJson = w.toJson) : v = w := by
  have hv := ofJson?_toJson v
  rw [h, ofJson?_toJson] at hv
  exact (Option.some_inj.mp hv).symm

end Value

/-! ## Maps that are filled member by member -/

section maps

variable {β γ : Type}

/-- A map is what comes of inserting its members. -/
theorem ofList_toList (m : ExtTreeMap String β) : ExtTreeMap.ofList m.toList = m := by
  refine ExtTreeMap.ext_getElem? fun name => ?_
  cases h : m[name]? with
  | some value =>
    exact ExtTreeMap.getElem?_ofList_of_mem compare_self ExtTreeMap.distinct_keys_toList
      (ExtTreeMap.mem_toList_iff_getElem?_eq_some.mpr h)
  | none =>
    refine ExtTreeMap.getElem?_ofList_of_contains_eq_false ?_
    rw [ExtTreeMap.map_fst_toList_eq_keys]
    simpa using h

/-- Inserting a value for each member of a map gives the map of these values. -/
theorem foldl_insert (m : ExtTreeMap String β) (f : β → γ) :
    m.foldl (fun members name value => members.insert name (f value)) ∅ =
      m.map fun _ value => f value := by
  have hlist (l : List (String × β)) (start : ExtTreeMap String γ) :
      l.foldl (fun members member => members.insert member.1 (f member.2)) start =
        start.insertMany (l.map fun member => (member.1, f member.2)) := by
    induction l generalizing start with
    | nil => simp
    | cons member l ih => rw [List.foldl_cons, ih, List.map_cons, ExtTreeMap.insertMany_cons]
  have htoList : (m.map fun _ value => f value).toList =
      m.toList.map fun member => (member.1, f member.2) := ExtTreeMap.toList_map
  rw [ExtTreeMap.foldl_eq_foldl_toList, hlist, ← ExtTreeMap.ofList_eq_insertMany_empty, ← htoList,
    ofList_toList]

/-- The object of a map whose values are written. -/
theorem ofMap_map (m : ExtTreeMap String β) (f : β → Json) :
    Json.ofMap (m.map fun _ value => f value) =
      .object (m.toList.map fun (name, value) => (some name, f value)) := by
  simp [Json.ofMap, ExtTreeMap.toList_map, Function.comp_def]

end maps

/-- The object that shows the values of a map. -/
def Json.ofValues (values : ExtTreeMap String Value) : Json :=
  .ofMap (values.map fun _ v => v.toJson)

/-! ## Stream types -/

namespace StreamType

theorem toJson_eq (t : StreamType) :
    t.toJson = .object [(some paramsField, .ofValues t.params)] := by
  rw [toJson, Json.ofValues, ofMap_map]

theorem paramsOfJson?_ofValues (params : ExtTreeMap String Value) :
    paramsOfJson? (.ofValues params) = some params := by
  have hmembers : (Json.ofValues params).members? =
      some (params.map fun _ (v : Value) => v.toJson).toList := Json.members?_object _
  have hvalues : (params.map fun _ (v : Value) => v.toJson).toList.mapM
      (fun member => (Value.ofJson? member.2).map (member.1, ·)) = some params.toList := by
    refine (mapM_eq_some_iff_of_writer (fun member => (member.1, member.2.toJson))
      fun x y => ?_).mpr ExtTreeMap.toList_map
    simp only [Option.map_eq_some_iff, Value.ofJson?_eq_some_iff]
    grind
  calc paramsOfJson? (.ofValues params)
      = ((params.map fun _ (v : Value) => v.toJson).toList.mapM
          fun member => (Value.ofJson? member.2).map (member.1, ·)).bind
            fun params => some (ExtTreeMap.ofList params compare) := by
        rw [paramsOfJson?, hmembers]
        rfl
    _ = some (ExtTreeMap.ofList params.toList compare) := by rw [hvalues, Option.bind_some]
    _ = some params := by rw [ofList_toList]

/-- A stream type is read back from its form. -/
theorem ofJson?_toJson (t : StreamType) : ofJson? t.toJson = some t := by
  have hmembers : t.toJson.members? = some [(paramsField, .ofValues t.params)] := by
    rw [toJson_eq]
    exact Json.members?_object [(paramsField, .ofValues t.params)]
  have hfields : t.toJson.fields? [paramsField] = some [some (.ofValues t.params)] := by
    rw [toJson_eq] at hmembers ⊢
    simp [Json.fields?, hmembers]
  rw [ofJson?, hfields]
  show (paramsOfJson? _).map StreamType.mk = _
  rw [paramsOfJson?_ofValues, Option.map_some]

end StreamType

/-! ## Snapshots -/

namespace Snapshot

theorem toJson_eq (s : Snapshot) :
    s.toJson = .ofMap (s.facts.map fun _ sources => .ofValues sources) := by
  simp only [toJson, Json.ofValues, ofMap_map]

theorem render_eq_toJson (v : Value) : render v = v.toJson := by cases v <;> rfl

theorem renderSources_eq_ofValues (sources : ExtTreeMap String Value) :
    renderSources sources = .ofValues sources := by
  rw [renderSources, foldl_insert, funext render_eq_toJson, Json.ofValues]

/-- A snapshot looks the same whether it is written at once or filled member by member. -/
theorem broadcastJson_eq_toJson (s : Snapshot) : s.broadcastJson = s.toJson := by
  rw [broadcastJson, foldl_insert, funext renderSources_eq_ofValues, toJson_eq]

/-! ## What is recorded -/

/-- Records values for keys and sources, one after the other. -/
def addAll (s : Snapshot) (adds : List (String × String × Value)) : Snapshot :=
  adds.foldl (fun s (key, source, value) => s.add key source value) s

/-- The value that is first given for a key and a source. -/
def first? (adds : List (String × String × Value)) (key source : String) : Option Value :=
  (adds.find? fun (key', source', _) => key' = key ∧ source' = source).map (·.2.2)

theorem first?_cons (key' source' : String) (value : Value)
    (adds : List (String × String × Value)) (key source : String) :
    first? ((key', source', value) :: adds) key source =
      if key' = key ∧ source' = source then some value else first? adds key source := by
  by_cases h : key' = key ∧ source' = source <;> simp [first?, h]

theorem get?_addAll (s : Snapshot) (adds : List (String × String × Value)) (key source : String) :
    (s.addAll adds).get? key source = (s.get? key source).or (first? adds key source) := by
  induction adds generalizing s with
  | nil => simp [addAll, first?]
  | cons a adds ih =>
    obtain ⟨key', source', value⟩ := a
    show ((s.add key' source' value).addAll adds).get? key source = _
    rw [ih, get?_add, first?_cons]
    by_cases h : key' = key ∧ source' = source
    · obtain ⟨rfl, rfl⟩ := h
      cases s.get? key' source' <;> simp
    · rw [if_neg h, if_neg fun h' => h ⟨h'.1, h'.2.1⟩]

/-- No key is without a source. -/
def Filled (s : Snapshot) : Prop :=
  ∀ key sources, s.facts[key]? = some sources → ∃ source, s.get? key source ≠ none

theorem Filled.add {s : Snapshot} (h : s.Filled) (key source : String) (value : Value) :
    (s.add key source value).Filled := by
  intro key' sources hsources
  by_cases hkey : key = key'
  · subst hkey
    refine ⟨source, ?_⟩
    rw [get?_add]
    split <;> simp_all
  · have hfacts : s.facts[key']? = some sources := by
      simpa [Snapshot.add, ExtTreeMap.getElem?_insert, hkey] using hsources
    obtain ⟨source', hsource⟩ := h key' sources hfacts
    refine ⟨source', ?_⟩
    rw [get?_add, if_neg fun h' => hkey h'.1]
    exact hsource

theorem filled_addAll {s : Snapshot} (h : s.Filled) (adds : List (String × String × Value)) :
    (s.addAll adds).Filled := by
  induction adds generalizing s with
  | nil => exact h
  | cons a adds ih => exact ih (h.add a.1 a.2.1 a.2.2)

variable {s : Snapshot} {key : String}

/-- What a snapshot shows: an object for every key that has a source, which shows the value of each
source. -/
theorem Filled.maps (h : s.Filled) :
    s.toJson.Maps (fun key => s.facts[key]?.map Json.ofValues) ∧
      (∀ key j, s.facts[key]?.map Json.ofValues = some j →
        j.Maps fun source => (s.get? key source).map Value.toJson) ∧
      ∀ key, s.facts[key]?.map Json.ofValues = none ↔ ∀ source, s.get? key source = none := by
  refine ⟨?_, fun key j hj => ?_, fun key => ?_⟩
  · rw [toJson_eq]
    have hmaps := Json.maps_ofMap (s.facts.map fun _ sources => .ofValues sources)
    simpa only [ExtTreeMap.getElem?_map] using hmaps
  · obtain ⟨sources, hsources, rfl⟩ := Option.map_eq_some_iff.mp hj
    have hmaps : (Json.ofValues sources).Maps _ := Json.maps_ofMap _
    have hget (source : String) : s.get? key source = sources[source]? := by
      rw [get?, Snapshot.sources, hsources, Option.getD_some]
    simpa only [ExtTreeMap.getElem?_map, hget] using hmaps
  · rw [Option.map_eq_none_iff]
    constructor
    · intro hnone source
      simp [get?, Snapshot.sources, hnone]
    · intro hnone
      rw [Option.eq_none_iff_forall_ne_some]
      intro sources hsources
      obtain ⟨source, hsource⟩ := h key sources hsources
      exact hsource (hnone source)

end Snapshot

/-- **Nothing is lost in JSON.** Every value is read back from its form, its kinds being tried one
after the other, and no kind is read from it as another value. Every stream type is read back from
its form. A snapshot of values that were recorded one after the other has the same form whether it
is written at once or filled member by member: an object that shows, of the keys and sources there
are values for and of no others, the value that was recorded first. -/
theorem Json.lossless :
    (∀ v : Value, Value.ofJson? v.toJson = some v ∧
      (Value.readers.findSome? fun read => read v.toJson) = some v ∧
      ∀ read ∈ Value.readers, ∀ w, read v.toJson = some w → w = v) ∧
    (∀ t : StreamType, StreamType.ofJson? t.toJson = some t) ∧
    ∀ adds : List (String × String × Value),
      (Snapshot.empty.addAll adds).broadcastJson = (Snapshot.empty.addAll adds).toJson ∧
      ∃ about? : String → Option Json, (Snapshot.empty.addAll adds).toJson.Maps about? ∧
        (∀ key j, about? key = some j →
          j.Maps fun source => (Snapshot.first? adds key source).map Value.toJson) ∧
        ∀ key, about? key = none ↔ ∀ source, Snapshot.first? adds key source = none := by
  refine ⟨fun v => ⟨v.ofJson?_toJson, ?_, fun read hread w hw => ?_⟩, StreamType.ofJson?_toJson,
    fun adds => ⟨Snapshot.broadcastJson_eq_toJson _, ?_⟩⟩
  · rw [← Value.ofJson?_eq_findSome?, v.ofJson?_toJson]
  · exact (Value.toJson_injective (Value.eq_toJson_of_reads hread hw)).symm
  · have hfilled : (Snapshot.empty.addAll adds).Filled :=
      Snapshot.filled_addAll (fun _ _ h => absurd h (by simp [Snapshot.empty])) adds
    have hget (key source : String) :
        (Snapshot.empty.addAll adds).get? key source = Snapshot.first? adds key source := by
      rw [Snapshot.get?_addAll]
      simp [Snapshot.get?, Snapshot.sources, Snapshot.empty]
    have hmaps := hfilled.maps
    simp only [hget] at hmaps
    exact ⟨_, hmaps⟩

end MediaChain
