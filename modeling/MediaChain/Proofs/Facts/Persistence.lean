import MediaChain.Facts.Ledger
import MediaChain.Proofs.Facts.Log
import MediaChain.Proofs.Library.Session

/-!
# What the library keeps of facts

A reaction offers the library a snapshot, which holds one value for each key and source, while the
library holds one for each key. Of the sources of a key the library keeps the one that comes last by
name (`Ledger.react_property?`). So it holds the newest value of a key if and only if no other
source of that key comes behind (`Ledger.react_keeps_newest_iff`).
-/

namespace MediaChain

open Std

/-! ## The order of a snapshot -/

namespace Snapshot

variable {s : Snapshot} {key source : String} {value : Value}

theorem mem_toList : (key, source, value) ∈ s.toList ↔ s.get? key source = some value := by
  simp only [toList, List.mem_flatMap, List.mem_map, Prod.exists, Prod.mk.injEq,
    ExtTreeMap.mem_toList_iff_getElem?_eq_some, get?, sources]
  constructor
  · rintro ⟨key', sources, hkey, source', value', hsource, rfl, rfl, rfl⟩
    rw [hkey, Option.getD_some, hsource]
  · intro h
    cases hkey : s.facts[key]? with
    | none => simp [hkey] at h
    | some sources =>
      rw [hkey] at h
      exact ⟨key, sources, hkey, source, value, h, rfl, rfl, rfl⟩

/-- The values of a key stand in the order of their sources. -/
theorem toList_sorted (s : Snapshot) :
    s.toList.Pairwise fun x y => x.1 = y.1 → x.2.1 < y.2.1 := by
  have hlt {a b : String} (h : compare a b = .lt) : a < b := compareOfLessAndEq_eq_lt.mp h
  rw [toList, List.pairwise_flatMap]
  constructor
  · rintro ⟨key, sources⟩ -
    rw [List.pairwise_map]
    refine sources.ordered_keys_toList.imp fun {a b} h => ?_
    intro _
    exact hlt h
  · -- values that stem from different members have different keys
    refine s.facts.ordered_keys_toList.imp fun {a b} h x hx y hy hxy => ?_
    obtain ⟨p, -, rfl⟩ := List.mem_map.mp hx
    obtain ⟨q, -, rfl⟩ := List.mem_map.mp hy
    exact absurd (hlt h) (hxy ▸ String.lt_irrefl a.1)

/-- The last source of a key by name, and its value. -/
def last? (s : Snapshot) (key : String) : Option (String × Value) :=
  (s.toList.reverse.find? (·.1 = key)).map Prod.snd

theorem last?_spec (h : s.last? key = some (source, value)) :
    s.get? key source = some value ∧
      ∀ source' value', s.get? key source' = some value' → source' ≤ source := by
  obtain ⟨⟨key', source₁, value₁⟩, hfind, heq⟩ := Option.map_eq_some_iff.mp h
  obtain ⟨rfl, rfl⟩ := Prod.mk.inj heq
  obtain ⟨hkey, behind, front, hsplit, hbehind⟩ := List.find?_eq_some_iff_append.mp hfind
  obtain rfl : key' = key := by simpa using hkey
  have hlist : s.toList = front.reverse ++ (key', source₁, value₁) :: behind.reverse := by
    rw [← List.reverse_reverse s.toList, hsplit]
    simp
  refine ⟨mem_toList.mp (hlist ▸ by simp), fun source' value' h' => ?_⟩
  have hmem : (key', source', value') ∈
      front.reverse ++ (key', source₁, value₁) :: behind.reverse := hlist ▸ mem_toList.mpr h'
  have hsorted := s.toList_sorted
  rw [hlist, List.pairwise_append] at hsorted
  rcases List.mem_append.mp hmem with hfront | htail
  · exact Std.le_of_lt (hsorted.2.2 _ hfront _ List.mem_cons_self rfl)
  rcases List.mem_cons.mp htail with hself | hlater
  · obtain ⟨-, rfl, -⟩ := hself
    exact String.le_refl _
  · simpa using hbehind _ (List.mem_reverse.mp hlater)

theorem last?_eq_none_iff : s.last? key = none ↔ ∀ source, s.get? key source = none := by
  rw [last?, Option.map_eq_none_iff, List.find?_eq_none]
  constructor
  · intro h source
    rw [Option.eq_none_iff_forall_ne_some]
    intro value hvalue
    simpa using h _ (List.mem_reverse.mpr (mem_toList.mpr hvalue))
  · rintro h ⟨key', source, value⟩ hmem hkey
    obtain rfl : key' = key := by simpa using hkey
    rw [List.mem_reverse, mem_toList, h] at hmem
    exact absurd hmem (Option.some_ne_none value).symm

end Snapshot

namespace Facts

variable {facts : List Fact} {key : String} {f : Fact}

/-- The newest of some facts about a key, whatever its source. -/
def newestAbout (facts : List Fact) (key : String) : Option Fact :=
  facts.reverse.find? (·.key = key)

theorem newestAbout_spec (h : newestAbout facts key = some f) :
    f ∈ facts ∧ f.key = key ∧ newest facts key f.source = some f.value := by
  obtain ⟨hkey, newer, older, hsplit, hnewer⟩ := List.find?_eq_some_iff_append.mp h
  have hkey : f.key = key := by simpa using hkey
  refine ⟨List.mem_reverse.mp (hsplit ▸ by simp), hkey, ?_⟩
  rw [newest, hsplit, List.find?_append, List.find?_eq_none.mpr, Option.none_or,
    List.find?_cons_of_pos (by simp [hkey]), Option.map_some]
  intro g hg hmatch
  have hne : g.key ≠ key := by simpa using hnewer g hg
  exact hne (of_decide_eq_true hmatch).1

theorem newest_eq_some {source : String} {value : Value}
    (h : newest facts key source = some value) :
    ∃ f ∈ facts, f.key = key ∧ f.source = source ∧ f.value = value := by
  obtain ⟨f, hfind, hvalue⟩ := Option.map_eq_some_iff.mp h
  have hmatch : f.key = key ∧ f.source = source := by simpa using List.find?_some hfind
  exact ⟨f, List.mem_reverse.mp (List.mem_of_find?_eq_some hfind), hmatch.1, hmatch.2, hvalue⟩

theorem exists_newest (hf : f ∈ facts) : ∃ value, newest facts f.key f.source = some value := by
  rw [← Option.isSome_iff_exists, newest, Option.isSome_map, List.find?_isSome]
  exact ⟨f, List.mem_reverse.mpr hf, by simp⟩

/-- The persistent facts that a reaction to a token offers to the library. -/
def Log.unsaved (log : Log) (token : Token) : List Fact :=
  (log.between log.persisted (log.horizon token)).filter (·.lifetime = .persistent)

end Facts

namespace Ledger

open Facts Library

variable {facts : List Fact} {key : String} {f : Fact}

/-! ## One property -/

theorem librarySource_injective {a b : String} (h : librarySource a = librarySource b) : a = b :=
  String.append_right_inj _ |>.mp h

/-- What the library keeps of some facts about a key: the newest fact of the source that comes last
by name. -/
def kept (facts : List Fact) (key : String) : Option Property :=
  ((snapshot facts).last? key).map fun (source, value) => ⟨value, librarySource source⟩

theorem kept_eq_none (h : ∀ f ∈ facts, f.key ≠ key) : kept facts key = none := by
  rw [kept, Snapshot.last?_eq_none_iff.mpr, Option.map_none]
  intro source
  rw [snapshot_get?, Option.eq_none_iff_forall_ne_some]
  intro value hvalue
  obtain ⟨f, hf, hkey, -⟩ := newest_eq_some hvalue
  exact h f hf hkey

theorem kept_spec (hf : f ∈ facts) (hkey : f.key = key) :
    ∃ g ∈ facts, g.key = key ∧ newest facts key g.source = some g.value ∧
      (∀ g' ∈ facts, g'.key = key → g'.source ≤ g.source) ∧
      kept facts key = some ⟨g.value, librarySource g.source⟩ := by
  subst hkey
  cases hlast : (snapshot facts).last? f.key with
  | none =>
    obtain ⟨value, hvalue⟩ := exists_newest hf
    rw [Snapshot.last?_eq_none_iff] at hlast
    rw [← snapshot_get?, hlast] at hvalue
    exact absurd hvalue (Option.some_ne_none value).symm
  | some p =>
    obtain ⟨source, value⟩ := p
    obtain ⟨hget, hle⟩ := Snapshot.last?_spec hlast
    rw [snapshot_get?] at hget
    obtain ⟨g, hg, hgkey, rfl, rfl⟩ := newest_eq_some hget
    refine ⟨g, hg, hgkey, hget, fun g' hg' hkey' => ?_, by rw [kept, hlast, Option.map_some]⟩
    obtain ⟨value', hvalue'⟩ := exists_newest hg'
    exact hle g'.source value' (by rw [snapshot_get?, ← hkey', hvalue'])

/-- The newest fact about a key is kept if and only if its source comes last by name. -/
theorem kept_eq_iff (h : newestAbout facts key = some f) :
    kept facts key = some ⟨f.value, librarySource f.source⟩ ↔
      ∀ g ∈ facts, g.key = key → g.source ≤ f.source := by
  obtain ⟨hf, hkey, hnewest⟩ := newestAbout_spec h
  obtain ⟨g, hg, hgkey, hgnewest, hlast, hkept⟩ := kept_spec hf hkey
  rw [hkept]
  constructor
  · intro heq
    have hsource : g.source = f.source :=
      librarySource_injective (congrArg Property.source (Option.some.inj heq))
    rwa [← hsource]
  · intro hall
    have hsource : g.source = f.source := Std.le_antisymm (hall g hg hgkey) (hlast f hf hkey)
    rw [hsource, hnewest] at hgnewest
    rw [hsource, Option.some.inj hgnewest]

/-! ## Storing -/

theorem writes_foldl_set (values : List (String × String × Value)) (entry : EntryId)
    (session : Session) :
    (values.foldl (fun session (key, source, value) =>
      session.set entry key value (librarySource source)) session).writes =
        session.writes ++ values.map fun (key, source, value) =>
          ⟨entry, key, ⟨value, librarySource source⟩⟩ := by
  induction values generalizing session with
  | nil => exact (List.append_nil _).symm
  | cons value values ih =>
    rw [List.foldl_cons, ih]
    exact List.append_assoc _ _ _

/-- If the library takes a snapshot, each key of the entry gets its last value, and nothing else
changes. -/
theorem property?_store {lib : Library} {entry : EntryId} {s : Snapshot}
    (h : (store lib entry s).1 = true) (e : EntryId) (key : String) :
    (store lib entry s).2.store.property? e key =
      if e = entry then
        ((s.last? key).map fun (source, value) => ⟨value, librarySource source⟩).or
          (lib.store.property? e key)
      else lib.store.property? e key := by
  refine (Session.property?_commit h e key).trans ?_
  rw [Session.pending?_eq, writes_foldl_set]
  show (lastWrite? ([] ++ s.toList.map _) e key).or (lib.store.property? e key) = _
  rw [List.nil_append, lastWrite?, ← List.map_reverse, List.find?_map, Snapshot.last?]
  split
  next he =>
    congr 1
    simp only [Option.map_map, Function.comp_def, he]
    simp
  next he =>
    rw [List.find?_eq_none.mpr, Option.map_none, Option.map_none, Option.none_or]
    intro p _ hmatch
    exact he (of_decide_eq_true hmatch).1.symm

/-- Other entries are never touched, whether the library takes the snapshot or not. -/
theorem property?_store_of_ne {lib : Library} {entry e : EntryId} (s : Snapshot) (h : e ≠ entry)
    (key : String) : (store lib entry s).2.store.property? e key = lib.store.property? e key := by
  cases htaken : (store lib entry s).1 with
  | true => rw [property?_store htaken, if_neg h]
  | false => exact congrArg (Store.property? · e key) (Session.commit_eq_of_false htaken)

/-! ## Reacting -/

variable {l : Ledger} {lib : Library} {token : Token} {entry : EntryId}

/-- After a reaction that persisted its facts the library holds what is kept of them. -/
theorem react_property? (hentry : l.log.entry = some entry) (hbacked : l.backed = true)
    (h : (l.react lib token).1.persisted = true) (e : EntryId) (key : String) :
    (l.react lib token).2.2.store.property? e key =
      if e = entry then (kept (l.log.unsaved token) key).or (lib.store.property? e key)
      else lib.store.property? e key := by
  have hpersist : (l.react lib token).2.2 = (l.persist lib (snapshot (l.log.unsaved token))).2 ∧
      (l.react lib token).1.persisted = (l.persist lib (snapshot (l.log.unsaved token))).1 :=
    ⟨rfl, rfl⟩
  rw [hpersist.2] at h
  rw [hpersist.1, kept]
  generalize snapshot (l.log.unsaved token) = s at h ⊢
  unfold persist at h ⊢
  rw [hentry] at h ⊢
  dsimp only at h ⊢
  by_cases hempty : s.isEmpty = true
  · have hlast : s.last? key = none :=
      Snapshot.last?_eq_none_iff.mpr (Snapshot.get?_of_isEmpty hempty key)
    rw [hlast, Option.map_none, Option.none_or, if_neg (by simp [hempty]), ite_self]
  · rw [if_pos (by simp [hbacked, hempty])] at h ⊢
    exact property?_store h e key

/-- A reaction writes to the entry of its ledger only. -/
theorem react_property?_of_ne (hentry : l.log.entry = some entry) {e : EntryId} (h : e ≠ entry)
    (key : String) :
    (l.react lib token).2.2.store.property? e key = lib.store.property? e key := by
  have hpersist : (l.react lib token).2.2 = (l.persist lib (snapshot (l.log.unsaved token))).2 :=
    rfl
  rw [hpersist]
  unfold persist
  rw [hentry]
  dsimp only
  split
  · exact property?_store_of_ne _ h key
  · rfl

/-- **What a reaction makes the library hold.** A reaction that persisted its facts sets those
properties of its entry that one of them is about, and no others. The newest fact about a key is in
the library then if and only if no fact about that key has a source behind its own; else the library
holds the newest fact of the source that comes last by name. -/
theorem react_keeps_newest_iff (hentry : l.log.entry = some entry) (hbacked : l.backed = true)
    (h : (l.react lib token).1.persisted = true) :
    (∀ e key, (e = entry → ∀ f ∈ l.log.unsaved token, f.key ≠ key) →
      (l.react lib token).2.2.store.property? e key = lib.store.property? e key) ∧
    ∀ key f, newestAbout (l.log.unsaved token) key = some f →
      ((l.react lib token).2.2.store.property? entry key =
          some ⟨f.value, librarySource f.source⟩ ↔
        ∀ g ∈ l.log.unsaved token, g.key = key → g.source ≤ f.source) ∧
      ∃ g ∈ l.log.unsaved token, g.key = key ∧
        newest (l.log.unsaved token) key g.source = some g.value ∧
        (∀ g' ∈ l.log.unsaved token, g'.key = key → g'.source ≤ g.source) ∧
        (l.react lib token).2.2.store.property? entry key =
          some ⟨g.value, librarySource g.source⟩ := by
  have hproperty := react_property? hentry hbacked h
  constructor
  · intro e key hnone
    rw [hproperty]
    split
    next he => rw [kept_eq_none (hnone he), Option.none_or]
    next => rfl
  · intro key f hf
    obtain ⟨hmem, hkey, -⟩ := newestAbout_spec hf
    obtain ⟨g, hg, hgkey, hnewest, hlast, hkept⟩ := kept_spec hmem hkey
    have hset : (l.react lib token).2.2.store.property? entry key =
        kept (l.log.unsaved token) key := by
      rw [hproperty, if_pos rfl, hkept, Option.some_or]
    rw [hset]
    exact ⟨kept_eq_iff hf, g, hg, hgkey, hnewest, hlast, hkept⟩

/-! ## Two sources of one key -/

/-- A ledger of an entry in which two stages have written one key, each after the other. -/
def retitled (first second : String) : Ledger :=
  let log := ((Ledger.empty true).reset 1 []).log
  let log := (log.append 1 first "title" (.text "old") .persistent).2
  let log := (log.append 2 second "title" (.text "new") .persistent).2
  ⟨log, true, []⟩

/-- The newest title is kept if its stage comes last by name. -/
theorem react_keeps_newest_title :
    ((retitled "mod" "tag").react .empty 2).2.2.store.property? 1 "title" =
      some ⟨.text "new", "plugin/tag"⟩ := by
  have hnewest : newestAbout ((retitled "mod" "tag").log.unsaved 2) "title" =
      some ⟨2, 2, 2, "tag", "title", .text "new", .persistent⟩ := by decide
  obtain ⟨-, hkeeps⟩ :=
    @react_keeps_newest_iff (retitled "mod" "tag") .empty 2 1 (by decide) rfl (by decide)
  exact (hkeeps "title" _ hnewest).1.mpr (by decide)

/-- The older title is kept if its stage comes last by name. -/
theorem react_keeps_older_title :
    newestAbout ((retitled "tag" "mod").log.unsaved 2) "title" =
        some ⟨2, 2, 2, "mod", "title", .text "new", .persistent⟩ ∧
      ((retitled "tag" "mod").react .empty 2).1.persisted = true ∧
      ((retitled "tag" "mod").react .empty 2).2.2.store.property? 1 "title" =
        some ⟨.text "old", "plugin/tag"⟩ := by
  decide

end Ledger

end MediaChain
