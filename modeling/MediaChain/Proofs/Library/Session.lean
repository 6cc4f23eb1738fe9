import MediaChain.Library.Session

/-!
# What a commit writes

A commit is refused, has nothing to do, or makes all the writes of its session and counts one change
(`Library.Session.commit_cases`). If it takes effect, each property becomes the last of the writes
of it, and all other properties stay (`Library.Session.property?_commit`). Work that is retried
without rivals takes effect once, whatever is refused before (`Library.withSession_alone`).
-/

namespace MediaChain

namespace Library

/-! ## Several writes -/

/-- The last of some writes of a property. -/
def lastWrite? (writes : List Write) (entry : EntryId) (key : String) : Option Property :=
  (writes.reverse.find? fun w => w.entry = entry ∧ w.key = key).map Write.property

theorem lastWrite?_nil (entry : EntryId) (key : String) : lastWrite? [] entry key = none := rfl

theorem lastWrite?_append (ws ws' : List Write) (entry : EntryId) (key : String) :
    lastWrite? (ws ++ ws') entry key =
      (lastWrite? ws' entry key).or (lastWrite? ws entry key) := by
  unfold lastWrite?
  rw [List.reverse_append, List.find?_append, Option.map_or]

theorem lastWrite?_cons (w : Write) (ws : List Write) (entry : EntryId) (key : String) :
    lastWrite? (w :: ws) entry key = (lastWrite? ws entry key).or
      (if w.entry = entry ∧ w.key = key then some w.property else none) := by
  rw [← List.singleton_append, lastWrite?_append]
  by_cases h : w.entry = entry ∧ w.key = key <;> simp [lastWrite?, h]

/-- Makes writes in order, as one change. -/
def Store.overwrite (store : Store) (writes : List Write) : Store :=
  { writes.foldl (fun store w => store.put w.entry w.key w.property) store with
    generation := store.generation + 1 }

theorem Store.property?_overwrite (store : Store) (writes : List Write) (entry : EntryId)
    (key : String) :
    (store.overwrite writes).property? entry key =
      (lastWrite? writes entry key).or (store.property? entry key) := by
  show (writes.foldl _ store).property? entry key = _
  induction writes generalizing store with
  | nil => rfl
  | cons w writes ih =>
    rw [List.foldl_cons, ih, lastWrite?_cons, Option.or_assoc, property?_put]
    split <;> rfl

namespace Session

variable {s : Session} {store : Store}

theorem pending?_eq (s : Session) (entry : EntryId) (key : String) :
    s.pending? entry key = lastWrite? s.writes entry key := rfl

/-! ## Commits -/

theorem commit_cases (s : Session) (store : Store) :
    (s.commit store = (false, store) ∧
        (s.refused = true ∨ s.writes ≠ [] ∧ s.generation ≠ store.generation)) ∨
      (s.commit store = (true, store) ∧ s.refused = false ∧ s.writes = []) ∨
      (s.commit store = (true, store.overwrite s.writes) ∧ s.refused = false ∧ s.writes ≠ [] ∧
        s.generation = store.generation) := by
  unfold commit
  cases hrefused : s.refused with
  | true => exact .inl ⟨rfl, .inl rfl⟩
  | false =>
    rw [if_neg Bool.false_ne_true]
    by_cases hwrites : s.writes = []
    · rw [if_pos (List.isEmpty_iff.mpr hwrites)]
      exact .inr (.inl ⟨rfl, rfl, hwrites⟩)
    · rw [if_neg fun h => hwrites (List.isEmpty_iff.mp h)]
      by_cases hgen : s.generation = store.generation
      · rw [if_neg (not_not_intro hgen)]
        exact .inr (.inr ⟨rfl, rfl, hwrites, hgen⟩)
      · rw [if_pos hgen]
        exact .inl ⟨rfl, .inr ⟨hwrites, hgen⟩⟩

/-- A commit that fails changes nothing. -/
theorem commit_eq_of_false (h : (s.commit store).1 = false) : (s.commit store).2 = store := by
  rcases s.commit_cases store with ⟨heq, -⟩ | ⟨heq, -⟩ | ⟨heq, -⟩
  · rw [heq]
  · rw [heq]
  · rw [heq] at h
    cases h

theorem property?_commit (h : (s.commit store).1 = true) (entry : EntryId) (key : String) :
    (s.commit store).2.property? entry key =
      (s.pending? entry key).or (store.property? entry key) := by
  rw [pending?_eq]
  rcases s.commit_cases store with ⟨heq, -⟩ | ⟨heq, -, hwrites⟩ | ⟨heq, -⟩
  · rw [heq] at h
    exact absurd h Bool.false_ne_true
  · rw [heq, hwrites, lastWrite?_nil, Option.none_or]
  · rw [heq]
    exact store.property?_overwrite s.writes entry key

/-! ## What a session sees -/

theorem getElem?_foldl_insert (writes : List Write) (props : Properties) (entry : EntryId)
    (key : String) :
    ((writes.filter (·.entry = entry)).foldl
        (fun props w => props.insert w.key w.property) props)[key]? =
      (lastWrite? writes entry key).or props[key]? := by
  induction writes generalizing props with
  | nil => rfl
  | cons w writes ih =>
    rw [lastWrite?_cons, Option.or_assoc, List.filter_cons]
    by_cases he : w.entry = entry <;> by_cases hk : w.key = key <;>
      simp [he, hk, ih, Std.ExtTreeMap.getElem?_insert]

theorem mem_properties {entry : EntryId} {key : String} {value : Value} :
    (key, value) ∈ s.properties store entry ↔ s.get? store entry key = some value := by
  unfold properties get?
  rw [pending?_eq, Store.property?, ← getElem?_foldl_insert, List.mem_map, Option.map_eq_some_iff]
  constructor
  · rintro ⟨⟨key', p⟩, hp, heq⟩
    obtain ⟨rfl, rfl⟩ := Prod.mk.inj heq
    exact ⟨p, Std.ExtTreeMap.mem_toList_iff_getElem?_eq_some.mp hp, rfl⟩
  · rintro ⟨p, hp, rfl⟩
    exact ⟨(key, p), Std.ExtTreeMap.mem_toList_iff_getElem?_eq_some.mpr hp, rfl⟩

theorem properties_keys (s : Session) (store : Store) (entry : EntryId) :
    (s.properties store entry).Pairwise (·.1 ≠ ·.1) := by
  unfold properties
  rw [List.pairwise_map]
  exact Std.ExtTreeMap.distinct_keys_toList.imp fun h heq => h (Std.compare_eq_iff_eq.mpr heq)

/-- Properties are listed in the order of their names. -/
theorem properties_sorted (s : Session) (store : Store) (entry : EntryId) :
    (s.properties store entry).Pairwise (·.1 < ·.1) := by
  have hlt {a b : String} (h : compare a b = .lt) : a < b := compareOfLessAndEq_eq_lt.mp h
  unfold properties
  rw [List.pairwise_map]
  exact Std.ExtTreeMap.ordered_keys_toList.imp fun {a b} h => hlt h

theorem lookup_properties (s : Session) (store : Store) (entry : EntryId) (key : String) :
    (s.properties store entry).lookup key = s.get? store entry key := by
  cases hget : s.get? store entry key with
  | none =>
    refine List.lookup_eq_none_iff.mpr fun p hp => ?_
    have hne : p.1 ≠ key := by
      rintro rfl
      rw [mem_properties.mp hp] at hget
      cases hget
    simpa using hne.symm
  | some value =>
    obtain ⟨before, after, hsplit⟩ := List.append_of_mem (mem_properties.mpr hget)
    have hkeys := s.properties_keys store entry
    rw [hsplit, List.pairwise_append] at hkeys
    refine List.lookup_eq_some_iff.mpr ⟨before, after, hsplit, fun p hp => ?_⟩
    simpa using (hkeys.2.2 p hp _ List.mem_cons_self).symm

end Session

/-! ## Retrying -/

/-- Without rivals only refusals make a run fail. A run that is refused changes nothing, so that the
last one finds the library as it was. -/
theorem withSession_alone {α : Type} {work : Work α}
    (hwork : ∀ store session, (work store session).2.refused = session.refused) (lib : Library) :
    lib.withSession [] work =
      (((work lib.store lib.store.begin).1, lib.refusals + 1),
        ⟨((work lib.store lib.store.begin).2.commit lib.store).2, 0⟩) := by
  obtain ⟨store, refusals⟩ := lib
  show retry work refusals [] ⟨store, refusals⟩ = _
  induction refusals with
  | zero => rfl
  | succ refusals ih =>
    have hrefused : (work store { store.begin with refused := true }).2.refused = true :=
      hwork store _
    have hattempt : attempt id work ⟨store, refusals + 1⟩ =
        ((work store { store.begin with refused := true }).1, false, ⟨store, refusals⟩) := by
      show (_, ((work store { store.begin with refused := true }).2.commit store).1,
        Library.mk ((work store { store.begin with refused := true }).2.commit store).2 _) = _
      unfold Session.commit
      rw [if_pos hrefused]
      rfl
    unfold retry
    rw [List.headD_nil, hattempt]
    dsimp only
    rw [List.tail_nil, ih]

end Library

end MediaChain
