import MediaChain.Proofs.Library.Serial

/-!
# What a session shows is what it commits

A session looks up single properties under its own writes, and lists all properties of an entry with
its own writes put in; a commit puts the writes into the store. All three agree on which write counts
(`Library.lastWrite?_split`), so that a session shows what its commit will leave
(`Library.Store.shown_committed`).
-/

namespace MediaChain

open Std

namespace Library

/-! ## The last of several writes -/

variable {writes before after : List Write} {w : Write} {entry : EntryId} {key : String}

theorem lastWrite?_eq_none (h : ∀ w ∈ writes, ¬(w.entry = entry ∧ w.key = key)) :
    lastWrite? writes entry key = none := by
  unfold lastWrite?
  rw [Option.map_eq_none_iff, List.find?_eq_none]
  intro w hw
  simpa using h w (List.mem_reverse.mp hw)

/-- A write counts if none of the same property comes later. -/
theorem lastWrite?_split (h : ∀ w' ∈ after, ¬(w'.entry = w.entry ∧ w'.key = w.key)) :
    lastWrite? (before ++ w :: after) w.entry w.key = some w.property := by
  rw [lastWrite?_append, lastWrite?_cons, lastWrite?_eq_none h, if_pos ⟨rfl, rfl⟩]
  rfl

/-- Entries that are not written stay as they are, even if there are none. -/
theorem Store.entries_overwrite (store : Store) (h : ∀ w ∈ writes, w.entry ≠ entry) :
    (store.overwrite writes).entries[entry]? = store.entries[entry]? := by
  show (writes.foldl _ store).entries[entry]? = _
  induction writes generalizing store with
  | nil => rfl
  | cons w writes ih =>
    rw [List.foldl_cons, ih _ fun w' hw' => h w' (List.mem_cons_of_mem _ hw')]
    show (store.entries.insert w.entry _)[entry]? = _
    rw [ExtTreeMap.getElem?_insert, if_neg]
    simpa using h w List.mem_cons_self

namespace Session

variable {s : Session} {store : Store}

/-! ## What is there after a commit -/

/-- The session's own writes, put into the properties of an entry, are what a commit leaves there. -/
theorem properties_commit (h : (s.commit store).1 = true) (entry : EntryId) :
    (s.commit store).2.properties entry =
      (s.writes.filter (·.entry = entry)).foldl
        (fun props w => props.insert w.key w.property) (store.properties entry) := by
  refine ExtTreeMap.ext_getElem? fun key => ?_
  rw [getElem?_foldl_insert, ← pending?_eq]
  exact property?_commit h entry key

theorem entries_commit (h : ∀ w ∈ s.writes, w.entry ≠ entry) :
    (s.commit store).2.entries[entry]? = store.entries[entry]? := by
  rcases s.commit_cases store with ⟨heq, -⟩ | ⟨heq, -⟩ | ⟨heq, -⟩
  · rw [heq]
  · rw [heq]
  · rw [heq]
    exact store.entries_overwrite h

/-- A session that has not written anything shows what is there. -/
theorem properties_begin (store : Store) (entry : EntryId) :
    store.begin.properties store entry =
      (store.properties entry).toList.map fun (key, p) => (key, p.value) := rfl

theorem get?_begin (store : Store) (entry : EntryId) (key : String) :
    store.begin.get? store entry key = (store.property? entry key).map Property.value := rfl

end Session

open Session

namespace Store

/-- The session that is asked this while nobody else changes the store. -/
def asked (store : Store) (calls : List Call) : Session :=
  (performAll store calls store.begin).2

theorem asked_writes (store : Store) (calls : List Call) :
    (store.asked calls).writes = calls.filterMap Call.write? :=
  performAll_writes store.begin store calls

theorem asked_generation (store : Store) (calls : List Call) :
    (store.asked calls).generation = store.generation := by
  unfold asked
  suffices h : ∀ s : Session, (performAll store calls s).2.generation = s.generation from
    h store.begin
  intro s
  induction calls generalizing s with
  | nil => rfl
  | cons call calls ih => rw [performAll_cons, ih, perform_spec]

/-- Nothing stands in the way of its commit. -/
theorem asked_commit (store : Store) (calls : List Call) :
    ((store.asked calls).commit store).1 = true := by
  have hrefused : (store.asked calls).refused = false := performAll_refused store.begin store calls
  have hgen := store.asked_generation calls
  rcases (store.asked calls).commit_cases store with ⟨-, hcause⟩ | ⟨heq, -⟩ | ⟨heq, -⟩
  · rcases hcause with h | ⟨-, h⟩
    · rw [hrefused] at h
      exact absurd h Bool.false_ne_true
    · exact absurd hgen h
  · rw [heq]
  · rw [heq]

/-- **What a session shows is what it commits.** Whatever a session is asked while nobody else
changes the store, it lists the properties of each entry by name, every name once, and exactly those
that it finds when it is asked for them. It commits, and a new session then lists and finds the same.
A property that was written has the value and the source of the last write of it, the others have
those that they had, and entries that were not written are as they were. -/
theorem shown_committed (store : Store) (calls : List Call) :
    (∀ entry, ((store.asked calls).properties store entry).Pairwise (·.1 < ·.1) ∧
      ∀ key value, (key, value) ∈ (store.asked calls).properties store entry ↔
        (store.asked calls).get? store entry key = some value) ∧
    ∃ store', (store.asked calls).commit store = (true, store') ∧
      (∀ entry, store'.begin.properties store' entry =
          (store.asked calls).properties store entry ∧
        ∀ key, store'.begin.get? store' entry key = (store.asked calls).get? store entry key) ∧
      (∀ before w after, calls.filterMap Call.write? = before ++ w :: after →
        (∀ w' ∈ after, ¬(w'.entry = w.entry ∧ w'.key = w.key)) →
          (store.asked calls).get? store w.entry w.key = some w.property.value ∧
          store'.source? w.entry w.key = some w.property.source) ∧
      (∀ entry key,
        (∀ w ∈ calls.filterMap Call.write?, ¬(w.entry = entry ∧ w.key = key)) →
          (store.asked calls).get? store entry key = store.begin.get? store entry key ∧
          store'.source? entry key = store.source? entry key) ∧
      ∀ entry, (∀ w ∈ calls.filterMap Call.write?, w.entry ≠ entry) →
        store'.entries[entry]? = store.entries[entry]? := by
  have hcommit := store.asked_commit calls
  have hwrites := store.asked_writes calls
  have hproperty := property?_commit hcommit
  refine ⟨fun entry => ⟨properties_sorted _ store entry, fun key value => mem_properties⟩,
    _, Prod.ext hcommit rfl, fun entry => ⟨?_, fun key => ?_⟩, ?_, ?_, ?_⟩
  · rw [properties_begin, properties_commit hcommit]
    rfl
  · rw [get?_begin, hproperty]
    rfl
  · intro before w after hsplit hlast
    have hpending : (store.asked calls).pending? w.entry w.key = some w.property := by
      rw [pending?_eq, hwrites, hsplit, lastWrite?_split hlast]
    unfold get? source?
    rw [hproperty, hpending]
    exact ⟨rfl, rfl⟩
  · intro entry key hnone
    have hpending : (store.asked calls).pending? entry key = none := by
      rw [pending?_eq, hwrites, lastWrite?_eq_none hnone]
    unfold source?
    rw [get?_begin, hproperty, get?, hpending]
    exact ⟨rfl, rfl⟩
  · intro entry hnone
    exact entries_commit (hwrites ▸ hnone)

/-- The second of two writes of a title counts, also in an entry that was not there before, and the
url of the other entry is as it was. -/
theorem shown_committed_retitled :
    ∃ store', ((empty.addEntry "mem:").2.asked [.set 2 "title" (.text "a") "x", .list 2,
        .set 2 "title" (.text "b") "y"]).commit (empty.addEntry "mem:").2 = (true, store') ∧
      store'.begin.get? store' 2 "title" = some (.text "b") ∧
      store'.source? 2 "title" = some "y" ∧ store'.source? 1 "url" = some "server" := by
  obtain ⟨-, store', hcommit, hnew, hwritten, hother, -⟩ :=
    shown_committed (empty.addEntry "mem:").2
      [.set 2 "title" (.text "a") "x", .list 2, .set 2 "title" (.text "b") "y"]
  obtain ⟨hget, hsource⟩ := hwritten [⟨2, "title", .text "a", "x"⟩] ⟨2, "title", .text "b", "y"⟩ []
    rfl (by simp)
  refine ⟨store', hcommit, ((hnew 2).2 "title").trans hget, hsource, ?_⟩
  rw [(hother 1 "url" (by decide)).2]
  decide +kernel

end Store

end Library

end MediaChain
