import MediaChain.Proofs.Chain.Entry
import MediaChain.Proofs.Library.Attempts

/-!
# How often an entry was played

The library holds an account of the playing of each entry: the chain it was played with last, how
often it was played, and when it was last. Building a chain for the entry reads the account and writes
a new one, in a session that may fail any number of times, and before that it lets the stages write
what they found out. Each chain that is built makes one entry in the account (`Account.play`), however
often its session fails (`Library.Retried.account`), so that the account is exact over any number of
chains (`Season.statistics`).
-/

namespace MediaChain

open Facts Library

variable {ι ε : Type}

/-! ## Accounts -/

/-- A chain that was built to play an entry. -/
structure Play where
  name : String
  rehash : Bool
  now : Int64

/-- What a library says about the playing of an entry. -/
structure Account where
  chain : Option Value
  times : Option Value
  started : Option Value

namespace Account

/-- Writes down that a chain was built. -/
def play (a : Account) (p : Play) : Account where
  chain := some (.text p.name)
  times := some (.int (Builder.playCount a.times + if p.rehash then 0 else 1))
  started := if p.rehash then a.started else some (.int p.now)

/-- How often an entry was played, where anything but a count is none at all. -/
def count (a : Account) : Int := max 0 ((a.times.bind Value.int?).elim 0 Int64.toInt)

variable {a : Account} {p : Play} {plays : List Play}

/-- How many of some chains were built to play the entry. -/
def counted (plays : List Play) : Nat := plays.countP fun p => !p.rehash

theorem toInt_playCount (a : Account) : (Builder.playCount a.times).toInt = a.count := by
  unfold Builder.playCount count
  split
  next n hn =>
    rw [hn]
    show (if n < 0 then 0 else n : Int64).toInt = max 0 n.toInt
    have hneg : n < 0 ↔ n.toInt < 0 := Int64.lt_iff_toInt_lt
    split
    next h =>
      rw [Int.max_eq_left (Int.le_of_lt (hneg.mp h))]
      rfl
    next h => rw [Int.max_eq_right (Int.not_lt.mp fun h' => h (hneg.mpr h'))]
  next hnone =>
    have hzero : (a.times.bind Value.int?).elim 0 Int64.toInt = 0 := by
      cases htimes : a.times with
      | none => rfl
      | some value =>
        cases value with
        | int n => exact absurd htimes (hnone n)
        | text s => rfl
        | bytes bs => rfl
    rw [hzero]
    rfl

/-- As long as the count does not overflow, a chain counts once, and a rehash does not count. -/
theorem times_play (h : a.count + counted [p] ≤ Int64.maxValue.toInt) :
    ∃ n, (a.play p).times = some (.int n) ∧ n.toInt = a.count + counted [p] := by
  refine ⟨_, rfl, ?_⟩
  have hstep : (if p.rehash then 0 else 1 : Int64).toInt = counted [p] := by
    cases hrehash : p.rehash <;> simp [counted, hrehash]
  have hpos : 0 ≤ a.count := Int.le_max_left _ _
  rw [Int64.toInt_add, toInt_playCount, hstep]
  have hmax : Int64.maxValue.toInt = 9223372036854775807 := rfl
  exact Int.bmod_eq_of_le (by omega) (by omega)

theorem count_play (h : a.count + counted [p] ≤ Int64.maxValue.toInt) :
    (a.play p).count = a.count + counted [p] := by
  obtain ⟨n, htimes, hn⟩ := times_play h
  have hpos : 0 ≤ a.count := Int.le_max_left _ _
  rw [count, htimes]
  show max 0 n.toInt = _
  rw [hn, Int.max_eq_right (by omega)]

theorem counted_cons (p : Play) (plays : List Play) :
    counted (p :: plays) = counted [p] + counted plays := by
  unfold counted
  rw [← List.singleton_append, List.countP_append]

/-! ## Several chains -/

theorem count_foldl (h : a.count + counted plays ≤ Int64.maxValue.toInt) :
    (plays.foldl play a).count = a.count + counted plays := by
  induction plays generalizing a with
  | nil => exact (Int.add_zero _).symm
  | cons p plays ih =>
    rw [counted_cons] at h ⊢
    have hp := count_play (a := a) (p := p) (by omega)
    rw [List.foldl_cons, ih (by omega), hp]
    omega

/-- What was written down last is what the last chain has left. -/
theorem foldl_of_ne_nil (hplays : plays ≠ [])
    (h : a.count + counted plays ≤ Int64.maxValue.toInt) :
    (∃ n, (plays.foldl play a).times = some (.int n) ∧ n.toInt = a.count + counted plays) ∧
      (plays.foldl play a).chain = some (.text (plays.getLast hplays).name) := by
  rcases List.eq_nil_or_concat plays with rfl | ⟨first, last, rfl⟩
  · exact absurd rfl hplays
  have hcounted : counted (first.concat last) = counted first + counted [last] := by
    rw [List.concat_eq_append, counted, List.countP_append]
    rfl
  rw [hcounted] at h
  have hfirst : (first.foldl play a).count = a.count + counted first := count_foldl (by omega)
  obtain ⟨n, htimes, hn⟩ := times_play (a := first.foldl play a) (p := last) (by omega)
  have hfoldl : (first.concat last).foldl play a = (first.foldl play a).play last := by
    rw [List.concat_eq_append, List.foldl_append]
    rfl
  rw [hfoldl]
  refine ⟨⟨n, htimes, ?_⟩, ?_⟩
  · omega
  · simp [play]

theorem started_foldl (a : Account) (plays : List Play) :
    (plays.foldl play a).started =
      ((plays.filter fun p => !p.rehash).getLast?.map fun p => .int p.now).or a.started := by
  induction plays generalizing a with
  | nil => rfl
  | cons p plays ih =>
    rw [List.foldl_cons, ih]
    cases hrehash : p.rehash with
    | true =>
      rw [List.filter_cons_of_neg (by simp [hrehash])]
      simp [play, hrehash]
    | false =>
      rw [List.filter_cons_of_pos (by simp [hrehash]), List.getLast?_cons]
      cases (plays.filter fun p => !p.rehash).getLast? <;> simp [play, hrehash]

/-- It is known when the entry was played last if it was known before or the entry was played. -/
theorem started_foldl_iff (a : Account) (plays : List Play) :
    (∃ time, (plays.foldl play a).started = some (.int time)) ↔
      (∃ time, a.started = some (.int time)) ∨ ∃ p ∈ plays, p.rehash = false := by
  rw [started_foldl]
  cases hlast : (plays.filter fun p => !p.rehash).getLast? with
  | none =>
    have hnone : ∀ p ∈ plays, p.rehash = true := by
      simpa using List.getLast?_eq_none_iff.mp hlast
    simp only [Option.map_none, Option.none_or]
    refine (or_iff_left ?_).symm
    rintro ⟨p, hp, hrehash⟩
    rw [hnone p hp] at hrehash
    cases hrehash
  | some p =>
    have hmem := List.mem_filter.mp (List.mem_of_getLast? hlast)
    refine iff_of_true ⟨p.now, rfl⟩ (.inr ⟨p, hmem.1, ?_⟩)
    simpa using hmem.2

end Account

/-! ## Accounts in a library -/

/-- What a store says about the playing of an entry. -/
def Library.Store.account (s : Store) (entry : EntryId) : Account where
  chain := (s.property? entry Property.chainKey).map Property.value
  times := (s.property? entry Property.timesPlayedKey).map Property.value
  started := (s.property? entry Property.lastStartedKey).map Property.value

/-- Whoever writes none of the properties that keep account leaves the account as it is. -/
theorem Library.Store.account_congr {s s' : Store} {entry : EntryId}
    (h : ∀ key ∈ Builder.playKeys, s'.property? entry key = s.property? entry key) :
    s'.account entry = s.account entry := by
  unfold account
  rw [h _ (by simp [Builder.playKeys]), h _ (by simp [Builder.playKeys]),
    h _ (by simp [Builder.playKeys])]

namespace Builder

theorem recordPlay_eq (p : Play) (entry : EntryId) (store : Store) (session : Session)
    (hsession : session.writes = []) :
    (recordPlay p.name entry p.rehash p.now store session).2.writes =
      playWrites p.name entry
        (playCount (store.account entry).times + if p.rehash then 0 else 1)
        (if p.rehash then (store.account entry).started.bind Value.int? else some p.now) := by
  have hget : ∀ key, session.get? store entry key =
      (store.property? entry key).map Property.value := by
    intro key
    unfold Session.get?
    rw [Session.pending?_eq, hsession, lastWrite?_nil, Option.none_or]
  have hplayed : (if p.rehash then playCount (store.account entry).times
      else playCount (store.account entry).times + 1) =
        playCount (store.account entry).times + if p.rehash then 0 else 1 := by
    split
    · exact (Int64.add_zero _).symm
    · rfl
  have hstarted : (store.account entry).started =
      (store.property? entry Property.lastStartedKey).map Property.value := rfl
  unfold recordPlay
  simp only [hget]
  rw [← hplayed, hstarted]
  generalize (if p.rehash = true then
    ((store.property? entry Property.lastStartedKey).map Property.value).bind Value.int?
    else some p.now) = started
  cases started with
  | some time => simp [Session.set, playWrites, hsession, Store.account]
  | none => simp [Session.set, playWrites, hsession, Store.account]

/-- Keeping account only notes what is to be set. -/
theorem recordPlay_notes (name : String) (entry : EntryId) (rehash : Bool) (now : Int64) :
    (recordPlay name entry rehash now).Notes := by
  intro store session
  obtain ⟨played, started, -, heq⟩ := recordPlay_writes name entry rehash now store session
  exact ⟨_, heq⟩

theorem lastWrite?_playWrites (name : String) (entry : EntryId) (played : Int64)
    (started : Option Int64) :
    lastWrite? (playWrites name entry played started) entry Property.chainKey =
        some ⟨.text name, serverSource⟩ ∧
      lastWrite? (playWrites name entry played started) entry Property.timesPlayedKey =
        some ⟨.int played, serverSource⟩ ∧
      lastWrite? (playWrites name entry played started) entry Property.lastStartedKey =
        started.map fun time => ⟨.int time, serverSource⟩ := by
  have htimes : Property.timesPlayedKey ≠ Property.chainKey := by decide
  have hlast : Property.lastStartedKey ≠ Property.chainKey := by decide
  have hlast' : Property.lastStartedKey ≠ Property.timesPlayedKey := by decide
  cases started <;>
    simp [playWrites, lastWrite?, htimes, hlast, hlast', hlast.symm, hlast'.symm]

/-- What one commit makes of the account. -/
theorem account_of_writes {s s' : Store} {entry : EntryId} {p : Play}
    (h : ∀ key, s'.property? entry key =
      (lastWrite? (playWrites p.name entry
        (playCount (s.account entry).times + if p.rehash then 0 else 1)
        (if p.rehash then (s.account entry).started.bind Value.int? else some p.now)) entry key).or
          (s.property? entry key)) :
    s'.account entry = (s.account entry).play p := by
  obtain ⟨hchain, htimes, hstarted⟩ := lastWrite?_playWrites p.name entry
    (playCount (s.account entry).times + if p.rehash then 0 else 1)
    (if p.rehash then (s.account entry).started.bind Value.int? else some p.now)
  have hsame : (((s.account entry).started.bind Value.int?).map Value.int).or
      (s.account entry).started = (s.account entry).started := by
    cases (s.account entry).started with
    | none => rfl
    | some value => cases value <;> rfl
  have hafter : s'.account entry = ⟨(s'.property? entry Property.chainKey).map Property.value,
      (s'.property? entry Property.timesPlayedKey).map Property.value,
      (s'.property? entry Property.lastStartedKey).map Property.value⟩ := rfl
  rw [hafter, h, h, h, hchain, htimes, hstarted]
  unfold Account.play
  cases p.rehash with
  | false => rfl
  | true =>
    refine congrArg (Account.mk _ _) ?_
    rw [Option.map_or, if_pos rfl, Option.map_map]
    exact hsame

end Builder

/-- However often the session fails, keeping account makes one entry in the account. -/
theorem Library.Retried.account {lib : Library} {rivals : List (Store → Store)} {entry : EntryId}
    {p : Play} {conflicts : Nat}
    (h : lib.Retried rivals (Builder.recordPlay p.name entry p.rehash p.now) conflicts)
    (hrivals : ∀ rival ∈ rivals, ∀ store : Store, (rival store).account entry = store.account entry) :
    (lib.withSession rivals (Builder.recordPlay p.name entry p.rehash p.now)).2.store.account entry =
      (lib.store.account entry).play p := by
  have hspent : ∀ runs, (lib.spent rivals runs).store.account entry = lib.store.account entry := by
    intro runs
    have hfold : ∀ (rivals : List (Store → Store)) (store : Store),
        (∀ rival ∈ rivals, ∀ store : Store, (rival store).account entry = store.account entry) →
          (rivals.foldl (fun store rival => rival store) store).account entry =
            store.account entry := by
      intro rivals
      induction rivals with
      | nil => exact fun _ _ => rfl
      | cons rival rivals ih =>
        intro store hrivals
        obtain ⟨hrival, hrest⟩ := List.forall_mem_cons.mp hrivals
        exact (ih _ hrest).trans (hrival store)
    exact hfold _ _ fun rival hmem => hrivals rival (List.mem_of_mem_take hmem)
  rw [← hspent (conflicts + 1)]
  refine Builder.account_of_writes fun key => ?_
  rw [← Builder.recordPlay_eq p entry _ (lib.spent rivals conflicts).opened rfl]
  exact h.property? entry key

/-! ## Reacting -/

/-- A reaction leaves a property as it is if no fact that it offers is about it, whether or not the
library takes the facts. -/
theorem Ledger.react_property?_of_unsaved {l : Ledger} {lib : Library} {token : Token}
    {key : String} (h : ∀ f ∈ l.log.unsaved token, f.key ≠ key) (e : EntryId) :
    (l.react lib token).2.2.store.property? e key = lib.store.property? e key := by
  have hkept := kept_eq_none h
  have hpersist : (l.react lib token).2.2 = (l.persist lib (snapshot (l.log.unsaved token))).2 :=
    rfl
  rw [hpersist]
  unfold persist
  split
  next entry _ =>
    split
    · cases htaken : (store lib entry (snapshot (l.log.unsaved token))).1 with
      | true =>
        rw [property?_store htaken]
        unfold kept at hkept
        rw [hkept, Option.none_or, ite_self]
      | false => exact congrArg (Store.property? · e key) (Session.commit_eq_of_false htaken)
    · rfl
  next => rfl

namespace Builder

/-! ## Building while others write -/

/-- Reacts and keeps account like `finalize`, while others change the library: `between` before the
account is kept, and `rivals` while that is done. A reaction whose session loses to another is one
that is refused, and `between` does what the other did. -/
def finalizeAmid (b : Builder ι ε) (between : Library → Library) (rivals : List (Store → Store))
    (c : Chain ι ε) (now : Int64) (ledger : Ledger) (w : World ε) : Ledger × World ε :=
  let (_, ledger, w) := w.react ledger c.token
  let w := { w with library := between w.library }
  match c.entry with
  | none => (ledger, w)
  | some entry =>
    if b.backed then
      let (_, library) := w.library.withSession rivals (recordPlay c.name entry c.rehash now)
      (ledger, { w with library })
    else (ledger, w)

theorem finalize_eq (b : Builder ι ε) (c : Chain ι ε) (now : Int64) (ledger : Ledger)
    (w : World ε) : b.finalize c now ledger w = b.finalizeAmid id [] c now ledger w := rfl

/-- All that building a chain does before the chain is finished. -/
def assemble (b : Builder ι ε) (goals : List StreamType) (rehash : Bool) (url : String)
    (ledger : Ledger) (w : World ε) : Except ChainError (Chain ι ε) × Ledger × World ε :=
  match b.decode goals url (w.scene ledger) with
  | (.error e, scene) => (.error e, w.absorb ledger scene)
  | (.ok stages, scene) =>
    let (_, f) := b.addEffect goals b.settings.segmentPlugin ⟨stages, scene⟩
    let decoderLength := f.stages.length
    let f := if rehash then f else b.addEffects goals f
    let (ledger, w) := w.absorb ledger f.scene
    let entry := originEntry ledger.log
    let unpublished := ⟨0, ⟨"", none, [], .untyped⟩⟩
    let chain := Chain.publish
      { stages := f.stages, decoderLength, url, entry, goals, rehash, bulletin := unpublished }
    (.ok chain, ledger, w)

theorem buildFrom_eq (b : Builder ι ε) (goals : List StreamType) (rehash : Bool) (now : Int64)
    (url : String) (ledger : Ledger) (w : World ε) :
    b.buildFrom goals rehash now url ledger w =
      match b.assemble goals rehash url ledger w with
      | (.error e, ledger, w) => (.error e, ledger, w)
      | (.ok c, ledger, w) => (.ok c, b.finalize c now ledger w) := by
  unfold buildFrom assemble
  rcases b.decode goals url (w.scene ledger) with ⟨_ | _, _⟩ <;> rfl

theorem assemble_ok {b : Builder ι ε} {goals : List StreamType} {rehash : Bool} {url : String}
    {l l' : Ledger} {w w' : World ε} {c : Chain ι ε}
    (h : b.assemble goals rehash url l w = (.ok c, l', w')) :
    c.rehash = rehash ∧ w'.library = w.library := by
  unfold assemble at h
  split at h
  · cases h
  · obtain ⟨⟩ := h
    exact ⟨rfl, rfl⟩

/-- A chain that is finished makes one entry in the account, whoever else writes. -/
theorem finalizeAmid_account {b : Builder ι ε} {between : Library → Library}
    {rivals : List (Store → Store)} {c : Chain ι ε} {entry : EntryId} {l : Ledger}
    (hbacked : b.backed = true) (hentry : c.entry = some entry)
    (hfacts : ∀ f ∈ l.log.unsaved c.token, f.key ∉ playKeys)
    (hbetween : ∀ lib : Library, (between lib).store.account entry = lib.store.account entry)
    (hrivals : ∀ rival ∈ rivals, ∀ store : Store, (rival store).account entry = store.account entry)
    (now : Int64) (w : World ε) :
    (b.finalizeAmid between rivals c now l w).2.library.store.account entry =
      (w.library.store.account entry).play ⟨c.name, c.rehash, now⟩ := by
  have hreact : (w.react l c.token).2.2.library.store.account entry =
      w.library.store.account entry := by
    rw [w.react_library]
    exact Store.account_congr fun key hkey => Ledger.react_property?_of_unsaved
      (fun f hf heq => hfacts f hf (heq ▸ hkey)) entry
  obtain ⟨conflicts, hretried⟩ := exists_retried (recordPlay_notes c.name entry c.rehash now)
    (between (w.react l c.token).2.2.library) rivals
  have haccount := Retried.account (p := ⟨c.name, c.rehash, now⟩) hretried hrivals
  rw [hbetween, hreact] at haccount
  unfold finalizeAmid
  rw [hentry]
  dsimp only
  rw [if_pos hbacked]
  exact haccount

end Builder

/-! ## Seasons -/

/-- What became of a library while chains were built for an entry, by builders with that library.
Between the chains, and while they are built, anything may change the library and make sessions fail
that leaves the account of the entry as it is; nor do the stages find out anything about it. -/
inductive Season (entry : EntryId) (first : Library) : List Play → Library → Prop
  | start : Season entry first [] first
  | aside {plays : List Play} {lib lib' : Library} :
    Season entry first plays lib → lib'.store.account entry = lib.store.account entry →
      Season entry first plays lib'
  | build {ι ε : Type} {plays : List Play} {b : Builder ι ε} {goals : List StreamType}
    {rehash : Bool} {now : Int64} {url : String} {l l' : Ledger} {w w' : World ε} {c : Chain ι ε}
    {between : Library → Library} {rivals : List (Store → Store)} :
    Season entry first plays w.library →
      b.assemble goals rehash url l w = (.ok c, l', w') → b.backed = true → c.entry = some entry →
        (∀ f ∈ l'.log.unsaved c.token, f.key ∉ Builder.playKeys) →
          (∀ lib : Library, (between lib).store.account entry = lib.store.account entry) →
            (∀ rival ∈ rivals, ∀ store : Store,
              (rival store).account entry = store.account entry) →
              Season entry first (plays ++ [⟨c.name, rehash, now⟩])
                (b.finalizeAmid between rivals c now l' w').2.library

namespace Season

variable {entry : EntryId} {first lib : Library} {plays : List Play}

/-- The account of the entry is that of the chains that were built, one after the other. -/
theorem account_eq (h : Season entry first plays lib) :
    lib.store.account entry = plays.foldl Account.play (first.store.account entry) := by
  induction h with
  | start => rfl
  | aside _ hsame ih => exact hsame.trans ih
  | build _ hassemble hbacked hentry hfacts hbetween hrivals ih =>
    obtain ⟨rfl, hlibrary⟩ := Builder.assemble_ok hassemble
    rw [Builder.finalizeAmid_account hbacked hentry hfacts hbetween hrivals, hlibrary, ih,
      List.foldl_append]
    rfl

/-- A chain that was built while nobody else wrote to the library. -/
theorem of_buildFrom {b : Builder ι ε} {goals : List StreamType} {rehash : Bool} {now : Int64}
    {url : String} {l l' : Ledger} {w w' : World ε} {c : Chain ι ε}
    (h : Season entry first plays w.library)
    (hbuild : b.buildFrom goals rehash now url l w = (.ok c, l', w')) (hbacked : b.backed = true)
    (hentry : c.entry = some entry)
    (hfacts : ∀ f ∈ l'.log.facts, f.lifetime = .persistent → f.key ∉ Builder.playKeys) :
    Season entry first (plays ++ [⟨c.name, rehash, now⟩]) w'.library := by
  rw [Builder.buildFrom_eq] at hbuild
  rcases hassemble : b.assemble goals rehash url l w with ⟨_ | c₁, l₁, w₁⟩
  · rw [hassemble] at hbuild
    cases hbuild
  · rw [hassemble] at hbuild
    obtain ⟨rfl, hfinal⟩ : c₁ = c ∧ b.finalize c₁ now l₁ w₁ = (l', w') := by
      simpa using hbuild
    have hsame : l'.log.facts = l₁.log.facts := by
      have hledger := b.finalize_ledger c₁ now l₁ w₁
      rw [hfinal] at hledger
      dsimp only at hledger
      rw [hledger]
      rfl
    have hunsaved : ∀ f ∈ l₁.log.unsaved c₁.token, f.key ∉ Builder.playKeys := by
      intro f hf
      obtain ⟨hbetween, hlifetime⟩ := List.mem_filter.mp hf
      refine hfacts f ?_ (of_decide_eq_true hlifetime)
      rw [hsame]
      exact List.mem_of_mem_take (List.mem_of_mem_drop hbetween)
    have hseason : Season entry first (plays ++ [⟨c₁.name, rehash, now⟩])
        (b.finalizeAmid id [] c₁ now l₁ w₁).2.library :=
      h.build hassemble hbacked hentry hunsaved (fun _ => rfl) nofun
    rw [← Builder.finalize_eq, hfinal] at hseason
    exact hseason

theorem of_build {b : Builder ι ε} {goals : List StreamType} {rehash : Bool} {now : Int64}
    {l l' : Ledger} {w w' : World ε} {c : Chain ι ε} (h : Season entry first plays w.library)
    (hbuild : b.build goals rehash now l w = (.ok c, l', w')) (hbacked : b.backed = true)
    (hentry : c.entry = some entry)
    (hfacts : ∀ f ∈ l'.log.facts, f.lifetime = .persistent → f.key ∉ Builder.playKeys) :
    Season entry first (plays ++ [⟨c.name, rehash, now⟩]) w'.library := by
  unfold Builder.build at hbuild
  split at hbuild
  · cases hbuild
  · exact h.of_buildFrom hbuild hbacked hentry hfacts

/-- **Play statistics.** After chains were built for an entry, whatever made sessions fail meanwhile,
the library counts exactly those that are not rehashes, on top of the count that was there; it names
the last chain; and it says when the last was built that is not a rehash, or else what it said before.
For work of any kind that is retried, the work is run once more than its session failed, and all that
it changes the last of its runs does. -/
theorem statistics (h : Season entry first plays lib) (hplays : plays ≠ [])
    (hcount : (first.store.account entry).count + Account.counted plays ≤
      Int64.maxValue.toInt) :
    (∃ n, (lib.store.account entry).times = some (.int n) ∧
        n.toInt = (first.store.account entry).count + Account.counted plays) ∧
      (lib.store.account entry).chain = some (.text (plays.getLast hplays).name) ∧
      ((∃ time, (lib.store.account entry).started = some (.int time)) ↔
        (∃ time, (first.store.account entry).started = some (.int time)) ∨
          ∃ p ∈ plays, p.rehash = false) ∧
      (lib.store.account entry).started =
        ((plays.filter fun p => !p.rehash).getLast?.map fun p => .int p.now).or
          (first.store.account entry).started ∧
      ∀ {α : Type} {work : Work α}, work.Notes → ∀ (lib : Library) (rivals : List (Store → Store)),
        ∃ conflicts, lib.Retried rivals work conflicts ∧
          ∀ e key, (lib.withSession rivals work).2.store.property? e key =
            (lastWrite? (work (lib.spent rivals (conflicts + 1)).store
              (lib.spent rivals conflicts).opened).2.writes e key).or
                ((lib.spent rivals (conflicts + 1)).store.property? e key) := by
  rw [h.account_eq]
  obtain ⟨htimes, hchain⟩ := Account.foldl_of_ne_nil hplays hcount
  refine ⟨htimes, hchain, Account.started_foldl_iff _ _, Account.started_foldl _ _, ?_⟩
  intro α work hwork lib rivals
  obtain ⟨conflicts, hretried⟩ := exists_retried hwork lib rivals
  exact ⟨conflicts, hretried, hretried.property?⟩

/-- What playing the second entry comes to in a world where so many sessions are refused first. -/
def replayed (refusals : Nat) (rehash : Bool) (now : Int64) (w : World Unit) :
    Except ChainError (Chain Unit Unit) × Ledger × World Unit :=
  let ledger := (Ledger.empty true).reset 2 (w.library.store.begin.properties w.library.store 2)
  Builder.opening.build [.untyped] rehash now ledger
    { w with library := ⟨w.library.store, refusals⟩ }

theorem of_replayed {refusals : Nat} {rehash : Bool} {now : Int64} {w : World Unit}
    (h : Season 2 first plays w.library)
    (hrun : (replayed refusals rehash now w).1.toOption.map (fun c => (c.entry, c.name)) =
      some (some 2, "open"))
    (hfacts : (replayed refusals rehash now w).2.1.log.facts.all (·.lifetime ≠ .persistent) = true) :
    Season 2 first (plays ++ [⟨"open", rehash, now⟩])
      (replayed refusals rehash now w).2.2.library := by
  have haside : Season 2 first plays ⟨w.library.store, refusals⟩ := h.aside rfl
  rcases hbuild : replayed refusals rehash now w with ⟨e | c, l, w'⟩
  · rw [hbuild] at hrun
    cases hrun
  · rw [hbuild] at hrun hfacts
    obtain ⟨hentry, hname⟩ := Prod.mk.inj (Option.some.inj hrun)
    rw [← hname]
    refine haside.of_build (w := { w with library := ⟨w.library.store, refusals⟩ }) hbuild rfl hentry
      fun f hf hlifetime => ?_
    exact absurd hlifetime (of_decide_eq_true (List.all_eq_true.mp hfacts f hf))

/-- The second entry is played, and then its chain is built once more to collect metadata; the first
three sessions fail, and then one more. -/
theorem statistics_opening :
    ∃ lib, Season 2 (Builder.shelf "file:///b.raw").library
        [⟨"open", false, 7⟩, ⟨"open", true, 9⟩] lib ∧
      (∃ n, (lib.store.account 2).times = some (.int n) ∧ n.toInt = 1) ∧
      (lib.store.account 2).chain = some (.text "open") ∧
      (lib.store.account 2).started = some (.int 7) := by
  have first : Season 2 (Builder.shelf "file:///b.raw").library [⟨"open", false, 7⟩]
      (replayed 3 false 7 (Builder.shelf "file:///b.raw")).2.2.library :=
    of_replayed .start (by decide +kernel) (by decide +kernel)
  have second : Season 2 (Builder.shelf "file:///b.raw").library
      [⟨"open", false, 7⟩, ⟨"open", true, 9⟩]
      (replayed 1 true 9 (replayed 3 false 7 (Builder.shelf "file:///b.raw")).2.2).2.2.library :=
    of_replayed first (by decide +kernel) (by decide +kernel)
  obtain ⟨⟨n, htimes, hn⟩, hchain, -, hstarted, -⟩ :=
    second.statistics nofun (by decide +kernel)
  exact ⟨_, second, ⟨n, htimes, hn.trans (by decide +kernel)⟩, hchain, hstarted⟩

end Season

end MediaChain
