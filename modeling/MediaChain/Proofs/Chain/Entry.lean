import MediaChain.Proofs.Chain.Building
import MediaChain.Proofs.Facts.Origin
import MediaChain.Proofs.Facts.Persistence

/-!
# The entry of a chain

A chain finds its entry among the facts of the origin, where an argument of a url that is called
like the number of the entry hides that number (`Ledger.named`). Building does nothing else to the
facts of the origin than to add the arguments of its url (`Ledger.Used.buildFrom`), so the
arguments alone decide which entry a chain is played for (`Builder.buildFrom_entry_iff`).
-/

namespace MediaChain

open Facts Library

variable {ι ε : Type}

/-! ## Numbers of entries -/

theorem Builder.originEntry_eq {log : Log} {n : Int64}
    (h : log.origin? Property.idKey = some (.int n)) :
    originEntry log =
      if 0 ≤ n ∧ n.toInt < UInt32.size then some (UInt32.ofNat n.toInt.toNat) else none := by
  have hint : log.originInt? Property.idKey = some n := by
    show (log.origin? Property.idKey).bind Value.int? = some n
    rw [h]
    rfl
  unfold originEntry
  rw [hint]
  rfl

theorem toInt_ofNat_entry (entry : EntryId) : (Int64.ofNat entry.toNat).toInt = entry.toNat :=
  Int64.toInt_ofNat_of_lt (Nat.lt_trans entry.toNat_lt (by decide))

namespace Ledger

variable {entry : EntryId} {args : List Url.Arg}

/-- The entry that the facts of the origin name if these arguments were added to the number of an
entry. Of those called like the number the last counts; a flag states the number one, and a text is
no number. -/
def named (entry : EntryId) (args : List Url.Arg) : Option EntryId :=
  match lastArg? args Property.idKey with
  | none => some entry
  | some (.flag _) => some 1
  | some (.pair _ _) => none

/-- Arguments that do not hide the number of an entry: none is called like it, or the last that is
called like it is a flag, and the entry is the first. -/
def Shows (entry : EntryId) (args : List Url.Arg) : Prop :=
  ∀ arg, lastArg? args Property.idKey = some arg → arg = .flag Property.idKey ∧ entry = 1

theorem named_eq_iff : named entry args = some entry ↔ Shows entry args := by
  unfold named Shows
  cases harg : lastArg? args Property.idKey with
  | none => exact iff_of_true rfl nofun
  | some arg =>
    have hkey := lastArg?_key harg
    cases arg with
    | flag key =>
      obtain rfl : key = Property.idKey := hkey
      simp [eq_comm]
    | pair key value => simp

/-- The server reads the number of the entry under the same condition. -/
theorem Used.originInt?_iff {l : Ledger} (h : Used entry args l) :
    l.log.originInt? Property.idKey = some (.ofNat entry.toNat) ↔ Shows entry args := by
  show (l.log.origin? Property.idKey).bind Value.int? = _ ↔ _
  rw [h.origin?_id]
  unfold Shows
  cases harg : lastArg? args Property.idKey with
  | none => exact iff_of_true rfl nofun
  | some arg =>
    have hkey := lastArg?_key harg
    cases arg with
    | flag key =>
      obtain rfl : key = Property.idKey := hkey
      have hone : (1 : Int64) = .ofNat entry.toNat ↔ entry = 1 := by
        rw [← Int64.toInt_inj, toInt_ofNat_entry, ← UInt32.toNat_inj]
        simp
        omega
      simp [argValue, Value.int?, hone]
    | pair key value => simp [argValue, Value.int?]

theorem Used.originEntry {l : Ledger} (h : Used entry args l) :
    Builder.originEntry l.log = named entry args := by
  have hid := h.origin?_id
  unfold named
  cases harg : lastArg? args Property.idKey with
  | none =>
    rw [harg] at hid
    rw [Builder.originEntry_eq hid, toInt_ofNat_entry, if_pos]
    · simp
    · rw [Int64.le_iff_toInt_le, toInt_ofNat_entry]
      exact ⟨Int.natCast_nonneg _, Int.ofNat_lt.mpr entry.toNat_lt⟩
  | some arg =>
    rw [harg] at hid
    cases arg with
    | flag key => exact Builder.originEntry_eq hid
    | pair key value =>
      show ((l.log.origin? Property.idKey).bind Value.int?).bind _ = none
      rw [hid]
      rfl

end Ledger

/-! ## What building does to the log -/

/-- Stages record persistent facts and nothing else. -/
theorem Scene.Steps.gains {s s' : Scene ε} (h : s.Steps s') : s.log.Gains s'.log := by
  induction h with
  | refl => exact .refl
  | tail _ hstep ih =>
    cases hstep with
    | record | birth => exact ih
    | fact order source key value => exact ih.tail ⟨order, source, key, value, rfl⟩

namespace Builder

variable (b : Builder ι ε) (goals : List StreamType) (f : Front ι ε)

theorem next_steps : f.scene.Steps (b.next goals f).2.scene := by
  unfold next
  split
  · exact .refl
  · dsimp only
    split
    · exact .refl
    next p _ => exact (Stage.create_leads p b.settings goals f).scene

theorem negotiate_steps (rounds : Nat) : f.scene.Steps (b.negotiate goals rounds f).2.scene := by
  induction rounds generalizing f with
  | zero => exact .refl
  | succ rounds ih =>
    have hnext := b.next_steps goals f
    unfold negotiate
    split
    next heq =>
      rw [heq] at hnext
      exact hnext
    next stage f' heq =>
      rw [heq] at hnext
      dsimp only
      split
      · exact hnext
      · exact hnext.trans (ih { f' with stages := stage :: f'.stages })

/-- Building records persistent facts and no others. -/
theorem keeps_gains (log : Log) : b.Keeps goals fun f => log.Gains f.scene.log where
  create {p f} _ _ _ hf := by
    have hgains := hf.trans (Stage.create_leads p b.settings goals f).scene.gains
    rcases hcreate : Stage.create p b.settings goals f with ⟨e | s, f'⟩
    all_goals
      rw [hcreate] at hgains
      exact hgains
  record {tail _ _} key value hf := hf.tail ⟨tail.order, tail.name, key, value, rfl⟩
  switch _ hf := hf

theorem decode_gains (url : String) (scene : Scene ε) :
    (Ledger.seedArgs scene.log url).Gains (b.decode goals url scene).2.log := by
  cases hdecoded : Url.decode? (Url.base url) with
  | none =>
    rw [decode_malformed goals scene hdecoded]
  | some decoded =>
    have hkeeps := b.keeps_gains goals (Ledger.seedArgs scene.log url)
    have hrun := hkeeps.negotiate (b.settings.stageLimit + 1)
      (f := b.start goals url decoded scene) .refl
    rw [decode_eq goals scene hdecoded]
    split
    next heq =>
      rw [heq] at hrun
      exact hrun
    next f' heq =>
      rw [heq] at hrun
      exact hkeeps.recordFormat hrun

/-- Building adds the arguments of the url to the facts of the origin and records persistent facts.
A chain that could be built takes its entry from the facts that are there then, and is finished. -/
theorem buildFrom_cases (rehash : Bool) (now : Int64) (url : String) (l : Ledger) (w : World ε) :
    ∃ log, (Ledger.seedArgs l.log url).Gains log ∧
      ((∃ e w', b.buildFrom goals rehash now url l w = (.error e, { l with log }, w')) ∨
        ∃ c w', b.buildFrom goals rehash now url l w =
            (.ok c, b.finalize c now { l with log } w') ∧
          w'.library = w.library ∧ c.entry = originEntry log) := by
  have hdecode := b.decode_gains goals url (w.scene l)
  unfold buildFrom
  split
  next e scene heq =>
    rw [heq] at hdecode
    exact ⟨scene.log, hdecode, .inl ⟨e, _, rfl⟩⟩
  next stages scene heq =>
    rw [heq] at hdecode
    have hkeeps := b.keeps_gains goals (Ledger.seedArgs l.log url)
    have hsegment := hkeeps.addEffect b.settings.segmentPlugin (f := ⟨stages, scene⟩) hdecode
    dsimp only
    refine ⟨_, ?_, .inr ⟨_, _, rfl, rfl, rfl⟩⟩
    split
    · exact hsegment
    · exact hkeeps.addEffects hsegment

theorem finalize_ledger (c : Chain ι ε) (now : Int64) (l : Ledger) (w : World ε) :
    (b.finalize c now l w).1 = (l.react w.library c.token).2.1 := by
  unfold finalize
  dsimp only
  split
  · rfl
  · split <;> rfl

end Builder

/-- Doing something to the tail works the stages of a chain, and no more. -/
theorem Chain.operate_leads {α : Type} {op : Tap ι ε → StageOp ι ε α}
    (hop : ∀ tap, tap.Keeps → (op tap).Keeps) (c : Chain ι ε) (scene : Scene ε) :
    (∃ stages, (c.operate scene op).2.1 = { c with stages }) ∧
      Front.Leads ⟨c.stages, scene⟩
        ⟨(c.operate scene op).2.1.stages, (c.operate scene op).2.2⟩ := by
  obtain ⟨stages, decoderLength, url, entry, goals, rehash, bulletin⟩ := c
  cases stages with
  | nil => exact ⟨⟨[], rfl⟩, .nil, .refl⟩
  | cons tail rest =>
    obtain ⟨hsame, hleads⟩ := hop _ (Tap.keeps_reaching rest.length) tail ⟨rest, scene⟩
    exact ⟨⟨_, rfl⟩, .cons hsame hleads.stages, hleads.scene⟩

namespace Ledger.Used

variable {entry : EntryId} {args : List Url.Arg} {l : Ledger}

/-- A new chain adds the arguments of its url to the facts of the origin, even if it could not be
built. -/
theorem buildFrom (h : Used entry args l) (b : Builder ι ε) (goals : List StreamType)
    (rehash : Bool) (now : Int64) (url : String) (w : World ε) :
    Used entry (args ++ Url.arguments url) (b.buildFrom goals rehash now url l w).2.1 := by
  obtain ⟨log, hgains, ⟨e, w', heq⟩ | ⟨c, w', heq, -, -⟩⟩ :=
    b.buildFrom_cases goals rehash now url l w
  · rw [heq]
    exact (h.seed url).gains hgains
  · rw [heq, b.finalize_ledger]
    exact .react _ _ ((h.seed url).gains hgains)

/-- Chains that are rebuilt add nothing. -/
theorem rebuild (h : Used entry args l) (b : Builder ι ε) (c : Chain ι ε) (w : World ε) :
    Used entry args (b.rebuild c l w).2.1 :=
  h.gains ((b.keeps_gains c.goals l.log).rebuild .refl)

/-- Chains that are read from add nothing. -/
theorem operate {α : Type} {op : Tap ι ε → StageOp ι ε α}
    (hop : ∀ tap, tap.Keeps → (op tap).Keeps) (h : Used entry args l) (c : Chain ι ε)
    (w : World ε) :
    Used entry args (w.absorb l (c.operate (w.scene l) op).2.2).1 :=
  h.gains (c.operate_leads hop (w.scene l)).2.scene.gains

end Ledger.Used

/-! ## What is written down -/

/-- The library says that an entry is played with a chain. -/
structure Chain.Played (c : Chain ι ε) (now : Int64) (store : Store) (entry : EntryId) : Prop where
  chain : store.property? entry Property.chainKey = some ⟨.text c.name, serverSource⟩
  times : ∃ n, store.property? entry Property.timesPlayedKey = some ⟨.int n, serverSource⟩
  started : c.rehash = false →
    store.property? entry Property.lastStartedKey = some ⟨.int now, serverSource⟩

/-- What the observers of a reaction leave is changed by nothing but what the library takes. -/
theorem World.react_part {β : Type} {f : World ε → β}
    (h : ∀ report observer (w : World ε), f (w.tell report observer) = f w) (w : World ε)
    (l : Ledger) (token : Token) :
    f (w.react l token).2.2 = f { w with library := (l.react w.library token).2.2 } := by
  have htold : ∀ (report : Report) (observers : List Observer) (w : World ε),
      f (observers.foldl (tell report) w) = f w := by
    intro report observers
    induction observers with
    | nil => exact fun w => rfl
    | cons observer observers ih =>
      intro w
      rw [List.foldl_cons, ih, h]
  exact htold _ _ _

theorem World.react_library (w : World ε) (l : Ledger) (token : Token) :
    (w.react l token).2.2.library = (l.react w.library token).2.2 := by
  refine World.react_part (fun report observer w => ?_) w l token
  cases observer <;> rfl

namespace Builder

/-- The properties that keep account of the playing of an entry. -/
def playKeys : List String := [Property.chainKey, Property.timesPlayedKey, Property.lastStartedKey]

/-- The writes that keep account: how often an entry was played, and when it was last if that is
known. -/
def playWrites (name : String) (entry : EntryId) (played : Int64) (started : Option Int64) :
    List Write :=
  [⟨entry, Property.chainKey, ⟨.text name, serverSource⟩⟩,
    ⟨entry, Property.timesPlayedKey, ⟨.int played, serverSource⟩⟩] ++
    (started.map fun time => ⟨entry, Property.lastStartedKey, ⟨.int time, serverSource⟩⟩).toList

theorem recordPlay_writes (name : String) (entry : EntryId) (rehash : Bool) (now : Int64)
    (store : Store) (session : Session) :
    ∃ played started, (rehash = false → started = some now) ∧
      (recordPlay name entry rehash now store session).2 =
        { session with writes := session.writes ++ playWrites name entry played started } := by
  unfold recordPlay
  dsimp only
  generalize (if rehash = true then _ else _ : Int64) = played
  split
  next time htime =>
    refine ⟨played, some time, fun hrehash => ?_, by simp [Session.set, playWrites]⟩
    rw [← htime, hrehash]
    rfl
  next hnone =>
    refine ⟨played, none, fun hrehash => ?_, by simp [Session.set, playWrites]⟩
    rw [hrehash] at hnone
    cases hnone

theorem lastWrite?_playWrites_of_not {name : String} {entry e : EntryId} {key : String}
    (h : ¬(e = entry ∧ key ∈ playKeys)) (played : Int64) (started : Option Int64) :
    lastWrite? (playWrites name entry played started) e key = none := by
  unfold lastWrite?
  rw [List.find?_eq_none.mpr, Option.map_none]
  intro w hw hmatch
  obtain ⟨rfl, rfl⟩ : w.entry = e ∧ w.key = key := of_decide_eq_true hmatch
  refine h ?_
  rcases List.mem_append.mp (List.mem_reverse.mp hw) with hw | hw
  · rcases List.mem_pair.mp hw with rfl | rfl
    · exact ⟨rfl, by simp [playKeys]⟩
    · exact ⟨rfl, by simp [playKeys]⟩
  · obtain ⟨time, -, rfl⟩ := Option.map_eq_some_iff.mp (Option.mem_toList.mp hw)
    exact ⟨rfl, by simp [playKeys]⟩

/-- Keeping account writes to the entry that is played, and to nothing else. -/
theorem withSession_recordPlay (c : Chain ι ε) (entry : EntryId) (now : Int64) (lib : Library) :
    c.Played now (lib.withSession [] (recordPlay c.name entry c.rehash now)).2.store entry ∧
      ∀ e key, ¬(e = entry ∧ key ∈ playKeys) →
        (lib.withSession [] (recordPlay c.name entry c.rehash now)).2.store.property? e key =
          lib.store.property? e key := by
  have hrefused : ∀ store session,
      (recordPlay c.name entry c.rehash now store session).2.refused = session.refused := by
    intro store session
    obtain ⟨played, started, -, heq⟩ := recordPlay_writes c.name entry c.rehash now store session
    rw [heq]
  obtain ⟨played, started, hstarted, heq⟩ :=
    recordPlay_writes c.name entry c.rehash now lib.store lib.store.begin
  have hproperty : ∀ e key,
      (lib.withSession [] (recordPlay c.name entry c.rehash now)).2.store.property? e key =
        (lastWrite? (playWrites c.name entry played started) e key).or
          (lib.store.property? e key) := by
    intro e key
    rw [withSession_alone hrefused, heq]
    refine Session.property?_commit ?_ e key
    unfold Session.commit Store.begin
    simp [playWrites]
  have htimes : Property.timesPlayedKey ≠ Property.chainKey := by decide
  have hlast : Property.lastStartedKey ≠ Property.chainKey := by decide
  have hlast' : Property.lastStartedKey ≠ Property.timesPlayedKey := by decide
  refine ⟨⟨?_, ⟨played, ?_⟩, fun hrehash => ?_⟩, fun e key h => ?_⟩
  · rw [hproperty]
    cases started <;> simp [playWrites, lastWrite?, htimes, hlast]
  · rw [hproperty]
    cases started <;> simp [playWrites, lastWrite?, hlast']
  · rw [hproperty, hstarted hrehash]
    simp [playWrites, lastWrite?]
  · rw [hproperty, lastWrite?_playWrites_of_not h, Option.none_or]

/-- Finishing a chain writes what stages recorded to the entry of its ledger, and keeps account of
the playing of the entry of the chain. -/
theorem property?_finalize (b : Builder ι ε) (c : Chain ι ε) (now : Int64) {l : Ledger}
    {entry : EntryId} (hentry : l.log.entry = some entry) (w : World ε) :
    (b.backed = true → ∀ e, c.entry = some e →
        c.Played now (b.finalize c now l w).2.library.store e) ∧
      ∀ e key, e ≠ entry → ¬(c.entry = some e ∧ key ∈ playKeys) →
        (b.finalize c now l w).2.library.store.property? e key =
          w.library.store.property? e key := by
  have hreact : ∀ e key, e ≠ entry →
      (w.react l c.token).2.2.library.store.property? e key =
        w.library.store.property? e key := by
    intro e key he
    rw [w.react_library]
    exact Ledger.react_property?_of_ne hentry he key
  unfold finalize
  dsimp only
  cases hc : c.entry with
  | none => exact ⟨nofun, fun e key he _ => hreact e key he⟩
  | some played =>
    obtain ⟨hplayed, hother⟩ :=
      withSession_recordPlay c played now (w.react l c.token).2.2.library
    dsimp only
    split
    · refine ⟨fun _ e he => Option.some.inj he ▸ hplayed, fun e key he hkey => ?_⟩
      exact (hother e key fun h => hkey ⟨congrArg some h.1.symm, h.2⟩).trans (hreact e key he)
    next hb => exact ⟨fun hbacked => absurd hbacked hb, fun e key he _ => hreact e key he⟩

/-! ## The entry of a chain -/

/-- **Which entry a chain is played for.** A chain that is built on a ledger of an entry, for
whatever url, is a chain of that entry if and only if no argument of the urls seen since the reset
hides the number of the entry. Its playing is written down for its own entry, what its stages
recorded goes to the entry of the ledger, and no other entry is written to. -/
theorem buildFrom_entry_iff {b : Builder ι ε} {goals : List StreamType} {rehash : Bool}
    {now : Int64} {url : String} {l l' : Ledger} {w w' : World ε} {c : Chain ι ε}
    {entry : EntryId} {args : List Url.Arg} (hl : Ledger.Used entry args l)
    (hbuild : b.buildFrom goals rehash now url l w = (.ok c, l', w') ∨
      l.log.originText? Property.urlKey = some url ∧
        b.build goals rehash now l w = (.ok c, l', w')) :
    (l.log.originInt? Property.idKey = some (.ofNat entry.toNat) ↔ Ledger.Shows entry args) ∧
      l'.log.entry = some entry ∧
      c.entry = Ledger.named entry (args ++ Url.arguments url) ∧
      (c.entry = l'.log.entry ↔ Ledger.Shows entry (args ++ Url.arguments url)) ∧
      (b.backed = true → ∀ e, c.entry = some e → c.Played now w'.library.store e) ∧
      ∀ e key, e ≠ entry → ¬(c.entry = some e ∧ key ∈ playKeys) →
        w'.library.store.property? e key = w.library.store.property? e key := by
  have hbuilt : b.buildFrom goals rehash now url l w = (.ok c, l', w') := by
    rcases hbuild with hbuild | ⟨hurl, hbuild⟩
    · exact hbuild
    · unfold build at hbuild
      rw [hurl] at hbuild
      exact hbuild
  have hused := hl.buildFrom b goals rehash now url w
  rw [hbuilt] at hused
  obtain ⟨log, hgains, ⟨e, w₁, heq⟩ | ⟨c₁, w₁, heq, hlibrary, hentry⟩⟩ :=
    b.buildFrom_cases goals rehash now url l w
  · rw [hbuilt] at heq
    simp at heq
  · rw [hbuilt] at heq
    simp only [Prod.mk.injEq, Except.ok.injEq] at heq
    obtain ⟨rfl, hfinal⟩ := heq
    have hseeded := (hl.seed url).gains hgains
    have hnamed : c.entry = Ledger.named entry (args ++ Url.arguments url) :=
      hentry.trans hseeded.originEntry
    have hwritten := b.property?_finalize c now hseeded.entry_eq w₁
    rw [← hfinal, hlibrary] at hwritten
    refine ⟨hl.originInt?_iff, hused.entry_eq, hnamed, ?_, hwritten⟩
    rw [hused.entry_eq, hnamed]
    exact Ledger.named_eq_iff

/-! ## Urls with arguments -/

/-- A plugin that opens any url and has nothing to give. -/
def opener : Plugin Unit Unit where
  descriptor := { name := "open" }
  claim _ := some 1
  init := do
    let _ ← Script.request (.setOutType .untyped)
    return .ok ()
  read _ _ := return (.ok (.ofBytes []), ())

def opening : Builder Unit Unit := ⟨⟨[opener]⟩, {}, true⟩

/-- A world with a library of two entries, of which the second has this url. -/
def shelf (url : String) : World Unit :=
  let store := (Store.empty.addEntry "file:///a.raw").2
  { World.empty with library := ⟨(store.addEntry url).2, 0⟩ }

/-- A ledger that was reset for the second entry. -/
def reading (url : String) : Ledger :=
  let store := (shelf url).library.store
  (Ledger.empty true).reset 2 (store.begin.properties store 2)

/-- What building a chain for it comes to. -/
def opened (url : String) : Except ChainError (Chain Unit Unit) × Ledger × World Unit :=
  opening.build [.untyped] false 7 (reading url) (shelf url)

/-- With other arguments the chain is one of the entry of its ledger, and played for it. -/
theorem opened_of_title :
    ∃ c l w, opened "file:///b.raw?title=x" = (.ok c, l, w) ∧ l.log.entry = some 2 ∧
      c.entry = some 2 ∧ c.Played 7 w.library.store 2 := by
  have hok : (opened "file:///b.raw?title=x").1.toOption.isSome = true := by decide +kernel
  rcases hrun : opened "file:///b.raw?title=x" with ⟨e | c, l, w⟩
  · rw [hrun] at hok
    cases hok
  · have hurl : (reading "file:///b.raw?title=x").log.originText? Property.urlKey =
        some "file:///b.raw" := by decide +kernel
    obtain ⟨-, hledger, hnamed, -, hplayed, -⟩ :=
      buildFrom_entry_iff (.reset _ _ _) (.inr ⟨hurl, hrun⟩)
    have hentry : c.entry = some 2 := hnamed.trans (by decide +kernel)
    exact ⟨c, l, w, rfl, hledger, hentry, hplayed rfl 2 hentry⟩

/-- A flag that is called like the number hides it: the playing of the second entry is written down
for the first. -/
theorem opened_of_flag :
    (shelf "file:///b.raw?id").library.store.property? 2 Property.urlKey =
        some ⟨.text "file:///b.raw?id", serverSource⟩ ∧
      (reading "file:///b.raw?id").log.originInt? Property.idKey = some 1 ∧
      (opened "file:///b.raw?id").2.1.log.entry = some 2 ∧
      (opened "file:///b.raw?id").1.toOption.map Chain.entry = some (some 1) ∧
      (opened "file:///b.raw?id").2.2.library.store.property? 1 Property.chainKey =
        some ⟨.text "open", serverSource⟩ ∧
      (opened "file:///b.raw?id").2.2.library.store.property? 2 Property.chainKey = none := by
  decide +kernel

end Builder

end MediaChain
