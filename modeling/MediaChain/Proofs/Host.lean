import Mathlib.Logic.Function.Basic
import MediaChain.Host
import MediaChain.Proofs.Chain.Career
import MediaChain.Proofs.Chain.Lifetimes

/-!
# How long the stages of a host live

A `Roster` remembers for which chain a stage was set up, where each build and each listing counts as
a chain of its own. Whatever a host does (`Host.Step`), it holds the stages of its chains and no
others (`Host.Works.tended`). So a plugin that wants to be told of the end of its stages is told
once of each, when the chain that it is a part of lets it go (`Host.Works.lifetimes`).
-/

namespace MediaChain

open Std Stage

variable {ι ε : Type}

/-! ## Runs -/

/-- Reads, peeks and seeks at the tail of a chain, one after the other, and nothing in between. -/
def Chain.Uses (c : Chain ι ε) (scene : Scene ε) : Chain ι ε → Scene ε → Prop :=
  Chain.Career (fun c₀ scene₀ => c₀ = c ∧ scene₀ = scene) (fun _ => False) fun _ _ _ _ => False

theorem Chain.Uses.none {c : Chain ι ε} {scene : Scene ε} : c.Uses scene c scene :=
  .first ⟨rfl, rfl⟩

/-- The chains that a host has tried to build, and the listings it has made, by numbers. -/
structure Roster where
  /-- The chain that a stage was set up for, by the number of the stage. -/
  chainOf : List Nat
  /-- The chain that goes by a name. -/
  current : String → Nat
  chains : Nat

namespace Host

def births (h : Host ι ε) : Nat := h.world.backstage.births

def events (h : Host ι ε) : List (Event ε) := h.world.backstage.journal.toList

end Host

namespace Roster

def empty : Roster := ⟨[], fun _ => 0, 0⟩

/-- The stages that a host has set up since were all set up for one chain. -/
def extend (r : Roster) (chain : Nat) (h : Host ι ε) : Roster :=
  { r with chainOf := r.chainOf ++ List.replicate (h.births - r.chainOf.length) chain }

/-- They were set up for a new chain. -/
def begin (r : Roster) (h : Host ι ε) : Roster :=
  { r.extend r.chains h with chains := r.chains + 1 }

/-- The new chain goes by a name. -/
def enter (r : Roster) (name : String) (h : Host ι ε) : Roster :=
  { r.begin h with current := Function.update r.current name r.chains }

end Roster

namespace Host

/-- One thing that a host does. -/
inductive Step : Roster → Host ι ε → Roster → Host ι ε → Prop
  | build {r : Roster} {h h' : Host ι ε} {name ledger : String} {goals : List StreamType}
    {rehash : Bool} {url : Option String} {now : Int64} {c : Chain ι ε} :
    h.build name ledger goals rehash url now = (.ok c, h') → Step r h (r.enter name h') h'
  | fail {r : Roster} {h h' : Host ι ε} {name ledger : String} {goals : List StreamType}
    {rehash : Bool} {url : Option String} {now : Int64} {e : ChainError} :
    h.build name ledger goals rehash url now = (.error e, h') → Step r h (r.begin h') h'
  | browse (r : Roster) (h : Host ι ε) (url : String) :
    Step r h (r.begin (h.browse url).2) (h.browse url).2
  | operate {α : Type} (r : Roster) (h : Host ι ε) (name : String)
    {op : Chain ι ε → Scene ε → α × Chain ι ε × Scene ε} :
    (∀ (c : Chain ι ε) scene, c.Uses scene (op c scene).2.1 (op c scene).2.2) →
      Step r h r (h.operate name op).2
  | rebuild (r : Roster) (h : Host ι ε) (name : String) :
    Step r h (r.extend (r.current name) (h.rebuild name)) (h.rebuild name)
  | change (r : Roster) (h : Host ι ε) (name : String) (change : Config.Change) :
    Step r h (r.extend (r.current name) (h.handleChange name change).2)
      (h.handleChange name change).2
  | drop (r : Roster) (h : Host ι ε) (name : String) : Step r h r (h.dropChain name)
  /-- Anything that neither touches chains nor sets up stages. -/
  | elsewhere {r : Roster} {h h' : Host ι ε} {es : List (Event ε)} :
    h'.chains = h.chains → h'.births = h.births → h'.events = h.events ++ es →
      (∀ e ∈ es, e.Among fun _ => False) → Step r h r h'

/-- What a host can come to that has no chains at first. -/
inductive Works : Roster → Host ι ε → Prop
  | start {h : Host ι ε} : h.chains = ∅ → h.births = 0 → h.events = [] → Works .empty h
  | step {r r' : Roster} {h h' : Host ι ε} : Works r h → Step r h r' h' → Works r' h'

end Host

/-! ## What a host holds -/

section Names

variable {β : Type} {m : ExtTreeMap String β} {name : String} {v : β}

theorem toList_nodup (m : ExtTreeMap String β) : m.toList.Nodup := by
  have hkeys := m.nodup_keys
  rw [← ExtTreeMap.map_fst_toList_eq_keys] at hkeys
  exact hkeys.of_map _

theorem toList_insert_perm (m : ExtTreeMap String β) (name : String) (v : β) :
    (m.insert name v).toList.Perm ((name, v) :: (m.erase name).toList) := by
  have hfresh : (name, v) ∉ (m.erase name).toList := by
    rw [ExtTreeMap.mem_toList_iff_getElem?_eq_some, ExtTreeMap.getElem?_erase_self]
    exact nofun
  rw [List.perm_ext_iff_of_nodup (toList_nodup _) (List.nodup_cons.mpr ⟨hfresh, toList_nodup _⟩)]
  rintro ⟨k, w⟩
  rw [List.mem_cons, ExtTreeMap.mem_toList_iff_getElem?_eq_some,
    ExtTreeMap.mem_toList_iff_getElem?_eq_some, ExtTreeMap.getElem?_insert,
    ExtTreeMap.getElem?_erase]
  by_cases hk : name = k
  · subst hk
    simp [eq_comm]
  · simp [hk, Ne.symm hk]

theorem insert_of_get (hget : m[name]? = some v) : m.insert name v = m := by
  refine ExtTreeMap.ext_getElem? fun k => ?_
  rw [ExtTreeMap.getElem?_insert]
  by_cases hk : name = k
  · subst hk
    simp [hget]
  · simp [hk]

theorem erase_of_none (hget : m[name]? = none) : m.erase name = m := by
  refine ExtTreeMap.ext_getElem? fun k => ?_
  rw [ExtTreeMap.getElem?_erase]
  by_cases hk : name = k
  · subst hk
    simp [hget]
  · simp [hk]

end Names

/-- What is held of the chains that go by some names. -/
def holding (current : String → Nat) (m : ExtTreeMap String (Running ι ε)) : List Holding :=
  m.toList.map fun x => ⟨current x.1, tickets x.2.chain.stages⟩

section Holding

variable {m : ExtTreeMap String (Running ι ε)} {name : String} {run : Running ι ε}
  {current current' : String → Nat}

theorem holding_insert (current : String → Nat) (m : ExtTreeMap String (Running ι ε))
    (name : String) (run : Running ι ε) :
    (holding current (m.insert name run)).Perm
      (⟨current name, tickets run.chain.stages⟩ :: holding current (m.erase name)) :=
  (toList_insert_perm m name run).map _

theorem holding_of_get (current : String → Nat) (hget : m[name]? = some run) :
    (holding current m).Perm
      (⟨current name, tickets run.chain.stages⟩ :: holding current (m.erase name)) := by
  have hperm := holding_insert current m name run
  rwa [insert_of_get hget] at hperm

theorem holding_congr (hcurrent : ∀ k run, m[k]? = some run → current k = current' k) :
    holding current m = holding current' m := by
  refine List.map_congr_left fun x hx => ?_
  rw [hcurrent x.1 x.2 (ExtTreeMap.mem_toList_iff_getElem?_eq_some.mp hx)]

theorem mem_holding {g : Holding} : g ∈ holding current m ↔
    ∃ name run, m[name]? = some run ∧ ⟨current name, tickets run.chain.stages⟩ = g := by
  unfold holding
  rw [List.mem_map]
  constructor
  · rintro ⟨⟨name, run⟩, hx, hg⟩
    exact ⟨name, run, ExtTreeMap.mem_toList_iff_getElem?_eq_some.mp hx, hg⟩
  · rintro ⟨name, run, hget, hg⟩
    exact ⟨(name, run), ExtTreeMap.mem_toList_iff_getElem?_eq_some.mpr hget, hg⟩

/-- The number of the chain of a name does not matter once the name is gone. -/
theorem update_of_erase (current : String → Nat) (chain : Nat) (k : String) (run : Running ι ε)
    (hget : (m.erase name)[k]? = some run) : Function.update current name chain k = current k := by
  rw [ExtTreeMap.getElem?_erase] at hget
  rw [Function.update_of_ne]
  rintro rfl
  simp at hget

end Holding

/-! ## Steps -/

/-- Reading on until nothing comes any more is reading again and again. -/
theorem Chain.Uses.drain {c c' : Chain ι ε} {scene scene' : Scene ε} (window : Window) (times : Nat)
    (hu : c.Uses scene c' scene') :
    c.Uses scene (c'.drain window times scene').2.1 (c'.drain window times scene').2.2 := by
  induction times generalizing window c' scene' with
  | zero => exact hu
  | succ times ih =>
    have hread : c.Uses scene (c'.readInto scene' window).2.1 (c'.readInto scene' window).2.2 :=
      hu.use (.read window)
    unfold Chain.drain
    split
    next heq =>
      rw [heq] at hread
      exact hread
    next heq =>
      rw [heq] at hread
      dsimp only
      split
      · exact hread
      · exact ih _ hread

theorem Chain.Uses.tended {c c' : Chain ι ε} {scene scene' : Scene ε} {chains : List Nat}
    {chain : Nat} {others : List Holding} (hu : c.Uses scene c' scene')
    (hb : scene.backstage.Tended chains (⟨chain, tickets c.stages⟩ :: others)) :
    scene'.backstage.Tended chains (⟨chain, tickets c'.stages⟩ :: others) := by
  induction hu with
  | first h =>
    obtain ⟨rfl, rfl⟩ := h
    exact hb
  | use u _ ih =>
    cases u with
    | read window => exact operate_tended (fun hQ htap => read_keepsBy hQ htap window) ih
    | peek size => exact operate_tended (fun hQ htap => peek_keepsBy hQ htap size) ih
    | seek offset whence =>
      exact operate_tended (fun hQ htap => seek_keepsBy hQ htap offset whence) ih
  | rebuild hb' _ _ => exact hb'.elim
  | aside h _ _ => exact h.elim

/-- The journal is kept in order, and the stages that are held are those of the chains of a host,
which go by numbers that were given out. -/
structure Host.Tended (r : Roster) (h : Host ι ε) : Prop where
  backstage : h.world.backstage.Tended r.chainOf (holding r.current h.chains)
  current : ∀ name run, h.chains[name]? = some run → r.current name < r.chains

namespace Host

variable {h h' : Host ι ε} {r r' : Roster} {chain : Nat} {name : String} {run : Running ι ε}

theorem Tended.fresh (ht : Tended r h) :
    r.chains ∉ (holding r.current h.chains).map Holding.chain := by
  intro hmem
  obtain ⟨g, hg, heq⟩ := List.mem_map.mp hmem
  obtain ⟨name, run, hget, rfl⟩ := mem_holding.mp hg
  exact Nat.lt_irrefl _ (heq ▸ ht.current name run hget)

theorem Tended.tendedFor (ht : Tended r h) (chain : Nat) :
    h.world.backstage.TendedFor r.chainOf chain (holding r.current h.chains) :=
  ht.backstage.tendedFor chain

/-- What a host holds once it has set up stages for a chain. -/
theorem extend_tended {held : List Holding}
    (hb : h'.world.backstage.TendedFor r.chainOf chain held) :
    h'.world.backstage.Tended (r.extend chain h').chainOf held := by
  obtain ⟨attempts, hb⟩ := hb
  have hbirths : h'.births - r.chainOf.length = attempts := by
    have hlength := hb.births
    rw [List.length_append, List.length_replicate] at hlength
    exact Nat.sub_eq_of_eq_add' hlength
  unfold Roster.extend
  rw [hbirths]
  exact hb

/-- A chain goes on under its name, with other stages. -/
theorem Tended.setChain (ht : Tended r h) (hget : h.chains[name]? = some run)
    {chainOf : List Nat} {run' : Running ι ε} (hchains : h'.chains = h.chains)
    (hb : h'.world.backstage.Tended chainOf (⟨r.current name, tickets run'.chain.stages⟩ ::
      holding r.current (h.chains.erase name))) :
    Tended { r with chainOf } (h'.setChain name run') := by
  have hinsert : (h'.setChain name run').chains = h.chains.insert name run' :=
    congrArg (·.insert name run') hchains
  refine ⟨?_, fun k run'' hk => ?_⟩
  · rw [hinsert]
    exact hb.perm (holding_insert _ _ _ _).symm
  · rw [hinsert, ExtTreeMap.getElem?_insert] at hk
    by_cases heq : name = k
    · subst heq
      exact ht.current name run hget
    · exact ht.current k run'' (by simpa [heq] using hk)

theorem chains_dropChain (h : Host ι ε) (name : String) :
    (h.dropChain name).chains = h.chains.erase name := by
  unfold dropChain
  split
  next hget => exact (erase_of_none hget).symm
  · rfl

theorem not_mem_of_dropAll (names : List (String × Running ι ε))
    (hget : (names.foldl (fun h x => h.dropChain x.1) h).chains[name]? = some run) :
    h.chains[name]? = some run ∧ name ∉ names.map Prod.fst := by
  induction names generalizing h with
  | nil => exact ⟨hget, List.not_mem_nil⟩
  | cons x names ih =>
    obtain ⟨hkept, hmem⟩ := ih hget
    rw [chains_dropChain, ExtTreeMap.getElem?_erase] at hkept
    by_cases heq : x.1 = name
    · simp [heq] at hkept
    · exact ⟨by simpa [heq] using hkept, List.not_mem_cons_of_ne_of_not_mem (Ne.symm heq) hmem⟩

/-- A chain that is dropped holds nothing any more. -/
theorem dropChain_tended {chains : List Nat} (front : List Holding) (name : String)
    {current : String → Nat}
    (hb : h.world.backstage.Tended chains (front ++ holding current h.chains)) :
    (h.dropChain name).world.backstage.Tended chains
      (front ++ holding current (h.chains.erase name)) := by
  unfold dropChain
  split
  next hget =>
    rw [erase_of_none hget]
    exact hb
  next run hget =>
    have hperm := ((holding_of_get current hget).append_left front).trans List.perm_middle
    exact Chain.release_tended run.chain (hb.perm hperm)

theorem Tended.drop (ht : Tended r h) (name : String) : Tended r (h.dropChain name) := by
  refine ⟨?_, fun k run hk => ?_⟩
  · rw [chains_dropChain]
    exact dropChain_tended [] name ht.backstage
  · rw [chains_dropChain, ExtTreeMap.getElem?_erase] at hk
    by_cases heq : name = k
    · simp [heq] at hk
    · exact ht.current k run (by simpa [heq] using hk)

theorem Tended.browse (ht : Tended r h) (url : String) :
    Tended (r.begin (h.browse url).2) (h.browse url).2 :=
  ⟨extend_tended (h.builder.browse_tended url (ht.tendedFor r.chains) ht.fresh),
    fun k run hk => Nat.lt_succ_of_lt (ht.current k run hk)⟩

/-- What comes of building a chain in the world of a host. -/
def built (h : Host ι ε) (ledger : Ledger) (goals : List StreamType) (rehash : Bool)
    (url : Option String) (now : Int64) : Except ChainError (Chain ι ε) × Ledger × World ε :=
  match url with
  | some url => h.builder.buildFrom goals rehash now url ledger h.world
  | none => h.builder.build goals rehash now ledger h.world

theorem build_cases (h : Host ι ε) (name ledger : String) (goals : List StreamType) (rehash : Bool)
    (url : Option String) (now : Int64) :
    (∃ e l w, h.built (h.ledger ledger) goals rehash url now = (.error e, l, w) ∧
      h.build name ledger goals rehash url now =
        (.error e, { h with world := w }.setLedger ledger l)) ∨
      ∃ c l w, h.built (h.ledger ledger) goals rehash url now = (.ok c, l, w) ∧
        h.build name ledger goals rehash url now =
          (.ok c, (({ h with world := w }.setLedger ledger l).dropChain name).setChain name
            ⟨ledger, c⟩) := by
  rcases hrun : h.built (h.ledger ledger) goals rehash url now with ⟨e | c, l, w⟩
  · refine .inl ⟨e, l, w, rfl, ?_⟩
    unfold built at hrun
    unfold Host.build
    cases url <;> dsimp only at hrun ⊢ <;> rw [hrun]
  · refine .inr ⟨c, l, w, rfl, ?_⟩
    unfold built at hrun
    unfold Host.build
    cases url <;> dsimp only at hrun ⊢ <;> rw [hrun]

theorem Tended.built (ht : Tended r h) (ledger : Ledger) (goals : List StreamType) (rehash : Bool)
    (url : Option String) (now : Int64) :
    match h.built ledger goals rehash url now with
    | (.error _, _, w) =>
      w.backstage.TendedFor r.chainOf r.chains (holding r.current h.chains)
    | (.ok c, _, w) =>
      w.backstage.TendedFor r.chainOf r.chains
        (⟨r.chains, tickets c.stages⟩ :: holding r.current h.chains) := by
  cases url with
  | none =>
    exact h.builder.build_tended goals rehash now ledger (ht.tendedFor r.chains) ht.fresh
  | some url =>
    exact h.builder.buildFrom_tended goals rehash now url ledger (ht.tendedFor r.chains) ht.fresh

theorem Tended.fail (ht : Tended r h) {ledger : String} {goals : List StreamType} {rehash : Bool}
    {url : Option String} {now : Int64} {e : ChainError}
    (hbuild : h.build name ledger goals rehash url now = (.error e, h')) :
    Tended (r.begin h') h' := by
  have hbuilt := ht.built (h.ledger ledger) goals rehash url now
  rcases h.build_cases name ledger goals rehash url now with
    ⟨e', l, w, hrun, heq⟩ | ⟨c, l, w, hrun, heq⟩
  · rw [heq, Prod.mk.injEq] at hbuild
    rw [hrun] at hbuilt
    obtain ⟨-, rfl⟩ := hbuild
    exact ⟨extend_tended hbuilt, fun k run hk => Nat.lt_succ_of_lt (ht.current k run hk)⟩
  · rw [heq, Prod.mk.injEq] at hbuild
    exact nomatch hbuild.1

/-- The old chain of a name is let go, and a new one is held under the name. -/
theorem Tended.enter (ht : Tended r h) (name : String) (run : Running ι ε)
    (hchains : h'.chains = h.chains)
    (hb : h'.world.backstage.TendedFor r.chainOf r.chains
      (⟨r.chains, tickets run.chain.stages⟩ :: holding r.current h.chains)) :
    Tended (r.enter name ((h'.dropChain name).setChain name run))
      ((h'.dropChain name).setChain name run) := by
  obtain ⟨attempts, hb⟩ := hb
  rw [← hchains] at hb
  have hdropped := dropChain_tended [⟨r.chains, tickets run.chain.stages⟩] name hb
  have hinsert : ((h'.dropChain name).setChain name run).chains =
      (h.chains.erase name).insert name run := by
    rw [← hchains, ← chains_dropChain]
    rfl
  have hperm : (holding (Function.update r.current name r.chains)
      ((h.chains.erase name).insert name run)).Perm
        (⟨r.chains, tickets run.chain.stages⟩ :: holding r.current (h.chains.erase name)) := by
    refine (holding_insert _ _ _ _).trans (.of_eq ?_)
    rw [erase_of_none ExtTreeMap.getElem?_erase_self, Function.update_self,
      holding_congr (update_of_erase r.current r.chains)]
  refine ⟨extend_tended ⟨attempts, ?_⟩, fun k run' hk => ?_⟩
  · rw [hinsert]
    rw [hchains] at hdropped
    exact hdropped.perm hperm.symm
  · rw [hinsert] at hk
    show Function.update r.current name r.chains k < r.chains + 1
    by_cases heq : k = name
    · rw [heq, Function.update_self]
      exact Nat.lt_succ_self _
    · rw [Function.update_of_ne heq]
      refine Nat.lt_succ_of_lt (ht.current k run' ?_)
      simpa [ExtTreeMap.getElem?_insert, ExtTreeMap.getElem?_erase, Ne.symm heq] using hk

theorem Tended.build (ht : Tended r h) {ledger : String} {goals : List StreamType} {rehash : Bool}
    {url : Option String} {now : Int64} {c : Chain ι ε}
    (hbuild : h.build name ledger goals rehash url now = (.ok c, h')) :
    Tended (r.enter name h') h' := by
  have hbuilt := ht.built (h.ledger ledger) goals rehash url now
  rcases h.build_cases name ledger goals rehash url now with
    ⟨e, l, w, hrun, heq⟩ | ⟨c', l, w, hrun, heq⟩
  · rw [heq, Prod.mk.injEq] at hbuild
    exact nomatch hbuild.1
  · rw [heq, Prod.mk.injEq] at hbuild
    rw [hrun] at hbuilt
    obtain ⟨-, rfl⟩ := hbuild
    -- Of the host in between only its world and its chains matter.
    have hworld : ({ h with world := w }.setLedger ledger l).world = w := rfl
    have hchains : ({ h with world := w }.setLedger ledger l).chains = h.chains := rfl
    rw [← hworld] at hbuilt
    generalize { h with world := w }.setLedger ledger l = h₁ at hbuilt hchains ⊢
    exact ht.enter name ⟨ledger, c'⟩ hchains hbuilt

theorem Tended.operate {α : Type} (ht : Tended r h) (name : String)
    {op : Chain ι ε → Scene ε → α × Chain ι ε × Scene ε}
    (hop : ∀ (c : Chain ι ε) scene, c.Uses scene (op c scene).2.1 (op c scene).2.2) :
    Tended r (h.operate name op).2 := by
  unfold Host.operate
  split
  · exact ht
  next run hget =>
    exact ht.setChain hget rfl
      ((hop run.chain (h.world.scene (h.ledger run.ledger))).tended
        (ht.backstage.perm (holding_of_get r.current hget)))

theorem Tended.extend (ht : Tended r h) (chain : Nat) : Tended (r.extend chain h) h :=
  ⟨extend_tended (ht.tendedFor chain), ht.current⟩

theorem Tended.rebuild (ht : Tended r h) (name : String) :
    Tended (r.extend (r.current name) (h.rebuild name)) (h.rebuild name) := by
  unfold Host.rebuild
  split
  · exact ht.extend _
  next run hget =>
    have hb := h.builder.rebuild_tended run.chain (h.ledger run.ledger)
      (ht.backstage.perm (holding_of_get r.current hget))
    exact ht.setChain hget rfl (extend_tended hb)

theorem Tended.change (ht : Tended r h) (name : String) (change : Config.Change) :
    Tended (r.extend (r.current name) (h.handleChange name change).2)
      (h.handleChange name change).2 := by
  unfold Host.handleChange
  split
  · exact ht.extend _
  next run hget =>
    have hb := h.builder.handleChange_tended change run.chain
      (h.ledger run.ledger) (ht.backstage.perm (holding_of_get r.current hget))
    exact ht.setChain hget rfl (extend_tended hb)

theorem Tended.elsewhere (ht : Tended r h) {es : List (Event ε)} (hchains : h'.chains = h.chains)
    (hbirths : h'.births = h.births) (hevents : h'.events = h.events ++ es)
    (hes : ∀ e ∈ es, e.Among fun _ => False) : Tended r h' := by
  refine ⟨?_, ?_⟩
  all_goals rw [hchains]
  · exact ht.backstage.noted hevents hbirths fun e he => (hes e he).mono nofun
  · exact ht.current

/-- Letting a ledger react is such a thing. -/
theorem Step.of_react (r : Roster) (h : Host ι ε) (ledger : String) (token : Token) :
    Step r h r (h.react ledger token).2 := by
  obtain ⟨es, hjournal, hbirths, hes⟩ := h.world.react_journal (h.ledger ledger) token
  exact .elsewhere rfl hbirths hjournal hes

/-! ## Runs -/

/-- Whatever a host does, it goes on holding the stages of its chains, and no others. -/
theorem Step.tended (hs : Step r h r' h') (ht : Tended r h) : Tended r' h' := by
  cases hs with
  | build hbuild => exact ht.build hbuild
  | fail hbuild => exact ht.fail hbuild
  | browse _ _ url => exact ht.browse url
  | operate _ _ name hop => exact ht.operate name hop
  | rebuild _ _ name => exact ht.rebuild name
  | change _ _ name change => exact ht.change name change
  | drop _ _ name => exact ht.drop name
  | elsewhere hchains hbirths hevents hes => exact ht.elsewhere hchains hbirths hevents hes

theorem Works.tended (hw : Works r h) : Tended r h := by
  induction hw with
  | @start h hchains hbirths hevents =>
    have hnone : holding Roster.empty.current h.chains = [] := by
      rw [hchains]
      rfl
    have horderly : Orderly h.events [] [] := by
      rw [hevents]
      exact .empty
    refine ⟨?_, fun name run hget => ?_⟩
    · rw [hnone]
      exact ⟨horderly, hbirths, nofun, nofun, .nil⟩
    · simp [hchains] at hget
  | step _ hs ih => exact hs.tended ih

/-! ## Lifetimes -/

/-- A stage with a number is part of a chain of a host. -/
def Keeps (h : Host ι ε) (id : Nat) : Prop :=
  ∃ (name : String) (run : Running ι ε), h.chains[name]? = some run ∧
    ∃ s ∈ run.chain.stages, ∃ e, s.engine = some e ∧ e.id = id

theorem keeps_iff (current : String → Nat) {id : Nat} :
    h.Keeps id ↔ IsHeld (holding current h.chains) id := by
  constructor
  · rintro ⟨name, run, hget, s, hs, e, he, rfl⟩
    refine ⟨⟨e.id, e.plugin.name, e.plugin.capabilities.destroy⟩, ?_, rfl⟩
    refine List.mem_flatMap.mpr ⟨_, mem_holding.mpr ⟨name, run, hget, rfl⟩, ?_⟩
    exact List.mem_filterMap.mpr ⟨s, hs, by rw [ticket?, he, Option.map_some]⟩
  · rintro ⟨t, ht, rfl⟩
    obtain ⟨g, hg, ht⟩ := List.mem_flatMap.mp ht
    obtain ⟨name, run, hget, rfl⟩ := mem_holding.mp hg
    obtain ⟨s, hs, hticket⟩ := List.mem_filterMap.mp ht
    obtain ⟨e, he, rfl⟩ := Option.map_eq_some_iff.mp hticket
    exact ⟨name, run, hget, s, hs, e, he, rfl⟩

namespace Works

variable {id : Nat}

theorem orderly (hw : Works r h) :
    Orderly h.events r.chainOf ((holding r.current h.chains).flatMap Holding.stages) :=
  hw.tended.backstage.orderly

/-- A stage that no chain keeps any more was destroyed once if its plugin is owed that. -/
theorem once (hw : Works r h) (hopened : .opened id true ∈ h.events) (hkeeps : ¬h.Keeps id) :
    h.events.countP (Event.destroys id) = 1 :=
  hw.orderly.destroyed_once hopened fun t ht heq => hkeeps ((keeps_iff r.current).mpr ⟨t, ht, heq⟩)

theorem not_yet (hw : Works r h) (hkeeps : h.Keeps id) :
    h.events.countP (Event.destroys id) = 0 := by
  obtain ⟨t, ht, rfl⟩ := (keeps_iff r.current).mp hkeeps
  rw [List.countP_eq_zero]
  intro e he
  rw [hw.orderly.not_destroyed_of_held ht he]
  exact Bool.false_ne_true

/-- The stages of a chain were set up for it, one behind the other. -/
theorem numbered (hw : Works r h) (hget : h.chains[name]? = some run) :
    (run.chain.stages.filterMap Stage.engine).Pairwise (fun e e' => e'.id < e.id) ∧
      ∀ s ∈ run.chain.stages, ∀ e, s.engine = some e →
        .opened e.id e.plugin.capabilities.destroy ∈ h.events ∧
          r.chainOf[e.id]? = some (r.current name) := by
  have hg : ⟨r.current name, tickets run.chain.stages⟩ ∈ holding r.current h.chains :=
    mem_holding.mpr ⟨name, run, hget, rfl⟩
  refine ⟨?_, fun s hs e he => ?_⟩
  · have hsorted := hw.tended.backstage.sorted _ hg
    have htickets : tickets run.chain.stages = (run.chain.stages.filterMap Stage.engine).map
        fun e => ⟨e.id, e.plugin.name, e.plugin.capabilities.destroy⟩ :=
      List.map_filterMap.symm
    rw [htickets, List.pairwise_map] at hsorted
    exact hsorted
  · have ht : (⟨e.id, e.plugin.name, e.plugin.capabilities.destroy⟩ : Ticket) ∈
        tickets run.chain.stages :=
      List.mem_filterMap.mpr ⟨s, hs, by rw [ticket?, he, Option.map_some]⟩
    exact ⟨(hw.orderly.opened_of_held (List.mem_flatMap.mpr ⟨_, hg, ht⟩)).1,
      hw.tended.backstage.own _ hg _ ht⟩

theorem dropAll (hw : Works r h) (names : List (String × Running ι ε)) :
    Works r (names.foldl (fun h x => h.dropChain x.1) h) := by
  induction names generalizing h with
  | nil => exact hw
  | cons x names ih => exact ih (hw.step (.drop r h x.1))

/-- A host that has shut down keeps nothing. -/
theorem shutDown_once (hw : Works r h) (hopened : .opened id true ∈ h.shutDown.events) :
    h.shutDown.events.countP (Event.destroys id) = 1 := by
  refine (hw.dropAll h.chains.toList).once hopened ?_
  rintro ⟨name, run, hget, -⟩
  obtain ⟨hkept, hmem⟩ := not_mem_of_dropAll h.chains.toList hget
  exact hmem (List.mem_map_of_mem (ExtTreeMap.mem_toList_iff_getElem?_eq_some.mpr hkept))

theorem build (hw : Works r h) (name ledger : String) (goals : List StreamType) (rehash : Bool)
    (url : Option String) (now : Int64) :
    ∃ r', Works r' (h.build name ledger goals rehash url now).2 := by
  rcases hrun : h.build name ledger goals rehash url now with ⟨e | c, h'⟩
  · exact ⟨_, hw.step (.fail hrun)⟩
  · exact ⟨_, hw.step (.build hrun)⟩

/-- **The end of every stage.** Whatever a host does, and whatever its plugins do: a stage whose
plugin wants to be told of its end has been destroyed once if no chain keeps it any more, and was
not destroyed yet if one does. Only stages that such a plugin has set up are destroyed, each under
a number of its own, nothing is done with a stage after that, and within a chain later stages are
destroyed first, which are those that stand behind the others. -/
theorem lifetimes (hw : Works r h) :
    (∀ id, .opened id true ∈ h.events →
        (h.Keeps id ∧ h.events.countP (Event.destroys id) = 0) ∨
          (¬h.Keeps id ∧ h.events.countP (Event.destroys id) = 1)) ∧
      (∀ plugin id, .destroy plugin id ∈ h.events →
        .opened id true ∈ h.events ∧ .opened id false ∉ h.events ∧
          ∃ order token, .init plugin id order token ∈ h.events) ∧
      (h.events.filterMap Event.asked?).Nodup ∧ (h.events.filterMap Event.opened?).Nodup ∧
      (∀ id, h.events.Pairwise fun e e' => e.destroys id = true → e'.concerns id = false) ∧
      (∀ past plugin id rest later, h.events = past ++ .destroy plugin id :: rest → id < later →
        r.chainOf[later]? = r.chainOf[id]? → .opened later true ∈ past →
          ∃ e ∈ past, e.destroys later = true) ∧
      ∀ (name : String) (run : Running ι ε), h.chains[name]? = some run →
        (run.chain.stages.filterMap Stage.engine).Pairwise (fun e e' => e'.id < e.id) ∧
          ∀ s ∈ run.chain.stages, ∀ e, s.engine = some e →
            .opened e.id e.plugin.capabilities.destroy ∈ h.events ∧
              r.chainOf[e.id]? = some (r.current name) := by
  refine ⟨fun id hopened => ?_, fun plugin id hdestroy => ?_,
    hw.orderly.asked_range ▸ List.nodup_range, hw.orderly.opened_nodup, hw.orderly.quiet,
    fun _ _ _ _ _ hsplit hlt hsame hopened => hw.orderly.later_first hsplit hlt hsame hopened,
    fun _ _ hget => hw.numbered hget⟩
  · by_cases hkeeps : h.Keeps id
    · exact .inl ⟨hkeeps, hw.not_yet hkeeps⟩
    · exact .inr ⟨hkeeps, hw.once hopened hkeeps⟩
  · obtain ⟨hopened, hinit⟩ := hw.orderly.opened_of_destroy hdestroy
    exact ⟨hopened, fun hfalse => Bool.noConfusion (hw.orderly.opened_unique hopened hfalse), hinit⟩

end Works

/-! ## A chain that is played and dropped -/

/-- A plugin that makes samples from streams of one media type, and wants to be told of the end of
its stages. -/
def mortal (name input : String) : Plugin Unit Unit where
  descriptor := { name, capabilities := { destroy := true }, inputs := [⟨.ofMime input, 1⟩] }
  init := do
    let _ ← Script.request (.setOutType (.ofMime StreamType.pcmMime))
    return .ok ()
  read _ _ := return (.ok (.ofBytes []), ())

/-- A host that opens urls as samples, and puts an effect behind them. -/
def cinema : Host Unit Unit :=
  ((Host.empty { maxStages := 4 } false).setRegistry
    ⟨[mortal "open" StreamType.urlMime, mortal "gain" StreamType.pcmMime]⟩).setConfig
      (Config.empty.register "effect.order.0" "gain")

def showing : Host Unit Unit :=
  (cinema.build "film" "facts" [.ofMime StreamType.pcmMime] false (some "memfile://film.raw") 0).2

/-- While a chain stands, another cannot be built, and nothing can be listed. -/
def crowded : Host Unit Unit :=
  ((showing.build "song" "facts" [.ofMime "audio/ogg"] false (some "memfile://song.raw") 0).2.browse
    "memfile://film.raw").2

/-- The chain is read to its end, its effects are replaced, and it is dropped. -/
def dark : Host Unit Unit :=
  let seen := (crowded.operate "film" fun c scene => c.drain (.blank 4) 2 scene).2
  ((seen.react "facts" 0).2.rebuild "film").dropChain "film"

/-- Whether a journal says that the stage with a number was set up for a plugin that wants to be
told of its end. -/
def notesOpened (id : Nat) (J : List (Event ε)) : Bool :=
  J.any fun
    | .opened id' owed => id' == id && owed
    | _ => false

theorem notesOpened_iff {id : Nat} {J : List (Event ε)} :
    notesOpened id J = true ↔ .opened id true ∈ J := by
  unfold notesOpened
  rw [List.any_eq_true]
  constructor
  · rintro ⟨e, he, hid⟩
    cases e <;> simp_all
  · exact fun h => ⟨_, h, by simp⟩

theorem works_dark : ∃ r, Works r dark := by
  unfold dark crowded showing
  obtain ⟨_, hshowing⟩ := (Works.start rfl rfl rfl : Works .empty cinema).build "film" "facts"
    [.ofMime StreamType.pcmMime] false (some "memfile://film.raw") 0
  obtain ⟨_, hfailed⟩ := hshowing.build "song" "facts" [.ofMime "audio/ogg"] false
    (some "memfile://song.raw") 0
  have hcrowded := hfailed.step (.browse _ _ "memfile://film.raw")
  have hseen := hcrowded.step
    (.operate _ _ "film" fun c scene => Chain.Uses.none.drain (Window.blank 4) 2)
  have hrebuilt := (hseen.step (.of_react _ _ "facts" 0)).step (.rebuild _ _ "film")
  exact ⟨_, hrebuilt.step (.drop _ _ "film")⟩

/-- Seven stages were set up in the course of that, and each has been destroyed once. -/
theorem dark_lifetimes :
    ∃ r, Works r dark ∧ dark.chains.isEmpty = true ∧ dark.births = 7 ∧
      ∀ id < dark.births, .opened id true ∈ dark.events ∧
        dark.events.countP (Event.destroys id) = 1 := by
  have hempty : dark.chains.isEmpty = true := by decide +kernel
  have hbirths : dark.births = 7 := by decide +kernel
  have hnoted : ∀ id < 7, notesOpened id dark.events = true := by decide +kernel
  obtain ⟨r, hw⟩ := works_dark
  obtain ⟨honce, -⟩ := hw.lifetimes
  refine ⟨r, hw, hempty, hbirths, fun id hid => ?_⟩
  rw [hbirths] at hid
  have hopened := notesOpened_iff.mp (hnoted id hid)
  refine ⟨hopened, ?_⟩
  rcases honce id hopened with ⟨⟨name, run, hget, -⟩, -⟩ | ⟨-, hdestroyed⟩
  · rw [ExtTreeMap.isEmpty_iff.mp hempty] at hget
    simp at hget
  · exact hdestroyed

end Host

end MediaChain
