import Mathlib.Data.List.Nodup
import MediaChain.Proofs.Stage.Frame

/-!
# How long stages live

While stages are worked, set up and released, the journal is kept in order, where each chain holds
its stages with growing numbers from the url on (`Backstage.Tended`). Setting up a stage adds it to
those that its chain holds, unless it fails (`Stage.create_tended`); releasing stages tail first
takes them away (`Stage.releaseAll_tended`).
-/

namespace MediaChain

variable {ι ε : Type}

/-- What is held of a chain, tail first. -/
structure Holding where
  chain : Nat
  stages : List Ticket

/-- A stage with a number is held. -/
def IsHeld (held : List Holding) (id : Nat) : Prop :=
  ∃ t ∈ held.flatMap Holding.stages, t.id = id

namespace Stage

/-- The ticket of a stage that a plugin drives. -/
def ticket? (s : Stage ι ε) : Option Ticket :=
  s.engine.map fun e => ⟨e.id, e.plugin.name, e.plugin.capabilities.destroy⟩

def tickets (stages : List (Stage ι ε)) : List Ticket := stages.filterMap ticket?

variable {s s' : Stage ι ε} {ss ss' : List (Stage ι ε)}

theorem Same.ticket? (h : s.Same s') : s'.ticket? = s.ticket? := by
  have hmap := congrArg (Option.map fun x : Plugin ι ε × Nat =>
    (⟨x.2, x.1.name, x.1.capabilities.destroy⟩ : Ticket)) h.engine
  rw [Option.map_map, Option.map_map] at hmap
  exact hmap

theorem tickets_of_same (h : List.Forall₂ Same ss ss') : tickets ss' = tickets ss := by
  induction h with
  | nil => rfl
  | cons hs _ ih =>
    unfold tickets at ih ⊢
    rw [List.filterMap_cons, List.filterMap_cons, hs.ticket?, ih]

theorem tickets_of_engine {e : Engine ι ε} (he : s.engine = some e) (ss : List (Stage ι ε)) :
    tickets (s :: ss) = ⟨e.id, e.plugin.name, e.plugin.capabilities.destroy⟩ :: tickets ss :=
  List.filterMap_cons_some (by rw [ticket?, he, Option.map_some])

theorem tickets_of_no_engine (he : s.engine = none) (ss : List (Stage ι ε)) :
    tickets (s :: ss) = tickets ss :=
  List.filterMap_cons_none (by rw [ticket?, he, Option.map_none])

end Stage

/-! ## What is held of all chains -/

/-- The journal was kept in order, and each chain holds stages that were set up for it, the one that
was set up last first. -/
structure Backstage.Tended (chains : List Nat) (held : List Holding) (b : Backstage ε) : Prop where
  orderly : Orderly b.journal.toList chains (held.flatMap Holding.stages)
  births : b.births = chains.length
  own : ∀ h ∈ held, ∀ t ∈ h.stages, chains[t.id]? = some h.chain
  sorted : ∀ h ∈ held, h.stages.Pairwise fun t u => u.id < t.id
  distinct : (held.map Holding.chain).Nodup

/-- A plugin was asked to set up a stage and has not done so. -/
structure Backstage.Awaits (plugin : String) (id : Nat) (b : Backstage ε) : Prop where
  asked : ∃ order token, .init plugin id order token ∈ b.journal.toList
  unopened : ∀ owed, .opened id owed ∉ b.journal.toList

/-- What is written down while stages are worked keeps what holds of the journal. -/
theorem Scene.covers_of_record {I : Nat → Prop} {P : Backstage ε → Prop}
    (hP : ∀ b e, e.Among I → P b → P (b.record e)) :
    Scene.Covers I fun s s' => P s.backstage → P s'.backstage := by
  refine ⟨fun _ => id, fun h h' => h' ∘ h, fun h => ?_⟩
  cases h with
  | record hamong => exact hP _ _ hamong
  | fact => exact id

namespace Backstage

variable {chains : List Nat} {held held' : List Holding} {b : Backstage ε} {chain id : Nat}
  {ts : List Ticket} {others : List Holding} {p : Plugin ι ε} {plugin : String} {e : Event ε}

theorem toList_record (b : Backstage ε) (e : Event ε) :
    (b.record e).journal.toList = b.journal.toList ++ [e] := Array.toList_push

theorem Awaits.record (h : b.Awaits plugin id) (he : ∀ owed, .opened id owed ≠ e) :
    (b.record e).Awaits plugin id := by
  obtain ⟨⟨order, token, hinit⟩, hun⟩ := h
  refine ⟨⟨order, token, ?_⟩, fun owed hmem => ?_⟩
  · rw [toList_record]
    exact List.mem_append_left _ hinit
  · rw [toList_record] at hmem
    rcases List.mem_append.mp hmem with hmem | hmem
    · exact hun owed hmem
    · exact he owed (List.mem_singleton.mp hmem)

namespace Tended

/-- Nothing else matters than the journal and the number of attempts. -/
theorem noted {b' : Backstage ε} {es : List (Event ε)} (h : b.Tended chains held)
    (hjournal : b'.journal.toList = b.journal.toList ++ es) (hbirths : b'.births = b.births)
    (hes : ∀ e ∈ es, e.Among (IsHeld held)) : b'.Tended chains held := by
  refine ⟨?_, hbirths.trans h.births, h.own, h.sorted, h.distinct⟩
  rw [hjournal]
  exact h.orderly.worked_all hes

theorem record (h : b.Tended chains held) (he : e.Among (IsHeld held)) :
    (b.record e).Tended chains held :=
  h.noted (toList_record b e) rfl (List.forall_mem_singleton.mpr he)

theorem perm (h : b.Tended chains held) (hperm : held.Perm held') : b.Tended chains held' :=
  ⟨h.orderly.perm (hperm.flatMap_right _), h.births, fun g hg => h.own g (hperm.mem_iff.mpr hg),
    fun g hg => h.sorted g (hperm.mem_iff.mpr hg), (hperm.map _).nodup_iff.mp h.distinct⟩

/-- A chain of which nothing is held yet. -/
theorem add (h : b.Tended chains held) (hfresh : chain ∉ held.map Holding.chain) :
    b.Tended chains (⟨chain, []⟩ :: held) :=
  ⟨h.orderly, h.births, List.forall_mem_cons.mpr ⟨nofun, h.own⟩,
    List.forall_mem_cons.mpr ⟨.nil, h.sorted⟩, List.nodup_cons.mpr ⟨hfresh, h.distinct⟩⟩

/-- A chain of which nothing is held any more. -/
theorem remove (h : b.Tended chains (⟨chain, []⟩ :: held)) : b.Tended chains held :=
  ⟨h.orderly, h.births, (List.forall_mem_cons.mp h.own).2, (List.forall_mem_cons.mp h.sorted).2,
    (List.nodup_cons.mp h.distinct).2⟩

theorem lt_length (h : b.Tended chains (⟨chain, ts⟩ :: others)) {t : Ticket} (ht : t ∈ ts) :
    t.id < chains.length :=
  (List.getElem?_eq_some_iff.mp (h.own ⟨chain, ts⟩ List.mem_cons_self t ht)).1

/-- A plugin is asked to set up a stage. -/
theorem asked (h : b.Tended chains held) (plugin : String) (order : Nat) (token : Token)
    (chain : Nat) :
    ({ b with births := b.births + 1 }.record (.init plugin b.births order token)).Tended
      (chains ++ [chain]) held := by
  refine ⟨?_, ?_, fun g hg t ht => ?_, h.sorted, h.distinct⟩
  · rw [toList_record, h.births]
    exact h.orderly.asked plugin order token chain
  · rw [List.length_append, List.length_singleton, ← h.births]
    rfl
  · have hown := h.own g hg t ht
    rw [List.getElem?_append_left (List.getElem?_eq_some_iff.mp hown).1]
    exact hown

theorem awaits (h : b.Tended chains held) (plugin : String) (order : Nat) (token : Token) :
    ({ b with births := b.births + 1 }.record (.init plugin b.births order token)).Awaits plugin
      b.births := by
  refine ⟨⟨order, token, ?_⟩, fun owed hmem => ?_⟩
  · rw [toList_record]
    exact List.mem_append_right _ (List.mem_singleton_self _)
  · rw [toList_record] at hmem
    rcases List.mem_append.mp hmem with hmem | hmem
    · have hlt : b.births < _ := h.orderly.lt_of_concerns hmem (by simp [Event.concerns])
      exact Nat.lt_irrefl _ (h.births ▸ hlt)
    · simp at hmem

/-- The plugin has set up the stage behind the others of a chain. -/
theorem opened (h : b.Tended chains (⟨chain, ts⟩ :: others)) (hb : b.Awaits plugin id)
    (hid : chains[id]? = some chain) (hlast : ∀ t ∈ ts, t.id < id) (owed : Bool) :
    (b.record (.opened id owed)).Tended chains (⟨chain, ⟨id, plugin, owed⟩ :: ts⟩ :: others) := by
  obtain ⟨⟨order, token, hinit⟩, hfresh⟩ := hb
  refine ⟨?_, h.births, ?_, ?_, h.distinct⟩
  · rw [toList_record]
    exact h.orderly.opened owed hinit hfresh
  · obtain ⟨hown, hothers⟩ := List.forall_mem_cons.mp h.own
    exact List.forall_mem_cons.mpr ⟨List.forall_mem_cons.mpr ⟨hid, hown⟩, hothers⟩
  · obtain ⟨hsorted, hothers⟩ := List.forall_mem_cons.mp h.sorted
    exact List.forall_mem_cons.mpr ⟨List.pairwise_cons.mpr ⟨hlast, hsorted⟩, hothers⟩

/-- Of a chain, the stage behind the others is let go. -/
theorem farewell (h : b.Tended chains
      (⟨chain, ⟨id, p.name, p.capabilities.destroy⟩ :: ts⟩ :: others)) :
    (Stage.farewell p id b).Tended chains (⟨chain, ts⟩ :: others) := by
  obtain ⟨hown, hothers⟩ := List.forall_mem_cons.mp h.own
  obtain ⟨hid, hown⟩ := List.forall_mem_cons.mp hown
  obtain ⟨hsorted, hrest⟩ := List.forall_mem_cons.mp h.sorted
  obtain ⟨hlast, hsorted⟩ := List.pairwise_cons.mp hsorted
  have hlater : ∀ u ∈ ts ++ others.flatMap Holding.stages, chains[u.id]? = chains[id]? →
      u.id < id := by
    intro u hu hsame
    rcases List.mem_append.mp hu with hu | hu
    · exact hlast u hu
    · -- A stage of another chain cannot have been set up for this one.
      obtain ⟨g, hg, hu⟩ := List.mem_flatMap.mp hu
      rw [hothers g hg u hu, hid] at hsame
      have hmem := List.mem_map_of_mem (f := Holding.chain) hg
      rw [Option.some.inj hsame] at hmem
      exact absurd hmem (List.nodup_cons.mp h.distinct).1
  have horderly : Orderly (Stage.farewell p id b).journal.toList chains
      (ts ++ others.flatMap Holding.stages) := by
    unfold Stage.farewell
    split
    next howed =>
      rw [toList_record]
      exact h.orderly.destroyed howed hlater
    next hfree => exact h.orderly.forgotten (Bool.eq_false_iff.mpr hfree)
  refine ⟨horderly, ?_, List.forall_mem_cons.mpr ⟨hown, hothers⟩,
    List.forall_mem_cons.mpr ⟨hsorted, hrest⟩, h.distinct⟩
  rw [← h.births]
  unfold Stage.farewell
  split <;> rfl

/-- Working stages that are held keeps all this. -/
theorem covers (chains : List Nat) (held : List Holding) :
    Scene.Covers (ε := ε) (IsHeld held) fun s s' =>
      s.backstage.Tended chains held → s'.backstage.Tended chains held :=
  Scene.covers_of_record fun _ _ he h => h.record he

end Tended

/-- The same after some attempts to set up a stage of one of the chains. -/
def TendedFor (base : List Nat) (chain : Nat) (held : List Holding) (b : Backstage ε) : Prop :=
  ∃ attempts, b.Tended (base ++ List.replicate attempts chain) held

theorem Tended.tendedFor (h : b.Tended chains held) (chain : Nat) : b.TendedFor chains chain held :=
  ⟨0, by rwa [List.replicate_zero, List.append_nil]⟩

end Backstage

open Backstage (TendedFor)

/-- Among the stages that are held are those of a chain, tail first. -/
def Front.Tended (base : List Nat) (chain : Nat) (others : List Holding) (f : Front ι ε) : Prop :=
  f.scene.backstage.TendedFor base chain (⟨chain, Stage.tickets f.stages⟩ :: others)

/-- A stage that could be set up counts among those in front. -/
def Front.joined {ε' : Type} : Except ε' (Stage ι ε) × Front ι ε → Front ι ε
  | (.ok s, f) => ⟨s :: f.stages, f.scene⟩
  | (.error _, f) => f

namespace Stage

variable {base chains : List Nat} {chain : Nat} {others : List Holding} {f : Front ι ε}
  {b : Backstage ε}

/-! ## Working -/

theorem among_isHeld (chain : Nat) (ss : List (Stage ι ε)) (others : List Holding) :
    ∀ s ∈ ss, s.Among (IsHeld (⟨chain, tickets ss⟩ :: others)) := by
  intro s hs e he
  refine ⟨⟨e.id, e.plugin.name, e.plugin.capabilities.destroy⟩, ?_, rfl⟩
  rw [List.flatMap_cons]
  exact List.mem_append_left _
    (List.mem_filterMap.mpr ⟨s, hs, by rw [ticket?, he, Option.map_some]⟩)

/-- Working stages changes nothing of what is held. -/
theorem tended_of_keepsBy {α : Type} {op : StageOp ι ε α}
    (hop : ∀ {I : Nat → Prop} {Q : Scene ε → Scene ε → Prop}, Scene.Covers I Q → op.KeepsBy I Q)
    (s : Stage ι ε)
    (h : f.scene.backstage.Tended chains (⟨chain, tickets (s :: f.stages)⟩ :: others)) :
    (op s f).2.2.scene.backstage.Tended chains
      (⟨chain, tickets ((op s f).2.1 :: (op s f).2.2.stages)⟩ :: others) := by
  obtain ⟨hs, hf⟩ := List.forall_mem_cons.mp (among_isHeld chain (s :: f.stages) others)
  obtain ⟨hsame, hstages, hscene⟩ := hop (Backstage.Tended.covers chains _) s f hs hf
  rw [tickets_of_same (.cons hsame hstages)]
  exact hscene h

/-! ## Setting up -/

/-- While a plugin sets up a stage, those in front are worked and nothing else happens. -/
theorem firstRun_keeps (p : Plugin ι ε) (settings : Settings) (goals : List StreamType)
    {I : Nat → Prop} {P : Backstage ε → Prop} (hf : ∀ s ∈ f.stages, s.Among I)
    (hP : ∀ b e, e.Among I → P b → P (b.record e))
    (hb : P (firstBench p f).front.scene.backstage) :
    List.Forall₂ Same f.stages (firstRun p settings goals f).2.front.stages ∧
      P (firstRun p settings goals f).2.front.scene.backstage := by
  have hleads : (firstBench p f).front.LeadsBy (fun s s' => P s.backstage → P s'.backstage)
      (firstRun p settings goals f).2.front :=
    firstRun_leadsBy (Scene.covers_of_record hP) hf
  exact ⟨hleads.stages, hleads.scene hb⟩

/-- What is held after a plugin was asked to set up a stage behind those of a chain, whatever it has
done so far. -/
theorem firstRun_tended (p : Plugin ι ε) (settings : Settings) (goals : List StreamType)
    (h : f.Tended base chain others) :
    ∃ attempts,
      (firstRun p settings goals f).2.front.scene.backstage.Tended
          (base ++ List.replicate attempts chain)
          (⟨chain, tickets (firstRun p settings goals f).2.front.stages⟩ :: others) ∧
        (firstRun p settings goals f).2.front.scene.backstage.Awaits p.name
          f.scene.backstage.births ∧
        (base ++ List.replicate attempts chain)[f.scene.backstage.births]? = some chain ∧
        ∀ t ∈ tickets (firstRun p settings goals f).2.front.stages,
          t.id < f.scene.backstage.births := by
  obtain ⟨attempts, h⟩ := h
  have hgrow : base ++ List.replicate attempts chain ++ [chain] =
      base ++ List.replicate (attempts + 1) chain := by
    rw [List.append_assoc, List.replicate_succ']
  have hasked := h.asked p.name (nextOrder f.stages) (nextToken f.stages) chain
  rw [hgrow] at hasked
  obtain ⟨hsame, htended, hawaits⟩ := firstRun_keeps p settings goals
    (among_isHeld chain f.stages others)
    (P := fun b => b.Tended (base ++ List.replicate (attempts + 1) chain)
      (⟨chain, tickets f.stages⟩ :: others) ∧ b.Awaits p.name f.scene.backstage.births)
    (fun b e he hb => ⟨hb.1.record he, hb.2.record (he.ne_opened _)⟩)
    ⟨hasked, h.awaits _ _ _⟩
  rw [tickets_of_same hsame]
  refine ⟨attempts + 1, htended, hawaits, ?_, fun t ht => ?_⟩
  · rw [← hgrow, h.births, List.getElem?_concat_length]
  · rw [h.births]
    exact h.lt_length ht

/-- If a stage can be set up it is held from then on, and else nothing more is held. -/
theorem create_tended (p : Plugin ι ε) (settings : Settings) (goals : List StreamType)
    (h : f.Tended base chain others) :
    (Front.joined (create p settings goals f)).Tended base chain others := by
  obtain ⟨attempts, hrun, hawaits, hid, hlast⟩ := firstRun_tended p settings goals h
  have hopened := hrun.opened hawaits hid hlast p.capabilities.destroy
  rcases create_cases p settings goals f with
    ⟨e, -, heq⟩ | ⟨state, -, -, heq⟩ | ⟨state, outType, -, heq⟩
  · rw [heq]
    exact ⟨attempts, hrun⟩
  · rw [heq]
    exact ⟨attempts, hopened.farewell⟩
  · rw [heq]
    exact ⟨attempts, hopened⟩

/-- A stage is written down as opened if its plugin has set it up, and else it is not; it is owed a
`destroy` if the plugin wants one. -/
theorem create_opened (p : Plugin ι ε) (settings : Settings) (goals : List StreamType)
    (h : f.Tended base chain others) (owed : Bool) :
    .opened f.scene.backstage.births owed ∈
        (create p settings goals f).2.scene.backstage.journal.toList ↔
      owed = p.capabilities.destroy ∧ ∃ state, (firstRun p settings goals f).1 = .ok state := by
  obtain ⟨-, -, hawaits, -, -⟩ := firstRun_tended p settings goals h
  have hopened : .opened f.scene.backstage.births owed ∈
      (opened p settings goals f).scene.backstage.journal.toList ↔
        owed = p.capabilities.destroy := by
    unfold opened Front.record Scene.record
    rw [Backstage.toList_record, List.mem_append, List.mem_singleton, Event.opened.injEq]
    simp [hawaits.unopened owed]
  rcases create_cases p settings goals f with
    ⟨e, hrun, heq⟩ | ⟨state, hrun, -, heq⟩ | ⟨state, outType, hrun, heq⟩
  · rw [heq, hrun]
    simpa using hawaits.unopened owed
  · rw [heq, hrun, ← hopened]
    unfold farewell
    split
    · dsimp only
      rw [Backstage.toList_record]
      simp
    · simp
  · rw [heq, hrun, ← hopened]
    simp

/-! ## Releasing -/

theorem release_tended {s : Stage ι ε} {ss : List (Stage ι ε)}
    (h : b.Tended chains (⟨chain, tickets (s :: ss)⟩ :: others)) :
    (s.release b).Tended chains (⟨chain, tickets ss⟩ :: others) := by
  unfold release
  split
  next e he =>
    rw [tickets_of_engine he] at h
    exact h.farewell
  next he =>
    rw [tickets_of_no_engine he] at h
    exact h

/-- Stages that are released are held no more. -/
theorem releaseAll_tended {ss rest : List (Stage ι ε)}
    (h : b.Tended chains (⟨chain, tickets (ss ++ rest)⟩ :: others)) :
    (releaseAll ss b).Tended chains (⟨chain, tickets rest⟩ :: others) := by
  unfold releaseAll
  induction ss generalizing b with
  | nil => exact h
  | cons s ss ih => exact ih (release_tended h)

/-- Nothing is held of a chain of which all stages were released. -/
theorem releaseAll_tended_nil {ss : List (Stage ι ε)}
    (h : b.Tended chains (⟨chain, tickets ss⟩ :: others)) :
    (releaseAll ss b).Tended chains others := by
  rw [← List.append_nil ss] at h
  exact (releaseAll_tended h).remove

end Stage

end MediaChain
