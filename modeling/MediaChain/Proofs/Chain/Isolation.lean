import MediaChain.Proofs.Chain.Places
import MediaChain.Proofs.Chain.Tokens
import MediaChain.Proofs.Facts.Isolation

/-!
# What the stages of a chain can do to each other

A chain that was built on a ledger, say after a reset (`Chain.Shares.of_reset`), uses issued tokens
only, and so it does however it is used and rebuilt and whatever others write to the ledger, as long
as they do not reset it (`Chain.Shares.issued`). So at any time, and whatever is done with facts
from then on, the writes of its later stages do not change what earlier ones read
(`Chain.Shares.unnoticed`).
-/

namespace MediaChain

open Facts

variable {ι ε : Type}

/-! ## Issued tokens -/

/-- The tokens that stages and facts have were issued. -/
structure Front.Bounded (f : Front ι ε) : Prop where
  stages : f.Issued
  facts : f.scene.log.Bounded

namespace Front

variable {f f' : Front ι ε}

/-- Work that raises horizons gives new facts tokens within them. -/
theorem Bounded.rises (hf : f.Bounded) (h : f.Rises f') : f'.Bounded := by
  refine ⟨h.within hf.stages, fun fact hfact => ?_⟩
  obtain ⟨gained, hfacts, hstated⟩ := h.stated
  rw [hfacts] at hfact
  rcases List.mem_append.mp hfact with hfact | hfact
  · exact Nat.le_trans (hf.facts fact hfact) h.issued
  · obtain ⟨s, hs, -, -, hle⟩ := hstated fact hfact
    exact Nat.le_trans hle (h.within hf.stages s hs)

end Front

/-! ## Building -/

namespace Stage

variable {f : Front ι ε}

/-- The plugin of a new stage uses issued tokens only, even if it fails. -/
theorem create_bounded (p : Plugin ι ε) (settings : Settings) (goals : List StreamType)
    (hf : f.Bounded) : (Front.joined (create p settings goals f)).Bounded := by
  -- Any stage with the right name and order will do at the desk.
  let s : Stage ι ε := { ofUrl settings goals "" with post := firstPost p settings goals f }
  have hbegin : ((firstBench p f).seat s).Bounded := by
    refine ⟨List.forall_mem_cons.mpr ⟨?_, hf.stages⟩, hf.facts⟩
    obtain ⟨_ | ⟨u, rest⟩, scene⟩ := f
    · exact Nat.zero_le _
    · exact hf.stages u List.mem_cons_self
  obtain ⟨hissued, hfacts⟩ := hbegin.rises (firstRun_rises p settings goals f rfl)
  obtain ⟨hdesk, hfront⟩ := List.forall_mem_cons.mp hissued
  obtain ⟨hlog, hleft⟩ := create_left p settings goals f
  refine ⟨fun t ht => ?_, hlog ▸ hfacts⟩
  rw [hlog]
  rcases hleft t ht with ht | ht
  · exact hfront t ht
  · rw [Stage.token, ht]
    exact hdesk

theorem recordFact_bounded {s : Stage ι ε} (hf : (f.push s).Bounded) (key : String)
    (value : Value) :
    ((⟨f.stages, { f.scene with log := (s.recordFact f.scene.log key value).2 }⟩ :
      Front ι ε).push (s.recordFact f.scene.log key value).1).Bounded :=
  hf.rises ((⟨s.desk, some s.outType, f⟩ : Bench ι ε).recordFact_rises s key value)

end Stage

namespace Builder

theorem keeps_bounded (b : Builder ι ε) (goals : List StreamType) :
    b.Keeps goals Front.Bounded where
  create _ _ _ hf := Stage.create_bounded _ b.settings goals hf
  record key value hf := Stage.recordFact_bounded (f := ⟨_, _⟩) hf key value
  switch _ hf := ⟨hf.stages, hf.facts⟩

theorem start_bounded (b : Builder ι ε) (goals : List StreamType) (url decoded : String)
    {scene : Scene ε} (h : scene.log.Bounded) : (b.start goals url decoded scene).Bounded := by
  refine ⟨fun s hs => ?_, Ledger.seedArgs_invariant (fun _ _ _ h => h.append _ _ _ _ _) url h⟩
  obtain rfl := List.mem_singleton.mp hs
  exact Nat.zero_le _

end Builder

/-! ## Chains that share a ledger -/

namespace Chain

open Ensemble (Act run)

variable {c : Chain ι ε} {scene : Scene ε} {l : Ledger} {w : World ε}

/-- A chain and the scene it acts upon, after some builder has built it on a ledger, and possibly
after it was used and rebuilt by any builders. In between others may have written to the ledger, but
the tokens that were issued stay issued. -/
def Shares : Chain ι ε → Scene ε → Prop :=
  Career
    (fun c scene => ∃ (b : Builder ι ε) (goals : List StreamType) (l : Ledger),
      l.log.Bounded ∧ b.Makes goals l c scene)
    (fun _ => True)
    fun c scene c' scene' =>
      c' = c ∧ scene'.log.Bounded ∧ scene.log.lastToken ≤ scene'.log.lastToken

theorem dropEffects_bounded (h : Front.Bounded ⟨c.stages, scene⟩) :
    Front.Bounded ⟨(c.dropEffects scene.backstage).1.stages,
      ⟨scene.log, (c.dropEffects scene.backstage).2⟩⟩ :=
  ⟨fun s hs => h.stages s (List.mem_of_mem_drop hs), h.facts⟩

theorem Shares.bounded (h : Shares c scene) : Front.Bounded ⟨c.stages, scene⟩ := by
  induction h with
  | first h =>
    obtain ⟨b, goals, l, hlog, hmakes⟩ := h
    obtain ⟨scene', hkept, hfacts, hissued⟩ := hmakes.keeps (b.keeps_bounded goals)
      fun url decoded w => b.start_bounded goals url decoded hlog
    refine ⟨fun s hs => ?_, fun fact hfact => ?_⟩
    · rw [hissued]
      exact hkept.stages s hs
    · rw [hissued]
      rw [hfacts] at hfact
      exact hkept.facts fact hfact
  | use u _ ih => exact ih.rises (use_carries _ _ u).1
  | @rebuild b _ _ _ _ _ ih => exact (b.keeps_bounded _).rebuild (dropEffects_bounded ih)
  | aside h _ ih =>
    obtain ⟨rfl, hlog, hissued⟩ := h
    exact ⟨fun s hs => Nat.le_trans (ih.stages s hs) hissued, hlog⟩

/-- A chain that is built for an entry after the ledger was reset for it. -/
theorem Shares.of_reset {b : Builder ι ε} {goals : List StreamType} {rehash : Bool} {now : Int64}
    {entry : EntryId} {properties : List (String × Value)} {l' : Ledger} {w' : World ε}
    (h : b.build goals rehash now (l.reset entry properties) w = (.ok c, l', w')) :
    Shares c (w'.scene l') :=
  .first ⟨b, goals, _, Log.bounded_reset l entry properties, .forEntry h⟩

theorem Shares.lived (h : Shares c scene) : Lived c := by
  refine ⟨scene, h.mono (fun c scene hfirst => ?_) (fun _ => id) fun _ _ _ _ haside => haside.1⟩
  obtain ⟨b, goals, l, -, hmakes⟩ := hfirst
  exact ⟨b, goals, l, scene, hmakes⟩

/-- The stages of a chain use issued tokens only, and their orders grow from the url on. -/
theorem Shares.issued (h : Shares c (w.scene l)) :
    (⟨c.stages, l, w⟩ : Ensemble ι ε).Issued ∧
      (⟨c.stages, l, w⟩ : Ensemble ι ε).orders.Pairwise (· > ·) := by
  refine ⟨⟨h.bounded.facts, h.bounded.stages⟩, ?_⟩
  obtain ⟨⟨types, hchronicle⟩, -⟩ := h.lived.chronicle
  show (c.stages.map Stage.order).Pairwise (· > ·)
  rw [← List.pairwise_reverse, ← List.map_reverse, hchronicle.placed.orders]
  exact List.pairwise_lt_range

/-- **Stages of one chain.** Whatever was done with the facts of a chain since it was built, last
used or rebuilt, and whatever is done with them from then on: without the writes of the stages
behind an order, every stage up to that order is answered the same. -/
theorem Shares.unnoticed (h : Shares c (w.scene l)) (before acts : List Act) (i : Nat) :
    let e := (run before ⟨c.stages, l, w⟩).2
    (run (acts.filter fun act => !act.isBehind e.orders i) e).1.filter (·.order ≤ i) =
      (run acts e).1.filter (·.order ≤ i) := by
  obtain ⟨hissued, horders⟩ := h.issued
  obtain ⟨hissued, hkept⟩ := hissued.run horders before
  exact ((hissued.alike (hkept ▸ horders) i).run acts).symm

end Chain

end MediaChain
