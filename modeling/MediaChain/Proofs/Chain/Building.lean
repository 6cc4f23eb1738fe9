import MediaChain.Chain.Build
import MediaChain.Proofs.Chain.Effects
import MediaChain.Proofs.Chain.Negotiation
import MediaChain.Proofs.Stage.Lifetimes

/-!
# What building keeps

Whatever chain is built, three things are done over and over: a plugin is asked to set up a stage
behind others, a fact is recorded for the tail, and an effect gets its switch. A property of stages
and their scene that each of these keeps (`Builder.Keeps`) holds from the stage for the url to the
last effect (`Builder.Keeps.buildFrom`), and of a chain that is rebuilt if it holds of its decoders
(`Builder.Keeps.rebuild`).
-/

namespace MediaChain

variable {ι ε : Type}

namespace Builder

/-- What is done while chains are built keeps a property of the stages and their scene. A plugin is
only asked if there is room and it takes what the tail produces. -/
structure Keeps (b : Builder ι ε) (goals : List StreamType) (P : Front ι ε → Prop) : Prop where
  create : ∀ {p f}, p ∈ b.registry.plugins → f.stages.length < b.settings.stageLimit →
    (p.claim (Chain.tailType f.stages)).isSome = true → P f →
      P (Front.joined (Stage.create p b.settings goals f))
  record : ∀ {tail rest scene} key value, P ⟨tail :: rest, scene⟩ →
    P ⟨(tail.recordFact scene.log key value).1 :: rest,
      { scene with log := (tail.recordFact scene.log key value).2 }⟩
  switch : ∀ {f} effect, P f → P ⟨f.stages, f.scene.switched effect⟩

namespace Keeps

variable {b : Builder ι ε} {goals : List StreamType} {P : Front ι ε → Prop} {f : Front ι ε}

/-- What stages keep while they are worked is kept while chains are built if every new stage keeps
it up. -/
theorem of_same {P : List (Stage ι ε) → Prop}
    (hsame : ∀ {ss ss'}, List.Forall₂ Stage.Same ss ss' → P ss → P ss')
    (hcons : ∀ {p f s f'}, f'.stages.length < b.settings.stageLimit →
      (p.claim (Chain.tailType f'.stages)).isSome = true →
        Stage.create p b.settings goals f = (.ok s, f') → P f'.stages → P (s :: f'.stages)) :
    b.Keeps goals fun f => P f.stages where
  create {p f} _ hroom hclaim hf := by
    rcases hcreate : Stage.create p b.settings goals f with ⟨e | s, f'⟩
    · exact hsame (Stage.create_same hcreate) hf
    · have hworked := Stage.create_same hcreate
      rw [hworked.length_eq] at hroom
      rw [← Stage.tailType_of_same hworked] at hclaim
      exact hcons hroom hclaim hcreate (hsame hworked hf)
  record {tail rest scene} key value hf := by
    have hrecorded : tail.Same (tail.recordFact scene.log key value).1 := ⟨rfl, rfl, rfl⟩
    exact hsame (.cons hrecorded (Front.LeadsBy.same_stages rest)) hf
  switch _ hf := hf

/-! ## Decoding -/

theorem next (hP : b.Keeps goals P) (hf : P f) : P (Front.joined (b.next goals f)) := by
  unfold Builder.next
  split
  · exact hf
  next hroom =>
    dsimp only
    split
    · exact hf
    next p hp =>
      obtain ⟨priority, hleads⟩ := Registry.best?_eq_some_iff.mp hp
      have hcreate := hP.create hleads.mem (Nat.lt_of_not_le hroom)
        (Option.isSome_of_eq_some hleads.1) hf
      rcases heq : Stage.create p b.settings goals f with ⟨_ | s, f'⟩
      all_goals
        rw [heq] at hcreate
        exact hcreate

theorem negotiate (hP : b.Keeps goals P) (rounds : Nat) (hf : P f) :
    P (b.negotiate goals rounds f).2 := by
  induction rounds generalizing f with
  | zero => exact hf
  | succ rounds ih =>
    have hnext := hP.next hf
    unfold Builder.negotiate
    rcases heq : b.next goals f with ⟨_ | s, f'⟩
    · rw [heq] at hnext
      exact hnext
    · rw [heq] at hnext
      dsimp only
      split
      · exact hnext
      · exact ih hnext

theorem recordFormat (hP : b.Keeps goals P) (hf : P f) : P (recordFormat f) :=
  recordFormat_invariant (fun _ _ _ => hP.record) hf

theorem decode (hP : b.Keeps goals P) {url : String} {scene scene' : Scene ε}
    {stages : List (Stage ι ε)}
    (hstart : ∀ decoded, Url.decode? (Url.base url) = some decoded →
      P (b.start goals url decoded scene))
    (h : b.decode goals url scene = (.ok stages, scene')) : P ⟨stages, scene'⟩ := by
  obtain ⟨decoded, f, hdecoded, hnegotiate, hrecord⟩ := decode_ok h
  have hf := hP.negotiate (b.settings.stageLimit + 1) (hstart decoded hdecoded)
  rw [hnegotiate] at hf
  rw [← hrecord]
  exact hP.recordFormat hf

/-! ## Effects -/

theorem addEffect (hP : b.Keeps goals P) (name : String) (hf : P f) :
    P (b.addEffect goals name f).2 := by
  rcases b.addEffect_cases goals name f with heq | ⟨p, hp, hroom, hclaim, hcreated⟩
  · rw [heq]
    exact hf
  · have hcreate := hP.create (List.mem_of_find?_eq_some hp) hroom hclaim hf
    rcases hcreated with ⟨s, f', hs, heq⟩ | ⟨e, f', hs, heq⟩
    all_goals
      rw [hs] at hcreate
      rw [heq]
      exact hP.switch name hcreate

theorem addEffects (hP : b.Keeps goals P) (hf : P f) : P (b.addEffects goals f) :=
  addEffectsFrom_invariant (fun name _ => hP.addEffect name) _ _ hf

/-! ## Whole chains -/

/-- A chain that could be built has what building keeps, before its ledger reacts and its playing
is accounted for. -/
theorem buildFrom (hP : b.Keeps goals P) {rehash : Bool} {now : Int64} {url : String}
    {l l' : Ledger} {w w' : World ε} {c : Chain ι ε}
    (hstart : ∀ decoded, Url.decode? (Url.base url) = some decoded →
      P (b.start goals url decoded (w.scene l)))
    (h : b.buildFrom goals rehash now url l w = (.ok c, l', w')) :
    ∃ scene, P ⟨c.stages, scene⟩ ∧
      b.finalize c now (w.absorb l scene).1 (w.absorb l scene).2 = (l', w') := by
  unfold Builder.buildFrom at h
  split at h
  next => simp at h
  next stages scene hdecode =>
    have hsegment := hP.addEffect b.settings.segmentPlugin (hP.decode hstart hdecode)
    simp only [Prod.mk.injEq, Except.ok.injEq] at h
    obtain ⟨rfl, hfinal⟩ := h
    refine ⟨_, ?_, hfinal⟩
    dsimp only [Chain.publish]
    split
    · exact hsegment
    · exact hP.addEffects hsegment

/-- A rebuild takes stages from the tail, and puts others there. -/
theorem rebuild {c : Chain ι ε} {l : Ledger} {w : World ε} (hP : b.Keeps c.goals P)
    (h : P ⟨(c.dropEffects w.backstage).1.stages, ⟨l.log, (c.dropEffects w.backstage).2⟩⟩) :
    P ⟨(b.rebuild c l w).1.stages, (b.rebuild c l w).2.2.scene (b.rebuild c l w).2.1⟩ :=
  hP.addEffects h

end Keeps

end Builder

end MediaChain
