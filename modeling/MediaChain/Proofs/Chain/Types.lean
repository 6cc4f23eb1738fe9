import MediaChain.Proofs.Chain.Following
import MediaChain.Proofs.Chain.Places
import MediaChain.Proofs.StreamType

/-!
# Types that are passed on

A plugin that declares no output type but that of the stage in front (`Script.CopiesType`) sets up
stages that produce the very type they read (`Stage.outType_of_copiesType`), whatever it asks for
besides. So what accepted the stage in front accepts the new one (`Builder.accepted_onward`).
-/

namespace MediaChain

variable {ι ε α : Type}

/-- A script declares no output type but by copying that of the stage in front. -/
inductive Script.CopiesType : Script ε α → Prop
  | done (a : α) : CopiesType (.done a)
  | ask {q : Request ε} {next : q.Answer → Script ε α} : (∀ type, q ≠ .setOutType type) →
    (∀ answer, CopiesType (next answer)) → CopiesType (.ask q next)
  | copy {next : Bool → Script ε α} :
    (∀ taken, CopiesType (next taken)) → CopiesType (Script.copyOutType >>= next)

/-! ## What is declared -/

namespace Stage

variable {tap : Tap ι ε} {post : Post} {ahead : Nat} {settingUp : Bool} {q : Request ε}
  {ss : List (Stage ι ε)} {b : Bench ι ε}

/-- The stages in front are still what they were, and if an output type is declared, it is theirs. -/
structure Copying (ss : List (Stage ι ε)) (b : Bench ι ε) : Prop where
  stages : List.Forall₂ Same ss b.front.stages
  declared : ∀ type, b.outType = some type → type = Chain.tailType ss

theorem Copying.answer (h : Copying ss b) (htap : tap.KeepsBy (fun _ => True) Scene.Steps)
    (hq : ∀ type, q ≠ .setOutType type) : Copying ss (answer tap post ahead settingUp q b).2 := by
  have hleads := answer_leadsBy (Scene.steps_covers fun _ => True) htap post ahead settingUp q b
    fun _ _ _ _ => trivial
  refine ⟨Front.LeadsBy.trans_stages h.stages hleads.stages, ?_⟩
  rw [answer_outType _ _ _ _ hq]
  exact h.declared

theorem Copying.copyOutType (h : Copying ss b) :
    Copying ss (Script.copyOutType.run (Stage.answer tap post ahead settingUp) b).2 := by
  obtain ⟨desk, outType, ⟨stages, scene⟩⟩ := b
  cases stages with
  | nil => exact h
  | cons t rest =>
    have htype : t.outType = Chain.tailType ss := tailType_of_same h.stages
    cases settingUp with
    | false => exact h
    | true =>
      refine ⟨h.stages, fun type hdeclared => ?_⟩
      rw [← htype]
      exact (Option.some.inj hdeclared).symm

theorem Copying.run {x : Script ε α} (hx : x.CopiesType)
    (htap : tap.KeepsBy (fun _ => True) Scene.Steps) (h : Copying ss b) :
    Copying ss (x.run (Stage.answer tap post ahead settingUp) b).2 := by
  induction hx generalizing b with
  | done a => exact h
  | ask hq _ ih => exact ih _ (h.answer htap hq)
  | copy _ ih =>
    rw [Script.run_bind]
    exact ih _ h.copyOutType

/-- A stage whose plugin copies the type of the stage in front produces that type. -/
theorem outType_of_copiesType {p : Plugin ι ε} (hp : p.init.CopiesType) {settings : Settings}
    {goals : List StreamType} {s : Stage ι ε} {f f' : Front ι ε}
    (h : create p settings goals f = (.ok s, f')) : s.outType = Chain.tailType f.stages := by
  have hbegun : Copying f.stages (firstBench p f) := ⟨Front.LeadsBy.same_stages _, nofun⟩
  have hdone : Copying f.stages (firstRun p settings goals f).2 :=
    hbegun.run hp (Tap.keepsBy_reaching (Scene.steps_covers fun _ => True) _)
  exact hdone.declared s.outType (create_declared h)

end Stage

/-! ## What is accepted -/

namespace Builder

/-- **What asks for less accepts no less.** Every type meets itself as a pattern. If a pattern
accepts a candidate, it does so without some of its parameters, with wildcards in place of texts and
numbers, and if the candidate has more parameters. So a stage whose plugin copies the type of the
stage in front is accepted wherever that one was, by patterns and by plugins, and what a stage
produces satisfies itself as a goal. -/
theorem accepted_onward :
    (∀ t : StreamType, t.accepts t = true) ∧
    (∀ p c : StreamType, p.accepts c = true →
      (∀ q : StreamType, q.Within p → q.accepts c = true) ∧
      (∀ d : StreamType, c.Within d → p.accepts d = true) ∧
      ∀ keys, (p.relax keys).accepts c = true) ∧
    (∀ (plugin : Plugin ι ε) (settings : Settings) (goals : List StreamType) (s : Stage ι ε)
        (f f' : Front ι ε),
      plugin.init.CopiesType → Stage.create plugin settings goals f = (.ok s, f') →
        (∀ p : StreamType, p.accepts (Chain.tailType f.stages) = true →
          p.accepts s.outType = true) ∧
        ∀ other : Plugin ι ε, other.claim s.outType = other.claim (Chain.tailType f.stages)) ∧
    ∀ (s : Stage ι ε) (goals : List StreamType), s.outType ∈ goals →
      reached goals s.outType = true := by
  refine ⟨StreamType.accepts_self, fun p c h => ⟨fun q hq => ?_, fun d hd => ?_, fun keys => ?_⟩,
    fun plugin settings goals s f f' hcopies hcreate => ?_, fun s goals hgoal => ?_⟩
  · exact StreamType.accepts_mono hq c.within_refl h
  · exact StreamType.accepts_mono p.within_refl hd h
  · exact StreamType.accepts_relax keys h
  · rw [Stage.outType_of_copiesType hcopies hcreate]
    exact ⟨fun p h => h, fun other => rfl⟩
  · exact List.any_eq_true.mpr ⟨s.outType, hgoal, StreamType.accepts_self s.outType⟩

theorem passing_copiesType (name : String) : (Follower.passing name).init.CopiesType :=
  .copy fun _ => .done _

/-- A url, with the mark in it that stands for any byte in a pattern. -/
def questioned : Front Unit Unit := ⟨[.ofUrl {} [] "mem:?"], ⟨.empty, .empty⟩⟩

/-- A pattern of samples in two channels still accepts them when it has wildcards only, and a stage
that passes a url on is accepted as one. -/
theorem accepted_onward_samples :
    let pattern := (StreamType.ofMime "audio/p?*").setInt StreamType.channelsKey 2
    let samples := StreamType.pcm (some .s16) (some 2) none
    pattern.accepts samples = true ∧ (pattern.relax fun _ => true).accepts samples = true ∧
      ∃ s f', Stage.create (Follower.passing "gain") {} [] questioned = (.ok s, f') ∧
        (StreamType.ofUrl "mem:*").accepts s.outType = true := by
  intro pattern samples
  obtain ⟨-, hmono, hcopies, -⟩ := accepted_onward (ι := Unit) (ε := Unit)
  have haccepts : pattern.accepts samples = true := by decide +kernel
  have hurl : (StreamType.ofUrl "mem:*").accepts (Chain.tailType questioned.stages) = true := by
    decide +kernel
  obtain ⟨s, f', hcreate⟩ :
      ∃ s f', Stage.create (Follower.passing "gain") {} [] questioned = (.ok s, f') := ⟨_, _, rfl⟩
  obtain ⟨hpatterns, -⟩ := hcopies _ _ _ s _ f' (passing_copiesType "gain") hcreate
  exact ⟨haccepts, (hmono _ _ haccepts).2.2 _, s, f', hcreate, hpatterns _ hurl⟩

end Builder

end MediaChain
