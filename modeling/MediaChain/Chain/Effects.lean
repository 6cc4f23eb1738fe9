import MediaChain.Chain.Negotiation

/-!
# Effects

The configuration lists effects by number. `Builder.addEffects` puts them behind the stages of a
chain, each on top of those before it; an effect that cannot be added is left out.
-/

namespace MediaChain

variable {ι ε : Type}

namespace Builder

/-- Puts an effect behind the tail; says whether it could. An effect that was tried gets a switch
in the configuration. -/
def addEffect (b : Builder ι ε) (goals : List StreamType) (name : String) (f : Front ι ε) :
    Bool × Front ι ε :=
  match b.registry.find? name with
  | none => (false, f)
  | some plugin =>
    if b.settings.stageLimit ≤ f.stages.length then (false, f)
    else if f.stages = [] || (plugin.claim (Chain.tailType f.stages)).isNone then (false, f)
    else
      let (result, f) := Stage.create plugin b.settings goals f
      let (added, stages) := match result with
        | .ok stage => (true, stage :: f.stages)
        | .error _ => (false, f.stages)
      let backstage := f.scene.backstage
      let config := backstage.config.register (Settings.enabledPath name) "0"
      (added, ⟨stages, { f.scene with backstage := { backstage with config } }⟩)

/-- Adds the effects from a number on, `rounds` at most, up to the first number without a name. -/
def addEffectsFrom (b : Builder ι ε) (goals : List StreamType) : Nat → Nat → Front ι ε →
    Front ι ε
  | 0, _, f => f
  | rounds + 1, index, f =>
    match f.scene.backstage.config.lookup (b.settings.effectPath index) with
    | none => f
    | some name =>
      let f := if name = "" then f else (b.addEffect goals name f).2
      addEffectsFrom b goals rounds (index + 1) f

/-- Adds the effects that are configured. Each has a path of its own, so there are no more than
configured values; the switches added on the way are at other paths. -/
def addEffects (b : Builder ι ε) (goals : List StreamType) (f : Front ι ε) : Front ι ε :=
  addEffectsFrom b goals (f.scene.backstage.config.values.size + 1) 0 f

end Builder

end MediaChain
