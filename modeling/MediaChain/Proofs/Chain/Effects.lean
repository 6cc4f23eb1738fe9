import MediaChain.Chain.Effects
import MediaChain.Proofs.Stage.Life

/-!
# Effects that copy

If the configured effects copy what they read, putting them behind stages changes nothing of what
these supply (`Builder.addEffects_copied`). The switches that are added on the way are at other
paths than the effects (`Settings.effectPath_ne_enabledPath`).
-/

namespace MediaChain

variable {ι ε : Type} {n : Nat} {R : List (Stage ι ε) → Bytes → Prop} {rest : Bytes}

/-- The path of an effect ends with a digit, and that of a switch does not. -/
theorem Settings.effectPath_ne_enabledPath (s : Settings) (index : Nat) (effect : String) :
    s.effectPath index ≠ enabledPath effect := by
  intro h
  have hlist := congrArg String.toList h
  simp only [effectPath, enabledPath, enabledSuffix, String.toList_append, Nat.toString_eq_repr,
    Nat.toList_repr] at hlist
  have hlast := congrArg List.getLast? hlist
  have hdigits : (Nat.toDigits 10 index).getLast? =
      some ((Nat.toDigits 10 index).getLast Nat.toDigits_ne_nil) :=
    List.getLast?_eq_some_getLast _
  rw [List.getLast?_append, List.getLast?_append, hdigits, Option.some_or] at hlast
  have hd : (Nat.toDigits 10 index).getLast Nat.toDigits_ne_nil = 'd' := Option.some.inj hlast
  have hmem := List.getLast_mem (Nat.toDigits_ne_nil (n := index) (b := 10))
  rw [hd] at hmem
  exact absurd (Nat.isDigit_of_mem_toDigits (by decide) (by decide) hmem) (by decide)

/-! ## Adding effects -/

/-- A scene once an effect has its switch. -/
def Scene.switched (s : Scene ε) (effect : String) : Scene ε :=
  { s with
    backstage := { s.backstage with
      config := s.backstage.config.register (Settings.enabledPath effect) "0" } }

namespace Builder

variable {b : Builder ι ε} {goals : List StreamType} {f : Front ι ε}

/-- An effect is put behind the others, or tried in vain, or not tried at all. -/
theorem addEffect_cases (b : Builder ι ε) (goals : List StreamType) (name : String)
    (f : Front ι ε) :
    (b.addEffect goals name f).2 = f ∨
      ∃ p, b.registry.find? name = some p ∧ f.stages.length < b.settings.stageLimit ∧
        (p.claim (Chain.tailType f.stages)).isSome = true ∧
        ((∃ s f', Stage.create p b.settings goals f = (.ok s, f') ∧
            (b.addEffect goals name f).2 = ⟨s :: f'.stages, f'.scene.switched name⟩) ∨
          ∃ e f', Stage.create p b.settings goals f = (.error e, f') ∧
            (b.addEffect goals name f).2 = ⟨f'.stages, f'.scene.switched name⟩) := by
  unfold addEffect
  split
  · exact .inl rfl
  next p hp =>
    split
    · exact .inl rfl
    next hlimit =>
      split
      · exact .inl rfl
      next hclaim =>
        have hsome : (p.claim (Chain.tailType f.stages)).isSome = true := by
          cases hp : p.claim (Chain.tailType f.stages) <;> simp_all
        refine .inr ⟨p, hp, Nat.lt_of_not_le hlimit, hsome, ?_⟩
        rcases Stage.create p b.settings goals f with ⟨e | s, f'⟩
        · exact .inr ⟨e, f', rfl, rfl⟩
        · exact .inl ⟨s, f', rfl, rfl⟩

/-- What every single effect keeps, all of them keep. -/
theorem addEffectsFrom_invariant {P : Front ι ε → Prop}
    (h : ∀ name f, P f → P (b.addEffect goals name f).2) (rounds index : Nat) (hf : P f) :
    P (b.addEffectsFrom goals rounds index f) := by
  induction rounds generalizing index f with
  | zero => exact hf
  | succ rounds ih =>
    unfold addEffectsFrom
    split
    · exact hf
    next name _ =>
      apply ih
      split
      · exact hf
      · exact h name f hf

end Builder

/-! ## Copying -/

/-- A plugin whose stages give what they read, unchanged. -/
def Plugin.Copies (p : Plugin ι ε) : Prop := ∃ fit, p.Relays 0 fit ∧ p.Begins fit

/-- Behind stages with `R` stand stages that copy. -/
def Copied (R : List (Stage ι ε) → Bytes → Prop) (stages : List (Stage ι ε)) (rest : Bytes) :
    Prop :=
  ∃ count, Relayed R (List.replicate count 0) stages rest

theorem Passing.zero {p : Plugin ι ε} {state : ι} {front : List (Stage ι ε)}
    (h : Passing R 0 p state front rest) : R front rest := by
  obtain ⟨fit, input, -, -, hfront, rfl⟩ := h
  have hid : input.map (· ^^^ (0 : UInt8)) = input := by simp
  rwa [hid]

namespace Builder

variable {b : Builder ι ε} {goals : List StreamType} {name : String} {f : Front ι ε}

/-- The names that a configuration lists as effects: those before the first number without one. -/
def Lists (b : Builder ι ε) (config : Config) (name : String) : Prop :=
  ∃ index, config.lookup (b.settings.effectPath index) = some name ∧
    ∀ i < index, config.lookup (b.settings.effectPath i) ≠ none

/-- All effects that a configuration lists copy, as far as there are such plugins. -/
def Copying (b : Builder ι ε) (config : Config) : Prop :=
  ∀ name plugin, name ≠ "" → b.Lists config name → b.registry.find? name = some plugin →
    plugin.Copies

/-- Only the list of effects matters. -/
theorem Copying.congr {config config' : Config} (hcopy : b.Copying config)
    (hlookup : ∀ index, config'.lookup (b.settings.effectPath index) =
      config.lookup (b.settings.effectPath index)) : b.Copying config' := by
  rintro name plugin hne ⟨index, hname, hall⟩
  refine hcopy name plugin hne ⟨index, ?_, fun i hi => ?_⟩
  · rw [← hlookup index, hname]
  · rw [← hlookup i]
    exact hall i hi

theorem lookup_register_enabledPath (config : Config) (value : String) (index : Nat) :
    (config.register (Settings.enabledPath name) value).lookup (b.settings.effectPath index) =
      config.lookup (b.settings.effectPath index) := by
  rw [Config.lookup_register,
    if_neg fun h => b.settings.effectPath_ne_enabledPath index name h.1.symm]

/-- An effect that copies changes nothing of what is supplied, and nothing of the list of
effects. -/
theorem addEffect_copied (goals : List StreamType)
    (hcopy : ∀ plugin, b.registry.find? name = some plugin → plugin.Copies)
    (h : Copied R f.stages rest) :
    Copied R (b.addEffect goals name f).2.stages rest ∧
      ∀ index, (b.addEffect goals name f).2.scene.backstage.config.lookup
        (b.settings.effectPath index) =
          f.scene.backstage.config.lookup (b.settings.effectPath index) := by
  unfold addEffect
  split
  next => exact ⟨h, fun _ => rfl⟩
  next plugin hplugin =>
    split
    · exact ⟨h, fun _ => rfl⟩
    split
    · exact ⟨h, fun _ => rfl⟩
    obtain ⟨fit, hrelays, hbegins⟩ := hcopy plugin hplugin
    obtain ⟨hstages, hconfig⟩ := Stage.create_front hbegins b.settings goals f
    rcases hcreate : Stage.create plugin b.settings goals f with ⟨_ | s, f'⟩
    · rw [hcreate] at hstages hconfig
      refine ⟨?_, fun index => ?_⟩
      · show Copied R f'.stages rest
        rw [hstages]
        exact h
      · exact (lookup_register_enabledPath _ _ _).trans (by rw [hconfig])
    · rw [hcreate] at hconfig
      refine ⟨?_, fun index => ?_⟩
      · obtain ⟨count, hcount⟩ := h
        refine ⟨count + 1, ?_⟩
        show Stocked (Passing (Relayed R (List.replicate count 0)) 0) (s :: f'.stages) rest
        exact Stage.stocked_of_create hbegins
          (fun state hstate => ⟨fit, rest, hrelays, hstate, hcount, by simp⟩) hcreate
      · exact (lookup_register_enabledPath _ _ _).trans (by rw [hconfig])

theorem addEffectsFrom_copied (rounds index : Nat)
    (hcopy : b.Copying f.scene.backstage.config)
    (hbefore : ∀ i < index, f.scene.backstage.config.lookup (b.settings.effectPath i) ≠ none)
    (h : Copied R f.stages rest) :
    Copied R (b.addEffectsFrom goals rounds index f).stages rest := by
  induction rounds generalizing index f with
  | zero => exact h
  | succ rounds ih =>
    unfold addEffectsFrom
    split
    next => exact h
    next name hname =>
      have hbefore' : ∀ i < index + 1,
          f.scene.backstage.config.lookup (b.settings.effectPath i) ≠ none := by
        intro i hi
        rcases Nat.lt_succ_iff_lt_or_eq.mp hi with hi | rfl
        · exact hbefore i hi
        · rw [hname]
          exact Option.some_ne_none name
      by_cases hempty : name = ""
      · dsimp only
        rw [if_pos hempty]
        exact ih (index + 1) hcopy hbefore' h
      · dsimp only
        rw [if_neg hempty]
        obtain ⟨h', hlookup⟩ := addEffect_copied goals
          (fun plugin => hcopy name plugin hempty ⟨index, hname, hbefore⟩) h
        refine ih (index + 1) (hcopy.congr hlookup) (fun i hi => ?_) h'
        rw [hlookup i]
        exact hbefore' i hi

/-- Effects that copy change nothing of what is supplied. -/
theorem addEffects_copied (hcopy : b.Copying f.scene.backstage.config)
    (h : Copied R f.stages rest) : Copied R (b.addEffects goals f).stages rest :=
  addEffectsFrom_copied _ 0 hcopy (fun i hi => absurd hi (Nat.not_lt_zero i)) h

end Builder

end MediaChain
