import Mathlib.Data.Fintype.Card
import Std.Data.String.ToNat
import MediaChain.Proofs.Chain.Goals
import MediaChain.Proofs.Stage.Lifetimes

/-!
# The layout of a chain

What can be told of a chain from outside is its layout: the names of its stages, what they produce,
and whether plugins drive them (`Chain.layout`). A plugin is typed if what it makes of a stream is
settled by the type of the stream (`Plugin.Typed`), or by the types of all stages in front up to the
view that is taken of its failures (`Plugin.TypedBy`). With such plugins stages of one layout are
continued to stages of one layout, by negotiation (`Builder.decode_layout`) as well as by the
effects of configurations that list the same (`Builder.addEffects_layout`).
-/

namespace MediaChain

open Std

variable {ι ε κ : Type}

/-- What can be told of a stage from outside. -/
structure Sketch where
  name : String
  outType : StreamType
  driven : Bool

def Stage.sketch (s : Stage ι ε) : Sketch := ⟨s.name, s.outType, s.engine.isSome⟩

/-- What a plugin makes of a stream, if it takes it at all, is settled by the type of the stream. -/
def Plugin.Typed (settings : Settings) (p : Plugin ι ε) : Prop :=
  ∀ goals, ∃ choice : StreamType → Option StreamType, ∀ f : Front ι ε, f.stages ≠ [] →
    (Stage.create p settings goals f).1.toOption.map Stage.outType =
      choice (Chain.tailType f.stages)

/-- How something ended, if that is all that counts, and of an error what a view tells of it. -/
def ChainError.verdict {α : Type} (view : ChainError → κ) : Except ChainError α → Except κ Unit
  | .ok _ => .ok ()
  | .error e => .error (view e)

/-- What a plugin makes of streams, or how it fails to, is settled by the types of the streams; of
failures that holds up to what a view tells of them. -/
def Plugin.TypedBy (view : ChainError → κ) (settings : Settings) (p : Plugin ι ε) : Prop :=
  ∀ goals, ∃ choice : List StreamType → Except κ StreamType, ∀ f : Front ι ε, f.stages ≠ [] →
    ((Stage.create p settings goals f).1.map Stage.outType).mapError (fun e => view (.stage e)) =
      choice (f.stages.map Stage.outType)

theorem Plugin.Typed.typedBy {settings : Settings} {p : Plugin ι ε} (h : p.Typed settings) :
    p.TypedBy (fun _ => ()) settings := by
  intro goals
  obtain ⟨choice, hchoice⟩ := h goals
  refine ⟨fun types => (choice (types.head?.getD .untyped)).elim (.error ()) .ok, fun f hf => ?_⟩
  have htail : (f.stages.map Stage.outType).head?.getD .untyped = Chain.tailType f.stages := by
    rw [List.head?_map]
    rfl
  dsimp only
  rw [htail, ← hchoice f hf]
  cases (Stage.create p settings goals f).1 <;> rfl

theorem Scene.Steps.config {s s' : Scene ε} (h : s.Steps s') :
    s'.backstage.config = s.backstage.config := by
  induction h with
  | refl => rfl
  | tail _ hstep ih =>
    rw [← ih]
    cases hstep <;> rfl

/-! ## Layouts -/

namespace Chain

/-- What can be told of stages from outside. -/
def layout (stages : List (Stage ι ε)) : List Sketch := stages.map Stage.sketch

variable {ss ss' : List (Stage ι ε)}

theorem length_of_layout (h : layout ss = layout ss') : ss.length = ss'.length := by
  have hlength := congrArg List.length h
  simpa [layout] using hlength

theorem outTypes_of_layout (h : layout ss = layout ss') :
    ss.map Stage.outType = ss'.map Stage.outType := by
  have htypes := congrArg (List.map Sketch.outType) h
  rwa [layout, layout, List.map_map, List.map_map] at htypes

theorem tailType_of_layout (h : layout ss = layout ss') : tailType ss = tailType ss' := by
  unfold tailType
  rw [← List.head?_map, ← List.head?_map, outTypes_of_layout h]

/-- The url can be told from outside. -/
theorem urlOf_of_layout (h : layout ss = layout ss') : Builder.urlOf ss = Builder.urlOf ss' := by
  have hurl : ∀ ss : List (Stage ι ε), Builder.urlOf ss =
      ((ss.map Stage.outType).getLast?.bind (·.text? StreamType.urlKey)).getD "" := by
    intro ss
    rw [List.getLast?_map, Option.bind_map]
    rfl
  rw [hurl, hurl, outTypes_of_layout h]

theorem nil_of_layout (h : layout ss = layout ss') : ss = [] ↔ ss' = [] := by
  rw [← List.length_eq_zero_iff, length_of_layout h, List.length_eq_zero_iff]

/-- The names of the stages that plugins drive can be told from outside. -/
theorem driven_of_layout (h : layout ss = layout ss') :
    (driven ss).map Stage.name = (driven ss').map Stage.name := by
  have hnames : ∀ ss : List (Stage ι ε), (driven ss).map Stage.name =
      ((layout ss).reverse.filter Sketch.driven).map Sketch.name := by
    intro ss
    rw [layout, ← List.map_reverse, List.filter_map, List.map_map]
    rfl
  rw [hnames, hnames, h]

theorem layout_of_same (h : List.Forall₂ Stage.Same ss ss') : layout ss' = layout ss := by
  induction h with
  | nil => rfl
  | cons hs _ ih =>
    have hengine := congrArg Option.isSome hs.engine
    simp only [Option.isSome_map] at hengine
    simp only [layout, List.map_cons, Stage.sketch, Stage.name, hs.post, hs.outType, hengine]
    exact congrArg _ ih

end Chain

open Chain

/-! ## Setting up -/

namespace Stage

variable {p : Plugin ι ε} {settings : Settings} {goals : List StreamType} {f g : Front ι ε}
  {view : ChainError → κ}

theorem create_sketch {s : Stage ι ε} {f' : Front ι ε}
    (h : create p settings goals f = (.ok s, f')) : s.sketch = ⟨p.name, s.outType, true⟩ := by
  obtain ⟨state, bench, outType, -, rfl, -⟩ := create_ok h
  rfl

/-- A typed plugin does the same behind stages of one layout. -/
theorem create_layout (hp : p.TypedBy view settings) (goals : List StreamType)
    (hf : f.stages ≠ []) (h : layout f.stages = layout g.stages) :
    ChainError.verdict view ((create p settings goals f).1.mapError .stage) =
        ChainError.verdict view ((create p settings goals g).1.mapError .stage) ∧
      layout (Front.joined (create p settings goals f)).stages =
        layout (Front.joined (create p settings goals g)).stages := by
  obtain ⟨choice, hchoice⟩ := hp goals
  have hout := hchoice g ((nil_of_layout h).not.mp hf)
  rw [← outTypes_of_layout h, ← hchoice f hf] at hout
  rcases hcreate : create p settings goals f with ⟨e | s, f'⟩ <;>
    rcases hcreate' : create p settings goals g with ⟨e' | t, g'⟩
  all_goals
    have hf' := layout_of_same (create_same hcreate)
    have hg' := layout_of_same (create_same hcreate')
    rw [hcreate, hcreate'] at hout
  · have hview : view (.stage e') = view (.stage e) := Except.error.inj hout
    exact ⟨congrArg Except.error hview.symm, hf'.trans (h.trans hg'.symm)⟩
  · cases hout
  · cases hout
  · have htype : t.outType = s.outType := Except.ok.inj hout
    refine ⟨rfl, ?_⟩
    show s.sketch :: layout f'.stages = t.sketch :: layout g'.stages
    rw [create_sketch hcreate, create_sketch hcreate', htype, hf', hg', h]

end Stage

/-! ## Decoding -/

namespace Builder

variable {b : Builder ι ε} {goals : List StreamType} {f g : Front ι ε} {view : ChainError → κ}

theorem next_layout (hb : ∀ p ∈ b.registry.plugins, p.TypedBy view b.settings)
    (goals : List StreamType) (hf : f.stages ≠ []) (h : layout f.stages = layout g.stages) :
    ChainError.verdict view (b.next goals f).1 = ChainError.verdict view (b.next goals g).1 ∧
      layout (Front.joined (b.next goals f)).stages =
        layout (Front.joined (b.next goals g)).stages := by
  unfold next
  rw [length_of_layout h, tailType_of_layout h, urlOf_of_layout h]
  split
  · exact ⟨rfl, h⟩
  · dsimp only
    split
    · exact ⟨rfl, h⟩
    next p hp =>
      obtain ⟨priority, hleads⟩ := Registry.best?_eq_some_iff.mp hp
      have hcreate := Stage.create_layout (hb p hleads.mem) goals hf h
      generalize Stage.create p b.settings goals f = x at hcreate ⊢
      generalize Stage.create p b.settings goals g = y at hcreate ⊢
      obtain ⟨e | s, f'⟩ := x <;> obtain ⟨e' | t, g'⟩ := y
      all_goals exact hcreate

theorem negotiate_layout (hb : ∀ p ∈ b.registry.plugins, p.TypedBy view b.settings)
    (goals : List StreamType) (rounds : Nat) (hf : f.stages ≠ [])
    (h : layout f.stages = layout g.stages) :
    ChainError.verdict view (b.negotiate goals rounds f).1 =
        ChainError.verdict view (b.negotiate goals rounds g).1 ∧
      layout (b.negotiate goals rounds f).2.stages =
        layout (b.negotiate goals rounds g).2.stages := by
  induction rounds generalizing f g with
  | zero =>
    unfold negotiate
    rw [urlOf_of_layout h]
    exact ⟨rfl, h⟩
  | succ rounds ih =>
    obtain ⟨hverdict, hnext⟩ := next_layout hb goals hf h
    unfold negotiate
    rcases hnextf : b.next goals f with ⟨e | s, f'⟩ <;>
      rcases hnextg : b.next goals g with ⟨e' | t, g'⟩
    all_goals rw [hnextf, hnextg] at hverdict hnext
    · exact ⟨hverdict, hnext⟩
    · cases hverdict
    · cases hverdict
    · have htype : s.outType = t.outType := tailType_of_layout hnext
      dsimp only
      rw [htype]
      split
      · exact ⟨rfl, hnext⟩
      · exact ih (List.cons_ne_nil _ _) hnext

/-- What decodes a url can be told from the part of it before the arguments, and so can the reason
why nothing does. -/
theorem decode_layout (hb : ∀ p ∈ b.registry.plugins, p.TypedBy view b.settings)
    (goals : List StreamType) {url url' : String} (hbase : Url.base url = Url.base url')
    (hview : view (.malformedUrl url) = view (.malformedUrl url')) (scene scene' : Scene ε) :
    ((b.decode goals url scene).1.map layout).mapError view =
      ((b.decode goals url' scene').1.map layout).mapError view := by
  cases hdecoded : Url.decode? (Url.base url) with
  | none =>
    rw [decode_malformed goals scene hdecoded, decode_malformed goals scene' (hbase ▸ hdecoded)]
    exact congrArg Except.error hview
  | some decoded =>
    obtain ⟨hverdict, hlayout⟩ := negotiate_layout hb goals (b.settings.stageLimit + 1)
      (f := b.start goals url decoded scene) (g := b.start goals url' decoded scene')
      (List.cons_ne_nil _ _) rfl
    rw [decode_eq goals scene hdecoded, decode_eq goals scene' (hbase ▸ hdecoded)]
    rcases hf : b.negotiate goals (b.settings.stageLimit + 1) (b.start goals url decoded scene)
      with ⟨e | _, f'⟩ <;>
      rcases hg : b.negotiate goals (b.settings.stageLimit + 1)
        (b.start goals url' decoded scene') with ⟨e' | _, g'⟩
    all_goals rw [hf, hg] at hverdict hlayout
    · exact congrArg Except.error (Except.error.inj hverdict)
    · cases hverdict
    · cases hverdict
    · refine congrArg Except.ok ?_
      show layout (recordFormat f').stages = layout (recordFormat g').stages
      rw [layout_of_same (recordFormat_leads f').stages,
        layout_of_same (recordFormat_leads g').stages, hlayout]

/-! ## Effects -/

theorem addEffect_layout (hb : ∀ p ∈ b.registry.plugins, p.TypedBy view b.settings)
    (goals : List StreamType) (name : String) (h : layout f.stages = layout g.stages) :
    layout (b.addEffect goals name f).2.stages = layout (b.addEffect goals name g).2.stages := by
  unfold addEffect
  cases hfind : b.registry.find? name with
  | none => exact h
  | some p =>
    have hp := hb p (List.mem_of_find?_eq_some hfind)
    dsimp only
    rw [length_of_layout h, tailType_of_layout h]
    by_cases hf : f.stages = []
    · simp only [hf, (nil_of_layout h).mp hf, decide_true, Bool.true_or, if_true]
      split <;> exact h
    · have hg := (nil_of_layout h).not.mp hf
      simp only [hf, hg, decide_false, Bool.false_or]
      split
      · exact h
      · split
        · exact h
        · have hcreate := (Stage.create_layout hp goals hf h).2
          generalize Stage.create p b.settings goals f = x at hcreate ⊢
          generalize Stage.create p b.settings goals g = y at hcreate ⊢
          obtain ⟨e | s, f'⟩ := x <;> obtain ⟨e' | t, g'⟩ := y
          all_goals exact hcreate

/-- The names that a configuration lists as effects, by number. -/
def listed (b : Builder ι ε) (config : Config) (index : Nat) : Option String :=
  config.lookup (b.settings.effectPath index)

theorem listed_of_values {config config' : Config} (h : config.values = config'.values) :
    b.listed config = b.listed config' := by
  funext index
  unfold listed Config.lookup
  rw [h]

/-- An effect that is added adds a switch to the configuration, and nothing to the list. -/
theorem addEffect_listed (b : Builder ι ε) (goals : List StreamType) (name : String)
    (f : Front ι ε) :
    b.listed (b.addEffect goals name f).2.scene.backstage.config =
      b.listed f.scene.backstage.config := by
  funext index
  rcases b.addEffect_cases goals name f with heq | ⟨p, -, -, -, hcreated⟩
  · rw [heq]
  · have hconfig := (Stage.create_leads p b.settings goals f).scene.config
    rcases hcreated with ⟨s, f', hs, heq⟩ | ⟨e, f', hs, heq⟩
    all_goals
      rw [hs] at hconfig
      rw [heq, ← hconfig]
      exact lookup_register_enabledPath _ _ index

theorem addEffects_listed (b : Builder ι ε) (goals : List StreamType) (f : Front ι ε) :
    b.listed (b.addEffects goals f).scene.backstage.config =
      b.listed f.scene.backstage.config :=
  addEffectsFrom_invariant
    (P := fun f' => b.listed f'.scene.backstage.config = b.listed f.scene.backstage.config)
    (fun name f' hf' => (b.addEffect_listed goals name f').trans hf') _ _ rfl

/-- A change at the path of an effect concerns effects. -/
theorem affectsEffects_effectPath (settings : Settings) (index : Nat) :
    settings.affectsEffects (settings.effectPath index) = true := by
  have hprefix : settings.effectOrderPrefix.toList.isPrefixOf
      (settings.effectPath index).toList = true := by
    rw [Settings.effectPath, String.toList_append, List.isPrefixOf_iff_prefix]
    exact List.prefix_append _ _
  rw [Settings.affectsEffects, hprefix, Bool.true_or]

/-- A change that does not concern effects leaves their list. -/
theorem listed_set (config : Config) {path : String} (value : String)
    (h : b.settings.affectsEffects path = false) :
    b.listed (config.set path value) = b.listed config := by
  funext index
  unfold Builder.listed
  rw [Config.lookup_set, if_neg]
  rintro rfl
  rw [affectsEffects_effectPath] at h
  cases h

theorem effectPath_injective (settings : Settings) : settings.effectPath.Injective := by
  intro i j h
  have hdigits : i.repr = j.repr := (String.append_right_inj _).mp h
  apply Option.some.inj
  rw [← Nat.toNat?_repr i, hdigits, Nat.toNat?_repr]

/-- Each number that is listed has a path of its own. -/
theorem le_size_of_listed {config : Config} {count : Nat}
    (h : ∀ i < count, b.listed config i ≠ none) : count ≤ config.values.size := by
  have hnodup : ((List.range count).map b.settings.effectPath).Nodup :=
    List.nodup_range.map (effectPath_injective b.settings)
  have hsubset : (List.range count).map b.settings.effectPath ⊆ config.values.keys := by
    intro path hpath
    obtain ⟨i, hi, rfl⟩ := List.mem_map.mp hpath
    rw [ExtTreeMap.mem_keys, ← ExtTreeMap.isSome_getElem?_iff_mem, Option.isSome_iff_ne_none]
    exact h i (List.mem_range.mp hi)
  have hle := hnodup.length_le_of_subset hsubset
  rwa [List.length_map, List.length_range, ExtTreeMap.length_keys] at hle

/-- There is a first number that is not listed. -/
theorem exists_gap (b : Builder ι ε) (config : Config) :
    ∃ last, b.listed config last = none ∧ ∀ i < last, b.listed config i ≠ none := by
  have hsome : ∃ last, b.listed config last = none := by
    by_contra hall
    have hle := le_size_of_listed fun i (_ : i < config.values.size + 1) => not_exists.mp hall i
    omega
  exact ⟨Nat.find hsome, Nat.find_spec hsome, fun i hi => Nat.find_min hsome hi⟩

theorem addEffectsFrom_of_none {rounds index : Nat}
    (h : b.listed f.scene.backstage.config index = none) :
    b.addEffectsFrom goals rounds index f = f := by
  cases rounds with
  | zero => rfl
  | succ rounds =>
    unfold addEffectsFrom
    rw [show f.scene.backstage.config.lookup (b.settings.effectPath index) = none from h]

theorem addEffectsFrom_of_some {rounds index : Nat} {name : String}
    (h : b.listed f.scene.backstage.config index = some name) :
    b.addEffectsFrom goals (rounds + 1) index f = b.addEffectsFrom goals rounds (index + 1)
      (if name = "" then f else (b.addEffect goals name f).2) := by
  rw [addEffectsFrom,
    show f.scene.backstage.config.lookup (b.settings.effectPath index) = some name from h]

/-- Rounds that come to a number that is not listed are enough, and more change nothing. -/
theorem addEffectsFrom_layout (hb : ∀ p ∈ b.registry.plugins, p.TypedBy view b.settings)
    (goals : List StreamType) {rounds rounds' index last : Nat}
    (h : layout f.stages = layout g.stages)
    (hlisted : b.listed f.scene.backstage.config = b.listed g.scene.backstage.config)
    (hlast : b.listed f.scene.backstage.config last = none) (hindex : index ≤ last)
    (hrounds : last ≤ index + rounds) (hrounds' : last ≤ index + rounds') :
    layout (b.addEffectsFrom goals rounds index f).stages =
      layout (b.addEffectsFrom goals rounds' index g).stages := by
  induction rounds generalizing rounds' index f g with
  | zero =>
    have hend : index = last := by omega
    rw [← hend] at hlast
    rw [addEffectsFrom_of_none hlast, addEffectsFrom_of_none (hlisted ▸ hlast)]
    exact h
  | succ rounds ih =>
    cases hname : b.listed f.scene.backstage.config index with
    | none =>
      rw [addEffectsFrom_of_none hname, addEffectsFrom_of_none (hlisted ▸ hname)]
      exact h
    | some name =>
      have hne : index ≠ last := by
        rintro rfl
        rw [hlast] at hname
        cases hname
      obtain ⟨rounds', rfl⟩ : ∃ n, rounds' = n + 1 := ⟨rounds' - 1, by omega⟩
      rw [addEffectsFrom_of_some hname, addEffectsFrom_of_some (hlisted ▸ hname)]
      by_cases hempty : name = ""
      · rw [if_pos hempty, if_pos hempty]
        exact ih h hlisted hlast (by omega) (by omega) (by omega)
      · rw [if_neg hempty, if_neg hempty]
        apply ih (addEffect_layout hb goals name h)
        · rw [addEffect_listed, addEffect_listed, hlisted]
        · rw [addEffect_listed, hlast]
        all_goals omega

/-- Configurations that list the same effects continue stages of one layout to stages of one
layout. -/
theorem addEffects_layout (hb : ∀ p ∈ b.registry.plugins, p.TypedBy view b.settings)
    (goals : List StreamType) (h : layout f.stages = layout g.stages)
    (hlisted : b.listed f.scene.backstage.config = b.listed g.scene.backstage.config) :
    layout (b.addEffects goals f).stages = layout (b.addEffects goals g).stages := by
  obtain ⟨last, hlast, hbefore⟩ := b.exists_gap f.scene.backstage.config
  have hsize := le_size_of_listed hbefore
  rw [hlisted] at hbefore
  have hsize' := le_size_of_listed hbefore
  exact addEffectsFrom_layout hb goals h hlisted hlast (Nat.zero_le _) (by omega) (by omega)

/-! ## What stays in front -/

/-- The configuration tells its subscribers nothing of the switches. -/
theorem addEffects_changes (b : Builder ι ε) (goals : List StreamType) (f : Front ι ε) :
    (b.addEffects goals f).scene.backstage.config.changes = f.scene.backstage.config.changes := by
  refine addEffectsFrom_invariant
    (P := fun f' => f'.scene.backstage.config.changes = f.scene.backstage.config.changes)
    (fun name f' hf' => ?_) _ _ rfl
  rw [← hf']
  rcases b.addEffect_cases goals name f' with heq | ⟨p, -, -, -, hcreated⟩
  · rw [heq]
  · have hconfig := (Stage.create_leads p b.settings goals f').scene.config
    rcases hcreated with ⟨s, f'', hs, heq⟩ | ⟨e, f'', hs, heq⟩
    all_goals
      rw [hs] at hconfig
      rw [heq, ← hconfig]
      rfl

end Builder

/-- Some stages stand in front of others, and may have been worked since. -/
def Chain.Upon (base ss : List (Stage ι ε)) : Prop :=
  ∃ added kept, ss = added ++ kept ∧ List.Forall₂ Stage.Same base kept

namespace Chain.Upon

variable {base ss ss' : List (Stage ι ε)}

theorem refl (base : List (Stage ι ε)) : Upon base base :=
  ⟨[], base, rfl, Front.LeadsBy.same_stages base⟩

theorem cons (h : Upon base ss) (s : Stage ι ε) : Upon base (s :: ss) := by
  obtain ⟨added, kept, rfl, hkept⟩ := h
  exact ⟨s :: added, kept, rfl, hkept⟩

theorem same (h : Upon base ss) (hsame : List.Forall₂ Stage.Same ss ss') : Upon base ss' := by
  obtain ⟨added, kept, rfl, hkept⟩ := h
  have hdrop := List.forall₂_drop added.length hsame
  rw [List.drop_left] at hdrop
  exact ⟨ss'.take added.length, ss'.drop added.length, (List.take_append_drop _ _).symm,
    Front.LeadsBy.trans_stages hkept hdrop⟩

theorem behind {base' : List (Stage ι ε)} (h : Upon base ss)
    (hbase : List.Forall₂ Stage.Same base' base) : Upon base' ss := by
  obtain ⟨added, kept, rfl, hkept⟩ := h
  exact ⟨added, kept, rfl, Front.LeadsBy.trans_stages hbase hkept⟩

theorem drop (h : Upon base ss) :
    List.Forall₂ Stage.Same base (ss.drop (ss.length - base.length)) := by
  obtain ⟨added, kept, rfl, hkept⟩ := h
  rwa [List.length_append, hkept.length_eq, Nat.add_sub_cancel, List.drop_left]

theorem addEffects (b : Builder ι ε) (goals : List StreamType) (f : Front ι ε) :
    Upon f.stages (b.addEffects goals f).stages := by
  refine Builder.addEffectsFrom_invariant (P := fun f' => Upon f.stages f'.stages)
    (fun name f' hf' => ?_) _ _ (refl _)
  rcases b.addEffect_cases goals name f' with
    heq | ⟨p, -, -, -, ⟨s, f'', hs, heq⟩ | ⟨e, f'', hs, heq⟩⟩
  · rw [heq]
    exact hf'
  · rw [heq]
    exact (hf'.same (Stage.create_same hs)).cons s
  · have hsame := Stage.create_same hs
    rw [heq]
    exact hf'.same hsame

end Chain.Upon

end MediaChain
