import MediaChain.Proofs.Chain.Layout

/-!
# The places of stages

Negotiation, the effect that collects metadata and the configured effects put stages behind others,
and a rebuild takes some away again. All that happens to the stages of a chain is written down in a
`Chain.Chronicle`, with what each stage declared to produce as it was set up. In every chronicle the
stages keep their places (`Chain.Placed`) and produce what they declared
(`Chain.Chronicle.outTypes`); so the orders of the stages of a chain are their positions
(`Chain.Lived.positions`).
-/

namespace MediaChain

variable {ι ε : Type}

/-! ## Places -/

namespace Chain

variable {s : Stage ι ε} {ss ss' : List (Stage ι ε)}

/-- Stages, tail first, of which the one in front has the order zero and no plugin. Each other one
has the number of those in front of it as its order, and its plugin takes what the nearest of them
produces. -/
inductive Placed : List (Stage ι ε) → Prop
  | url {s : Stage ι ε} : s.order = 0 → s.engine = none → Placed [s]
  | behind {s : Stage ι ε} {engine : Engine ι ε} {rest : List (Stage ι ε)} : Placed rest →
    rest.length < Settings.maxOrders → s.order = rest.length → s.engine = some engine →
      (engine.plugin.claim (tailType rest)).isSome = true → Placed (s :: rest)

theorem Placed.same (h : Placed ss) (hsame : List.Forall₂ Stage.Same ss ss') : Placed ss' := by
  induction h generalizing ss' with
  | url horder hengine =>
    obtain _ | ⟨hs, hnil⟩ := hsame
    cases hnil
    have hnone := hs.engine
    rw [hengine, Option.map_none, Option.map_eq_none_iff] at hnone
    exact .url ((congrArg Post.order hs.post).trans horder) hnone
  | behind _ hroom horder he hclaim ih =>
    obtain _ | ⟨hs, hrest⟩ := hsame
    obtain ⟨engine', he', hplugin⟩ := hs.plugin he
    refine .behind (ih hrest) (hrest.length_eq ▸ hroom) ?_ he' ?_
    · exact (congrArg Post.order hs.post).trans (horder.trans hrest.length_eq)
    · rw [Stage.tailType_of_same hrest, hplugin]
      exact hclaim

theorem Placed.ne_nil (h : Placed ss) : ss ≠ [] := by
  cases h <;> exact List.cons_ne_nil _ _

theorem Placed.length_le (h : Placed ss) : ss.length ≤ Settings.maxOrders := by
  cases h with
  | url => exact Nat.le_of_ble_eq_true rfl
  | behind _ hroom => exact hroom

theorem Placed.tail (h : Placed ss) (hlength : 1 < ss.length) : Placed ss.tail := by
  cases h with
  | url => exact absurd hlength (Nat.lt_irrefl 1)
  | behind hrest => exact hrest

/-- The orders of the stages are their positions. -/
theorem Placed.orders (h : Placed ss) :
    ss.reverse.map Stage.order = List.range ss.length := by
  induction h with
  | url horder => rw [List.reverse_singleton, List.map_singleton, horder]; rfl
  | behind _ _ horder _ _ ih =>
    rw [List.reverse_cons, List.map_append, ih, List.map_singleton, horder, List.length_cons,
      List.range_succ]

/-- The next stage gets an order of its own as long as there is one. -/
theorem Placed.nextOrder (h : Placed ss) (hroom : ss.length < Settings.maxOrders) :
    Stage.nextOrder ss = ss.length := by
  have hlast : ∀ {s : Stage ι ε} {rest : List (Stage ι ε)}, s.order = rest.length →
      (s :: rest).length < Settings.maxOrders →
        Stage.nextOrder (s :: rest) = (s :: rest).length := by
    intro s rest horder hroom
    rw [List.length_cons] at hroom
    rw [Stage.nextOrder, horder, List.length_cons]
    omega
  cases h with
  | url horder => exact hlast horder hroom
  | behind _ _ horder => exact hlast horder hroom

/-- A stage with a plugin has another one in front of it, and its plugin takes what that one
produces. -/
theorem Placed.claimed (h : Placed ss) {behind front : List (Stage ι ε)} {engine : Engine ι ε}
    (hstages : ss = behind ++ s :: front) (he : s.engine = some engine) :
    ∃ t rest, front = t :: rest ∧ (engine.plugin.claim t.outType).isSome = true := by
  induction h generalizing behind with
  | url _ hnone =>
    cases behind with
    | nil =>
      obtain ⟨rfl, -⟩ := List.cons.inj hstages
      rw [hnone] at he
      cases he
    | cons _ behind =>
      exact absurd (List.cons.inj hstages).2.symm (by simp)
  | @behind s' engine' rest hrest _ _ he' hclaim ih =>
    cases behind with
    | nil =>
      obtain ⟨rfl, rfl⟩ := List.cons.inj hstages
      obtain ⟨t, rest', rfl⟩ := List.exists_cons_of_ne_nil hrest.ne_nil
      cases he'.symm.trans he
      exact ⟨t, rest', rfl, hclaim⟩
    | cons _ behind => exact ih (List.cons.inj hstages).2

end Chain

/-! ## Chronicles -/

/-- A stage produces what was declared as it was set up. -/
theorem Stage.create_declared {p : Plugin ι ε} {settings : Settings} {goals : List StreamType}
    {f f' : Front ι ε} {s : Stage ι ε} (h : create p settings goals f = (.ok s, f')) :
    (firstRun p settings goals f).2.outType = some s.outType := by
  unfold create at h
  dsimp only at h
  split at h
  next => simp at h
  next =>
    split at h
    next => simp at h
    next outType hout =>
      simp only [Prod.mk.injEq, Except.ok.injEq] at h
      obtain ⟨rfl, -⟩ := h
      exact hout

namespace Chain

variable {c : Chain ι ε} {f : Front ι ε} {ss : List (Stage ι ε)} {types : List StreamType}

/-- What becomes of stages, tail first, and what each of them declared to produce as it was set up:
it is set up behind others, if there is room and its plugin takes what they produce, it is used, and
it is released before those in front of it. -/
inductive Chronicle : List (Stage ι ε) → List StreamType → Prop
  | url (settings : Settings) (goals : List StreamType) (url : String) :
    Chronicle [.ofUrl settings goals url] [.ofUrl url]
  | join {p : Plugin ι ε} {settings : Settings} {goals : List StreamType} {f f' : Front ι ε}
    {s : Stage ι ε} {type : StreamType} {types : List StreamType} : Chronicle f.stages types →
      f.stages.length < settings.stageLimit → (p.claim (tailType f.stages)).isSome = true →
        Stage.create p settings goals f = (.ok s, f') →
          (Stage.firstRun p settings goals f).2.outType = some type →
            Chronicle (s :: f'.stages) (type :: types)
  | refuse {p : Plugin ι ε} {settings : Settings} {goals : List StreamType} {f f' : Front ι ε}
    {e : StageError} {types : List StreamType} : Chronicle f.stages types →
      Stage.create p settings goals f = (.error e, f') → Chronicle f'.stages types
  | record {tail : Stage ι ε} {rest : List (Stage ι ε)} {types : List StreamType}
    (log : Facts.Log) (key : String) (value : Value) : Chronicle (tail :: rest) types →
      Chronicle ((tail.recordFact log key value).1 :: rest) types
  | use {c : Chain ι ε} {types : List StreamType} (scene : Scene ε) (u : Use) :
    Chronicle c.stages types → Chronicle (c.use scene u).2.1.stages types
  | release {ss : List (Stage ι ε)} {types : List StreamType} : Chronicle ss types →
    1 < ss.length → Chronicle ss.tail types.tail

/-- In every chronicle the stages produce what they declared. -/
theorem Chronicle.outTypes (h : Chronicle ss types) : ss.map Stage.outType = types := by
  induction h with
  | url => rfl
  | join _ _ _ hcreate hdeclared ih =>
    rw [List.map_cons, Stage.outTypes_of_same (Stage.create_same hcreate), ih,
      Option.some.inj ((Stage.create_declared hcreate).symm.trans hdeclared)]
  | refuse _ hcreate ih => rw [Stage.outTypes_of_same (Stage.create_same hcreate), ih]
  | record log key value _ ih => exact ih
  | use scene u _ ih => rw [Stage.outTypes_of_same (use_leads _ scene u).2.stages, ih]
  | release _ _ ih => rw [List.map_tail, ih]

/-- In every chronicle the stages keep their places. -/
theorem Chronicle.placed (h : Chronicle ss types) : Placed ss := by
  induction h with
  | url => exact .url rfl rfl
  | @join p settings goals f f' s _ _ _ hroom hclaim hcreate _ ih =>
    have hsame := Stage.create_same hcreate
    have hlength := hsame.length_eq
    obtain ⟨state, bench, outType, -, rfl, -⟩ := Stage.create_ok hcreate
    have hroom' : f.stages.length < Settings.maxOrders :=
      Nat.lt_of_lt_of_le hroom (Nat.min_le_right _ _)
    -- the orders are still distinct here: the limit on stages is met before an order is repeated
    refine .behind (ih.same hsame) (hlength ▸ hroom') ?_ rfl ?_
    · exact (ih.nextOrder hroom').trans hlength
    · rw [Stage.tailType_of_same hsame]
      exact hclaim
  | refuse _ hcreate ih => exact ih.same (Stage.create_same hcreate)
  | record log key value _ ih =>
    exact ih.same (.cons ⟨rfl, rfl, rfl⟩ (Front.LeadsBy.same_stages _))
  | use scene u _ ih => exact ih.same (use_leads _ scene u).2.stages
  | release _ hlength ih => exact ih.tail hlength

/-- Stages can be released as long as one stays. -/
theorem Chronicle.drop (h : Chronicle ss types) (count : Nat) (hlength : count < ss.length) :
    Chronicle (ss.drop count) (types.drop count) := by
  induction count with
  | zero => exact h
  | succ count ih =>
    rw [← List.tail_drop, ← List.tail_drop]
    refine (ih (Nat.lt_of_succ_lt hlength)).release ?_
    rw [List.length_drop]
    omega

/-- A plugin that is asked to set up a stage adds to the chronicle, whether or not it succeeds. -/
theorem Chronicle.create {p : Plugin ι ε} {settings : Settings} (goals : List StreamType)
    (h : Chronicle f.stages types) (hroom : f.stages.length < settings.stageLimit)
    (hclaim : (p.claim (tailType f.stages)).isSome = true) :
    ∃ types, Chronicle (Front.joined (Stage.create p settings goals f)).stages types := by
  rcases hcreate : Stage.create p settings goals f with ⟨e | s, f'⟩
  · exact ⟨_, h.refuse hcreate⟩
  · exact ⟨_, h.join hroom hclaim hcreate (Stage.create_declared hcreate)⟩

end Chain

/-! ## Building -/

namespace Builder

open Chain

variable {b : Builder ι ε} {c : Chain ι ε}

theorem keeps_chronicle (b : Builder ι ε) (goals : List StreamType) :
    b.Keeps goals fun f => ∃ types, Chronicle f.stages types where
  create _ hroom hclaim hf := by
    obtain ⟨types, hf⟩ := hf
    exact hf.create goals hroom hclaim
  record {tail rest scene} key value hf := by
    obtain ⟨types, hf⟩ := hf
    exact ⟨types, hf.record scene.log key value⟩
  switch _ hf := hf

/-- Nothing is set up beyond the limit, which may not even leave room for a plugin behind the
url. -/
theorem keeps_limit (b : Builder ι ε) (goals : List StreamType) :
    b.Keeps goals fun f => 1 < f.stages.length → f.stages.length ≤ b.settings.stageLimit :=
  .of_same (P := fun ss => 1 < ss.length → ss.length ≤ b.settings.stageLimit)
    (fun hsame h => hsame.length_eq ▸ h) fun hroom _ _ _ _ => hroom

/-- A chain that a builder has built, for a url or for the entry of a ledger. -/
def Builds (b : Builder ι ε) (c : Chain ι ε) : Prop :=
  ∃ goals l scene, b.Makes goals l c scene

/-- The stages of a new chain have been set up one behind the other, and are no more than the
builder allows. -/
theorem Builds.chronicle (h : b.Builds c) :
    (∃ types, Chronicle c.stages types) ∧ c.stages.length ≤ b.settings.stageLimit ∧
      0 < c.decoderLength := by
  obtain ⟨goals, l, scene, hmakes⟩ := h
  obtain ⟨rehash, now, url, l', w, w', hbuild, -⟩ := hmakes.buildFrom
  obtain ⟨_, hchronicle, -⟩ := (b.keeps_chronicle goals).buildFrom
    (fun decoded _ => ⟨_, .url b.settings goals decoded⟩) hbuild
  obtain ⟨_, hlimit, -⟩ := (b.keeps_limit goals).buildFrom
    (fun _ _ (hone : 1 < 1) => absurd hone (Nat.lt_irrefl 1)) hbuild
  obtain ⟨n, hdecodes⟩ := Decodes.of_buildFrom hbuild
  have hdecoders := Nat.le_trans hdecodes.two_le hdecodes.le_decoder
  exact ⟨hchronicle, hlimit (Nat.le_trans hdecoders hdecodes.le_length),
    Nat.lt_of_lt_of_le Nat.zero_lt_two hdecoders⟩

end Builder

/-! ## Chains that live -/

namespace Chain

variable {c : Chain ι ε}

/-- A chain that some builder has built, and that may have been used since, upon whatever scenes,
and rebuilt by that builder or by others. -/
def Lived (c : Chain ι ε) : Prop :=
  ∃ scene, Career (fun c _ => ∃ b : Builder ι ε, b.Builds c) (fun _ => True)
    (fun c _ c' _ => c' = c) c scene

namespace Lived

theorem built {b : Builder ι ε} (h : b.Builds c) (scene : Scene ε) : Lived c :=
  ⟨scene, .first ⟨b, h⟩⟩

theorem used (h : Lived c) (scene : Scene ε) (u : Use) : Lived (c.use scene u).2.1 := by
  obtain ⟨scene', h⟩ := h
  exact ⟨_, .use u (.aside rfl h)⟩

theorem rebuilt (h : Lived c) (b : Builder ι ε) (l : Ledger) (w : World ε) :
    Lived (b.rebuild c l w).1 := by
  obtain ⟨scene', h⟩ := h
  exact ⟨_, .rebuild trivial (.aside rfl h)⟩

theorem changed (h : Lived c) (b : Builder ι ε) (change : Config.Change) (l : Ledger)
    (w : World ε) : Lived (b.handleChange change c l w).2.1 := by
  obtain ⟨scene', h⟩ := h
  exact ⟨_, .change trivial change (.aside rfl h)⟩

end Lived

theorem Lived.chronicle (h : Lived c) :
    (∃ types, Chronicle c.stages types) ∧ 0 < c.decoderLength := by
  obtain ⟨scene, h⟩ := h
  induction h with
  | first h =>
    obtain ⟨b, hbuilds⟩ := h
    exact ⟨hbuilds.chronicle.1, hbuilds.chronicle.2.2⟩
  | @use c scene u _ ih =>
    obtain ⟨⟨types, hchronicle⟩, hdecoder⟩ := ih
    obtain ⟨⟨stages, heq⟩, -⟩ := c.use_leads scene u
    exact ⟨⟨types, hchronicle.use scene u⟩, by rwa [heq]⟩
  | @rebuild b c l w _ _ ih =>
    obtain ⟨⟨types, hchronicle⟩, hdecoder⟩ := ih
    have hpos := List.length_pos_of_ne_nil hchronicle.placed.ne_nil
    exact ⟨(b.keeps_chronicle c.goals).rebuild
      ⟨_, hchronicle.drop (c.stages.length - c.decoderLength) (by omega)⟩, hdecoder⟩
  | aside h _ ih =>
    obtain rfl := h
    exact ih

/-- **The places of the stages.** Whoever has built a chain and rebuilt it since, with whatever
settings, plugins and configurations, and however it was used: the orders of its stages, from the
url on, are their positions, so there are no more stages than orders, nor more than its builder
allows if it is new. Each stage that a plugin drives has another one in front of it, whose output
type its plugin takes. What the stages produce is what each declared as it was set up; no use of
the chain changes it, and a rebuild leaves the decoders what they produce. -/
theorem Lived.positions (h : Lived c) :
    c.stages.reverse.map Stage.order = List.range c.stages.length ∧
      c.stages.length ≤ Settings.maxOrders ∧
      (∀ b : Builder ι ε, b.Builds c → c.stages.length ≤ b.settings.maxStages) ∧
      (∀ behind s front engine, c.stages = behind ++ s :: front → s.engine = some engine →
        ∃ t rest, front = t :: rest ∧ (engine.plugin.claim t.outType).isSome = true) ∧
      (∀ types, Chronicle c.stages types ↔ types = c.stages.map Stage.outType) ∧
      (∀ scene u, (c.use scene u).2.1.stages.map Stage.outType = c.stages.map Stage.outType) ∧
      ∀ (b : Builder ι ε) (l : Ledger) (w : World ε),
        (c.stages.drop (c.stages.length - c.decoderLength)).map Stage.outType <:+
          (b.rebuild c l w).1.stages.map Stage.outType := by
  obtain ⟨⟨types, hchronicle⟩, -⟩ := h.chronicle
  have hplaced := hchronicle.placed
  refine ⟨hplaced.orders, hplaced.length_le, fun b hb => ?_, fun behind s front engine => ?_,
    fun types' => ⟨fun h' => h'.outTypes.symm, ?_⟩, fun scene u => ?_, fun b l w => ?_⟩
  · exact Nat.le_trans hb.chronicle.2.1 (Nat.min_le_left _ _)
  · exact hplaced.claimed
  · rintro rfl
    rw [hchronicle.outTypes]
    exact hchronicle
  · exact Stage.outTypes_of_same (use_leads c scene u).2.stages
  · obtain ⟨added, kept, hstages, hkept⟩ := Upon.addEffects b c.goals
      ⟨(c.dropEffects w.backstage).1.stages, ⟨l.log, (c.dropEffects w.backstage).2⟩⟩
    refine ⟨added.map Stage.outType, ?_⟩
    refine Eq.trans ?_ (congrArg (List.map Stage.outType) hstages).symm
    rw [List.map_append, Stage.outTypes_of_same hkept]
    rfl

/-! ## A chain that is refitted -/

/-- The effects are listed elsewhere, and there may be four stages. -/
def rack : Builder Unit Unit :=
  { studio with settings := { effectOrderPrefix := "rack.", maxStages := 4 } }

/-- A chain is rebuilt by a builder that finds an effect there, and then read from. -/
def refit (c : Chain Unit Unit) (l : Ledger) (w : World Unit) : Chain Unit Unit :=
  let config := w.backstage.config.register "rack.0" "encode"
  let (c, l, w) := rack.rebuild c l { w with backstage := { w.backstage with config } }
  (c.use (w.scene l) (.read (.blank 1))).2.1

/-- A chain that was built without effects has three stages then, which are in their places. -/
theorem positions_of_refit :
    ∃ c l w, equipped "" = (.ok c, l, w) ∧ Lived (refit c l w) ∧
      (refit c l w).stages.reverse.map Stage.order = [0, 1, 2] ∧
      Chronicle (refit c l w).stages
        [.ofMime "audio/ogg", .ofMime StreamType.pcmMime, .ofUrl "memfile://song.raw"] := by
  have htypes : (equipped "").1.toOption.map (fun c =>
      (refit c (equipped "").2.1 (equipped "").2.2).stages.map Stage.outType) =
        some [.ofMime "audio/ogg", .ofMime StreamType.pcmMime, .ofUrl "memfile://song.raw"] := by
    decide +kernel
  rcases hbuild : equipped "" with ⟨e | c, l, w⟩
  · rw [hbuild] at htypes
    cases htypes
  · rw [hbuild] at htypes
    replace htypes := Option.some.inj htypes
    have hlived : Lived c := by
      unfold equipped at hbuild
      exact .built ⟨_, _, _, .forUrl hbuild⟩ (w.scene l)
    have hrefitted : Lived (refit c l w) := (hlived.rebuilt rack _ _).used _ _
    obtain ⟨horders, -, -, -, hchronicle, -⟩ := Lived.positions hrefitted
    have hlength := congrArg List.length htypes
    rw [List.length_map] at hlength
    rw [hlength] at horders
    exact ⟨c, l, w, rfl, hrefitted, horders, (hchronicle _).mpr htypes.symm⟩

end Chain

end MediaChain
