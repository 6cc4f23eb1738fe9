import MediaChain.Proofs.Chain.Layout
import MediaChain.Proofs.Chain.Rebuild

/-!
# Chains that follow the configuration

Changes of the configuration wait until a chain comes to handle them, one after the other, and only
those that may concern its effects rebuild it. With typed plugins a chain that has handled all of
them looks as if it was built anew (`Follower.settled`).
-/

namespace MediaChain

open Chain (layout Upon)

variable {ι ε : Type}

/-! ## Building and rebuilding -/

namespace Chain

/-- The stages that decode the stream, with the one that stands for the url. -/
def decoders (c : Chain ι ε) : List (Stage ι ε) :=
  c.stages.drop (c.stages.length - c.decoderLength)

theorem info_of_layout {c c' : Chain ι ε} (hurl : c'.url = c.url) (hentry : c'.entry = c.entry)
    (h : layout c.stages = layout c'.stages) : c'.info = c.info := by
  unfold info outType
  rw [hurl, hentry, driven_of_layout h, tailType_of_layout h]

end Chain

theorem World.react_config (w : World ε) (l : Ledger) (token : Token) :
    (w.react l token).2.2.backstage.config = w.backstage.config := by
  refine World.react_part (f := fun w => w.backstage.config) (fun report observer w => ?_) w l token
  cases observer <;> rfl

namespace Builder

variable {b : Builder ι ε} {goals : List StreamType} {url : String}

/-- The stages that decode a url, with the one for segments if it could be added. -/
def decoded? (b : Builder ι ε) (goals : List StreamType) (url : String) (scene : Scene ε) :
    Option (Front ι ε) :=
  match b.decode goals url scene with
  | (.ok stages, scene) => some (b.addEffect goals b.settings.segmentPlugin ⟨stages, scene⟩).2
  | (.error _, _) => none

theorem decode_config {scene scene' : Scene ε} {stages : List (Stage ι ε)}
    (h : b.decode goals url scene = (.ok stages, scene')) :
    scene'.backstage.config = scene.backstage.config := by
  obtain ⟨decoded, f, -, hnegotiate, hrecord⟩ := decode_ok h
  have hsteps := b.negotiate_steps goals (b.start goals url decoded scene)
    (b.settings.stageLimit + 1)
  have hleads := (recordFormat_leads f).scene
  rw [hnegotiate] at hsteps
  rw [hrecord] at hleads
  exact hleads.config.trans hsteps.config

/-- What decodes a url can be told from the url, and leaves the list of effects. -/
theorem decoded?_layout (hb : ∀ p ∈ b.registry.plugins, p.Typed b.settings) {scene : Scene ε}
    {f : Front ι ε} (h : b.decoded? goals url scene = some f) (scene' : Scene ε) :
    ∃ g, b.decoded? goals url scene' = some g ∧ layout f.stages = layout g.stages ∧
      b.listed g.scene.backstage.config = b.listed scene'.backstage.config := by
  have htyped := fun p hp => (hb p hp).typedBy
  have hlayout := decode_layout htyped goals (Eq.refl (Url.base url)) rfl scene scene'
  unfold decoded? at h ⊢
  rcases hf : b.decode goals url scene with ⟨e | ss, s⟩ <;>
    rcases hg : b.decode goals url scene' with ⟨e' | ss', s'⟩
  all_goals rw [hf] at h; rw [hf, hg] at hlayout
  · cases h
  · cases h
  · cases hlayout
  · obtain rfl := Option.some.inj h
    refine ⟨_, rfl, addEffect_layout htyped goals _ (Except.ok.inj hlayout), ?_⟩
    rw [addEffect_listed, decode_config hg]

theorem finalize_config (b : Builder ι ε) (c : Chain ι ε) (now : Int64) (l : Ledger)
    (w : World ε) : (b.finalize c now l w).2.backstage.config = w.backstage.config := by
  have hreact := w.react_config l c.token
  unfold finalize
  dsimp only
  split
  · exact hreact
  · split <;> exact hreact

/-- What a chain is when it was just built upon the stages that decode its url. -/
structure Founded (b : Builder ι ε) (goals : List StreamType) (rehash : Bool) (f : Front ι ε)
    (c : Chain ι ε) : Prop where
  stages : c.stages = (if rehash then f else b.addEffects goals f).stages
  decoderLength : c.decoderLength = f.stages.length
  goals : c.goals = goals
  rehash : c.rehash = rehash
  bulletin : c.bulletin = ⟨1, c.info⟩

/-- The decoders are the stages that it was built upon. -/
theorem Founded.decoders {rehash : Bool} {f : Front ι ε} {c : Chain ι ε}
    (h : b.Founded goals rehash f c) : List.Forall₂ Stage.Same f.stages c.decoders := by
  have hupon : Upon f.stages c.stages := by
    rw [h.stages]
    split
    · exact .refl _
    · exact .addEffects b goals f
  unfold Chain.decoders
  rw [h.decoderLength]
  exact hupon.drop

theorem Founded.length {rehash : Bool} {f : Front ι ε} {c : Chain ι ε}
    (h : b.Founded goals rehash f c) : c.decoders.length = c.decoderLength := by
  rw [h.decoderLength, h.decoders.length_eq]

/-- A chain can be built for a url if and only if that can be decoded. -/
theorem buildFrom_of_decoded? (b : Builder ι ε) (goals : List StreamType) (rehash : Bool)
    (now : Int64) (url : String) (l : Ledger) (w : World ε) :
    match b.decoded? goals url (w.scene l) with
    | none => (b.buildFrom goals rehash now url l w).1.isOk = false
    | some f => ∃ c l' w',
      b.buildFrom goals rehash now url l w = (.ok c, b.finalize c now l' w') ∧
        b.Founded goals rehash f c ∧
          b.listed w'.backstage.config = b.listed f.scene.backstage.config := by
  unfold decoded? buildFrom
  rcases b.decode goals url (w.scene l) with ⟨e | ss, scene⟩
  · rfl
  · dsimp only
    refine ⟨_, _, _, rfl, ⟨rfl, rfl, rfl, rfl, rfl⟩, ?_⟩
    cases rehash with
    | true => rfl
    | false => exact b.addEffects_listed goals _

theorem founded_of_buildFrom {rehash : Bool} {now : Int64} {l l' : Ledger} {w w' : World ε}
    {c : Chain ι ε} (h : b.buildFrom goals rehash now url l w = (.ok c, l', w')) :
    ∃ f, b.decoded? goals url (w.scene l) = some f ∧ b.Founded goals rehash f c ∧
      b.listed w'.backstage.config = b.listed f.scene.backstage.config := by
  have hdecoded := b.buildFrom_of_decoded? goals rehash now url l w
  rw [h] at hdecoded
  cases hf : b.decoded? goals url (w.scene l) with
  | none =>
    rw [hf] at hdecoded
    cases hdecoded
  | some f =>
    rw [hf] at hdecoded
    obtain ⟨c', l₁, w₁, heq, hfounded, hlisted⟩ := hdecoded
    obtain ⟨hc, hw⟩ := Prod.mk.inj heq
    obtain rfl := Except.ok.inj hc
    refine ⟨f, rfl, hfounded, ?_⟩
    rw [← hlisted, ← b.finalize_config c now l₁ w₁, ← hw]

/-- What a rebuild makes of a chain. -/
structure Renewed (b : Builder ι ε) (c : Chain ι ε) (w : World ε) (f : Front ι ε) : Prop where
  upon : Upon c.decoders f.stages
  changes : f.scene.backstage.config.changes = w.backstage.config.changes
  listed : b.listed f.scene.backstage.config = b.listed w.backstage.config
  laid : ∀ g : Front ι ε, layout g.stages = layout c.decoders →
    b.listed g.scene.backstage.config = b.listed w.backstage.config →
      layout (b.addEffects c.goals g).stages = layout f.stages

/-- A rebuild puts those effects upon the decoders that are listed by now. -/
theorem rebuild_renewed (hb : ∀ p ∈ b.registry.plugins, p.Typed b.settings) (c : Chain ι ε)
    (l : Ledger) (w : World ε) :
    ∃ f, b.rebuild c l w = (Chain.publish { c with stages := f.stages }, w.absorb l f.scene) ∧
      b.Renewed c w f := by
  let cleared : Front ι ε := ⟨c.decoders, ⟨l.log, (c.dropEffects w.backstage).2⟩⟩
  have hconfig : cleared.scene.backstage.config = w.backstage.config :=
    Stage.releaseAll_config _ _
  refine ⟨b.addEffects c.goals cleared, rfl, Upon.addEffects b c.goals cleared, ?_, ?_, ?_⟩
  · rw [addEffects_changes, hconfig]
  · rw [addEffects_listed, hconfig]
  · intro g hg hlisted
    apply addEffects_layout (fun p hp => (hb p hp).typedBy) c.goals hg
    rw [hlisted, hconfig]

end Builder

theorem Chain.call_leads (c : Chain ι ε) (scene : Scene ε) (call : Chain.Call) :
    (∃ stages, (c.call scene call).2.1 = { c with stages }) ∧
      Front.Leads ⟨c.stages, scene⟩
        ⟨(c.call scene call).2.1.stages, (c.call scene call).2.2⟩ := by
  cases call with
  | read window => exact c.operate_leads (fun _ h => Stage.read_keeps h window) scene
  | peek size => exact c.operate_leads (fun _ h => Stage.peek_keeps h size) scene

/-! ## Following -/

/-- A chain that is played while changes of the configuration wait for it. -/
structure Follower (ι ε : Type) where
  player : Player ι ε
  /-- How many of the changes were handled. -/
  handled : Nat
  /-- How many of these rebuilt the chain. -/
  rebuilt : Nat

namespace Follower

/-- What happens to it. -/
inductive Move
  | call (call : Chain.Call)
  | set (path value : String)
  /-- The change that has waited longest is handled. -/
  | handle

/-- A chain that was just built. Its owner is told all changes from now on. -/
def start (owner : String) (c : Chain ι ε) (l : Ledger) (w : World ε) : Follower ι ε :=
  let backstage := w.backstage
  let config := { backstage.config with changes := backstage.config.changes.subscribe owner }
  ⟨⟨c, l, { w with backstage := { backstage with config } }⟩, 0, 0⟩

def config (f : Follower ι ε) : Config := f.player.world.backstage.config

/-- All changes that the owner was told. -/
def told (owner : String) (f : Follower ι ε) : List Config.Change :=
  (f.config.changes.inbox? owner).getD []

/-- The changes that were not handled yet. -/
def waiting (owner : String) (f : Follower ι ε) : List Config.Change :=
  (f.told owner).drop f.handled

/-- The change is handled. -/
def handle (b : Builder ι ε) (f : Follower ι ε) (change : Config.Change) : Follower ι ε :=
  let p := f.player
  let (rebuilt, chain, ledger, world) := b.handleChange change p.chain p.ledger p.world
  ⟨⟨chain, ledger, world⟩, f.handled + 1, if rebuilt then f.rebuilt + 1 else f.rebuilt⟩

def step (b : Builder ι ε) (owner : String) (f : Follower ι ε) : Move → Follower ι ε
  | .call call => { f with player := (f.player.step b (.call call)).2 }
  | .set path value => { f with player := (f.player.step b (.set path value)).2 }
  | .handle =>
    match f.waiting owner with
    | [] => f
    | change :: _ => f.handle b change

def run (b : Builder ι ε) (owner : String) (moves : List Move) (f : Follower ι ε) :
    Follower ι ε :=
  moves.foldl (step b owner) f

/-- Whether a change concerns effects. -/
def concerns (b : Builder ι ε) (change : Config.Change) : Bool :=
  b.settings.affectsEffects change.path

/-- What becomes of a chain that was built as `c`. Its decoders stay; as long as no change that
concerns effects waits, it is what the effects that are listed make of its decoders; and what is
published is up to date. A rehash chain stays as it is. -/
structure Follows (b : Builder ι ε) (owner : String) (c : Chain ι ε) (f : Follower ι ε) : Prop where
  chain : ∃ stages bulletin, f.player.chain = { c with stages, bulletin }
  upon : Upon c.decoders f.player.chain.stages
  bulletin : f.player.chain.bulletin = ⟨1 + f.rebuilt, f.player.chain.info⟩
  inbox : f.config.changes.inbox? owner = some (f.told owner)
  handled : f.handled ≤ (f.told owner).length
  rebuilt : f.rebuilt =
    if c.rehash then 0 else ((f.told owner).take f.handled).countP (concerns b)
  kept : c.rehash = true → List.Forall₂ Stage.Same c.stages f.player.chain.stages
  laid : c.rehash = false → (∀ change ∈ f.waiting owner, concerns b change = false) →
    ∀ g : Front ι ε, layout g.stages = layout c.decoders →
      b.listed g.scene.backstage.config = b.listed f.config →
        layout (b.addEffects c.goals g).stages = layout f.player.chain.stages

variable {b : Builder ι ε} {owner : String} {c : Chain ι ε} {f : Follower ι ε}

theorem told_of_inbox {told : List Config.Change}
    (h : f.config.changes.inbox? owner = some told) : f.told owner = told := by
  rw [Follower.told, h, Option.getD_some]

theorem Follows.decoders (hdecoder : c.decoders.length = c.decoderLength)
    (h : Follows b owner c f) : List.Forall₂ Stage.Same c.decoders f.player.chain.decoders := by
  obtain ⟨stages, bulletin, hchain⟩ := h.chain
  have hdrop := h.upon.drop
  rw [hdecoder] at hdrop
  rw [hchain] at hdrop ⊢
  exact hdrop

theorem Follows.call (h : Follows b owner c f) (call : Chain.Call) :
    Follows b owner c (f.step b owner (.call call)) := by
  obtain ⟨⟨stages, hcall⟩, hleads⟩ :=
    f.player.chain.call_leads (f.player.world.scene f.player.ledger) call
  have hnext : (f.step b owner (.call call)).player.chain = { f.player.chain with stages } := hcall
  have hconfig : (f.step b owner (.call call)).config = f.config := hleads.scene.config
  rw [hcall] at hleads
  have hsame : List.Forall₂ Stage.Same f.player.chain.stages stages := hleads.stages
  have hlayout := Chain.layout_of_same hsame
  have hinfo : Chain.info { f.player.chain with stages } = f.player.chain.info :=
    Chain.info_of_layout rfl rfl hlayout.symm
  have htold : (f.step b owner (.call call)).told owner = f.told owner := by
    unfold told
    rw [hconfig]
  have hwaiting : (f.step b owner (.call call)).waiting owner = f.waiting owner := by
    unfold waiting
    rw [htold]
    rfl
  obtain ⟨stages', bulletin, hchain⟩ := h.chain
  refine ⟨⟨stages, bulletin, ?_⟩, ?_, ?_, ?_, ?_, ?_, fun hrehash => ?_,
    fun hrehash hquiet g hg hlisted => ?_⟩
  · rw [hnext, hchain]
  · rw [hnext]
    exact h.upon.same hsame
  · rw [hnext, hinfo]
    exact h.bulletin
  · rw [hconfig, htold]
    exact h.inbox
  · rw [htold]
    exact h.handled
  · rw [htold]
    exact h.rebuilt
  · rw [hnext]
    exact Front.LeadsBy.trans_stages (h.kept hrehash) hsame
  · rw [hwaiting] at hquiet
    rw [hconfig] at hlisted
    rw [hnext, hlayout]
    exact h.laid hrehash hquiet g hg hlisted

theorem Follows.set (h : Follows b owner c f) (path value : String) :
    Follows b owner c (f.step b owner (.set path value)) := by
  have hconfig : (f.step b owner (.set path value)).config = f.config.set path value := rfl
  by_cases hknown : f.config.lookup path = some value
  · have hset : f.config.set path value = f.config := if_pos hknown
    have hstep : f.step b owner (.set path value) = f := by
      show ({ f with player := { f.player with world := { f.player.world with backstage :=
        { f.player.world.backstage with config := f.config.set path value } } } } :
          Follower ι ε) = f
      rw [hset]
      rfl
    rw [hstep]
    exact h
  · have hset : f.config.set path value =
        ⟨f.config.values.insert path value, f.config.changes.send ⟨path, value⟩⟩ := if_neg hknown
    have hinbox : (f.step b owner (.set path value)).config.changes.inbox? owner =
        some (f.told owner ++ [⟨path, value⟩]) := by
      rw [hconfig, hset, Broadcast.inbox?_send, h.inbox]
      rfl
    have htold := told_of_inbox hinbox
    have hwaiting : (f.step b owner (.set path value)).waiting owner =
        f.waiting owner ++ [⟨path, value⟩] := by
      unfold Follower.waiting
      rw [htold]
      exact List.drop_append_of_le_length h.handled
    have htake : ((f.step b owner (.set path value)).told owner).take f.handled =
        (f.told owner).take f.handled := by
      rw [htold]
      exact List.take_append_of_le_length h.handled
    refine ⟨h.chain, h.upon, h.bulletin, ?_, ?_, ?_, h.kept,
      fun hrehash hquiet g hg hlisted => ?_⟩
    · rw [htold]
      exact hinbox
    · rw [htold, List.length_append]
      exact Nat.le_add_right_of_le h.handled
    · show f.rebuilt = if c.rehash then 0 else
        (((f.step b owner (.set path value)).told owner).take f.handled).countP (concerns b)
      rw [htake]
      exact h.rebuilt
    · rw [hwaiting, List.forall_mem_append, List.forall_mem_singleton] at hquiet
      rw [hconfig, Builder.listed_set _ value hquiet.2] at hlisted
      exact h.laid hrehash hquiet.1 g hg hlisted

/-- The change that has waited longest comes behind those that were handled. -/
theorem take_of_waiting {change : Config.Change} {rest : List Config.Change}
    (h : f.waiting owner = change :: rest) :
    (f.told owner).take (f.handled + 1) = (f.told owner).take f.handled ++ [change] ∧
      (f.told owner).drop (f.handled + 1) = rest ∧ f.handled + 1 ≤ (f.told owner).length := by
  unfold Follower.waiting at h
  have hget : (f.told owner)[f.handled]? = some change := by
    rw [← List.head?_drop, h, List.head?_cons]
  obtain ⟨hlt, -⟩ := List.getElem?_eq_some_iff.mp hget
  refine ⟨?_, ?_, hlt⟩
  · rw [List.take_add_one, hget, Option.toList_some]
  · rw [← List.tail_drop, h, List.tail_cons]

/-- A change that does not concern effects leaves the chain, and a rehash chain is left by all. -/
theorem Follows.skip (h : Follows b owner c f) {change : Config.Change}
    {rest : List Config.Change} (hwaiting : f.waiting owner = change :: rest)
    (hskip : c.rehash = true ∨ concerns b change = false) :
    Follows b owner c (f.handle b change) := by
  obtain ⟨htake, hdrop, hlt⟩ := take_of_waiting hwaiting
  obtain ⟨stages, bulletin, hchain⟩ := h.chain
  have hhandle : f.handle b change = { f with handled := f.handled + 1 } := by
    have hcond : (f.player.chain.rehash || !b.settings.affectsEffects change.path) = true := by
      rw [hchain]
      rcases hskip with hskip | hskip
      · rw [hskip, Bool.true_or]
      · rw [show b.settings.affectsEffects change.path = false from hskip, Bool.not_false,
          Bool.or_true]
    simp only [handle, Builder.handleChange, if_pos hcond]
    rfl
  rw [hhandle]
  refine ⟨h.chain, h.upon, h.bulletin, h.inbox, hlt, ?_, h.kept, fun hrehash hquiet => ?_⟩
  · show f.rebuilt = if c.rehash then 0 else
      ((f.told owner).take (f.handled + 1)).countP (concerns b)
    rw [h.rebuilt, htake, List.countP_append, List.countP_singleton]
    rcases hskip with hskip | hskip
    · rw [if_pos hskip, if_pos hskip]
    · rw [hskip]
      rfl
  · have hchange : concerns b change = false :=
      hskip.resolve_left (hrehash ▸ Bool.false_ne_true)
    apply h.laid hrehash
    -- neither does the change that is handled concern effects
    rw [hwaiting, List.forall_mem_cons, ← hdrop]
    exact ⟨hchange, hquiet⟩

/-- A change that concerns effects puts those upon the decoders that are listed by now. -/
theorem Follows.renew (hb : ∀ p ∈ b.registry.plugins, p.Typed b.settings)
    (hdecoder : c.decoders.length = c.decoderLength) (h : Follows b owner c f)
    {change : Config.Change} {rest : List Config.Change}
    (hwaiting : f.waiting owner = change :: rest) (hrehash : c.rehash = false)
    (hchange : concerns b change = true) :
    Follows b owner c (f.handle b change) := by
  obtain ⟨htake, -, hlt⟩ := take_of_waiting hwaiting
  obtain ⟨stages, bulletin, hchain⟩ := h.chain
  obtain ⟨front, hrebuild, hfront⟩ :=
    Builder.rebuild_renewed hb f.player.chain f.player.ledger f.player.world
  have hdecoders := h.decoders hdecoder
  have hgoals : f.player.chain.goals = c.goals := by rw [hchain]
  let chain := Chain.publish { f.player.chain with stages := front.stages }
  let absorbed := f.player.world.absorb f.player.ledger front.scene
  have hhandle : f.handle b change =
      ⟨⟨chain, absorbed.1, absorbed.2⟩, f.handled + 1, f.rebuilt + 1⟩ := by
    have hcond : ¬(f.player.chain.rehash || !b.settings.affectsEffects change.path) = true := by
      rw [hchain, hrehash, show b.settings.affectsEffects change.path = true from hchange]
      nofun
    simp only [handle, Builder.handleChange, if_neg hcond, hrebuild]
    rfl
  have hinbox : (f.handle b change).config.changes.inbox? owner = some (f.told owner) := by
    rw [hhandle]
    exact (congrArg (·.inbox? owner) hfront.changes).trans h.inbox
  have htold := told_of_inbox hinbox
  rw [hhandle] at hinbox htold ⊢
  refine ⟨⟨front.stages, chain.bulletin, ?_⟩, ?_, ?_, ?_, ?_, ?_, fun hrehash' => ?_,
    fun _ _ g hg hlisted => ?_⟩
  · show { f.player.chain with stages := front.stages, bulletin := chain.bulletin } = _
    rw [hchain]
  · exact hfront.upon.behind hdecoders
  · show (⟨f.player.chain.bulletin.generation + 1, chain.info⟩ : Chain.Bulletin) = _
    rw [h.bulletin]
    rfl
  · rw [htold]
    exact hinbox
  · rw [htold]
    exact hlt
  · rw [htold, hrehash]
    show f.rebuilt + 1 = ((f.told owner).take (f.handled + 1)).countP (concerns b)
    rw [htake, List.countP_append, List.countP_singleton, hchange, h.rebuilt, hrehash]
    rfl
  · rw [hrehash] at hrehash'
    cases hrehash'
  · rw [← hgoals]
    exact hfront.laid g (hg.trans (Chain.layout_of_same hdecoders).symm)
      (hlisted.trans hfront.listed)

theorem Follows.step (hb : ∀ p ∈ b.registry.plugins, p.Typed b.settings)
    (hdecoder : c.decoders.length = c.decoderLength) (h : Follows b owner c f) (move : Move) :
    Follows b owner c (f.step b owner move) := by
  cases move with
  | call call => exact h.call call
  | set path value => exact h.set path value
  | handle =>
    show Follows b owner c (match f.waiting owner with
      | [] => f
      | change :: _ => f.handle b change)
    cases hwaiting : f.waiting owner with
    | nil => exact h
    | cons change rest =>
      cases hrehash : c.rehash with
      | true => exact h.skip hwaiting (.inl hrehash)
      | false =>
        cases hchange : concerns b change with
        | false => exact h.skip hwaiting (.inr hchange)
        | true => exact h.renew hb hdecoder hwaiting hrehash hchange

theorem Follows.run (hb : ∀ p ∈ b.registry.plugins, p.Typed b.settings)
    (hdecoder : c.decoders.length = c.decoderLength) (h : Follows b owner c f)
    (moves : List Move) : Follows b owner c (f.run b owner moves) := by
  induction moves generalizing f with
  | nil => exact h
  | cons move moves ih => exact ih (h.step hb hdecoder move)

/-- A chain that was just built is what the effects that are listed make of its decoders. -/
theorem Follows.of_founded (hb : ∀ p ∈ b.registry.plugins, p.Typed b.settings)
    {goals : List StreamType} {rehash : Bool} {front : Front ι ε}
    (h : b.Founded goals rehash front c) {l : Ledger} {w : World ε}
    (hlisted : b.listed w.backstage.config = b.listed front.scene.backstage.config) :
    Follows b owner c (start owner c l w) := by
  have hinbox : (start owner c l w).config.changes.inbox? owner = some [] := by
    show (w.backstage.config.changes.subscribe owner).inbox? owner = some []
    rw [Broadcast.inbox?_subscribe, if_pos rfl]
  have htold := told_of_inbox hinbox
  refine ⟨⟨c.stages, c.bulletin, rfl⟩,
    ⟨_, c.decoders, (List.take_append_drop _ _).symm, Front.LeadsBy.same_stages _⟩, h.bulletin, ?_,
    ?_, ?_, fun _ => Front.LeadsBy.same_stages _, fun hrehash _ g hg hlisted' => ?_⟩
  · rw [htold]
    exact hinbox
  · exact Nat.zero_le _
  · rw [htold, List.take_nil]
    exact (ite_self 0).symm
  · show layout _ = layout c.stages
    rw [h.stages, ← h.rehash, hrehash, h.goals]
    apply Builder.addEffects_layout (fun p hp => (hb p hp).typedBy) goals
      (hg.trans (Chain.layout_of_same h.decoders))
    exact hlisted'.trans hlisted

/-- Once all changes are handled, a chain that is built anew looks the same. -/
theorem Follows.fresh (hb : ∀ p ∈ b.registry.plugins, p.Typed b.settings)
    {goals : List StreamType} {url : String} {front : Front ι ε} {scene : Scene ε}
    (hfront : b.decoded? goals url scene = some front)
    (hfounded : b.Founded goals false front c) (h : Follows b owner c f)
    (hwaiting : f.waiting owner = []) (now₀ : Int64) (l₀ : Ledger) {w₀ : World ε}
    (hvalues : w₀.backstage.config.values = f.config.values) :
    ∃ c₀ l₁ w₁, b.buildFrom goals false now₀ url l₀ w₀ = (.ok c₀, l₁, w₁) ∧
      layout f.player.chain.stages = layout c₀.stages := by
  obtain ⟨front₀, hfront₀, hlayout, hlisted₀⟩ :=
    Builder.decoded?_layout hb hfront (w₀.scene l₀)
  have hbuild := b.buildFrom_of_decoded? goals false now₀ url l₀ w₀
  rw [hfront₀] at hbuild
  obtain ⟨c₀, l₁, w₁, hbuild, hfounded₀, -⟩ := hbuild
  have hlisted : b.listed w₀.backstage.config = b.listed f.config :=
    Builder.listed_of_values hvalues
  have hlaid := h.laid hfounded.rehash (by rw [hwaiting]; nofun) front₀
    (hlayout.symm.trans (Chain.layout_of_same hfounded.decoders).symm) (hlisted₀.trans hlisted)
  refine ⟨c₀, _, _, hbuild, ?_⟩
  rw [← hlaid, hfounded.goals, hfounded₀.stages]
  rfl

/-- A rehash chain is left as it was built. -/
theorem Follows.unchanged (h : Follows b owner c f) (hbulletin : c.bulletin = ⟨1, c.info⟩)
    (hrehash : c.rehash = true) :
    f.player.chain.bulletin = c.bulletin ∧
      ∀ change l w, b.handleChange change f.player.chain l w = (false, f.player.chain, l, w) := by
  obtain ⟨stages, bulletin, hchain⟩ := h.chain
  constructor
  · have hinfo : f.player.chain.info = c.info :=
      Chain.info_of_layout (by rw [hchain]) (by rw [hchain])
        (Chain.layout_of_same (h.kept hrehash)).symm
    rw [h.bulletin, h.rebuilt, if_pos hrehash, hinfo, hbulletin]
  · intro change l w
    apply if_pos
    rw [hchain, hrehash, Bool.true_or]

/-- **A chain follows the configuration.** Let a chain be built with typed plugins, and from then on
be read from, while values are set in the configuration and the changes that are told of this are
handled in their order, each at any later time. Whenever no change waits, a chain can be built anew
for the same url and goals with the values there are, and has the same stages and output type. The
decoders are those that the chain was built with, and what is published is what the chain is, under
a generation that counts its rebuilds: one for each handled change that concerns effects, as does
every change that alters their list. A rehash chain stays as it was built. -/
theorem settled (hb : ∀ p ∈ b.registry.plugins, p.Typed b.settings) {goals : List StreamType}
    {rehash : Bool} {now : Int64} {url : String} {l l' : Ledger} {w w' : World ε}
    (hbuild : b.buildFrom goals rehash now url l w = (.ok c, l', w')) (owner : String)
    (moves : List Move) :
    let f := (start owner c l' w').run b owner moves
    (rehash = false → f.waiting owner = [] →
      ∀ (now₀ : Int64) (l₀ : Ledger) (w₀ : World ε),
        w₀.backstage.config.values = f.config.values →
          ∃ c₀ l₁ w₁, b.buildFrom goals false now₀ url l₀ w₀ = (.ok c₀, l₁, w₁) ∧
            f.player.chain.info.stages = c₀.info.stages ∧
              f.player.chain.outType = c₀.outType) ∧
      List.Forall₂ Stage.Same c.decoders f.player.chain.decoders ∧
      f.player.chain.bulletin = ⟨1 + f.rebuilt, f.player.chain.info⟩ ∧
      (rehash = false → f.rebuilt = ((f.told owner).take f.handled).countP (concerns b)) ∧
      (∀ (config : Config) (path value : String),
        b.listed (config.set path value) ≠ b.listed config →
          b.settings.affectsEffects path = true) ∧
      (rehash = true → List.Forall₂ Stage.Same c.stages f.player.chain.stages ∧
        f.player.chain.bulletin = c.bulletin ∧
          ∀ change l w, b.handleChange change f.player.chain l w =
            (false, f.player.chain, l, w)) := by
  intro f
  obtain ⟨front, hfront, hfounded, hlisted⟩ := Builder.founded_of_buildFrom hbuild
  have hstart : Follows b owner c (start owner c l' w') := .of_founded hb hfounded hlisted
  have h : Follows b owner c f := hstart.run hb hfounded.length moves
  refine ⟨fun hrehash hwaiting now₀ l₀ w₀ hvalues => ?_, h.decoders hfounded.length, h.bulletin,
    fun hrehash => ?_, fun config path value hne => ?_, fun hrehash => ?_⟩
  · subst hrehash
    obtain ⟨c₀, l₁, w₁, hbuild₀, hlayout⟩ := h.fresh hb hfront hfounded hwaiting now₀ l₀ hvalues
    exact ⟨c₀, l₁, w₁, hbuild₀, Chain.driven_of_layout hlayout, Chain.tailType_of_layout hlayout⟩
  · rw [h.rebuilt, hfounded.rehash, hrehash]
    rfl
  · by_contra hnot
    exact hne (Builder.listed_set config value (Bool.not_eq_true _ ▸ hnot))
  · have hrehash' := hfounded.rehash.trans hrehash
    exact ⟨h.kept hrehash', h.unchanged hfounded.bulletin hrehash'⟩

/-! ## A chain that is tuned -/

/-- A plugin that passes samples on. -/
def passing (name : String) : Plugin Unit Unit where
  descriptor := { name, inputs := [⟨.ofMime StreamType.pcmMime, 1⟩] }
  init := do
    let _ ← Script.copyOutType
    return .ok ()
  read _ window := do
    match ← Script.request (.read window) with
    | .ok reply => return (.ok reply, ())
    | .error _ => return (.error (.unsupported "read"), ())

/-- A plugin that takes samples and cannot be set up. -/
def refusing (name : String) : Plugin Unit Unit where
  descriptor := { name, inputs := [⟨.ofMime StreamType.pcmMime, 1⟩] }
  init := return .error (.unsupported "init")
  read _ _ := return (.ok (.ofBytes []), ())

/-- Urls are opened as samples, behind which segments are looked for, and there are three effects
for them. -/
def tuner : Builder Unit Unit :=
  ⟨⟨[Chain.converter "feed" StreamType.urlMime StreamType.pcmMime, passing "segment",
    passing "gain", refusing "reverb",
    Chain.converter "encode" StreamType.pcmMime "audio/ogg"]⟩, {}, false⟩

theorem tuner_typed : ∀ p ∈ tuner.registry.plugins, p.Typed tuner.settings := by
  have hpassing : ∀ name, (passing name).Typed tuner.settings := by
    intro name goals
    refine ⟨some, fun f hf => ?_⟩
    obtain ⟨stages, scene⟩ := f
    cases stages with
    | nil => cases hf rfl
    | cons s stages => rfl
  have hconverter : ∀ name input output,
      (Chain.converter name input output).Typed tuner.settings :=
    fun _ _ output _ => ⟨fun _ => some (.ofMime output), fun _ _ => rfl⟩
  simp only [tuner, List.forall_mem_cons]
  exact ⟨hconverter _ _ _, hpassing _, hpassing _, fun _ => ⟨fun _ => none, fun _ _ => rfl⟩,
    hconverter _ _ _, nofun⟩

/-- A chain for samples is built when the gain is the only effect that is listed. -/
def tuned : Except ChainError (Chain Unit Unit) × Ledger × World Unit :=
  let config := Config.empty.register "effect.order.0" "gain"
  tuner.buildFrom Chain.samples false 0 "memfile://song.raw" (.empty false)
    ⟨{ Backstage.empty with config }, .empty, ∅⟩

/-- Another effect is listed behind a gap, then one in the gap that cannot be set up; besides, a
value that is none of effects is set, and a switch twice. -/
def tweaks : List Move :=
  [.set "effect.order.2" "encode", .handle, .call (.read (.blank 1)), .set "volume" "7",
    .set "effect.order.1" "reverb", .set "gain.enabled" "1", .set "gain.enabled" "1", .handle,
    .handle, .handle, .handle]

/-- What the chain looks like when all that was handled. -/
def tweaked : Chain.Info :=
  ⟨"memfile://song.raw", none, ["feed", "segment", "gain", "encode"], .ofMime "audio/ogg"⟩

/-- Three of the four changes rebuild the chain, and it then looks as any chain that is built
anew. -/
theorem settled_tuned :
    ∃ c l w, tuned = (.ok c, l, w) ∧
      ((start "player" c l w).run tuner "player" tweaks).waiting "player" = [] ∧
      ((start "player" c l w).run tuner "player" tweaks).player.chain.bulletin = ⟨4, tweaked⟩ ∧
      ∀ (now₀ : Int64) (l₀ : Ledger) (w₀ : World Unit),
        w₀.backstage.config.values =
            ((start "player" c l w).run tuner "player" tweaks).config.values →
          ∃ c₀ l₁ w₁,
            tuner.buildFrom Chain.samples false now₀ "memfile://song.raw" l₀ w₀ =
                (.ok c₀, l₁, w₁) ∧
              c₀.info.stages = tweaked.stages ∧ c₀.outType = tweaked.outType := by
  have hok : (match tuned with
      | (.ok c, l, w) =>
        let f := (start "player" c l w).run tuner "player" tweaks
        some (f.waiting "player", f.player.chain.bulletin)
      | (.error _, _, _) => none) = some ([], ⟨4, tweaked⟩) := by
    decide +kernel
  rcases hrun : tuned with ⟨e | c, l, w⟩
  · rw [hrun] at hok
    cases hok
  · rw [hrun] at hok
    obtain ⟨hwaiting, hbulletin⟩ := Prod.mk.inj (Option.some.inj hok)
    unfold tuned at hrun
    obtain ⟨hfresh, -, hpublished, -⟩ := settled tuner_typed hrun "player" tweaks
    have hinfo := congrArg Chain.Bulletin.info (hpublished.symm.trans hbulletin)
    refine ⟨c, l, w, rfl, hwaiting, hbulletin, fun now₀ l₀ w₀ hvalues => ?_⟩
    obtain ⟨c₀, l₁, w₁, hbuild, hstages, hout⟩ := hfresh rfl hwaiting now₀ l₀ w₀ hvalues
    refine ⟨c₀, l₁, w₁, hbuild, ?_, ?_⟩
    · rw [← hstages]
      exact congrArg Chain.Info.stages hinfo
    · rw [← hout]
      exact congrArg Chain.Info.outType hinfo

end Follower

end MediaChain
