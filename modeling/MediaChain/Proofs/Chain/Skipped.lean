import MediaChain.Proofs.Chain.Career
import MediaChain.Proofs.Chain.Section
import MediaChain.Proofs.Stage.Sight

/-!
# Effects that are skipped

An effect that cannot be added leaves the stages of a chain as its plugin has left them when it
tried to set up its stage (`Builder.addEffect_skips`): what the plugin took from the stages in front
is not given back. A plugin that asked for nothing that reaches them leaves them as they were, and
as long as it has recorded nothing, whatever is done with the chain then ends as if the effect had
not been tried. A plugin that takes some bytes and fails hides them from the reader
(`Builder.addEffect_sampling`).
-/

namespace MediaChain

variable {ι ε α : Type} {N : String → Prop}

/-! ## Using a chain -/

namespace Chain

/-- Uses a chain, and gives the bytes that count or the position. -/
def consult (c : Chain ι ε) (scene : Scene ε) :
    Use → Except StageError (Bytes ⊕ Nat) × Chain ι ε × Scene ε
  | .read window =>
    let (result, rest) := c.readInto scene window
    (result.map fun reply => .inl (reply.bytes window), rest)
  | .peek size =>
    let (result, rest) := c.peek scene size
    (result.map .inl, rest)
  | .seek offset whence =>
    let (result, rest) := c.seek scene offset whence
    (result.map .inr, rest)

/-- What using a chain several times gives. -/
def answers : List Use → Chain ι ε → Scene ε → List (Except StageError (Bytes ⊕ Nat))
  | [], _, _ => []
  | u :: uses, c, scene =>
    let (answer, c, scene) := c.consult scene u
    answer :: answers uses c scene

/-- The same result and the same chain, in scenes that its stages cannot tell apart. -/
inductive Agree (N : String → Prop) : α × Chain ι ε × Scene ε → α × Chain ι ε × Scene ε → Prop
  | intro {a : α} {c : Chain ι ε} {scene scene' : Scene ε} :
    Front.Alike N ⟨c.stages, scene⟩ ⟨c.stages, scene'⟩ → Agree N (a, c, scene) (a, c, scene')

variable {c : Chain ι ε} {scene scene' : Scene ε}

theorem operate_agree {op : Tap ι ε → StageOp ι ε α} (hop : ∀ tap, tap.Blind N → (op tap).Blind N)
    (h : Front.Alike N ⟨c.stages, scene⟩ ⟨c.stages, scene'⟩) :
    Agree N (c.operate scene op) (c.operate scene' op) := by
  unfold operate
  split
  · exact .intro h
  next tail rest hstages =>
    rw [hstages] at h
    obtain ⟨htail, hrest⟩ := h.uncons
    have hagree := hop _ (Tap.blind_reaching rest.length) tail _ _ htail hrest
    generalize op (Tap.reaching rest.length) tail ⟨rest, scene⟩ = x at hagree ⊢
    generalize op (Tap.reaching rest.length) tail ⟨rest, scene'⟩ = y at hagree ⊢
    obtain @⟨a, s, ⟨stages, after⟩, ⟨stages', after'⟩, hs, hfront⟩ := hagree
    obtain rfl : stages' = stages := hfront.stages
    exact .intro (hfront.cons hs)

theorem Agree.map {β : Type} {x y : α × Chain ι ε × Scene ε} (h : Agree N x y) (g : α → β) :
    Agree N (g x.1, x.2) (g y.1, y.2) := by
  obtain ⟨hfront⟩ := h
  exact .intro hfront

theorem consult_agree (h : Front.Alike N ⟨c.stages, scene⟩ ⟨c.stages, scene'⟩) (u : Use) :
    Agree N (c.consult scene u) (c.consult scene' u) := by
  cases u with
  | read window =>
    exact (operate_agree (fun _ htap => Stage.read_blind htap window) h).map
      (Except.map fun reply => Sum.inl (reply.bytes window))
  | peek size =>
    exact (operate_agree (fun _ htap => Stage.peek_blind htap size) h).map (Except.map Sum.inl)
  | seek offset whence =>
    exact (operate_agree (fun _ htap => Stage.seek_blind htap offset whence) h).map
      (Except.map Sum.inr)

/-- What its stages cannot see makes no difference to what a chain gives. -/
theorem answers_alike (h : Front.Alike N ⟨c.stages, scene⟩ ⟨c.stages, scene'⟩)
    (uses : List Use) : answers uses c scene' = answers uses c scene := by
  induction uses generalizing c scene scene' with
  | nil => rfl
  | cons u uses ih =>
    have hagree := consult_agree h u
    unfold answers
    generalize c.consult scene u = x at hagree ⊢
    generalize c.consult scene' u = y at hagree ⊢
    obtain @⟨answer, _, _, _, hfront⟩ := hagree
    exact congrArg (answer :: ·) (ih hfront)

end Chain

/-! ## Trying to set up a stage -/

/-- A request that neither reaches the stage in front nor records a fact. -/
def Request.IsIdle : Request ε → Prop
  | .read _ | .peek _ | .seek _ _ | .readLine | .recordInt _ _ | .recordText _ _ => False
  | _ => True

namespace Stage

variable {p : Plugin ι ε} {settings : Settings} {goals : List StreamType} {f : Front ι ε}

theorem answer_log {tap : Tap ι ε} {post : Post} {ahead : Nat} {settingUp : Bool} {q : Request ε}
    (hq : q.IsIdle) (b : Bench ι ε) :
    (answer tap post ahead settingUp q b).2.log = b.log := by
  cases q with
  | read => exact hq.elim
  | peek => exact hq.elim
  | seek => exact hq.elim
  | readLine => exact hq.elim
  | recordInt => exact hq.elim
  | recordText => exact hq.elim
  | setOutType type => cases settingUp <;> rfl
  | _ => rfl

/-- Of the stages in front and the facts, setting up a stage leaves what its plugin has left. -/
theorem create_front_eq (p : Plugin ι ε) (settings : Settings) (goals : List StreamType)
    (f : Front ι ε) :
    (create p settings goals f).2.stages = (firstRun p settings goals f).2.front.stages ∧
      (create p settings goals f).2.scene.log = (firstRun p settings goals f).2.log := by
  rcases create_cases p settings goals f with ⟨e, -, h⟩ | ⟨state, -, -, h⟩ | ⟨state, _, -, h⟩
  all_goals
    rw [h]
    exact ⟨rfl, rfl⟩

theorem firstRun_stages_of_local (h : ∀ q ∈ firstAsked p settings goals f, q.IsLocal) :
    (firstRun p settings goals f).2.front.stages = f.stages :=
  Script.run_of_trace (J := fun b : Bench ι ε => b.front.stages = f.stages)
    (fun _ b hq hb => (answer_local _ _ _ _ hq b).1.trans hb) p.init (firstBench p f) h rfl

theorem firstRun_log_of_idle (h : ∀ q ∈ firstAsked p settings goals f, q.IsIdle) :
    (firstRun p settings goals f).2.log = f.scene.log :=
  Script.run_of_trace (J := fun b : Bench ι ε => b.log = f.scene.log)
    (fun _ b hq hb => (answer_log hq b).trans hb) p.init (firstBench p f) h rfl

end Stage

/-! ## Skipping -/

/-- No stage can see the switch of an effect, unless the effect has one already. -/
def Front.Unaware (f : Front ι ε) (effect : String) : Prop :=
  ∀ s ∈ f.stages, (s.name ++ ".").toList <+: (Settings.enabledPath effect).toList →
    f.scene.backstage.config.lookup (Settings.enabledPath effect) ≠ none

/-- A switch that a stage cannot see changes nothing of its part of the configuration. -/
theorem Front.Unaware.lookup {f : Front ι ε} {effect : String} (h : f.Unaware effect)
    {s : Stage ι ε} (hs : s ∈ f.stages) (key : String) :
    (f.scene.backstage.config.register (Settings.enabledPath effect) "0").lookup
        (s.name ++ "." ++ key) = f.scene.backstage.config.lookup (s.name ++ "." ++ key) := by
  rw [Config.lookup_register, if_neg]
  rintro ⟨hpath, hnone⟩
  have htoList : (s.name ++ "." ++ key).toList = (s.name ++ ".").toList ++ key.toList :=
    String.toList_append
  refine h s hs ?_ hnone
  rw [hpath, htoList]
  exact List.prefix_append _ _

namespace Builder

variable {b : Builder ι ε} {goals : List StreamType} {name : String} {p : Plugin ι ε}
  {f : Front ι ε}

/-- An effect that is tried and skipped leaves the stages and the facts as its plugin has left
them. -/
theorem addEffect_front_eq (h : (b.addEffect goals name f).1 = false) (hp : b.Asks name p f) :
    (b.addEffect goals name f).2.stages =
        (Stage.firstRun p b.settings goals f).2.front.stages ∧
      (b.addEffect goals name f).2.scene.log = (Stage.firstRun p b.settings goals f).2.log := by
  have hcreate := Stage.create_front_eq p b.settings goals f
  rw [addEffect_of_asks goals hp] at h ⊢
  rcases heq : Stage.create p b.settings goals f with ⟨e | s, f'⟩
  · rw [heq] at hcreate
    exact hcreate
  · rw [heq] at h
    cases h

theorem addEffect_stages_iff (h : (b.addEffect goals name f).1 = false) :
    (b.addEffect goals name f).2.stages = f.stages ↔ ∀ p, b.Asks name p f →
      (Stage.firstRun p b.settings goals f).2.front.stages = f.stages := by
  constructor
  · intro hstages p hp
    rw [← (addEffect_front_eq h hp).1, hstages]
  · intro hall
    rcases b.asks_or_eq goals name f with ⟨p, hp⟩ | heq
    · rw [(addEffect_front_eq h hp).1, hall p hp]
    · rw [heq]

theorem addEffect_log_of_idle (h : (b.addEffect goals name f).1 = false)
    (hidle : ∀ p, b.Asks name p f → ∀ q ∈ Stage.firstAsked p b.settings goals f, q.IsIdle) :
    (b.addEffect goals name f).2.scene.log = f.scene.log := by
  rcases b.asks_or_eq goals name f with ⟨p, hp⟩ | heq
  · rw [(addEffect_front_eq h hp).2, Stage.firstRun_log_of_idle (hidle p hp)]
  · rw [heq]

theorem addEffect_config (hp : b.Asks name p f) :
    (b.addEffect goals name f).2.scene.backstage.config =
      f.scene.backstage.config.register (Settings.enabledPath name) "0" := by
  rw [addEffect_of_asks goals hp, ← (Stage.create_leads p b.settings goals f).scene.config]
  rfl

/-- Stages that cannot see the switch of an effect cannot tell that it was tried, if nothing was
recorded. -/
theorem addEffect_alike (hlog : (b.addEffect goals name f).2.scene.log = f.scene.log)
    (hunaware : f.Unaware name) :
    Front.Alike (fun name => ∃ s ∈ f.stages, s.name = name) ⟨f.stages, f.scene⟩
      ⟨f.stages, (b.addEffect goals name f).2.scene⟩ := by
  refine ⟨rfl, fun s hs => ⟨s, hs, rfl⟩, hlog, ?_⟩
  rintro _ ⟨s, hs, rfl⟩ key
  rcases b.asks_or_eq goals name f with ⟨p, hp⟩ | heq
  · show (b.addEffect goals name f).2.scene.backstage.config.lookup _ = _
    rw [addEffect_config hp]
    exact hunaware.lookup hs key
  · rw [heq]

/-- **What a skipped effect leaves behind.** All stages stay what they are, and what is in them is
what the plugin has left in them when it tried to set up its stage. So they are unchanged if the
plugin was not asked, or has asked for nothing that reaches them. If nothing was recorded either,
and no stage can see the switch, then all that can be had from the chain later on is what could be
had before. -/
theorem addEffect_skips (h : (b.addEffect goals name f).1 = false) :
    List.Forall₂ Stage.Same f.stages (b.addEffect goals name f).2.stages ∧
      ((∀ p, ¬ b.Asks name p f) → (b.addEffect goals name f).2 = f) ∧
      ((b.addEffect goals name f).2.stages = f.stages ↔ ∀ p, b.Asks name p f →
        (Stage.firstRun p b.settings goals f).2.front.stages = f.stages) ∧
      ((∀ p, b.Asks name p f → ∀ q ∈ Stage.firstAsked p b.settings goals f, q.IsLocal) →
        (b.addEffect goals name f).2.stages = f.stages) ∧
      ((∀ p, b.Asks name p f → ∀ q ∈ Stage.firstAsked p b.settings goals f, q.IsIdle) →
        (b.addEffect goals name f).2.scene.log = f.scene.log) ∧
      ((b.addEffect goals name f).2.stages = f.stages →
        (b.addEffect goals name f).2.scene.log = f.scene.log → f.Unaware name →
          ∀ (c : Chain ι ε) (uses : List Chain.Use), c.stages = f.stages →
            Chain.answers uses { c with stages := (b.addEffect goals name f).2.stages }
                (b.addEffect goals name f).2.scene =
              Chain.answers uses c f.scene) := by
  refine ⟨?_, fun hnone => ?_, addEffect_stages_iff h, fun hlocal => ?_, addEffect_log_of_idle h,
    ?_⟩
  · refine addEffect_same_of_not_admits fun hadmits => ?_
    rw [addEffect_iff.mpr hadmits] at h
    cases h
  · rw [addEffect_of_not_asks goals hnone]
  · exact (addEffect_stages_iff h).mpr fun p hp => Stage.firstRun_stages_of_local (hlocal p hp)
  · intro hstages hlog hunaware c uses hc
    obtain ⟨stages, decoderLength, url, entry, goals', rehash, bulletin⟩ := c
    obtain rfl : stages = f.stages := hc
    rw [hstages]
    exact Chain.answers_alike (addEffect_alike hlog hunaware) uses

/-! ## A plugin that takes bytes before it fails -/

/-- A plugin that opens urls, and gives the digits. -/
def pouring : Plugin Nat Unit where
  descriptor := { name := "pour", inputs := [⟨.ofMime StreamType.urlMime, 1⟩] }
  init := do
    let _ ← Script.request (.setOutType (.ofMime "poured"))
    return .ok 0
  read position window :=
    let bytes := (([0, 1, 2, 3, 4, 5, 6, 7, 8, 9] : Bytes).drop position).take window.size
    return (.ok (.ofBytes bytes), position + bytes.length)

/-- A plugin that fails to set up a stage, and may take four bytes before. -/
def sampling (takes : Bool) : Plugin Nat Unit where
  descriptor := { name := "sample", inputs := [⟨.ofMime "poured", 1⟩] }
  init := do
    if takes then
      let _ ← Script.request (.read (.blank 4))
    return .error (.unsupported "sample")
  read position _ := return (.ok (.ofBytes []), position)

def sampler (takes : Bool) : Builder Nat Unit := ⟨⟨[pouring, sampling takes]⟩, {}, false⟩

/-- The stages that give the digits, as they are built. They are irreducible lest they be built
whenever two terms with them are compared. -/
@[irreducible]
def poured (takes : Bool) : Front Nat Unit :=
  let (result, scene) :=
    (sampler takes).decode [.ofMime "poured"] "memfile://song.raw" ⟨.empty, .empty⟩
  ⟨result.toOption.getD [], scene⟩

/-- What is read from a chain of these stages. -/
def drawn (f : Front Nat Unit) : List (Except StageError (Bytes ⊕ Nat)) :=
  Chain.answers [.read (.blank 16)]
    ⟨f.stages, 2, "memfile://song.raw", none, [], false, ⟨0, ⟨"", none, [], .untyped⟩⟩⟩ f.scene

theorem sampler_find? (takes : Bool) :
    (sampler takes).registry.find? "sample" = some (sampling takes) := by
  simp [sampler, Registry.find?, Plugin.name, pouring, sampling]

/-- A plugin that takes nothing asks for nothing. -/
theorem sampling_asked (settings : Settings) (goals : List StreamType) (f : Front Nat Unit) :
    Stage.firstAsked (sampling false) settings goals f = [] := rfl

theorem poured_names : (poured false).stages.map Stage.name = ["pour", "url"] := by
  decide +kernel

theorem poured_unaware : (poured false).Unaware "sample" := by
  intro s hs hprefix
  have hname : s.name ∈ (poured false).stages.map Stage.name := List.mem_map_of_mem hs
  rw [poured_names] at hname
  exfalso
  revert hprefix
  rcases List.mem_cons.mp hname with h | h
  · rw [h]
    decide
  · rw [List.mem_singleton.mp h]
    decide

/-- If the plugin takes nothing, all digits are there afterwards. -/
theorem addEffect_refusing :
    ((sampler false).addEffect [] "sample" (poured false)).1 = false ∧
      drawn (poured false) = [.ok (.inl [0, 1, 2, 3, 4, 5, 6, 7, 8, 9])] ∧
      drawn ((sampler false).addEffect [] "sample" (poured false)).2 =
        [.ok (.inl [0, 1, 2, 3, 4, 5, 6, 7, 8, 9])] := by
  have hskipped : ((sampler false).addEffect [] "sample" (poured false)).1 = false := by
    decide +kernel
  have hbefore : drawn (poured false) = [.ok (.inl [0, 1, 2, 3, 4, 5, 6, 7, 8, 9])] := by
    decide +kernel
  have hasked : ∀ p, (sampler false).Asks "sample" p (poured false) →
      Stage.firstAsked p (sampler false).settings [] (poured false) = [] := by
    intro p hp
    obtain rfl := Option.some.inj ((sampler_find? false).symm.trans hp.found)
    exact sampling_asked _ _ _
  obtain ⟨-, -, -, hstages, hlog, hanswers⟩ := addEffect_skips hskipped
  have hafter := hanswers (hstages fun p hp q hq => ?_) (hlog fun p hp q hq => ?_) poured_unaware
    ⟨(poured false).stages, 2, "memfile://song.raw", none, [], false,
      ⟨0, ⟨"", none, [], .untyped⟩⟩⟩ [.read (.blank 16)] rfl
  · exact ⟨hskipped, hbefore, hafter.trans hbefore⟩
  all_goals
    rw [hasked p hp] at hq
    cases hq

/-- If it takes some, they are lost, though the effect is skipped. -/
theorem addEffect_sampling :
    ((sampler true).addEffect [] "sample" (poured true)).1 = false ∧
      drawn (poured true) = [.ok (.inl [0, 1, 2, 3, 4, 5, 6, 7, 8, 9])] ∧
      drawn ((sampler true).addEffect [] "sample" (poured true)).2 =
        [.ok (.inl [4, 5, 6, 7, 8, 9])] := by
  decide +kernel

end Builder

end MediaChain
