import MediaChain.Proofs.Chain.Career
import MediaChain.Proofs.Stage.Tokens

/-!
# Read horizons along a chain

A chain of attentive plugins is built abreast and stays so, whatever is read, looked at, sought and
rebuilt. So the horizon of its tail, up to which its ledger reacts, takes in all that its stages
have recorded (`Chain.Runs.within_token`). A plugin that looks at bytes and gives others without
taking any hides from its chain what was recorded with them (`Chain.listened_of_glancing`).
-/

namespace MediaChain

variable {ι ε : Type}

/-! ## Building -/

theorem Stage.recordFact_abreast {s : Stage ι ε} {f : Front ι ε} (hf : (f.push s).Abreast)
    (key : String) (value : Value) :
    ((⟨f.stages, { f.scene with log := (s.recordFact f.scene.log key value).2 }⟩ :
      Front ι ε).push (s.recordFact f.scene.log key value).1).Abreast := by
  obtain ⟨hfront, hengine, hissued, hhead⟩ := Front.abreast_push.mp hf
  refine Front.abreast_push.mpr ⟨hfront.scene (Nat.le_succ _), hengine, ?_, fun u hu => ?_⟩
  · exact Nat.max_le.mpr ⟨Nat.le_succ_of_le hissued, Nat.le_refl _⟩
  · exact (hhead u hu).imp_right fun h => h.mono (Nat.le_max_left _ _)

namespace Builder

variable {b : Builder ι ε} {goals : List StreamType}

/-- With attentive plugins, building keeps stages abreast. -/
theorem keeps_abreast (hb : ∀ p ∈ b.registry.plugins, p.Attentive) (goals : List StreamType) :
    b.Keeps goals Front.Abreast where
  create hp _ _ hf := Stage.create_abreast (hb _ hp) b.settings goals hf
  record key value hf := Stage.recordFact_abreast (f := ⟨_, _⟩) hf key value
  switch _ hf := hf.scene (Nat.le_refl _)

theorem start_abreast (b : Builder ι ε) (goals : List StreamType) (url decoded : String)
    (scene : Scene ε) : (b.start goals url decoded scene).Abreast := by
  refine ⟨fun s hs => ?_, fun s hs => ?_, List.isChain_singleton _⟩
  all_goals obtain rfl := List.mem_singleton.mp hs
  · exact nofun
  · exact Nat.zero_le _

end Builder

/-! ## Playing -/

namespace Chain

variable {b : Builder ι ε} {c : Chain ι ε} {scene : Scene ε}

theorem operate_carries {α : Type} {op : Tap ι ε → StageOp ι ε α}
    (hop : ∀ tap, tap.Carries → (op tap).Carries) (c : Chain ι ε) (scene : Scene ε) :
    Front.Rises ⟨c.stages, scene⟩ ⟨(c.operate scene op).2.1.stages, (c.operate scene op).2.2⟩ ∧
      (Front.Abreast ⟨c.stages, scene⟩ →
        Front.Abreast ⟨(c.operate scene op).2.1.stages, (c.operate scene op).2.2⟩) := by
  obtain ⟨stages, decoderLength, url, entry, goals, rehash, bulletin⟩ := c
  cases stages with
  | nil => exact ⟨.refl _, id⟩
  | cons tail rest =>
    have hcarries := hop _ (Tap.carries_reaching rest.length)
    exact ⟨hcarries.rises tail ⟨rest, scene⟩, hcarries.abreast tail ⟨rest, scene⟩⟩

theorem use_carries (c : Chain ι ε) (scene : Scene ε) (u : Use) :
    Front.Rises ⟨c.stages, scene⟩ ⟨(c.use scene u).2.1.stages, (c.use scene u).2.2⟩ ∧
      (Front.Abreast ⟨c.stages, scene⟩ →
        Front.Abreast ⟨(c.use scene u).2.1.stages, (c.use scene u).2.2⟩) := by
  cases u with
  | read window => exact operate_carries (fun _ h => Stage.read_carries h window) c scene
  | peek size => exact operate_carries (fun _ h => Stage.peek_carries h size) c scene
  | seek offset whence =>
    exact operate_carries (fun _ h => Stage.seek_carries h offset whence) c scene

/-- Without its effects, the stages of a chain are still abreast. -/
theorem dropEffects_abreast (h : Front.Abreast ⟨c.stages, scene⟩) :
    Front.Abreast ⟨(c.dropEffects scene.backstage).1.stages,
      ⟨scene.log, (c.dropEffects scene.backstage).2⟩⟩ :=
  ⟨fun s hs => h.attentive s (List.mem_of_mem_drop hs),
    fun s hs => h.issued s (List.mem_of_mem_drop hs), h.chain.drop _⟩

/-- A chain and the scene it acts upon, after its builder has built it, and possibly after it was
used and rebuilt. In between others may have acted upon the scene, but the tokens that were issued
stay issued. -/
def Runs (b : Builder ι ε) : Chain ι ε → Scene ε → Prop :=
  Career (fun c scene => ∃ goals l, b.Makes goals l c scene) (· = b)
    fun c scene c' scene' => c' = c ∧ scene.log.lastToken ≤ scene'.log.lastToken

theorem Runs.abreast (hb : ∀ p ∈ b.registry.plugins, p.Attentive) (h : Runs b c scene) :
    Front.Abreast ⟨c.stages, scene⟩ := by
  induction h with
  | first h =>
    obtain ⟨goals, l, hmakes⟩ := h
    obtain ⟨scene', hkept, -, hissued⟩ := hmakes.keeps (Builder.keeps_abreast hb goals)
      fun url decoded w => b.start_abreast goals url decoded (w.scene l)
    exact hkept.scene (Nat.le_of_eq hissued.symm)
  | use u _ ih => exact (use_carries _ _ u).2 ih
  | rebuild heq _ ih =>
    subst heq
    exact (Builder.keeps_abreast hb _).rebuild (dropEffects_abreast ih)
  | aside h _ ih =>
    obtain ⟨rfl, hissued⟩ := h
    exact ih.scene hissued

/-- No stage is behind one in front of it if neither they nor the stages between them have
failed. -/
theorem token_le {behind front : List (Stage ι ε)} {s : Stage ι ε}
    (h : Front.Abreast ⟨c.stages, scene⟩) (hstages : c.stages = behind ++ s :: front)
    (hsound : ∀ t ∈ behind ++ [s], t.errored = false) :
    (∀ t ∈ behind, s.token ≤ t.token) ∧ s.token ≤ c.token := by
  have hchain : ((behind ++ [s]).map Stage.token).IsChain (· ≥ ·) := by
    have hall := h.chain
    rw [hstages, List.append_cons] at hall
    rw [List.isChain_map]
    refine hall.left_of_append.imp_of_mem_imp fun t u ht hu htu => ?_
    rcases htu with ht' | hu' | hle
    · rw [hsound t ht] at ht'
      cases ht'
    · rw [hsound u hu] at hu'
      cases hu'
    · exact hle
  rw [List.isChain_iff_pairwise, List.map_append, List.pairwise_append] at hchain
  have hbehind : ∀ t ∈ behind, s.token ≤ t.token := fun t ht =>
    hchain.2.2 t.token (List.mem_map_of_mem ht) s.token List.mem_cons_self
  refine ⟨hbehind, ?_⟩
  unfold Chain.token
  rw [hstages]
  cases behind with
  | nil => exact Nat.le_refl _
  | cons t behind => exact hbehind t List.mem_cons_self

/-- **What the tail of a chain has in sight.** In a chain of attentive plugins no stage is behind
the one in front of it, unless one of the two has failed; so as long as none has, no stage sees
beyond the token of the chain. What is recorded while the chain is used is within the horizon of
the stage that records it, and, if no stage from there to the tail has failed, within those of all
stages behind it and the token of the chain. -/
theorem Runs.within_token (hb : ∀ p ∈ b.registry.plugins, p.Attentive) (h : Runs b c scene) :
    (c.stages.IsChain fun s u => s.errored = true ∨ u.errored = true ∨ u.token ≤ s.token) ∧
      ((∀ s ∈ c.stages, s.errored = false) → ∀ s ∈ c.stages, s.token ≤ c.token) ∧
      ∀ u : Use, ∃ gained, (c.use scene u).2.2.log.facts = scene.log.facts ++ gained ∧
        ∀ fact ∈ gained, ∃ behind s front,
          (c.use scene u).2.1.stages = behind ++ s :: front ∧ s.Stated fact ∧
            ((∀ t ∈ behind ++ [s], t.errored = false) →
              (∀ t ∈ behind, fact.token ≤ t.token) ∧
                fact.token ≤ (c.use scene u).2.1.token) := by
  have habreast := h.abreast hb
  refine ⟨habreast.chain, fun hsound s hs => ?_, fun u => ?_⟩
  · obtain ⟨behind, front, hstages⟩ := List.append_of_mem hs
    refine (token_le habreast hstages fun t ht => hsound t ?_).2
    rw [hstages, List.append_cons]
    exact List.mem_append_left _ ht
  · obtain ⟨gained, hfacts, hstated⟩ := (use_carries c scene u).1.stated
    refine ⟨gained, hfacts, fun fact hfact => ?_⟩
    obtain ⟨s, hs, hwithin⟩ := hstated fact hfact
    obtain ⟨behind, front, hstages⟩ := List.append_of_mem hs
    refine ⟨behind, s, front, hstages, hwithin, fun hsound => ?_⟩
    obtain ⟨hbehind, hle⟩ := token_le ((use_carries c scene u).2 habreast) hstages hsound
    exact ⟨fun t ht => Nat.le_trans hwithin.2.2 (hbehind t ht), Nat.le_trans hwithin.2.2 hle⟩

/-! ## A plugin that looks ahead -/

/-- A plugin that opens urls, and records a number with every byte that it gives. -/
def tagging : Plugin Unit Unit where
  descriptor := { name := "tag", inputs := [⟨.ofMime StreamType.urlMime, 1⟩] }
  init := do
    let _ ← Script.request (.setOutType (.ofMime "tagged"))
    return .ok ()
  read _ _ := do
    Script.request (.recordInt "bitrate" 128)
    return (.ok (.ofBytes [7]), ())

/-- A plugin that looks at the next byte and then takes it, or else gives one of its own. -/
def glancing (takes : Bool) : Plugin Unit Unit where
  descriptor := { name := "glance", inputs := [⟨.ofMime "tagged", 1⟩] }
  init := do
    let _ ← Script.request (.setOutType (.ofMime "glanced"))
    return .ok ()
  read _ window := do
    let _ ← Script.request (.peek 1)
    if takes then
      match ← Script.request (.read window) with
      | .ok reply => return (.ok reply, ())
      | .error _ => return (.error (.unsupported "read"), ())
    else return (.ok (.ofBytes [8]), ())

def listener (takes : Bool) : Builder Unit Unit := ⟨⟨[tagging, glancing takes]⟩, {}, false⟩

/-- A chain of these plugins is built and one byte is read from it. -/
def listened (takes : Bool) :
    Option (Except StageError Unit × Chain Unit Unit × Scene Unit) :=
  match (listener takes).buildFrom [.ofMime "glanced"] false 0 "memfile://song.raw" (.empty false)
    .empty with
  | (.ok c, l, w) => some (c.use (w.scene l) (.read (.blank 1)))
  | (.error _, _, _) => none

theorem listener_attentive : ∀ p ∈ (listener true).registry.plugins, p.Attentive := by
  intro p hp
  rcases List.mem_cons.mp hp with rfl | hp
  · refine ⟨?_, fun _ _ => ?_, fun _ _ _ => .done nofun⟩
    · exact Script.Ends.attentive (P := fun _ => True) (.ask (fun _ => rfl) fun _ => .done trivial)
    · exact Script.Ends.attentive (P := fun _ => True) (.ask (fun _ => rfl) fun _ => .done trivial)
  · obtain rfl := List.mem_singleton.mp hp
    refine ⟨.ask fun _ => .done nofun, fun _ window => ?_, fun _ _ _ => .done nofun⟩
    refine .ask fun seen => .ask fun answer => ?_
    cases answer with
    | ok reply => exact .done nofun
    | error e => exact .done fun _ => Bool.false_ne_true

/-- If it takes the byte, the number that was recorded with it is in sight of the chain. -/
theorem listened_of_taking :
    ∃ c scene, Runs (listener true) c scene ∧ (∀ s ∈ c.stages, s.errored = false) ∧
      scene.log.facts.map Fact.token = [1] ∧ c.stages.map Stage.token = [1, 1, 0] ∧
      ∀ s ∈ c.stages, s.token ≤ c.token := by
  have hlistened : (listened true).map (fun (_, c, scene) => (c.stages.map Stage.errored,
      scene.log.facts.map Fact.token, c.stages.map Stage.token)) =
        some ([false, false, false], [1], [1, 1, 0]) := by
    decide +kernel
  unfold listened at hlistened
  split at hlistened
  next c l w hbuild =>
    obtain ⟨hsound, hfacts, htokens⟩ :
        ((c.use (w.scene l) (.read (.blank 1))).2.1.stages.map Stage.errored =
            [false, false, false]) ∧
          ((c.use (w.scene l) (.read (.blank 1))).2.2.log.facts.map Fact.token = [1]) ∧
          (c.use (w.scene l) (.read (.blank 1))).2.1.stages.map Stage.token = [1, 1, 0] := by
      simpa only [Option.map_some, Option.some.injEq, Prod.mk.injEq] using hlistened
    have hruns : Runs (listener true) _ _ := .use (.read (.blank 1)) (.first ⟨_, _, .forUrl hbuild⟩)
    have hsound' : ∀ s ∈ (c.use (w.scene l) (.read (.blank 1))).2.1.stages,
        s.errored = false := by
      intro s hs
      have hmem := List.mem_map_of_mem (f := Stage.errored) hs
      rw [hsound] at hmem
      simpa using hmem
    exact ⟨_, _, hruns, hsound', hfacts, htokens,
      (Runs.within_token listener_attentive hruns).2.1 hsound'⟩
  next => cases hlistened

/-- If it does not, the read succeeds as well, and the number is beyond the token of the chain. -/
theorem listened_of_glancing :
    (listened false).map (fun (result, c, scene) =>
        (result, c.stages.map Stage.errored, scene.log.facts.map Fact.token,
          c.stages.map Stage.token, c.token)) =
      some (.ok (), [false, false, false], [1], [0, 1, 0], 0) := by
  decide +kernel

end Chain

end MediaChain
