import Mathlib.Data.List.Forall2
import Mathlib.Logic.Relation
import MediaChain.Proofs.Journal
import MediaChain.Proofs.Stage.Life

/-!
# What stages leave as it is

Whatever the plugins do, an operation of a stage keeps the place, the output type and the plugin of
that stage and of all stages in front of it (`Stage.Same`). All that it does to the scene is to
record facts and to write to the journal that those stages were worked and what their plugins noted
(`Scene.Move`). Both are said of all operations at once (`Tap.keepsBy_reaching`), since each reaches
the others through the requests of its plugin. Setting up and releasing stages also counts births
and writes other events (`Scene.Step`).
-/

namespace MediaChain

variable {ι ε α : Type} {I : Nat → Prop} {Q : Scene ε → Scene ε → Prop}

/-! ## Scenes -/

/-- One thing that a stage does to the scene. -/
inductive Scene.Step : Scene ε → Scene ε → Prop
  | record (s : Scene ε) (event : Event ε) : Step s (s.record event)
  | fact (s : Scene ε) (order : Nat) (source key : String) (value : Value) :
    Step s { s with log := (s.log.append order source key value .persistent).2 }
  | birth (s : Scene ε) :
    Step s { s with backstage := { s.backstage with births := s.backstage.births + 1 } }

/-- Things that stages do to the scene, one after the other. -/
abbrev Scene.Steps : Scene ε → Scene ε → Prop := Relation.ReflTransGen Step

/-- One thing that stages with certain numbers do to the scene when they are worked. -/
inductive Scene.Move (I : Nat → Prop) : Scene ε → Scene ε → Prop
  | record {s : Scene ε} {event : Event ε} : event.Among I → Move I s (s.record event)
  | fact (s : Scene ε) (order : Nat) (source key : String) (value : Value) :
    Move I s { s with log := (s.log.append order source key value .persistent).2 }

/-- A relation of scenes that holds whatever stages with certain numbers do one after the other. -/
structure Scene.Covers (I : Nat → Prop) (Q : Scene ε → Scene ε → Prop) : Prop where
  refl : ∀ s, Q s s
  trans : ∀ {s s' s''}, Q s s' → Q s' s'' → Q s s''
  move : ∀ {s s'}, Move I s s' → Q s s'

theorem Scene.steps_covers (I : Nat → Prop) : Covers I (Steps (ε := ε)) := by
  refine ⟨fun _ => .refl, .trans, fun h => .single ?_⟩
  cases h with
  | record _ => exact .record _ _
  | fact order source key value => exact .fact _ order source key value

/-! ## Stages and those in front of them -/

/-- A stage that may have been worked since. -/
structure Stage.Same (s s' : Stage ι ε) : Prop where
  post : s'.post = s.post
  outType : s'.outType = s.outType
  engine : s'.engine.map (fun e => (e.plugin, e.id)) = s.engine.map fun e => (e.plugin, e.id)

/-- If a plugin drives a stage, it has one of certain numbers. -/
def Stage.Among (I : Nat → Prop) (s : Stage ι ε) : Prop := ∀ e, s.engine = some e → I e.id

namespace Stage.Same

variable {s s' s'' : Stage ι ε}

theorem refl (s : Stage ι ε) : s.Same s := ⟨rfl, rfl, rfl⟩

theorem trans (h : s.Same s') (h' : s'.Same s'') : s.Same s'' :=
  ⟨h'.post.trans h.post, h'.outType.trans h.outType, h'.engine.trans h.engine⟩

/-- The plugin may have changed its state. -/
theorem of_engine {e : Engine ι ε} {state : ι} (h : s.Same s') (he : s.engine = some e)
    (hpost : s''.post = s'.post) (hout : s''.outType = s'.outType)
    (hengine : s''.engine = some { e with state }) : s.Same s'' :=
  ⟨hpost.trans h.post, hout.trans h.outType, by rw [hengine, he]; rfl⟩

theorem among (h : s.Same s') (hs : s.Among I) : s'.Among I := by
  intro e' he'
  have hmap := h.engine
  rw [he', Option.map_some] at hmap
  obtain ⟨e, he, hpair⟩ := Option.map_eq_some_iff.mp hmap.symm
  have hid : e.id = e'.id := congrArg Prod.snd hpair
  exact hid ▸ hs e he

end Stage.Same

theorem Stage.among_of_same {ss ss' : List (Stage ι ε)} (h : List.Forall₂ Stage.Same ss ss')
    (hss : ∀ s ∈ ss, s.Among I) : ∀ s ∈ ss', s.Among I := by
  induction h with
  | nil => exact hss
  | cons hs _ ih =>
    rw [List.forall_mem_cons] at hss ⊢
    exact ⟨hs.among hss.1, ih hss.2⟩

/-- The stages in front and the scene after some work. -/
structure Front.Leads (f f' : Front ι ε) : Prop where
  stages : List.Forall₂ Stage.Same f.stages f'.stages
  scene : f.scene.Steps f'.scene

/-- The stages in front and the scene after some work that is described by a relation of scenes. -/
structure Front.LeadsBy (Q : Scene ε → Scene ε → Prop) (f f' : Front ι ε) : Prop where
  stages : List.Forall₂ Stage.Same f.stages f'.stages
  scene : Q f.scene f'.scene

theorem Front.leads_iff {f f' : Front ι ε} : f.Leads f' ↔ f.LeadsBy Scene.Steps f' :=
  ⟨fun h => ⟨h.stages, h.scene⟩, fun h => ⟨h.stages, h.scene⟩⟩

namespace Front.LeadsBy

variable {f f' f'' : Front ι ε}

theorem same_stages (stages : List (Stage ι ε)) : List.Forall₂ Stage.Same stages stages :=
  List.forall₂_same.mpr fun s _ => .refl s

theorem trans_stages {ss ss' ss'' : List (Stage ι ε)} (h : List.Forall₂ Stage.Same ss ss')
    (h' : List.Forall₂ Stage.Same ss' ss'') : List.Forall₂ Stage.Same ss ss'' := by
  induction h generalizing ss'' with
  | nil => exact h'
  | cons hs _ ih =>
    cases h' with
    | cons hs' hrest => exact .cons (hs.trans hs') (ih hrest)

theorem refl (hQ : Scene.Covers I Q) (f : Front ι ε) : f.LeadsBy Q f :=
  ⟨same_stages _, hQ.refl _⟩

theorem trans (hQ : Scene.Covers I Q) (h : f.LeadsBy Q f') (h' : f'.LeadsBy Q f'') :
    f.LeadsBy Q f'' :=
  ⟨trans_stages h.stages h'.stages, hQ.trans h.scene h'.scene⟩

theorem of_move (hQ : Scene.Covers I Q) {scene : Scene ε} (h : f.scene.Move I scene) :
    f.LeadsBy Q { f with scene } :=
  ⟨same_stages _, hQ.move h⟩

theorem record (hQ : Scene.Covers I Q) (f : Front ι ε) (event : Event ε) (h : event.Among I) :
    f.LeadsBy Q (f.record event) :=
  of_move hQ (.record h)

end Front.LeadsBy

/-- An operation that works a stage and those in front of it, and keeps what they are. -/
def StageOp.Keeps (op : StageOp ι ε α) : Prop :=
  ∀ (s : Stage ι ε) (f : Front ι ε), s.Same (op s f).2.1 ∧ f.Leads (op s f).2.2

structure Tap.Keeps (tap : Tap ι ε) : Prop where
  read : ∀ window, (tap.read window).Keeps
  peek : ∀ size, (tap.peek size).Keeps
  seek : ∀ offset whence, (tap.seek offset whence).Keeps

/-- An operation that keeps what the stages are, and does to the scene what a relation says as long
as their numbers are certain ones. -/
def StageOp.KeepsBy (I : Nat → Prop) (Q : Scene ε → Scene ε → Prop) (op : StageOp ι ε α) : Prop :=
  ∀ (s : Stage ι ε) (f : Front ι ε), s.Among I → (∀ t ∈ f.stages, t.Among I) →
    s.Same (op s f).2.1 ∧ f.LeadsBy Q (op s f).2.2

structure Tap.KeepsBy (I : Nat → Prop) (Q : Scene ε → Scene ε → Prop) (tap : Tap ι ε) : Prop where
  read : ∀ window, (tap.read window).KeepsBy I Q
  peek : ∀ size, (tap.peek size).KeepsBy I Q
  seek : ∀ offset whence, (tap.seek offset whence).KeepsBy I Q

theorem StageOp.keeps_iff {op : StageOp ι ε α} :
    op.Keeps ↔ op.KeepsBy (fun _ => True) Scene.Steps := by
  constructor
  · intro h s f _ _
    exact ⟨(h s f).1, Front.leads_iff.mp (h s f).2⟩
  · intro h s f
    obtain ⟨hsame, hleads⟩ := h s f (fun _ _ => trivial) fun _ _ _ _ => trivial
    exact ⟨hsame, Front.leads_iff.mpr hleads⟩

theorem Tap.Keeps.keepsBy {tap : Tap ι ε} (h : tap.Keeps) :
    tap.KeepsBy (fun _ => True) Scene.Steps :=
  ⟨fun window => StageOp.keeps_iff.mp (h.read window),
    fun size => StageOp.keeps_iff.mp (h.peek size),
    fun offset whence => StageOp.keeps_iff.mp (h.seek offset whence)⟩

/-! ## Requests -/

namespace Bench

variable {b : Bench ι ε} {tap : Tap ι ε}

theorem reach_leadsBy (hQ : Scene.Covers I Q) {op : StageOp ι ε α} (h : op.KeepsBy I Q)
    (b : Bench ι ε) (hb : ∀ s ∈ b.front.stages, s.Among I) (name : String) :
    b.front.LeadsBy Q (b.reach name op).2.front := by
  obtain ⟨desk, outType, ⟨stages, scene⟩⟩ := b
  cases stages with
  | nil => exact .refl hQ _
  | cons s rest =>
    obtain ⟨hs, hrest⟩ := List.forall_mem_cons.mp hb
    obtain ⟨hsame, hleads⟩ := h s ⟨rest, scene⟩ hs hrest
    exact ⟨.cons hsame hleads.stages, hleads.scene⟩

theorem catchUp_front (b : Bench ι ε) : b.catchUp.front = b.front := by
  unfold catchUp
  split <;> rfl

theorem read_leadsBy (hQ : Scene.Covers I Q) (h : tap.KeepsBy I Q) (b : Bench ι ε)
    (hb : ∀ s ∈ b.front.stages, s.Among I) (post : Post) (window : Window) :
    b.front.LeadsBy Q (b.read tap post window).2.front := by
  have hreach := reach_leadsBy hQ (h.read window) b hb post.name
  unfold Bench.read
  split
  next heq =>
    rw [heq] at hreach
    rw [catchUp_front]
    exact hreach
  next heq =>
    rw [heq] at hreach
    exact hreach

theorem seek_leadsBy (hQ : Scene.Covers I Q) (h : tap.KeepsBy I Q) (b : Bench ι ε)
    (hb : ∀ s ∈ b.front.stages, s.Among I) (post : Post) (offset : Int) (whence : Whence) :
    b.front.LeadsBy Q (b.seek tap post offset whence).2.front := by
  have hreach := reach_leadsBy hQ (h.seek offset whence) b hb post.name
  unfold Bench.seek
  split
  all_goals
    next heq =>
      rw [heq] at hreach
      exact hreach

theorem takeLine_front (b : Bench ι ε) (bytes : Bytes) : (b.takeLine bytes).2.front = b.front := by
  unfold takeLine
  split <;> rfl

theorem readLine_leadsBy (hQ : Scene.Covers I Q) (h : tap.KeepsBy I Q) (b : Bench ι ε)
    (hb : ∀ s ∈ b.front.stages, s.Among I) (post : Post) :
    b.front.LeadsBy Q (b.readLine tap post).2.front := by
  unfold readLine
  dsimp only
  split
  · rw [takeLine_front]
    exact .refl hQ _
  · have hread := read_leadsBy hQ h b hb post (.blank (post.lineCap - b.desk.line.length))
    split
    next heq =>
      rw [heq] at hread
      rw [takeLine_front]
      exact hread
    next heq =>
      rw [heq] at hread
      exact hread

theorem recordFact_leadsBy (hQ : Scene.Covers I Q) (b : Bench ι ε) (post : Post) (key : String)
    (value : Value) : b.front.LeadsBy Q (b.recordFact post key value).front :=
  Front.LeadsBy.of_move hQ (.fact b.front.scene post.order post.name key value)

end Bench

namespace Stage

variable {tap : Tap ι ε}

theorem answer_leadsBy (hQ : Scene.Covers I Q) (h : tap.KeepsBy I Q) (post : Post) (ahead : Nat)
    (settingUp : Bool) (q : Request ε) (b : Bench ι ε) (hb : ∀ s ∈ b.front.stages, s.Among I) :
    b.front.LeadsBy Q (answer tap post ahead settingUp q b).2.front := by
  cases q with
  | setOutType type => cases settingUp <;> exact .refl hQ _
  | read window => exact b.read_leadsBy hQ h hb post window
  | peek size => exact b.reach_leadsBy hQ (h.peek size) hb post.name
  | seek offset whence => exact b.seek_leadsBy hQ h hb post offset whence
  | readLine => exact b.readLine_leadsBy hQ h hb post
  | recordInt key value => exact b.recordFact_leadsBy hQ post key _
  | recordText key value =>
    show b.front.LeadsBy Q
      (if _ then ((), b) else ((), b.recordFact post key (.text value))).2.front
    split
    · exact .refl hQ _
    · exact b.recordFact_leadsBy hQ post key _
  | note entry => exact .record hQ _ _ trivial
  | _ => exact .refl hQ _

theorem run_leadsBy (hQ : Scene.Covers I Q) (h : tap.KeepsBy I Q) (post : Post) (ahead : Nat)
    (settingUp : Bool) (x : Script ε α) (b : Bench ι ε) (hb : ∀ s ∈ b.front.stages, s.Among I) :
    b.front.LeadsBy Q (x.run (answer tap post ahead settingUp) b).2.front :=
  Script.run_invariant (P := fun b' : Bench ι ε => b.front.LeadsBy Q b'.front)
    (fun q b' hb' => hb'.trans hQ
      (answer_leadsBy hQ h post ahead settingUp q b' (among_of_same hb'.stages hb)))
    x b (.refl hQ _)

theorem play_keepsBy (hQ : Scene.Covers I Q) (h : tap.KeepsBy I Q) (s : Stage ι ε) (f : Front ι ε)
    (hf : ∀ t ∈ f.stages, t.Among I) (script : Script ε α) :
    s.Same (s.play tap f script).2.1 ∧ f.LeadsBy Q (s.play tap f script).2.2 :=
  ⟨⟨rfl, rfl, rfl⟩,
    run_leadsBy hQ h s.post s.buffer.length false script ⟨s.desk, some s.outType, f⟩ hf⟩

/-! ## Operations -/

theorem pull_keepsBy (hQ : Scene.Covers I Q) (h : tap.KeepsBy I Q) (window : Window) :
    StageOp.KeepsBy I Q (pull tap window) := by
  intro s f hs hf
  unfold pull
  split
  · exact ⟨.refl _, .refl hQ _⟩
  next e he =>
    obtain ⟨hsame, hleads⟩ := play_keepsBy hQ h s
      (f.record (.read s.name e.id window.size)) hf (e.plugin.read e.state window)
    have hrecord := Front.LeadsBy.record hQ f (.read s.name e.id window.size) (hs e he)
    have hfront := hrecord.trans hQ hleads
    dsimp only
    split
    · split
      · exact ⟨hsame.of_engine he rfl rfl rfl, hfront⟩
      · exact ⟨hsame.of_engine he rfl rfl rfl, hfront⟩
    · exact ⟨hsame.of_engine he rfl rfl rfl, hfront⟩

theorem prepend_snd (bytes : Bytes) (x : Except StageError Reply × Stage ι ε × Front ι ε) :
    (prepend bytes x).2 = x.2 := rfl

theorem fill_keepsBy (hQ : Scene.Covers I Q) (h : tap.KeepsBy I Q) (fresh : Bool)
    (window : Window) (s : Stage ι ε) (f : Front ι ε) (hs : s.Among I)
    (hf : ∀ t ∈ f.stages, t.Among I) :
    s.Same (fill tap fresh window s f).2.1 ∧ f.LeadsBy Q (fill tap fresh window s f).2.2 := by
  fun_induction fill tap fresh window s f with
  | case1 => exact ⟨.refl _, .refl hQ _⟩
  | case2 fresh window s f _ e s' f' hpull =>
    have hkeeps := pull_keepsBy hQ h window s f hs hf
    rw [hpull] at hkeeps
    exact hkeeps
  | case3 fresh window s f _ reply s' f' hpull =>
    obtain ⟨hsame, hleads⟩ := hpull ▸ pull_keepsBy hQ h window s f hs hf
    exact ⟨⟨hsame.post, hsame.outType, hsame.engine⟩, hleads⟩
  | case4 fresh window s f _ reply s' f' hpull filled _ bytes marks landed _ ih =>
    obtain ⟨hsame, hleads⟩ := hpull ▸ pull_keepsBy hQ h window s f hs hf
    have hlanded : s.Same landed := ⟨hsame.post, hsame.outType, hsame.engine⟩
    obtain ⟨hsame', hleads'⟩ := ih (hlanded.among hs) (among_of_same hleads.stages hf)
    rw [prepend_snd]
    exact ⟨hlanded.trans hsame', hleads.trans hQ hleads'⟩
  | case5 fresh window s f _ reply s' f' hpull =>
    obtain ⟨hsame, hleads⟩ := hpull ▸ pull_keepsBy hQ h window s f hs hf
    exact ⟨⟨hsame.post, hsame.outType, hsame.engine⟩, hleads⟩

theorem read_keepsBy (hQ : Scene.Covers I Q) (h : tap.KeepsBy I Q) (window : Window) :
    StageOp.KeepsBy I Q (read tap window) := by
  intro s f hs hf
  unfold read
  split
  · exact ⟨.refl _, .refl hQ _⟩
  · dsimp only
    split
    · exact ⟨⟨rfl, rfl, rfl⟩, .refl hQ _⟩
    · rw [prepend_snd]
      refine And.imp_left (fun hsame => ⟨hsame.post, hsame.outType, hsame.engine⟩)
        (fill_keepsBy hQ h _ _ _ f ?_ hf)
      exact hs

theorem lookAhead_keepsBy (hQ : Scene.Covers I Q) (h : tap.KeepsBy I Q) (size : Nat)
    (s : Stage ι ε) (f : Front ι ε) (hs : s.Among I) (hf : ∀ t ∈ f.stages, t.Among I) :
    s.Same (lookAhead tap size s f).2.1 ∧ f.LeadsBy Q (lookAhead tap size s f).2.2 := by
  fun_induction lookAhead tap size s f with
  | case1 => exact ⟨.refl _, .refl hQ _⟩
  | case2 s f _ e s' f' hpull =>
    have hkeeps := pull_keepsBy hQ h s.window s f hs hf
    rw [hpull] at hkeeps
    exact hkeeps
  | case3 s f _ reply s' f' hpull =>
    obtain ⟨hsame, hleads⟩ := hpull ▸ pull_keepsBy hQ h s.window s f hs hf
    exact ⟨⟨hsame.post, hsame.outType, hsame.engine⟩, hleads⟩
  | case4 s f _ reply s' f' hpull _ scratched _ buffer ih =>
    obtain ⟨hsame, hleads⟩ := hpull ▸ pull_keepsBy hQ h s.window s f hs hf
    have hbuffered : s.Same { scratched with buffer } := ⟨hsame.post, hsame.outType, hsame.engine⟩
    obtain ⟨hsame', hleads'⟩ := ih (hbuffered.among hs) (among_of_same hleads.stages hf)
    exact ⟨hbuffered.trans hsame', hleads.trans hQ hleads'⟩

theorem peek_keepsBy (hQ : Scene.Covers I Q) (h : tap.KeepsBy I Q) (size : Nat) :
    StageOp.KeepsBy I Q (peek tap size) := by
  intro s f hs hf
  unfold peek
  split
  · exact ⟨.refl _, .refl hQ _⟩
  · have hkeeps := lookAhead_keepsBy hQ h size s f hs hf
    split
    all_goals
      next heq =>
        rw [heq] at hkeeps
        exact hkeeps

theorem seek_keepsBy (hQ : Scene.Covers I Q) (h : tap.KeepsBy I Q) (offset : Int)
    (whence : Whence) : StageOp.KeepsBy I Q (seek tap offset whence) := by
  intro s f hs hf
  unfold seek
  split
  · exact ⟨.refl _, .refl hQ _⟩
  · split
    · exact ⟨.refl _, .refl hQ _⟩
    next e he =>
      split
      · have hrecord := Front.LeadsBy.record hQ f
          (.seek s.name e.id (s.seekOffset offset whence) whence) (hs e he)
        obtain ⟨hsame, hleads⟩ := play_keepsBy hQ h s
          (f.record (.seek s.name e.id (s.seekOffset offset whence) whence)) hf
          (e.plugin.seek e.state (s.seekOffset offset whence) whence)
        dsimp only
        split
        · exact ⟨hsame.of_engine he rfl rfl rfl, hrecord.trans hQ hleads⟩
        · exact ⟨hsame.of_engine he rfl rfl rfl, hrecord.trans hQ hleads⟩
      · exact ⟨.refl _, .refl hQ _⟩

theorem read_keeps (h : tap.Keeps) (window : Window) : StageOp.Keeps (read tap window) :=
  StageOp.keeps_iff.mpr (read_keepsBy (Scene.steps_covers _) h.keepsBy window)

theorem peek_keeps (h : tap.Keeps) (size : Nat) : StageOp.Keeps (peek tap size) :=
  StageOp.keeps_iff.mpr (peek_keepsBy (Scene.steps_covers _) h.keepsBy size)

theorem seek_keeps (h : tap.Keeps) (offset : Int) (whence : Whence) :
    StageOp.Keeps (seek tap offset whence) :=
  StageOp.keeps_iff.mpr (seek_keepsBy (Scene.steps_covers _) h.keepsBy offset whence)

end Stage

/-- All stages that a tap reaches stay what they are. -/
theorem Tap.keepsBy_reaching (hQ : Scene.Covers I Q) (depth : Nat) :
    (Tap.reaching depth : Tap ι ε).KeepsBy I Q := by
  induction depth with
  | zero =>
    constructor
    all_goals
      intros
      intro s f _ _
      exact ⟨.refl _, .refl hQ _⟩
  | succ depth ih =>
    exact ⟨Stage.read_keepsBy hQ ih, Stage.peek_keepsBy hQ ih, Stage.seek_keepsBy hQ ih⟩

theorem Tap.keeps_reaching (depth : Nat) : (Tap.reaching depth : Tap ι ε).Keeps := by
  have h := Tap.keepsBy_reaching (ι := ι) (Scene.steps_covers (ε := ε) fun _ => True) depth
  exact ⟨fun window => StageOp.keeps_iff.mpr (h.read window),
    fun size => StageOp.keeps_iff.mpr (h.peek size),
    fun offset whence => StageOp.keeps_iff.mpr (h.seek offset whence)⟩

/-! ## Setting up -/

theorem Scene.farewell_steps (p : Plugin ι ε) (id : Nat) (s : Scene ε) :
    s.Steps { s with backstage := Stage.farewell p id s.backstage } := by
  unfold Stage.farewell
  split
  · exact .single (.record s _)
  · exact .refl

namespace Stage

variable {p : Plugin ι ε} {settings : Settings} {goals : List StreamType} {f f' : Front ι ε}

/-- The stages in front and the scene once a plugin has set up a stage behind them. -/
def opened (p : Plugin ι ε) (settings : Settings) (goals : List StreamType) (f : Front ι ε) :
    Front ι ε :=
  (firstRun p settings goals f).2.front.record
    (.opened f.scene.backstage.births p.capabilities.destroy)

/-- A plugin fails to set up a stage, or sets up one that is released at once since it has no output
type, or sets up one that stays. -/
theorem create_cases (p : Plugin ι ε) (settings : Settings) (goals : List StreamType)
    (f : Front ι ε) :
    (∃ e, (firstRun p settings goals f).1 = .error e ∧ create p settings goals f =
        (.error (.initFailed p.name e), (firstRun p settings goals f).2.front)) ∨
      (∃ state, (firstRun p settings goals f).1 = .ok state ∧
        (firstRun p settings goals f).2.outType = none ∧ create p settings goals f =
          (.error (.outTypeUnset p.name),
            ⟨(opened p settings goals f).stages,
              { (opened p settings goals f).scene with
                backstage := farewell p f.scene.backstage.births
                  (opened p settings goals f).scene.backstage }⟩)) ∨
      ∃ state outType, (firstRun p settings goals f).1 = .ok state ∧ create p settings goals f =
        (.ok ⟨firstPost p settings goals f, (firstRun p settings goals f).2.desk,
            some ⟨p, f.scene.backstage.births, state⟩, outType, [], [], false, false⟩,
          opened p settings goals f) := by
  unfold create
  dsimp only
  split
  next e he => exact .inl ⟨e, he, rfl⟩
  next state hstate =>
    split
    next hnone => exact .inr (.inl ⟨state, hstate, hnone, rfl⟩)
    next outType _ => exact .inr (.inr ⟨state, outType, hstate, rfl⟩)

theorem firstRun_leadsBy (hQ : Scene.Covers I Q) (hf : ∀ s ∈ f.stages, s.Among I) :
    (firstBench p f).front.LeadsBy Q (firstRun p settings goals f).2.front :=
  run_leadsBy hQ (Tap.keepsBy_reaching hQ _) _ _ _ _ _ hf

/-- Whether or not a stage could be set up, those in front stay what they are. -/
theorem create_leads (p : Plugin ι ε) (settings : Settings) (goals : List StreamType)
    (f : Front ι ε) : f.Leads (create p settings goals f).2 := by
  have hleads : (firstBench p f).front.LeadsBy Scene.Steps (firstRun p settings goals f).2.front :=
    firstRun_leadsBy (Scene.steps_covers fun _ => True) fun _ _ _ _ => trivial
  obtain ⟨hstages, hrun⟩ := hleads
  have hborn : f.scene.Steps (firstBench p f).front.scene :=
    .tail (.single (.birth f.scene)) (.record _ _)
  have hopened : f.scene.Steps (opened p settings goals f).scene :=
    (hborn.trans hrun).tail (.record _ _)
  rcases create_cases p settings goals f with ⟨e, -, h⟩ | ⟨state, -, -, h⟩ | ⟨state, _, -, h⟩
  · rw [h]
    exact ⟨hstages, hborn.trans hrun⟩
  · rw [h]
    exact ⟨hstages, hopened.trans (Scene.farewell_steps p _ _)⟩
  · rw [h]
    exact ⟨hstages, hopened⟩

theorem create_same {result : Except StageError (Stage ι ε)}
    (h : create p settings goals f = (result, f')) : List.Forall₂ Same f.stages f'.stages := by
  have hleads := create_leads p settings goals f
  rw [h] at hleads
  exact hleads.stages

end Stage

end MediaChain
