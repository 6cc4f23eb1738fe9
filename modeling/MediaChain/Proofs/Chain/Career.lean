import MediaChain.Proofs.Chain.Building
import MediaChain.Proofs.Chain.Entry

/-!
# What becomes of chains

A chain that was built (`Builder.Makes`) is read, looked ahead in and sought (`Chain.use`), and
builders replace its effects. A `Chain.Career` is all that can become of a chain and of the scene
that it acts upon, with what may happen to both in between left open.
-/

namespace MediaChain

variable {ι ε : Type}

/-! ## Using chains -/

namespace Chain

/-- What is done with a chain. -/
inductive Use
  | read (window : Window)
  | peek (size : Nat)
  | seek (offset : Int) (whence : Whence)

/-- Uses a chain, and says whether that failed. -/
def use (c : Chain ι ε) (scene : Scene ε) : Use → Except StageError Unit × Chain ι ε × Scene ε
  | .read window =>
    let (result, rest) := c.readInto scene window
    (result.map fun _ => (), rest)
  | .peek size =>
    let (result, rest) := c.peek scene size
    (result.map fun _ => (), rest)
  | .seek offset whence =>
    let (result, rest) := c.seek scene offset whence
    (result.map fun _ => (), rest)

/-- Using a chain works its stages, and no more. -/
theorem use_leads (c : Chain ι ε) (scene : Scene ε) (u : Use) :
    (∃ stages, (c.use scene u).2.1 = { c with stages }) ∧
      Front.Leads ⟨c.stages, scene⟩ ⟨(c.use scene u).2.1.stages, (c.use scene u).2.2⟩ := by
  cases u with
  | read window => exact c.operate_leads (fun _ h => Stage.read_keeps h window) scene
  | peek size => exact c.operate_leads (fun _ h => Stage.peek_keeps h size) scene
  | seek offset whence =>
    exact c.operate_leads (fun _ h => Stage.seek_keeps h offset whence) scene

end Chain

/-! ## Building chains -/

namespace Builder

/-- A builder has built a chain upon a ledger, for a url or for the entry that the ledger was reset
for, and has left a scene. -/
inductive Makes (b : Builder ι ε) (goals : List StreamType) (l : Ledger) :
    Chain ι ε → Scene ε → Prop
  | forUrl {rehash : Bool} {now : Int64} {url : String} {l' : Ledger} {w w' : World ε}
    {c : Chain ι ε} :
    b.buildFrom goals rehash now url l w = (.ok c, l', w') → Makes b goals l c (w'.scene l')
  | forEntry {rehash : Bool} {now : Int64} {l' : Ledger} {w w' : World ε} {c : Chain ι ε} :
    b.build goals rehash now l w = (.ok c, l', w') → Makes b goals l c (w'.scene l')

variable {b : Builder ι ε} {goals : List StreamType} {l : Ledger} {c : Chain ι ε} {scene : Scene ε}

/-- An entry has a url, and the chain is built for that. -/
theorem Makes.buildFrom (h : b.Makes goals l c scene) :
    ∃ rehash now url l' w w', b.buildFrom goals rehash now url l w = (.ok c, l', w') ∧
      scene = w'.scene l' := by
  cases h with
  | forUrl h => exact ⟨_, _, _, _, _, _, h, rfl⟩
  | forEntry h =>
    unfold build at h
    split at h
    next => simp at h
    next => exact ⟨_, _, _, _, _, _, h, rfl⟩

/-- What building keeps holds of the chain that was built and of the facts that are known then. -/
theorem Makes.keeps {P : Front ι ε → Prop} (h : b.Makes goals l c scene) (hP : b.Keeps goals P)
    (hstart : ∀ url decoded (w : World ε), P (b.start goals url decoded (w.scene l))) :
    ∃ scene', P ⟨c.stages, scene'⟩ ∧ scene.log.facts = scene'.log.facts ∧
      scene.log.lastToken = scene'.log.lastToken := by
  obtain ⟨rehash, now, url, l', w, w', hbuild, rfl⟩ := h.buildFrom
  obtain ⟨scene', hkept, hfinal⟩ := hP.buildFrom (fun decoded _ => hstart url decoded w) hbuild
  have hledger : _ = l' := congrArg Prod.fst hfinal
  rw [finalize_ledger] at hledger
  refine ⟨scene', hkept, ?_⟩
  rw [← hledger]
  exact ⟨rfl, rfl⟩

end Builder

/-! ## Careers -/

namespace Chain

/-- What a chain and the scene that it acts upon come to. At first they are as `first` says. Then
the chain is used, its own builders rebuild it, and in between something else may become of both, as
far as `aside` allows. -/
inductive Career (first : Chain ι ε → Scene ε → Prop) (own : Builder ι ε → Prop)
    (aside : Chain ι ε → Scene ε → Chain ι ε → Scene ε → Prop) : Chain ι ε → Scene ε → Prop
  | first {c : Chain ι ε} {scene : Scene ε} : first c scene → Career first own aside c scene
  | use {c : Chain ι ε} {scene : Scene ε} (u : Use) : Career first own aside c scene →
    Career first own aside (c.use scene u).2.1 (c.use scene u).2.2
  | rebuild {b : Builder ι ε} {c : Chain ι ε} {l : Ledger} {w : World ε} : own b →
    Career first own aside c (w.scene l) →
      Career first own aside (b.rebuild c l w).1 ((b.rebuild c l w).2.2.scene (b.rebuild c l w).2.1)
  | aside {c c' : Chain ι ε} {scene scene' : Scene ε} : aside c scene c' scene' →
    Career first own aside c scene → Career first own aside c' scene'

namespace Career

variable {first first' : Chain ι ε → Scene ε → Prop} {own own' : Builder ι ε → Prop}
  {aside aside' : Chain ι ε → Scene ε → Chain ι ε → Scene ε → Prop} {b : Builder ι ε}
  {c : Chain ι ε} {scene : Scene ε} {l : Ledger} {w : World ε}

theorem mono (h : Career first own aside c scene)
    (hfirst : ∀ c scene, first c scene → first' c scene) (hown : ∀ b, own b → own' b)
    (haside : ∀ c scene c' scene', aside c scene c' scene' → aside' c scene c' scene') :
    Career first' own' aside' c scene := by
  induction h with
  | first h => exact .first (hfirst _ _ h)
  | use u _ ih => exact ih.use u
  | rebuild hb _ ih => exact ih.rebuild (hown _ hb)
  | aside h _ ih => exact ih.aside (haside _ _ _ _ h)

/-- A change of the configuration leads to a rebuild or to nothing. -/
theorem change (hb : own b) (change : Config.Change) (h : Career first own aside c (w.scene l)) :
    Career first own aside (b.handleChange change c l w).2.1
      ((b.handleChange change c l w).2.2.2.scene (b.handleChange change c l w).2.2.1) := by
  unfold Builder.handleChange
  split
  · exact h
  · exact h.rebuild hb

end Career

end Chain

end MediaChain
