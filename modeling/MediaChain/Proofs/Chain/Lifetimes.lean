import MediaChain.Chain.Browse
import MediaChain.Chain.Build
import MediaChain.Proofs.Chain.Building

/-!
# How long chains hold their stages

A chain that is being built holds the stages that were set up for it so far, and when it cannot be
built it lets all of them go (`Builder.buildFrom_tended`); so does browsing, in any case
(`Builder.browse_tended`). Afterwards it holds the stages that it consists of: reading, peeking and
seeking change nothing of that (`Chain.operate_tended`), a rebuild lets effects go before it adds
others (`Builder.rebuild_tended`), and a chain that is released holds nothing
(`Chain.release_tended`).
-/

namespace MediaChain

open Stage (tickets)

variable {ι ε α : Type} {base chains : List Nat} {chain : Nat} {held others : List Holding}
  {b : Backstage ε}

/-! ## What does not touch stages -/

namespace Backstage

theorem TendedFor.noted {b' : Backstage ε} {es : List (Event ε)} (h : b.TendedFor base chain held)
    (hjournal : b'.journal.toList = b.journal.toList ++ es) (hbirths : b'.births = b.births)
    (hes : ∀ e ∈ es, e.Among fun _ => False) : b'.TendedFor base chain held := by
  obtain ⟨attempts, h⟩ := h
  exact ⟨attempts, h.noted hjournal hbirths fun e he => (hes e he).mono nofun⟩

theorem TendedFor.add (h : b.TendedFor base chain held) (hfresh : chain ∉ held.map Holding.chain) :
    b.TendedFor base chain (⟨chain, []⟩ :: held) := by
  obtain ⟨attempts, h⟩ := h
  exact ⟨attempts, h.add hfresh⟩

end Backstage

open Backstage (TendedFor)

/-! ## Building -/

namespace Builder

variable {f : Front ι ε} {goals : List StreamType}

/-- Every stage that is set up is held. Facts and switches are no matter. -/
theorem keeps_tended (bd : Builder ι ε) (goals : List StreamType) (base : List Nat) (chain : Nat)
    (others : List Holding) : bd.Keeps goals (Front.Tended base chain others) where
  create {p _} _ _ _ hf := Stage.create_tended p bd.settings goals hf
  record _ _ hf := hf
  switch _ hf := TendedFor.noted hf (List.append_nil _).symm rfl nofun

/-- Stages that are abandoned are held no more, and the chain they were set up for is gone. -/
theorem abandon_tended (h : f.Tended base chain others) :
    (abandon f).backstage.TendedFor base chain others := by
  obtain ⟨attempts, h⟩ := h
  exact ⟨attempts, Stage.releaseAll_tended_nil h⟩

/-- A stage for a url is not held by anything, as no plugin drives it. -/
theorem ofUrl_tended (settings : Settings) (url : String) (log : Facts.Log)
    (h : b.TendedFor base chain others) (hfresh : chain ∉ others.map Holding.chain) :
    Front.Tended (ι := ι) base chain others ⟨[.ofUrl settings goals url], ⟨log, b⟩⟩ :=
  h.add hfresh

theorem decode_tended (bd : Builder ι ε) (goals : List StreamType) (url : String) (scene : Scene ε)
    (h : scene.backstage.TendedFor base chain others) (hfresh : chain ∉ others.map Holding.chain) :
    match bd.decode goals url scene with
    | (.error _, scene') => scene'.backstage.TendedFor base chain others
    | (.ok stages, scene') => Front.Tended base chain others ⟨stages, scene'⟩ := by
  cases hdecoded : Url.decode? (Url.base url) with
  | none =>
    rw [decode_malformed goals scene hdecoded]
    exact h
  | some decoded =>
    have hkeeps := bd.keeps_tended goals base chain others
    have hnegotiate := hkeeps.negotiate (bd.settings.stageLimit + 1)
      (f := bd.start goals url decoded scene) (ofUrl_tended _ _ _ h hfresh)
    rw [decode_eq goals scene hdecoded]
    rcases heq : bd.negotiate goals (bd.settings.stageLimit + 1) (bd.start goals url decoded scene)
      with ⟨_ | _, f⟩
    · rw [heq] at hnegotiate
      exact abandon_tended hnegotiate
    · rw [heq] at hnegotiate
      exact hkeeps.recordFormat hnegotiate

end Builder

/-! ## Chains that stand -/

namespace Chain

variable {c : Chain ι ε} {scene : Scene ε}

theorem operate_tended {op : Tap ι ε → StageOp ι ε α}
    (hop : ∀ {I : Nat → Prop} {Q : Scene ε → Scene ε → Prop} {tap : Tap ι ε},
      Scene.Covers I Q → tap.KeepsBy I Q → (op tap).KeepsBy I Q)
    (h : scene.backstage.Tended chains (⟨chain, tickets c.stages⟩ :: others)) :
    (c.operate scene op).2.2.backstage.Tended chains
      (⟨chain, tickets (c.operate scene op).2.1.stages⟩ :: others) := by
  unfold operate
  split
  · exact h
  next tail rest hstages =>
    rw [hstages] at h
    exact Stage.tended_of_keepsBy (f := ⟨rest, scene⟩)
      (fun hQ => hop hQ (Tap.keepsBy_reaching hQ rest.length)) tail h

theorem dropEffects_tended (c : Chain ι ε)
    (h : b.Tended chains (⟨chain, tickets c.stages⟩ :: others)) :
    (c.dropEffects b).2.Tended chains
      (⟨chain, tickets (c.dropEffects b).1.stages⟩ :: others) := by
  unfold dropEffects
  refine Stage.releaseAll_tended ?_
  rw [List.take_append_drop]
  exact h

theorem release_tended (c : Chain ι ε)
    (h : b.Tended chains (⟨chain, tickets c.stages⟩ :: others)) :
    (c.release b).Tended chains others :=
  Stage.releaseAll_tended_nil h

end Chain

/-! ## Browsing -/

theorem Stage.browse_keepsBy {I : Nat → Prop} {Q : Scene ε → Scene ε → Prop} {tap : Tap ι ε}
    (hQ : Scene.Covers I Q) (h : tap.KeepsBy I Q) (url : String) :
    StageOp.KeepsBy I Q (browse tap url) := by
  intro s f hs hf
  unfold browse
  split
  · exact ⟨.refl _, .refl hQ _⟩
  next e he =>
    split
    · have hrecord := Front.LeadsBy.record hQ f (.browse s.name e.id url) (hs e he)
      obtain ⟨hsame, hleads⟩ := play_keepsBy hQ h s (f.record (.browse s.name e.id url)) hf
        (e.plugin.browse e.state url (.empty url))
      dsimp only
      split
      · exact ⟨hsame.of_engine he rfl rfl rfl, hrecord.trans hQ hleads⟩
      · exact ⟨hsame.of_engine he rfl rfl rfl, hrecord.trans hQ hleads⟩
    · exact ⟨.refl _, .refl hQ _⟩

/-- Whether or not anything could be listed, nothing more is held afterwards. -/
theorem Builder.browse_tended (bd : Builder ι ε) (url : String)
    (h : b.TendedFor base chain others) (hfresh : chain ∉ others.map Holding.chain) :
    (bd.browse url b).2.TendedFor base chain others := by
  unfold browse
  split
  · exact h
  next decoded _ =>
    have hnext := (bd.keeps_tended [] base chain others).next
      (f := ⟨[.ofUrl bd.settings [] decoded], ⟨.empty, b⟩⟩) (ofUrl_tended _ _ _ h hfresh)
    rcases heq : bd.next [] ⟨[.ofUrl bd.settings [] decoded], ⟨.empty, b⟩⟩ with ⟨_ | s, f⟩
    · rw [heq] at hnext
      exact abandon_tended hnext
    · rw [heq] at hnext
      obtain ⟨attempts, hnext⟩ := hnext
      have hbrowse := Stage.tended_of_keepsBy (f := f)
        (fun hQ => Stage.browse_keepsBy hQ (Tap.keepsBy_reaching hQ f.stages.length) decoded) s
        hnext
      dsimp only
      split <;> exact abandon_tended ⟨attempts, hbrowse⟩

/-! ## Building a whole chain -/

/-- When a ledger reacts, its listeners are told and nothing else is written down. -/
theorem World.react_journal (w : World ε) (ledger : Ledger) (token : Token) :
    ∃ es : List (Event ε),
      (w.react ledger token).2.2.backstage.journal.toList = w.backstage.journal.toList ++ es ∧
        (w.react ledger token).2.2.backstage.births = w.backstage.births ∧
        ∀ e ∈ es, e.Among fun _ => False := by
  have htell : ∀ (report : Facts.Report) (observers : List Facts.Observer) (w : World ε),
      ∃ es : List (Event ε),
        (observers.foldl (tell report) w).backstage.journal.toList =
            w.backstage.journal.toList ++ es ∧
          (observers.foldl (tell report) w).backstage.births = w.backstage.births ∧
          ∀ e ∈ es, e.Among fun _ => False := by
    intro report observers
    induction observers with
    | nil => exact fun w => ⟨[], (List.append_nil _).symm, rfl, nofun⟩
    | cons observer observers ih =>
      intro w
      obtain ⟨es, hjournal, hbirths, hes⟩ := ih (w.tell report observer)
      cases observer with
      | hub name => exact ⟨es, hjournal, hbirths, hes⟩
      | listener name =>
        refine ⟨.reaction name report :: es, ?_, hbirths, List.forall_mem_cons.mpr ⟨trivial, hes⟩⟩
        rw [List.append_cons, ← Backstage.toList_record]
        exact hjournal
  exact htell _ _ _

namespace Builder

theorem finalize_tended (bd : Builder ι ε) (c : Chain ι ε) (now : Int64) (ledger : Ledger)
    {w : World ε} (h : w.backstage.TendedFor base chain held) :
    (bd.finalize c now ledger w).2.backstage.TendedFor base chain held := by
  obtain ⟨es, hjournal, hbirths, hes⟩ := w.react_journal ledger c.token
  have hreact := h.noted hjournal hbirths hes
  unfold finalize
  dsimp only
  split
  · exact hreact
  · split
    · exact hreact
    · exact hreact

/-- A chain that could be built holds its stages, and one that could not holds nothing. -/
theorem buildFrom_tended (bd : Builder ι ε) (goals : List StreamType) (rehash : Bool) (now : Int64)
    (url : String) (ledger : Ledger) {w : World ε}
    (h : w.backstage.TendedFor base chain others) (hfresh : chain ∉ others.map Holding.chain) :
    match bd.buildFrom goals rehash now url ledger w with
    | (.error _, _, w') => w'.backstage.TendedFor base chain others
    | (.ok c, _, w') =>
      w'.backstage.TendedFor base chain (⟨chain, tickets c.stages⟩ :: others) := by
  have hdecode := decode_tended bd goals url (w.scene ledger) h hfresh
  unfold buildFrom
  rcases heq : bd.decode goals url (w.scene ledger) with ⟨_ | stages, scene⟩
  · rw [heq] at hdecode
    exact hdecode
  · rw [heq] at hdecode
    have hkeeps := bd.keeps_tended goals base chain others
    have hsegment := hkeeps.addEffect bd.settings.segmentPlugin hdecode
    refine finalize_tended bd _ now _ ?_
    split
    · exact hsegment
    · exact hkeeps.addEffects hsegment

/-- Likewise for the url of an entry. -/
theorem build_tended (bd : Builder ι ε) (goals : List StreamType) (rehash : Bool) (now : Int64)
    (ledger : Ledger) {w : World ε} (h : w.backstage.TendedFor base chain others)
    (hfresh : chain ∉ others.map Holding.chain) :
    match bd.build goals rehash now ledger w with
    | (.error _, _, w') => w'.backstage.TendedFor base chain others
    | (.ok c, _, w') =>
      w'.backstage.TendedFor base chain (⟨chain, tickets c.stages⟩ :: others) := by
  unfold build
  cases ledger.log.originText? Property.urlKey with
  | none => exact h
  | some url => exact buildFrom_tended bd goals rehash now url ledger h hfresh

/-! ## Rebuilding -/

/-- The old effects are let go before new ones are set up. -/
theorem rebuild_tended (bd : Builder ι ε) (c : Chain ι ε) (ledger : Ledger) {w : World ε}
    (h : w.backstage.Tended base (⟨chain, tickets c.stages⟩ :: others)) :
    (bd.rebuild c ledger w).2.2.backstage.TendedFor base chain
      (⟨chain, tickets (bd.rebuild c ledger w).1.stages⟩ :: others) :=
  (bd.keeps_tended c.goals base chain others).rebuild ((c.dropEffects_tended h).tendedFor chain)

theorem handleChange_tended (bd : Builder ι ε) (change : Config.Change) (c : Chain ι ε)
    (ledger : Ledger) {w : World ε}
    (h : w.backstage.Tended base (⟨chain, tickets c.stages⟩ :: others)) :
    (bd.handleChange change c ledger w).2.2.2.backstage.TendedFor base chain
      (⟨chain, tickets (bd.handleChange change c ledger w).2.1.stages⟩ :: others) := by
  unfold handleChange
  split
  · exact h.tendedFor chain
  · exact rebuild_tended bd c ledger h

end Builder

end MediaChain
