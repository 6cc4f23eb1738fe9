import Mathlib.Data.List.Chain
import MediaChain.Proofs.Stage.Callback
import MediaChain.Proofs.Stage.Lifetimes

/-!
# Read horizons of stages

What a stage records is within its own horizon, and no horizon ever recedes, whatever the plugins do
(`Front.Rises`). A read raises the horizon of a stage to that of the stage in front; looking ahead
and seeking do not, though they may raise the one in front. A script is attentive if it does not end
well while its stage may be behind for that reason (`Script.Attentive`). With such plugins no stage
is behind the one in front of it, unless one of the two has failed (`Front.Abreast`). Both are said
of all operations at once (`Tap.carries_reaching`), and of setting up (`Stage.create_abreast`).
-/

namespace MediaChain

variable {ι ε α : Type}

/-! ## Attentive scripts -/

/-- Whether a stage may be behind the one in front of it after a request, if it may have been before
(`behind`). Looking ahead and seeking can leave it behind; a read and a number that it records bring
it up. -/
def Request.lags (behind : Bool) : (q : Request ε) → q.Answer → Bool
  | .peek _, .ok _ => true
  | .seek _ _, .ok _ => true
  | .read _, .ok _ => false
  | .recordInt _ _, _ => false
  | _, _ => behind

namespace Script

/-- A script that ends with a result that is not `ok` if its stage may be behind then. -/
inductive Attentive (ok : α → Prop) : Bool → Script ε α → Prop
  | done {behind : Bool} {a : α} : (behind = true → ¬ok a) → Attentive ok behind (.done a)
  | ask {behind : Bool} {q : Request ε} {next : q.Answer → Script ε α} :
    (∀ answer, Attentive ok (q.lags behind answer) (next answer)) →
      Attentive ok behind (.ask q next)

variable {ok : α → Prop} {behind : Bool} {x : Script ε α}

theorem Attentive.run {σ : Type} (hx : x.Attentive ok behind)
    (answer : (q : Request ε) → σ → q.Answer × σ) {J : Bool → σ → Prop}
    (h : ∀ q s behind, J behind s → J (q.lags behind (answer q s).1) (answer q s).2) {s : σ}
    (hs : J behind s) :
    ∃ behind', (behind' = true → ¬ok (x.run answer s).1) ∧ J behind' (x.run answer s).2 := by
  induction hx generalizing s with
  | done ha => exact ⟨_, ha, hs⟩
  | ask _ ih => exact ih _ (h _ _ _ hs)

/-- Scripts that neither look ahead nor seek are attentive. -/
theorem Ends.attentive {P : α → Prop}
    (hx : x.Ends (fun q => ∀ answer, q.lags false answer = false) P) : x.Attentive ok false := by
  induction hx with
  | done _ => exact .done nofun
  | ask hq _ ih =>
    refine .ask fun answer => ?_
    rw [hq answer]
    exact ih answer

end Script

/-- A plugin that catches up with the stage in front before its callbacks end well. -/
structure Plugin.Attentive (p : Plugin ι ε) : Prop where
  init : p.init.Attentive (fun result => result.isOk = true) false
  read : ∀ state window,
    (p.read state window).Attentive (fun result => result.1.isOk = true) false
  seek : ∀ state offset whence,
    (p.seek state offset whence).Attentive (fun result => result.1.isOk = true) false

/-! ## Horizons that rise -/

/-- A fact is one of a stage, and within its horizon. -/
def Stage.Stated (s : Stage ι ε) (fact : Fact) : Prop :=
  fact.order = s.order ∧ fact.source = s.name ∧ fact.token ≤ s.token

/-- Stages with one more behind them. -/
abbrev Front.push (f : Front ι ε) (s : Stage ι ε) : Front ι ε := { f with stages := s :: f.stages }

/-- No stage sees beyond the last token that was issued. -/
def Front.Issued (f : Front ι ε) : Prop := ∀ s ∈ f.stages, s.token ≤ f.scene.log.lastToken

/-- Stages and a log after some work of these stages: no horizon has receded or has gone beyond the
tokens that were issued, and what was recorded is within the horizon of the stage that did. -/
structure Front.Rises (f f' : Front ι ε) : Prop where
  stages : ∀ s ∈ f.stages, ∃ s' ∈ f'.stages, s'.post = s.post ∧ s.token ≤ s'.token
  issued : f.scene.log.lastToken ≤ f'.scene.log.lastToken
  within : f.Issued → f'.Issued
  stated : ∃ gained, f'.scene.log.facts = f.scene.log.facts ++ gained ∧
    ∀ fact ∈ gained, ∃ s ∈ f'.stages, s.Stated fact

namespace Front.Rises

variable {f f' f'' : Front ι ε} {s s' : Stage ι ε}

theorem of_eq (hstages : f'.stages = f.stages) (hlog : f'.scene.log = f.scene.log) :
    f.Rises f' := by
  refine ⟨fun s hs => ⟨s, hstages ▸ hs, rfl, Nat.le_refl _⟩, by rw [hlog], fun hf => ?_, [], ?_,
    nofun⟩
  · unfold Front.Issued
    rw [hstages, hlog]
    exact hf
  · rw [hlog, List.append_nil]

theorem refl (f : Front ι ε) : f.Rises f := of_eq rfl rfl

theorem trans (h : f.Rises f') (h' : f'.Rises f'') : f.Rises f'' := by
  obtain ⟨gained, hfacts, hstated⟩ := h.stated
  obtain ⟨gained', hfacts', hstated'⟩ := h'.stated
  refine ⟨fun s hs => ?_, Nat.le_trans h.issued h'.issued, fun hf => h'.within (h.within hf),
    gained ++ gained', ?_, fun fact hfact => ?_⟩
  · obtain ⟨s', hs', hpost, htoken⟩ := h.stages s hs
    obtain ⟨s'', hs'', hpost', htoken'⟩ := h'.stages s' hs'
    exact ⟨s'', hs'', hpost'.trans hpost, Nat.le_trans htoken htoken'⟩
  · rw [hfacts', hfacts, List.append_assoc]
  · rcases List.mem_append.mp hfact with hfact | hfact
    · obtain ⟨s, hs, horder, hsource, hle⟩ := hstated fact hfact
      obtain ⟨s', hs', hpost, htoken⟩ := h'.stages s hs
      refine ⟨s', hs', ?_, ?_, Nat.le_trans hle htoken⟩
      · rw [horder, Stage.order, Stage.order, hpost]
      · rw [hsource, Stage.name, Stage.name, hpost]
    · exact hstated' fact hfact

/-- The stages in front have risen, and so has one behind them. -/
theorem push (h : f.Rises f') (hpost : s'.post = s.post) (htoken : s.token ≤ s'.token)
    (hwithin : (f.push s).Issued → s'.token ≤ f'.scene.log.lastToken) :
    (f.push s).Rises (f'.push s') := by
  obtain ⟨gained, hfacts, hstated⟩ := h.stated
  refine ⟨fun t ht => ?_, h.issued, fun hf => List.forall_mem_cons.mpr ⟨hwithin hf, h.within ?_⟩,
    gained, hfacts, fun fact hfact => ?_⟩
  · rcases List.mem_cons.mp ht with rfl | ht
    · exact ⟨s', List.mem_cons_self, hpost, htoken⟩
    · obtain ⟨t', ht', hraised⟩ := h.stages t ht
      exact ⟨t', List.mem_cons_of_mem _ ht', hraised⟩
  · exact fun t ht => hf t (List.mem_cons_of_mem _ ht)
  · obtain ⟨t, ht, hfact⟩ := hstated fact hfact
    exact ⟨t, List.mem_cons_of_mem _ ht, hfact⟩

/-- The stages in front have risen, and the one behind them sees as far as before. -/
theorem push_eq (h : f.Rises f') (hpost : s'.post = s.post) (htoken : s'.token = s.token) :
    (f.push s).Rises (f'.push s') := by
  refine h.push hpost (Nat.le_of_eq htoken.symm) fun hf => ?_
  rw [htoken]
  exact Nat.le_trans (hf s List.mem_cons_self) h.issued

/-- Of the tail, only the place and the horizon matter. -/
theorem tail (h : f.Rises (f'.push s)) (hpost : s'.post = s.post) (htoken : s'.token = s.token) :
    f.Rises (f'.push s') :=
  h.trans ((refl f').push_eq hpost htoken)

theorem of_tail (h : (f.push s').Rises f') (hpost : s'.post = s.post)
    (htoken : s'.token = s.token) : (f.push s).Rises f' :=
  ((refl f).push_eq hpost htoken).trans h

end Front.Rises

/-! ## Stages that are abreast -/

/-- A stage has failed, or does not see beyond a token. -/
def Stage.Within (token : Token) (s : Stage ι ε) : Prop := s.errored = true ∨ s.token ≤ token

/-- All plugins are attentive, no stage sees beyond the last token that was issued, and unless it
has failed none is behind the one in front of it. -/
structure Front.Abreast (f : Front ι ε) : Prop where
  attentive : ∀ s ∈ f.stages, ∀ engine, s.engine = some engine → engine.plugin.Attentive
  issued : f.Issued
  chain : f.stages.IsChain fun s u => s.errored = true ∨ u.Within s.token

theorem Stage.Within.mono {s : Stage ι ε} {token token' : Token} (h : s.Within token)
    (hle : token ≤ token') : s.Within token' :=
  h.imp_right fun h => Nat.le_trans h hle

namespace Front

variable {f : Front ι ε} {s s' : Stage ι ε}

theorem abreast_push :
    (f.push s).Abreast ↔ f.Abreast ∧ (∀ engine, s.engine = some engine → engine.plugin.Attentive) ∧
      s.token ≤ f.scene.log.lastToken ∧
      ∀ u ∈ f.stages.head?, s.errored = true ∨ u.Within s.token := by
  constructor
  · rintro ⟨hattentive, hissued, hchain⟩
    obtain ⟨hs, hattentive⟩ := List.forall_mem_cons.mp hattentive
    obtain ⟨htoken, hissued⟩ := List.forall_mem_cons.mp hissued
    obtain ⟨hhead, hchain⟩ := List.isChain_cons.mp hchain
    exact ⟨⟨hattentive, hissued, hchain⟩, hs, htoken, hhead⟩
  · rintro ⟨⟨hattentive, hissued, hchain⟩, hs, htoken, hhead⟩
    exact ⟨List.forall_mem_cons.mpr ⟨hs, hattentive⟩, List.forall_mem_cons.mpr ⟨htoken, hissued⟩,
      List.isChain_cons.mpr ⟨hhead, hchain⟩⟩

/-- More tokens may be issued. -/
theorem Abreast.scene (h : f.Abreast) {scene : Scene ε}
    (hissued : f.scene.log.lastToken ≤ scene.log.lastToken) :
    ({ f with scene } : Front ι ε).Abreast :=
  ⟨h.attentive, fun s hs => Nat.le_trans (h.issued s hs) hissued, h.chain⟩

/-- Of the tail, only the plugin, the horizon and whether it has failed matter. -/
theorem Abreast.tail (h : (f.push s).Abreast) (hengine : s'.engine = s.engine)
    (htoken : s'.token = s.token) (herrored : s'.errored = s.errored) : (f.push s').Abreast := by
  rw [abreast_push] at h ⊢
  rw [hengine, htoken, herrored]
  exact h

end Front

/-! ## What operations do -/

/-- An operation with which horizons rise, that leaves stages abreast, and that fails only if the
stage fails with it or has not moved its horizon. -/
structure StageOp.Carries (op : StageOp ι ε α) : Prop where
  rises : ∀ (s : Stage ι ε) (f : Front ι ε), (f.push s).Rises ((op s f).2.2.push (op s f).2.1)
  abreast : ∀ (s : Stage ι ε) (f : Front ι ε),
    (f.push s).Abreast → ((op s f).2.2.push (op s f).2.1).Abreast
  failed : ∀ s f e token, (op s f).1 = .error e → s.Within token → (op s f).2.1.Within token

structure Tap.Carries (tap : Tap ι ε) : Prop where
  read : ∀ window, (tap.read window).Carries
  peek : ∀ size, (tap.peek size).Carries
  seek : ∀ offset whence, (tap.seek offset whence).Carries

/-! ## Requests -/

/-- A stage with what its callback has left on its desk, behind those in front. -/
def Bench.seat (b : Bench ι ε) (s : Stage ι ε) : Front ι ε := b.front.push { s with desk := b.desk }

/-- The stages in front are abreast, and the one at the desk is not behind them, unless it may
be. -/
structure Bench.Abreast (behind : Bool) (b : Bench ι ε) : Prop where
  front : b.front.Abreast
  issued : b.desk.token ≤ b.log.lastToken
  head : behind = false → ∀ u ∈ b.front.stages.head?, u.Within b.desk.token

namespace Bench

variable {b b' : Bench ι ε} {behind : Bool} {tap : Tap ι ε} {s : Stage ι ε}

theorem Abreast.weaken (h : b.Abreast behind) : b.Abreast true := ⟨h.front, h.issued, nofun⟩

theorem Abreast.any (h : b.Abreast false) (behind : Bool) : b.Abreast behind :=
  ⟨h.front, h.issued, fun _ => h.head rfl⟩

theorem Abreast.of_eq (h : b.Abreast behind) (htoken : b'.desk.token = b.desk.token)
    (hstages : b'.front.stages = b.front.stages) (hlog : b'.log = b.log) : b'.Abreast behind := by
  obtain ⟨desk, outType, ⟨stages, scene⟩⟩ := b'
  cases hstages
  refine ⟨h.front.scene (Nat.le_of_eq (congrArg Facts.Log.lastToken hlog.symm)), ?_, ?_⟩
  · rw [htoken, hlog]
    exact h.issued
  · rw [htoken]
    exact h.head

theorem rises_of_eq (htoken : b'.desk.token = b.desk.token)
    (hstages : b'.front.stages = b.front.stages) (hlog : b'.log = b.log) :
    (b.seat s).Rises (b'.seat s) :=
  (Front.Rises.of_eq hstages hlog).push_eq rfl htoken

theorem reach_rises {op : StageOp ι ε α} (h : op.Carries) (b : Bench ι ε) (s : Stage ι ε)
    (name : String) : (b.seat s).Rises ((b.reach name op).2.seat s) := by
  obtain ⟨desk, outType, ⟨stages, scene⟩⟩ := b
  cases stages with
  | nil => exact .refl _
  | cons u rest => exact (h.rises u ⟨rest, scene⟩).push_eq rfl rfl

/-- What is done to the stage in front may leave the one at the desk behind, but not if it
fails. -/
theorem reach_abreast {op : StageOp ι ε α} (h : op.Carries) (hb : b.Abreast behind)
    (name : String) :
    (b.reach name op).2.Abreast true ∧
      ∀ e, (b.reach name op).1 = .error e → (b.reach name op).2.Abreast behind := by
  obtain ⟨desk, outType, ⟨stages, scene⟩⟩ := b
  cases stages with
  | nil => exact ⟨hb.weaken, fun _ _ => hb⟩
  | cons u rest =>
    have hfront := h.abreast u ⟨rest, scene⟩ hb.front
    have hissued := Nat.le_trans hb.issued (h.rises u ⟨rest, scene⟩).issued
    refine ⟨⟨hfront, hissued, nofun⟩, fun e he => ⟨hfront, hissued, fun hbehind t ht => ?_⟩⟩
    obtain rfl := Option.some.inj ht
    exact h.failed u _ e _ he (hb.head hbehind u rfl)

theorem catchUp_rises (b : Bench ι ε) (s : Stage ι ε) : (b.seat s).Rises (b.catchUp.seat s) := by
  unfold catchUp
  split
  · exact .refl _
  next u rest hcons =>
    refine (Front.Rises.refl _).push rfl (Nat.le_max_left _ _) fun hb => ?_
    exact Nat.max_le.mpr ⟨hb _ List.mem_cons_self,
      hb u (List.mem_cons_of_mem _ (hcons ▸ List.mem_cons_self))⟩

theorem Abreast.catchUp (h : b.Abreast behind) : b.catchUp.Abreast false := by
  unfold Bench.catchUp
  split
  next hnil => exact ⟨h.front, h.issued, fun _ u hu => by rw [hnil] at hu; cases hu⟩
  next u rest hcons =>
    have hu := h.front.issued u (hcons ▸ List.mem_cons_self)
    refine ⟨h.front, Nat.max_le.mpr ⟨h.issued, hu⟩, fun _ t ht => ?_⟩
    rw [hcons] at ht
    obtain rfl := Option.some.inj ht
    exact .inr (Nat.le_max_right _ _)

theorem read_rises (h : tap.Carries) (b : Bench ι ε) (s : Stage ι ε) (post : Post)
    (window : Window) : (b.seat s).Rises ((b.read tap post window).2.seat s) := by
  have hreach := reach_rises (h.read window) b s post.name
  unfold Bench.read
  split
  next heq =>
    rw [heq] at hreach
    exact hreach.trans (catchUp_rises _ s)
  next heq =>
    rw [heq] at hreach
    exact hreach

theorem read_abreast (h : tap.Carries) (hb : b.Abreast behind) (post : Post) (window : Window) :
    (b.read tap post window).2.Abreast
      ((Request.read window : Request ε).lags behind (b.read tap post window).1) := by
  have hreach := reach_abreast (h.read window) hb post.name
  unfold Bench.read
  split
  next heq =>
    rw [heq] at hreach
    exact hreach.1.catchUp
  next e _ heq =>
    rw [heq] at hreach
    exact hreach.2 e rfl

theorem seek_rises (h : tap.Carries) (b : Bench ι ε) (s : Stage ι ε) (post : Post) (offset : Int)
    (whence : Whence) : (b.seat s).Rises ((b.seek tap post offset whence).2.seat s) := by
  have hreach := reach_rises (h.seek offset whence) b s post.name
  unfold Bench.seek
  split
  next heq =>
    rw [heq] at hreach
    exact hreach.trans (rises_of_eq rfl rfl rfl)
  next heq =>
    rw [heq] at hreach
    exact hreach

theorem seek_abreast (h : tap.Carries) (hb : b.Abreast behind) (post : Post) (offset : Int)
    (whence : Whence) :
    (b.seek tap post offset whence).2.Abreast
      ((Request.seek offset whence : Request ε).lags behind
        (b.seek tap post offset whence).1) := by
  have hreach := reach_abreast (h.seek offset whence) hb post.name
  unfold Bench.seek
  split
  next heq =>
    rw [heq] at hreach
    exact hreach.1.of_eq rfl rfl rfl
  next e _ heq =>
    rw [heq] at hreach
    exact hreach.2 e rfl

theorem takeLine_token (b : Bench ι ε) (bytes : Bytes) :
    (b.takeLine bytes).2.desk.token = b.desk.token := by
  unfold takeLine
  split <;> rfl

theorem takeLine_rises (b : Bench ι ε) (s : Stage ι ε) (bytes : Bytes) :
    (b.seat s).Rises ((b.takeLine bytes).2.seat s) := by
  have hfront := b.takeLine_front bytes
  exact rises_of_eq (b.takeLine_token bytes) (congrArg Front.stages hfront)
    (congrArg (·.scene.log) hfront)

theorem Abreast.takeLine (h : b.Abreast behind) (bytes : Bytes) :
    (b.takeLine bytes).2.Abreast behind := by
  have hfront := b.takeLine_front bytes
  exact h.of_eq (b.takeLine_token bytes) (congrArg Front.stages hfront)
    (congrArg (·.scene.log) hfront)

theorem readLine_rises (h : tap.Carries) (b : Bench ι ε) (s : Stage ι ε) (post : Post) :
    (b.seat s).Rises ((b.readLine tap post).2.seat s) := by
  unfold readLine
  dsimp only
  split
  · exact takeLine_rises b s _
  · have hread := read_rises h b s post (.blank (post.lineCap - b.desk.line.length))
    split
    next heq =>
      rw [heq] at hread
      exact hread.trans (takeLine_rises _ s _)
    next heq =>
      rw [heq] at hread
      exact hread

theorem readLine_abreast (h : tap.Carries) (hb : b.Abreast behind) (post : Post) :
    (b.readLine tap post).2.Abreast behind := by
  unfold readLine
  dsimp only
  split
  · exact hb.takeLine _
  · have hread := read_abreast h hb post (.blank (post.lineCap - b.desk.line.length))
    split
    next heq =>
      rw [heq] at hread
      exact (hread.any behind).takeLine _
    next heq =>
      rw [heq] at hread
      exact hread

/-- A stage sees what it records at once. -/
theorem recordFact_rises (b : Bench ι ε) (s : Stage ι ε) (key : String) (value : Value) :
    (b.seat s).Rises ((b.recordFact s.post key value).seat s) := by
  refine ⟨fun t ht => ?_, Nat.le_succ _, fun hb => ?_, [_], rfl, fun fact hfact => ?_⟩
  · rcases List.mem_cons.mp ht with rfl | ht
    · exact ⟨_, List.mem_cons_self, rfl, Nat.le_max_left _ _⟩
    · exact ⟨t, List.mem_cons_of_mem _ ht, rfl, Nat.le_refl _⟩
  · obtain ⟨hs, hfront⟩ := List.forall_mem_cons.mp hb
    exact List.forall_mem_cons.mpr ⟨Nat.max_le.mpr ⟨Nat.le_succ_of_le hs, Nat.le_refl _⟩,
      fun t ht => Nat.le_succ_of_le (hfront t ht)⟩
  · obtain rfl := List.mem_singleton.mp hfact
    exact ⟨_, List.mem_cons_self, rfl, rfl, Nat.le_max_right _ _⟩

/-- A new fact is beyond all horizons but that of its stage. -/
theorem Abreast.recordFact (h : b.Abreast behind) (post : Post) (key : String) (value : Value) :
    (b.recordFact post key value).Abreast false := by
  have hissued := h.issued
  refine ⟨h.front.scene (Nat.le_succ _), ?_, fun _ u hu => .inr ?_⟩
  · exact Nat.max_le.mpr ⟨Nat.le_succ_of_le hissued, Nat.le_refl _⟩
  · have hu := h.front.issued u (List.mem_of_mem_head? hu)
    exact Nat.le_trans (Nat.le_succ_of_le hu) (Nat.le_max_right _ _)

end Bench

/-- A callback that has ended leaves its stage abreast, if it has not left it behind. -/
theorem Bench.Abreast.push {b : Bench ι ε} {behind : Bool} {s : Stage ι ε} (h : b.Abreast behind)
    (hengine : ∀ engine, s.engine = some engine → engine.plugin.Attentive)
    (htoken : s.token = b.desk.token) (herrored : behind = true → s.errored = true) :
    (b.front.push s).Abreast := by
  refine Front.abreast_push.mpr ⟨h.front, hengine, htoken ▸ h.issued, fun u hu => ?_⟩
  cases behind with
  | false => exact .inr (htoken ▸ h.head rfl u hu)
  | true => exact .inl (herrored rfl)

namespace Stage

variable {tap : Tap ι ε} {s s' : Stage ι ε} {f f' : Front ι ε} {b : Bench ι ε} {behind : Bool}

theorem answer_rises (h : tap.Carries) (s : Stage ι ε) (ahead : Nat) (settingUp : Bool)
    (q : Request ε) (b : Bench ι ε) :
    (b.seat s).Rises ((answer tap s.post ahead settingUp q b).2.seat s) := by
  cases q with
  | setOutType type => cases settingUp <;> exact Bench.rises_of_eq rfl rfl rfl
  | read window => exact b.read_rises h s s.post window
  | peek size => exact b.reach_rises (h.peek size) s s.post.name
  | seek offset whence => exact b.seek_rises h s s.post offset whence
  | readLine => exact b.readLine_rises h s s.post
  | recordInt key value => exact b.recordFact_rises s key _
  | recordText key value =>
    show (b.seat s).Rises
      ((if _ then ((), b) else ((), b.recordFact s.post key (.text value))).2.seat s)
    split
    · exact .refl _
    · exact b.recordFact_rises s key _
  | _ => exact Bench.rises_of_eq rfl rfl rfl

theorem answer_abreast (h : tap.Carries) (post : Post) (ahead : Nat) (settingUp : Bool)
    (q : Request ε) (hb : b.Abreast behind) :
    (answer tap post ahead settingUp q b).2.Abreast
      (q.lags behind (answer tap post ahead settingUp q b).1) := by
  cases q with
  | setOutType type => cases settingUp <;> exact hb.of_eq rfl rfl rfl
  | read window => exact Bench.read_abreast h hb post window
  | peek size =>
    obtain ⟨htrue, herror⟩ := Bench.reach_abreast (h.peek size) hb post.name
    show (b.reach post.name (tap.peek size)).2.Abreast
      ((Request.peek size : Request ε).lags behind (b.reach post.name (tap.peek size)).1)
    cases hresult : (b.reach post.name (tap.peek size)).1 with
    | ok bytes => exact htrue
    | error e => exact herror e hresult
  | seek offset whence => exact Bench.seek_abreast h hb post offset whence
  | readLine => exact Bench.readLine_abreast h hb post
  | recordInt key value => exact hb.recordFact post key _
  | recordText key value =>
    show Bench.Abreast behind
      (if _ then ((), b) else ((), b.recordFact post key (.text value))).2
    split
    · exact hb
    · exact (hb.recordFact post key _).any behind
  | _ => exact hb.of_eq rfl rfl rfl

/-- A script that is attentive leaves its stage behind only if it does not end well. -/
theorem run_abreast (h : tap.Carries) (post : Post) (ahead : Nat) (settingUp : Bool)
    {ok : α → Prop} {x : Script ε α} (hx : x.Attentive ok behind) (hb : b.Abreast behind) :
    (x.run (answer tap post ahead settingUp) b).2.Abreast true ∧
      (ok (x.run (answer tap post ahead settingUp) b).1 →
        (x.run (answer tap post ahead settingUp) b).2.Abreast false) := by
  obtain ⟨behind', hend, hb'⟩ := hx.run (answer tap post ahead settingUp) (J := Bench.Abreast)
    (fun q b behind hb => answer_abreast h post ahead settingUp q hb) hb
  refine ⟨hb'.weaken, fun hok => ?_⟩
  cases behind' with
  | false => exact hb'
  | true => exact absurd hok (hend rfl)

theorem play_rises (h : tap.Carries) (s : Stage ι ε) (f : Front ι ε) (script : Script ε α) :
    (f.push s).Rises ((s.play tap f script).2.2.push (s.play tap f script).2.1) :=
  Script.run_invariant (P := fun b : Bench ι ε => (f.push s).Rises (b.seat s))
    (fun q b hb => hb.trans (answer_rises h s s.buffer.length false q b)) script
    ⟨s.desk, some s.outType, f⟩ (.refl _)

/-- What becomes of a stage that plays an attentive script: it fails, or the script ends well. -/
theorem play_abreast (h : tap.Carries) {engine : Engine ι ε} (hengine : s.engine = some engine)
    (hs : s.errored = false) (hf : (f.push s).Abreast) {ok : α → Prop} {script : Script ε α}
    (hscript : script.Attentive ok false) (event : Event ε)
    (hengine' : ∃ state, s'.engine = some { engine with state })
    (htoken : s'.token = (s.play tap (f.record event) script).2.1.token)
    (hended : s'.errored = true ∨ ok (s.play tap (f.record event) script).1) :
    ((s.play tap (f.record event) script).2.2.push s').Abreast := by
  obtain ⟨hfront, hattentive, hissued, hhead⟩ := Front.abreast_push.mp hf
  have hbegin : Bench.Abreast false ⟨s.desk, some s.outType, f.record event⟩ :=
    ⟨hfront.scene (Nat.le_refl _), hissued,
      fun _ u hu => (hhead u hu).resolve_left (by rw [hs]; exact Bool.false_ne_true)⟩
  obtain ⟨hbehind, hwell⟩ := run_abreast h s.post s.buffer.length false hscript hbegin
  have hplugin : ∀ engine', s'.engine = some engine' → engine'.plugin.Attentive := by
    obtain ⟨state, hstate⟩ := hengine'
    rw [hstate]
    rintro _ ⟨⟩
    exact hattentive engine hengine
  rcases hended with herrored | hok
  · exact hbehind.push hplugin htoken fun _ => herrored
  · exact (hwell hok).push hplugin htoken nofun

/-! ## Asking the plugin -/

theorem pull_rises (h : tap.Carries) {window : Window} {result : Except StageError Reply}
    (hpull : s.pull tap window f = (result, s', f')) : (f.push s).Rises (f'.push s') := by
  unfold pull at hpull
  split at hpull
  next =>
    obtain ⟨-, rfl, rfl⟩ := hpull
    exact .refl _
  next e _ =>
    have hrecord : (f.push s).Rises ((f.record (.read s.name e.id window.size)).push s) :=
      .of_eq rfl rfl
    have hplay := hrecord.trans (play_rises h s _ (e.plugin.read e.state window))
    dsimp only at hpull
    split at hpull
    next =>
      split at hpull
      all_goals
        obtain ⟨-, rfl, rfl⟩ := hpull
        exact hplay.tail rfl rfl
    next =>
      obtain ⟨-, rfl, rfl⟩ := hpull
      exact hplay.tail rfl rfl

theorem pull_abreast (h : tap.Carries) {window : Window} {result : Except StageError Reply}
    (hpull : s.pull tap window f = (result, s', f')) (hs : s.errored = false)
    (hf : (f.push s).Abreast) : (f'.push s').Abreast := by
  unfold pull at hpull
  split at hpull
  next =>
    obtain ⟨-, rfl, rfl⟩ := hpull
    exact hf
  next e he =>
    have hread := (hf.attentive s List.mem_cons_self e he).read e.state window
    dsimp only at hpull
    split at hpull
    next reply hreply =>
      split at hpull
      · obtain ⟨-, rfl, rfl⟩ := hpull
        exact play_abreast h he hs hf hread _ ⟨_, rfl⟩ rfl (.inr (by rw [hreply]; rfl))
      · obtain ⟨-, rfl, rfl⟩ := hpull
        exact play_abreast h he hs hf hread _ ⟨_, rfl⟩ rfl (.inl rfl)
    next =>
      obtain ⟨-, rfl, rfl⟩ := hpull
      exact play_abreast h he hs hf hread _ ⟨_, rfl⟩ rfl (.inl rfl)

/-- Only a stage for which there is no plugin can refuse without failing. -/
theorem pull_error {window : Window} {e : StageError}
    (hpull : s.pull tap window f = (.error e, s', f')) :
    s'.errored = true ∨ s.engine = none ∧ s' = s := by
  unfold pull at hpull
  split at hpull
  next he =>
    obtain ⟨-, rfl, rfl⟩ := hpull
    exact .inr ⟨he, rfl⟩
  next engine _ =>
    dsimp only at hpull
    split at hpull
    next =>
      split at hpull
      next => simp at hpull
      next =>
        obtain ⟨-, rfl, -⟩ := hpull
        exact .inl rfl
    next =>
      obtain ⟨-, rfl, -⟩ := hpull
      exact .inl rfl

theorem pull_errored {window : Window} {reply : Reply}
    (hpull : s.pull tap window f = (.ok reply, s', f')) :
    s'.errored = s.errored ∧ s'.engine ≠ none := by
  obtain ⟨e, desk, state, -, rfl, -⟩ := pull_ok hpull
  exact ⟨rfl, nofun⟩

/-! ## Reading -/

theorem prepend_error {bytes : Bytes} {x : Except StageError Reply × Stage ι ε × Front ι ε}
    {e : StageError} (h : (prepend bytes x).1 = .error e) : x.1 = .error e := by
  obtain ⟨_ | reply, rest⟩ := x
  · exact h
  · cases h

theorem fill_rises (h : tap.Carries) (fresh : Bool) (window : Window) (s : Stage ι ε)
    (f : Front ι ε) :
    (f.push s).Rises ((fill tap fresh window s f).2.2.push (fill tap fresh window s f).2.1) := by
  fun_induction fill tap fresh window s f with
  | case1 => exact .refl _
  | case2 fresh window s f _ e s' f' hpull => exact pull_rises h hpull
  | case3 fresh window s f _ reply s' f' hpull => exact (pull_rises h hpull).tail rfl rfl
  | case4 fresh window s f _ reply s' f' hpull _ _ bytes marks landed _ ih =>
    exact (pull_rises h hpull).trans (ih.of_tail rfl rfl)
  | case5 fresh window s f _ reply s' f' hpull => exact (pull_rises h hpull).tail rfl rfl

theorem fill_abreast (h : tap.Carries) (fresh : Bool) (window : Window) (hs : s.errored = false)
    (hf : (f.push s).Abreast) :
    ((fill tap fresh window s f).2.2.push (fill tap fresh window s f).2.1).Abreast := by
  fun_induction fill tap fresh window s f with
  | case1 => exact hf
  | case2 fresh window s f _ e s' f' hpull => exact pull_abreast h hpull hs hf
  | case3 fresh window s f _ reply s' f' hpull =>
    exact (pull_abreast h hpull hs hf).tail rfl rfl rfl
  | case4 fresh window s f _ reply s' f' hpull _ _ bytes marks landed _ ih =>
    exact ih ((pull_errored hpull).1.trans hs) ((pull_abreast h hpull hs hf).tail rfl rfl rfl)
  | case5 fresh window s f _ reply s' f' hpull =>
    exact (pull_abreast h hpull hs hf).tail rfl rfl rfl

theorem fill_error {fresh : Bool} {window : Window} {e : StageError}
    (herror : (fill tap fresh window s f).1 = .error e) :
    (fill tap fresh window s f).2.1.errored = true ∨
      s.engine = none ∧ (fill tap fresh window s f).2.1 = s := by
  fun_induction fill tap fresh window s f with
  | case1 => cases herror
  | case2 fresh window s f _ e s' f' hpull => exact pull_error hpull
  | case3 => cases herror
  | case4 fresh window s f _ reply s' f' hpull _ _ bytes marks landed _ ih =>
    exact (ih (prepend_error herror)).imp_right fun h => absurd h.1 (pull_errored hpull).2
  | case5 => cases herror

/-- Stages that fail see no further than they did, as far as they count. -/
theorem Within.of_error {token : Token} (h : s.Within token)
    (herror : s'.errored = true ∨ s'.token = s.token ∧ s'.errored = s.errored) :
    s'.Within token := by
  rcases herror with herror | ⟨htoken, herrored⟩
  · exact .inl herror
  · unfold Within
    rw [htoken, herrored]
    exact h

theorem read_carries (h : tap.Carries) (window : Window) : StageOp.Carries (read tap window) := by
  refine ⟨fun s f => ?_, fun s f hf => ?_, fun s f e token herror hs => ?_⟩
  · unfold read
    split
    · exact .refl _
    · dsimp only
      split
      · exact (Front.Rises.refl _).tail rfl rfl
      · rw [prepend_snd]
        exact (fill_rises h _ _ _ f).of_tail rfl rfl
  · unfold read
    split
    · exact hf
    next hs =>
      dsimp only
      split
      · exact hf.tail rfl rfl rfl
      · rw [prepend_snd]
        exact fill_abreast h _ _ (eq_false_of_ne_true hs) (hf.tail rfl rfl rfl)
  · unfold read at herror ⊢
    split
    · exact hs
    next herrored =>
      rw [if_neg herrored] at herror
      dsimp only at herror ⊢
      split
      · exact hs
      next hdone =>
        rw [if_neg hdone] at herror
        rw [prepend_snd]
        refine hs.of_error ((fill_error (prepend_error herror)).imp_right ?_)
        rintro ⟨-, heq⟩
        rw [heq]
        exact ⟨rfl, rfl⟩

/-! ## Looking ahead -/

theorem lookAhead_rises (h : tap.Carries) (size : Nat) (s : Stage ι ε) (f : Front ι ε) :
    (f.push s).Rises ((lookAhead tap size s f).2.2.push (lookAhead tap size s f).2.1) := by
  fun_induction lookAhead tap size s f with
  | case1 => exact .refl _
  | case2 s f _ e s' f' hpull => exact pull_rises h hpull
  | case3 s f _ reply s' f' hpull => exact (pull_rises h hpull).tail rfl rfl
  | case4 s f _ reply s' f' hpull _ scratched _ buffer ih =>
    exact (pull_rises h hpull).trans (ih.of_tail rfl rfl)

theorem lookAhead_abreast (h : tap.Carries) (size : Nat) (hs : s.errored = false)
    (hf : (f.push s).Abreast) :
    ((lookAhead tap size s f).2.2.push (lookAhead tap size s f).2.1).Abreast := by
  fun_induction lookAhead tap size s f with
  | case1 => exact hf
  | case2 s f _ e s' f' hpull => exact pull_abreast h hpull hs hf
  | case3 s f _ reply s' f' hpull => exact (pull_abreast h hpull hs hf).tail rfl rfl rfl
  | case4 s f _ reply s' f' hpull _ scratched _ buffer ih =>
    exact ih ((pull_errored hpull).1.trans hs) ((pull_abreast h hpull hs hf).tail rfl rfl rfl)

theorem lookAhead_error {size : Nat} {e : StageError}
    (herror : (lookAhead tap size s f).1 = .error e) :
    (lookAhead tap size s f).2.1.errored = true ∨
      s.engine = none ∧ (lookAhead tap size s f).2.1 = s := by
  fun_induction lookAhead tap size s f with
  | case1 => cases herror
  | case2 s f _ e s' f' hpull => exact pull_error hpull
  | case3 => cases herror
  | case4 s f _ reply s' f' hpull _ scratched _ buffer ih =>
    exact (ih herror).imp_right fun h => absurd h.1 (pull_errored hpull).2

theorem peek_snd (tap : Tap ι ε) (size : Nat) (s : Stage ι ε) (f : Front ι ε) :
    (peek tap size s f).2 = if s.errored then (s, f) else (lookAhead tap size s f).2 := by
  unfold peek
  split
  · rfl
  · split
    all_goals
      next heq => rw [heq]

theorem peek_carries (h : tap.Carries) (size : Nat) : StageOp.Carries (peek tap size) := by
  refine ⟨fun s f => ?_, fun s f hf => ?_, fun s f e token herror hs => ?_⟩
  · rw [peek_snd]
    split
    · exact .refl _
    · exact lookAhead_rises h size s f
  · rw [peek_snd]
    split
    · exact hf
    next hs => exact lookAhead_abreast h size (eq_false_of_ne_true hs) hf
  · rw [peek_snd]
    split
    · exact hs
    next herrored =>
      have hahead : (lookAhead tap size s f).1 = .error e := by
        unfold peek at herror
        rw [if_neg herrored] at herror
        split at herror
        next => cases herror
        next heq =>
          rw [heq]
          exact congrArg _ (Except.error.inj herror)
      refine hs.of_error ((lookAhead_error hahead).imp_right ?_)
      rintro ⟨-, heq⟩
      rw [heq]
      exact ⟨rfl, rfl⟩

/-! ## Seeking -/

theorem seek_carries (h : tap.Carries) (offset : Int) (whence : Whence) :
    StageOp.Carries (seek tap offset whence) := by
  refine ⟨fun s f => ?_, fun s f hf => ?_, fun s f e token herror hs => ?_⟩
  · unfold seek
    split
    · exact .refl _
    split
    · exact .refl _
    next e _ =>
      split
      · have hrecord : (f.push s).Rises
            ((f.record (.seek s.name e.id (s.seekOffset offset whence) whence)).push s) :=
          .of_eq rfl rfl
        have hplay := hrecord.trans
          (play_rises h s _ (e.plugin.seek e.state (s.seekOffset offset whence) whence))
        dsimp only
        split
        · exact hplay.tail rfl rfl
        · exact hplay.tail rfl rfl
      · exact .refl _
  · unfold seek
    split
    · exact hf
    next hs =>
    split
    · exact hf
    next e he =>
      split
      · have hseek := (hf.attentive s List.mem_cons_self e he).seek e.state
          (s.seekOffset offset whence) whence
        have hs := eq_false_of_ne_true hs
        dsimp only
        split
        next position hposition =>
          exact play_abreast h he hs hf hseek _ ⟨_, rfl⟩ rfl (.inr (by rw [hposition]; rfl))
        next => exact play_abreast h he hs hf hseek _ ⟨_, rfl⟩ rfl (.inl rfl)
      · exact hf
  · unfold seek at herror ⊢
    split
    · exact hs
    next herrored =>
    rw [if_neg herrored] at herror
    split
    · exact hs
    next engine he =>
      rw [he] at herror
      dsimp only at herror ⊢
      split
      next hseek =>
        rw [if_pos hseek] at herror
        split
        next hposition =>
          rw [hposition] at herror
          cases herror
        next => exact .inl rfl
      · exact hs

end Stage

/-! ## Chains of stages -/

theorem Tap.carries_reaching (depth : Nat) : (Tap.reaching depth : Tap ι ε).Carries := by
  induction depth with
  | zero =>
    constructor
    all_goals
      intros
      exact ⟨fun _ _ => .refl _, fun _ _ hf => hf, fun _ _ _ _ _ hs => hs⟩
  | succ depth ih =>
    exact ⟨Stage.read_carries ih, Stage.peek_carries ih, Stage.seek_carries ih⟩

/-! ## Setting up -/

namespace Stage

theorem firstRun_rises (p : Plugin ι ε) (settings : Settings) (goals : List StreamType)
    (f : Front ι ε) {s : Stage ι ε} (hs : s.post = firstPost p settings goals f) :
    ((firstBench p f).seat s).Rises ((firstRun p settings goals f).2.seat s) := by
  unfold firstRun
  rw [← hs]
  exact Script.run_invariant (P := fun b : Bench ι ε => ((firstBench p f).seat s).Rises (b.seat s))
    (fun q b hb => hb.trans (answer_rises (Tap.carries_reaching _) s 0 true q b)) p.init _ (.refl _)

/-- Whether or not a stage could be set up, nothing is recorded after the callback has ended, and
what stands then are the stages that it has left and possibly the one that it was for. -/
theorem create_left (p : Plugin ι ε) (settings : Settings) (goals : List StreamType)
    (f : Front ι ε) :
    (Front.joined (create p settings goals f)).scene.log = (firstRun p settings goals f).2.log ∧
      ∀ s ∈ (Front.joined (create p settings goals f)).stages,
        s ∈ (firstRun p settings goals f).2.front.stages ∨
          s.desk = (firstRun p settings goals f).2.desk := by
  rcases create_cases p settings goals f with
    ⟨e, -, heq⟩ | ⟨state, -, -, heq⟩ | ⟨state, outType, -, heq⟩
  · rw [heq]
    exact ⟨rfl, fun s hs => .inl hs⟩
  · rw [heq]
    exact ⟨rfl, fun s hs => .inl hs⟩
  · rw [heq]
    refine ⟨rfl, List.forall_mem_cons.mpr ⟨.inr rfl, fun s hs => .inl hs⟩⟩

/-- A new stage begins with the horizon of the one in front. -/
theorem firstBench_abreast {f : Front ι ε} (p : Plugin ι ε) (hf : f.Abreast) :
    Bench.Abreast false (firstBench p f) := by
  obtain ⟨stages, scene⟩ := f
  cases stages with
  | nil => exact ⟨hf.scene (Nat.le_refl _), Nat.zero_le _, nofun⟩
  | cons s rest =>
    refine ⟨hf.scene (Nat.le_refl _), hf.issued s List.mem_cons_self, fun _ u hu => ?_⟩
    obtain rfl := Option.some.inj hu
    exact .inr (Nat.le_refl _)

theorem create_abreast {p : Plugin ι ε} (hp : p.Attentive) (settings : Settings)
    (goals : List StreamType) {f : Front ι ε} (hf : f.Abreast) :
    (Front.joined (create p settings goals f)).Abreast := by
  obtain ⟨hbehind, hended⟩ := run_abreast (Tap.carries_reaching f.stages.length)
    (firstPost p settings goals f) 0 true hp.init (firstBench_abreast p hf)
  rcases create_cases p settings goals f with
    ⟨e, -, heq⟩ | ⟨state, -, -, heq⟩ | ⟨state, outType, hstate, heq⟩
  · rw [heq]
    exact hbehind.front
  · rw [heq]
    exact hbehind.front.scene (Nat.le_refl _)
  · rw [heq]
    have hok : (firstRun p settings goals f).1.isOk = true := by
      rw [hstate]
      rfl
    let engine : Engine ι ε := ⟨p, f.scene.backstage.births, state⟩
    have hplugin : ∀ engine', some engine = some engine' → engine'.plugin.Attentive := by
      rintro _ ⟨⟩
      exact hp
    exact Front.Abreast.scene ((hended hok).push (s := ⟨firstPost p settings goals f,
      (firstRun p settings goals f).2.desk, some engine, outType, [], [], false, false⟩)
      hplugin rfl nofun) (Nat.le_refl _)

end Stage

end MediaChain
