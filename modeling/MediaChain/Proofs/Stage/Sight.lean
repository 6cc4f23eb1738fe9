import MediaChain.Proofs.Stage.Flow

/-!
# What stages can tell apart

The stages of a chain see each other, the facts, and the parts of the configuration under their
names; of everything else they know nothing. So in two scenes that are alike in this
(`Front.Alike`) an operation gives the same and leaves the same stages, and the scenes stay alike
(`Tap.blind_reaching`).
-/

namespace MediaChain

variable {ι ε α : Type} {N : String → Prop}

/-! ## Fronts that are alike -/

/-- The same stages in two scenes which stages of certain names, theirs among them, cannot tell
apart. -/
structure Front.Alike (N : String → Prop) (f f' : Front ι ε) : Prop where
  stages : f'.stages = f.stages
  named : ∀ s ∈ f.stages, N s.name
  log : f'.scene.log = f.scene.log
  lookup : ∀ name, N name → ∀ key, f'.scene.backstage.config.lookup (name ++ "." ++ key) =
    f.scene.backstage.config.lookup (name ++ "." ++ key)

namespace Front.Alike

variable {f f' : Front ι ε} {s : Stage ι ε} {rest : List (Stage ι ε)} {scene scene' : Scene ε}

theorem record (h : f.Alike N f') (event : Event ε) :
    (f.record event).Alike N (f'.record event) :=
  ⟨h.stages, h.named, h.log, h.lookup⟩

theorem cons (h : Alike N ⟨rest, scene⟩ ⟨rest, scene'⟩) (hs : N s.name) :
    Alike N ⟨s :: rest, scene⟩ ⟨s :: rest, scene'⟩ :=
  ⟨rfl, List.forall_mem_cons.mpr ⟨hs, h.named⟩, h.log, h.lookup⟩

theorem uncons (h : Alike N ⟨s :: rest, scene⟩ ⟨s :: rest, scene'⟩) :
    N s.name ∧ Alike N ⟨rest, scene⟩ ⟨rest, scene'⟩ := by
  obtain ⟨hs, hrest⟩ := List.forall_mem_cons.mp h.named
  exact ⟨hs, rfl, hrest, h.log, h.lookup⟩

end Front.Alike

/-- The same bench in two such scenes. -/
structure Bench.Alike (N : String → Prop) (b b' : Bench ι ε) : Prop where
  desk : b'.desk = b.desk
  outType : b'.outType = b.outType
  front : b.front.Alike N b'.front

/-- The same answer, on benches that are alike. -/
inductive Bench.Agree (N : String → Prop) : α × Bench ι ε → α × Bench ι ε → Prop
  | intro {a : α} {b b' : Bench ι ε} : b.Alike N b' → Agree N (a, b) (a, b')

/-- The same result and the same stage, behind fronts that are alike. -/
inductive Stage.Agree (N : String → Prop) :
    α × Stage ι ε × Front ι ε → α × Stage ι ε × Front ι ε → Prop
  | intro {a : α} {s : Stage ι ε} {f f' : Front ι ε} :
    N s.name → f.Alike N f' → Agree N (a, s, f) (a, s, f')

/-- An operation that is blind to all that stages of certain names cannot see. -/
def StageOp.Blind (N : String → Prop) (op : StageOp ι ε α) : Prop :=
  ∀ (s : Stage ι ε) (f f' : Front ι ε), N s.name → f.Alike N f' → Stage.Agree N (op s f) (op s f')

structure Tap.Blind (N : String → Prop) (tap : Tap ι ε) : Prop where
  read : ∀ window, (tap.read window).Blind N
  peek : ∀ size, (tap.peek size).Blind N
  seek : ∀ offset whence, (tap.seek offset whence).Blind N

/-! ## Requests -/

namespace Bench

variable {b b' : Bench ι ε} {tap : Tap ι ε}

theorem reach_agree (hb : b.Alike N b') {op : StageOp ι ε α} (h : op.Blind N) (name : String) :
    Agree N (b.reach name op) (b'.reach name op) := by
  obtain ⟨desk, outType, ⟨stages, scene⟩⟩ := b
  obtain ⟨_, _, ⟨stages', scene'⟩⟩ := b'
  obtain ⟨rfl, rfl, hfront⟩ := hb
  obtain rfl : stages' = stages := hfront.stages
  cases stages' with
  | nil => exact .intro ⟨rfl, rfl, hfront⟩
  | cons s rest =>
    obtain ⟨hs, hrest⟩ := hfront.uncons
    have hop := h s ⟨rest, scene⟩ ⟨rest, scene'⟩ hs hrest
    unfold reach
    dsimp only
    generalize op s ⟨rest, scene⟩ = x at hop ⊢
    generalize op s ⟨rest, scene'⟩ = y at hop ⊢
    obtain @⟨result, t, ⟨ts, scene⟩, ⟨ts', scene'⟩, ht, hafter⟩ := hop
    obtain rfl : ts' = ts := hafter.stages
    exact .intro ⟨rfl, rfl, hafter.cons ht⟩

theorem catchUp_alike (hb : b.Alike N b') : b.catchUp.Alike N b'.catchUp := by
  obtain ⟨desk, outType, ⟨stages, scene⟩⟩ := b
  obtain ⟨_, _, ⟨stages', scene'⟩⟩ := b'
  obtain ⟨rfl, rfl, hfront⟩ := hb
  obtain rfl : stages' = stages := hfront.stages
  cases stages' <;> exact ⟨rfl, rfl, hfront⟩

theorem setMarks_alike (hb : b.Alike N b') (marks : Marks) :
    (b.setMarks marks).Alike N (b'.setMarks marks) :=
  ⟨congrArg (fun desk : Desk => { desk with marks }) hb.desk, hb.outType, hb.front⟩

theorem setLine_alike (hb : b.Alike N b') (line : Bytes) :
    (b.setLine line).Alike N (b'.setLine line) :=
  ⟨congrArg (fun desk : Desk => { desk with line }) hb.desk, hb.outType, hb.front⟩

theorem read_agree (hb : b.Alike N b') (h : tap.Blind N) (post : Post) (window : Window) :
    Agree N (b.read tap post window) (b'.read tap post window) := by
  have hreach := reach_agree hb (h.read window) post.name
  unfold Bench.read
  generalize b.reach post.name (tap.read window) = x at hreach ⊢
  generalize b'.reach post.name (tap.read window) = y at hreach ⊢
  obtain @⟨reply | e, _, _, hbench⟩ := hreach
  · exact .intro hbench
  · exact .intro (catchUp_alike hbench)

theorem seek_agree (hb : b.Alike N b') (h : tap.Blind N) (post : Post) (offset : Int)
    (whence : Whence) : Agree N (b.seek tap post offset whence) (b'.seek tap post offset whence) := by
  have hreach := reach_agree hb (h.seek offset whence) post.name
  unfold Bench.seek
  generalize b.reach post.name (tap.seek offset whence) = x at hreach ⊢
  generalize b'.reach post.name (tap.seek offset whence) = y at hreach ⊢
  obtain @⟨e | position, _, _, hbench⟩ := hreach
  · exact .intro hbench
  · exact .intro (setLine_alike hbench [])

theorem takeLine_agree (hb : b.Alike N b') (bytes : Bytes) :
    Agree N (b.takeLine bytes) (b'.takeLine bytes) := by
  unfold takeLine
  split
  · exact .intro (setLine_alike hb _)
  · exact .intro (setLine_alike hb _)

/-- A line that is taken is an answer without an error. -/
theorem takeLine_ok_agree (hb : b.Alike N b') (bytes : Bytes) :
    Agree N
      ((.ok (b.takeLine bytes).1, (b.takeLine bytes).2) :
        Except StageError (Option String) × Bench ι ε)
      (.ok (b'.takeLine bytes).1, (b'.takeLine bytes).2) := by
  have htaken := takeLine_agree hb bytes
  generalize b.takeLine bytes = x at htaken ⊢
  generalize b'.takeLine bytes = y at htaken ⊢
  obtain ⟨hbench⟩ := htaken
  exact .intro hbench

theorem readLine_agree (hb : b.Alike N b') (h : tap.Blind N) (post : Post) :
    Agree N (b.readLine tap post) (b'.readLine tap post) := by
  unfold readLine
  rw [hb.desk]
  dsimp only
  split
  · exact takeLine_ok_agree hb b.desk.line
  · have hread := read_agree hb h post (.blank (post.lineCap - b.desk.line.length))
    generalize b.read tap post (.blank (post.lineCap - b.desk.line.length)) = x at hread ⊢
    generalize b'.read tap post (.blank (post.lineCap - b.desk.line.length)) = y at hread ⊢
    obtain @⟨e | reply, _, _, hbench⟩ := hread
    · exact .intro hbench
    · exact takeLine_ok_agree hbench _

theorem known?_alike (hb : b.Alike N b') (post : Post) (key : String) :
    b'.known? post key = b.known? post key := by
  unfold known? log
  rw [hb.desk, hb.front.log]

theorem recordFact_alike (hb : b.Alike N b') (post : Post) (key : String) (value : Value) :
    (b.recordFact post key value).Alike N (b'.recordFact post key value) := by
  obtain ⟨desk, outType, ⟨stages, ⟨log, backstage⟩⟩⟩ := b
  obtain ⟨_, _, ⟨_, ⟨_, backstage'⟩⟩⟩ := b'
  obtain ⟨rfl, rfl, rfl, hnamed, rfl, hlookup⟩ := hb
  exact ⟨rfl, rfl, rfl, hnamed, rfl, hlookup⟩

theorem view_alike (hb : b.Alike N b') (post : Post) : b'.view post = b.view post := by
  unfold view
  rw [hb.desk, hb.outType, hb.front.stages]

end Bench

namespace Stage

variable {tap : Tap ι ε} {f f' : Front ι ε} {s : Stage ι ε}

theorem answer_agree (h : tap.Blind N) {post : Post} (hpost : N post.name) (ahead : Nat)
    (settingUp : Bool) (q : Request ε) {b b' : Bench ι ε} (hb : b.Alike N b') :
    Bench.Agree N (answer tap post ahead settingUp q b)
      (answer tap post ahead settingUp q b') := by
  cases q with
  | view =>
    show Bench.Agree N (b.view post, b) (b'.view post, b')
    rw [Bench.view_alike hb]
    exact .intro hb
  | setOutType type =>
    cases settingUp with
    | true => exact .intro ⟨hb.desk, rfl, hb.front⟩
    | false => exact .intro hb
  | read window => exact Bench.read_agree hb h post window
  | peek size => exact Bench.reach_agree hb (h.peek size) post.name
  | seek offset whence => exact Bench.seek_agree hb h post offset whence
  | readLine => exact Bench.readLine_agree hb h post
  | mark key value =>
    show Bench.Agree N ((), b.setMarks (b.desk.marks.put ahead key value))
      ((), b'.setMarks (b'.desk.marks.put ahead key value))
    rw [hb.desk]
    exact .intro (Bench.setMarks_alike hb _)
  | barrier =>
    show Bench.Agree N ((), b.setMarks (b.desk.marks.bar ahead))
      ((), b'.setMarks (b'.desk.marks.bar ahead))
    rw [hb.desk]
    exact .intro (Bench.setMarks_alike hb _)
  | marked key =>
    show Bench.Agree N (b.front.stages.head?.bind (·.marked? key), b)
      (b'.front.stages.head?.bind (·.marked? key), b')
    rw [hb.front.stages]
    exact .intro hb
  | recordInt key value => exact .intro (Bench.recordFact_alike hb post key _)
  | recordText key value =>
    show Bench.Agree N
      (if b.known? post key = some (.text value) then ((), b)
        else ((), b.recordFact post key (.text value)))
      (if b'.known? post key = some (.text value) then ((), b')
        else ((), b'.recordFact post key (.text value)))
    rw [Bench.known?_alike hb]
    split
    · exact .intro hb
    · exact .intro (Bench.recordFact_alike hb post key _)
  | known key =>
    show Bench.Agree N (b.known? post key, b) (b'.known? post key, b')
    rw [Bench.known?_alike hb]
    exact .intro hb
  | lookup key =>
    show Bench.Agree N (b.front.scene.backstage.config.lookup (post.name ++ "." ++ key), b)
      (b'.front.scene.backstage.config.lookup (post.name ++ "." ++ key), b')
    rw [hb.front.lookup post.name hpost]
    exact .intro hb
  | note entry => exact .intro ⟨hb.desk, hb.outType, hb.front.record _⟩

theorem run_agree (h : tap.Blind N) {post : Post} (hpost : N post.name) (ahead : Nat)
    (settingUp : Bool) (x : Script ε α) {b b' : Bench ι ε} (hb : b.Alike N b') :
    Bench.Agree N (x.run (answer tap post ahead settingUp) b)
      (x.run (answer tap post ahead settingUp) b') := by
  induction x generalizing b b' with
  | done a => exact .intro hb
  | ask q next ih =>
    have hanswer := answer_agree h hpost ahead settingUp q hb
    rw [Script.run_ask, Script.run_ask]
    generalize answer tap post ahead settingUp q b = x at hanswer ⊢
    generalize answer tap post ahead settingUp q b' = y at hanswer ⊢
    obtain ⟨hbench⟩ := hanswer
    exact ih _ hbench

theorem play_agree (h : tap.Blind N) (hs : N s.name) (hf : f.Alike N f') (script : Script ε α) :
    Agree N (s.play tap f script) (s.play tap f' script) := by
  have hbench : Bench.Alike N (⟨s.desk, some s.outType, f⟩ : Bench ι ε)
      ⟨s.desk, some s.outType, f'⟩ := ⟨rfl, rfl, hf⟩
  have hrun := run_agree h (show N s.post.name from hs) s.buffer.length false script hbench
  unfold play
  generalize script.run _ (⟨s.desk, some s.outType, f⟩ : Bench ι ε) = x at hrun ⊢
  generalize script.run _ (⟨s.desk, some s.outType, f'⟩ : Bench ι ε) = y at hrun ⊢
  obtain @⟨a, b, b', hb⟩ := hrun
  dsimp only
  rw [hb.desk]
  exact .intro hs hb.front

/-! ## Operations -/

theorem pull_blind (h : tap.Blind N) (window : Window) : StageOp.Blind N (pull tap window) := by
  intro s f f' hs hf
  unfold pull
  cases s.engine with
  | none => exact .intro hs hf
  | some e =>
    have hplay := play_agree h hs (hf.record (.read s.name e.id window.size))
      (e.plugin.read e.state window)
    dsimp only
    generalize s.play tap (f.record _) _ = x at hplay ⊢
    generalize s.play tap (f'.record _) _ = y at hplay ⊢
    obtain @⟨⟨reply, state⟩, t, g, g', ht, hg⟩ := hplay
    dsimp only
    split
    · split
      · exact .intro ht hg
      · exact .intro ht hg
    · exact .intro ht hg

/-- What a stage gives behind one of the two fronts, it gives behind the other. -/
theorem pull_alike (h : tap.Blind N) (hs : N s.name) (hf : f.Alike N f') {window : Window}
    {result : Except StageError Reply} {t : Stage ι ε} {g : Front ι ε}
    (hpull : s.pull tap window f = (result, t, g)) :
    ∃ g', s.pull tap window f' = (result, t, g') ∧ N t.name ∧ g.Alike N g' := by
  have hagree := pull_blind h window s f f' hs hf
  rw [hpull] at hagree
  generalize s.pull tap window f' = y at hagree ⊢
  obtain ⟨ht, hg⟩ := hagree
  exact ⟨_, rfl, ht, hg⟩

theorem prepend_agree (bytes : Bytes) {x y : Except StageError Reply × Stage ι ε × Front ι ε}
    (h : Agree N x y) : Agree N (prepend bytes x) (prepend bytes y) := by
  obtain ⟨hs, hf⟩ := h
  exact .intro hs hf

theorem fill_agree (h : tap.Blind N) (fresh : Bool) (window : Window) (hs : N s.name)
    (hf : f.Alike N f') : Agree N (fill tap fresh window s f) (fill tap fresh window s f') := by
  induction hsize : window.size using Nat.strongRecOn generalizing window fresh s f f' with
  | _ size ih =>
  subst hsize
  by_cases hw : window.size = 0
  · rw [fill_of_size_eq_zero _ _ hw, fill_of_size_eq_zero _ _ hw]
    exact .intro hs hf
  rcases hpull : s.pull tap window f with ⟨e | reply, t, g⟩
  · obtain ⟨g', hpull', ht, hg⟩ := pull_alike h hs hf hpull
    rw [fill.eq_def tap fresh window s f, fill.eq_def tap fresh window s f', if_neg hw, if_neg hw,
      hpull, hpull']
    exact .intro ht hg
  · obtain ⟨g', hpull', ht, hg⟩ := pull_alike h hs hf hpull
    rw [fill_of_pull fresh hw hpull, fill_of_pull fresh hw hpull']
    split
    · exact .intro ht hg
    next hcount =>
      split
      · exact prepend_agree _ (ih (window.size - reply.count)
          (Nat.sub_lt (Nat.pos_of_ne_zero hw) (Nat.pos_of_ne_zero hcount)) _ _ ht hg rfl)
      · exact .intro ht hg

theorem read_blind (h : tap.Blind N) (window : Window) : StageOp.Blind N (read tap window) := by
  intro s f f' hs hf
  unfold read
  split
  · exact .intro hs hf
  · dsimp only
    split
    · exact .intro hs hf
    · exact prepend_agree _ (fill_agree h _ _ hs hf)

theorem lookAhead_agree (h : tap.Blind N) (size : Nat) (hs : N s.name) (hf : f.Alike N f') :
    Agree N (lookAhead tap size s f) (lookAhead tap size s f') := by
  induction hsize : size - s.buffer.length using Nat.strongRecOn generalizing s f f' with
  | _ missing ih =>
  subst hsize
  by_cases henough : size ≤ s.buffer.length ∨ s.done
  · rw [lookAhead_of_enough _ henough, lookAhead_of_enough _ henough]
    exact .intro hs hf
  rcases hpull : s.pull tap s.window f with ⟨e | reply, t, g⟩
  · obtain ⟨g', hpull', ht, hg⟩ := pull_alike h hs hf hpull
    rw [lookAhead.eq_def tap size s f, lookAhead.eq_def tap size s f', if_neg henough,
      if_neg henough, hpull, hpull']
    exact .intro ht hg
  · obtain ⟨g', hpull', ht, hg⟩ := pull_alike h hs hf hpull
    rw [lookAhead_of_pull henough hpull, lookAhead_of_pull henough hpull']
    split
    · exact .intro ht hg
    next hcount =>
      refine ih _ ?_ ht hg rfl
      rw [List.length_append, Reply.length_bytes]
      omega

theorem peek_blind (h : tap.Blind N) (size : Nat) : StageOp.Blind N (peek tap size) := by
  intro s f f' hs hf
  have hlook := lookAhead_agree h size hs hf
  unfold peek
  split
  · exact .intro hs hf
  · generalize lookAhead tap size s f = x at hlook ⊢
    generalize lookAhead tap size s f' = y at hlook ⊢
    obtain @⟨e | _, t, g, g', ht, hg⟩ := hlook
    · exact .intro ht hg
    · exact .intro ht hg

theorem seek_blind (h : tap.Blind N) (offset : Int) (whence : Whence) :
    StageOp.Blind N (seek tap offset whence) := by
  intro s f f' hs hf
  unfold seek
  split
  · exact .intro hs hf
  · cases s.engine with
    | none => exact .intro hs hf
    | some e =>
      dsimp only
      split
      · have hplay := play_agree h hs
          (hf.record (.seek s.name e.id (s.seekOffset offset whence) whence))
          (e.plugin.seek e.state (s.seekOffset offset whence) whence)
        generalize s.play tap (f.record _) _ = x at hplay ⊢
        generalize s.play tap (f'.record _) _ = y at hplay ⊢
        obtain @⟨⟨e | position, state⟩, t, g, g', ht, hg⟩ := hplay
        · exact .intro ht hg
        · exact .intro ht hg
      · exact .intro hs hf

end Stage

/-- Stages of certain names reach those in front of them without seeing anything else. -/
theorem Tap.blind_reaching (depth : Nat) : (Tap.reaching depth : Tap ι ε).Blind N := by
  induction depth with
  | zero =>
    constructor
    all_goals
      intros
      intro s f f' hs hf
      exact .intro hs hf
  | succ depth ih => exact ⟨Stage.read_blind ih, Stage.peek_blind ih, Stage.seek_blind ih⟩

end MediaChain
