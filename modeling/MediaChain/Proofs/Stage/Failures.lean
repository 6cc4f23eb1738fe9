import MediaChain.Proofs.Stage.Requests

/-!
# Callbacks that fail

Every callback of a stage's plugin that reads or seeks has an `Outcome`. Those of a call are listed
in order (`Stage.readOutcomes`, `Stage.peekOutcomes`, `Stage.seekOutcomes`), whether or not the call
is successful. A stage is errored after a call if it was before or one of them failed, which then
was the last (`Stage.After`). That none is missing in the lists is said by a plugin that adds the
outcome of each callback to its state (`Plugin.Tells`).
-/

namespace MediaChain

variable {ι ε : Type}

/-! ## Outcomes -/

/-- How a callback that reads or seeks ended. -/
inductive Outcome
  | read (window : Window) (result : Except PluginError Reply)
  | seek (offset : Int) (whence : Whence) (result : Except PluginError Nat)
deriving DecidableEq

/-- Whether a callback failed. So it did if it claims more bytes than its window has room for. -/
def Outcome.failed : Outcome → Bool
  | read window (.ok reply) => window.size < reply.count
  | seek _ _ (.ok _) => false
  | read _ (.error _) => true
  | seek _ _ (.error _) => true

/-- A plugin that keeps an account of its callbacks in its state: each adds its outcome. -/
structure Plugin.Tells (p : Plugin ι ε) (account : ι → List Outcome) : Prop where
  read : ∀ state window, (p.read state window).Ends (fun _ => True) fun r =>
    account r.2 = account state ++ [.read window r.1]
  seek : ∀ state offset whence, (p.seek state offset whence).Ends (fun _ => True) fun r =>
    account r.2 = account state ++ [.seek offset whence r.1]

namespace Stage

/-! ## The outcomes of a call -/

/-- The outcome of asking the plugin to fill a window. -/
def pullOutcomes (tap : Tap ι ε) (window : Window) (s : Stage ι ε) (f : Front ι ε) :
    List Outcome :=
  match s.engine with
  | none => []
  | some e =>
    [.read window ((e.plugin.read e.state window).run (answer tap s.post s.buffer.length false)
      (s.bench f e window)).1.1]

/-- The outcomes while a window is filled. -/
def fillOutcomes (tap : Tap ι ε) (fresh : Bool) (window : Window) (s : Stage ι ε) (f : Front ι ε) :
    List Outcome :=
  if window.size = 0 then []
  else
    s.pullOutcomes tap window f ++
      match s.pull tap window f with
      | (.error _, _, _) => []
      | (.ok reply, s', f') =>
        if reply.count = 0 then []
        else if (s'.landIf fresh).desk.marks.pending = [] then
          fillOutcomes tap false ((window.write reply.written).drop reply.count)
            (s'.landIf fresh) f'
        else []
termination_by window.size
decreasing_by simp only [Window.size_drop, Window.size_write]; omega

/-- The outcomes while bytes are taken. -/
def readOutcomes (tap : Tap ι ε) (window : Window) (s : Stage ι ε) (f : Front ι ε) :
    List Outcome :=
  if s.errored ∨ s.done then []
  else
    fillOutcomes tap (s.buffer.take (s.reach window.size)).isEmpty
      ((window.take (s.reach window.size)).drop (s.buffer.take (s.reach window.size)).length)
      (s.served (s.reach window.size)) f

/-- The outcomes while the stage looks ahead. -/
def lookOutcomes (tap : Tap ι ε) (size : Nat) (s : Stage ι ε) (f : Front ι ε) : List Outcome :=
  if size ≤ s.buffer.length ∨ s.done then []
  else
    s.pullOutcomes tap s.window f ++
      match s.pull tap s.window f with
      | (.error _, _, _) => []
      | (.ok reply, s', f') =>
        if reply.count = 0 then []
        else
          lookOutcomes tap size
            { s' with
              scratch := (s.window.write reply.written).held
              buffer := s.buffer ++ reply.bytes s.window } f'
termination_by size - s.buffer.length
decreasing_by simp only [List.length_append, Reply.length_bytes]; omega

/-- The outcomes while the stage is looked at. -/
def peekOutcomes (tap : Tap ι ε) (size : Nat) (s : Stage ι ε) (f : Front ι ε) : List Outcome :=
  if s.errored then [] else lookOutcomes tap size s f

/-- The outcome of a seek, if the plugin is asked at all. -/
def seekOutcomes (tap : Tap ι ε) (offset : Int) (whence : Whence) (s : Stage ι ε) (f : Front ι ε) :
    List Outcome :=
  if s.errored then []
  else
    match s.engine with
    | none => []
    | some e =>
      if e.plugin.capabilities.seek then
        [.seek (s.seekOffset offset whence) whence
          ((e.plugin.seek e.state (s.seekOffset offset whence) whence).run
            (answer tap s.post s.buffer.length false) (s.seekBench f e offset whence)).1.1]
      else []

/-! ## What outcomes do to a stage -/

/-- The plugin of a stage keeps an account of its callbacks, and these were their outcomes. -/
def Recounts (account : ι → List Outcome) (told : List Outcome) (s : Stage ι ε) : Prop :=
  ∃ e, s.engine = some e ∧ e.plugin.Tells account ∧ account e.state = told

/-- What has become of a stage after callbacks with certain outcomes. It was not errored before
them, and is errored since the last if that one failed. -/
structure After (s : Stage ι ε) (outcomes : List Outcome) (s' : Stage ι ε) : Prop where
  post : s'.post = s.post
  errored : s'.errored = (s.errored || outcomes.any Outcome.failed)
  sound : outcomes ≠ [] → s.errored = false
  before : ∀ o ∈ outcomes.dropLast, o.failed = false
  told : ∀ account told, s.Recounts account told → s'.Recounts account (told ++ outcomes)

variable {tap : Tap ι ε} {window : Window} {s s' s'' : Stage ι ε} {f f' : Front ι ε} {reply : Reply}
  {outcomes outcomes' : List Outcome}

namespace After

/-- No callback is involved in changes of what is ahead of the reader. -/
theorem quiet (hpost : s'.post = s.post) (hengine : s'.engine = s.engine)
    (herrored : s'.errored = s.errored) : After s [] s' where
  post := hpost
  errored := by rw [herrored, List.any_nil, Bool.or_false]
  sound := fun h => absurd rfl h
  before := nofun
  told := by
    rintro account told ⟨e, he, htells, htold⟩
    exact ⟨e, hengine.trans he, htells, htold.trans (List.append_nil told).symm⟩

theorem trans (h : After s outcomes s') (h' : After s' outcomes' s'') :
    After s (outcomes ++ outcomes') s'' where
  post := h'.post.trans h.post
  errored := by rw [h'.errored, h.errored, List.any_append, Bool.or_assoc]
  sound := by
    intro hne
    cases outcomes with
    | nil =>
      have hs' := h'.sound hne
      rw [h.errored, List.any_nil, Bool.or_false] at hs'
      exact hs'
    | cons o outcomes => exact h.sound (List.cons_ne_nil o outcomes)
  before := by
    intro o ho
    by_cases hnil : outcomes' = []
    · rw [hnil, List.append_nil] at ho
      exact h.before o ho
    · -- the stage was not errored between the two, so nothing has failed until then
      have hs' := h'.sound hnil
      rw [h.errored, Bool.or_eq_false_iff, List.any_eq_false] at hs'
      rw [List.dropLast_append_of_ne_nil hnil] at ho
      rcases List.mem_append.mp ho with ho | ho
      · exact eq_false_of_ne_true (hs'.2 o ho)
      · exact h'.before o ho
  told := by
    intro account told htold
    rw [← List.append_assoc]
    exact h'.told account _ (h.told account told htold)

/-- One callback, which leaves the plugin in a new state. -/
theorem single {e : Engine ι ε} {state : ι} {o : Outcome} (he : s.engine = some e)
    (hs : s.errored = false) (hpost : s'.post = s.post)
    (hengine : s'.engine = some { e with state }) (herrored : s'.errored = o.failed)
    (htold : ∀ account, e.plugin.Tells account → account state = account e.state ++ [o]) :
    After s [o] s' where
  post := hpost
  errored := by rw [herrored, hs, List.any_cons, List.any_nil, Bool.or_false, Bool.false_or]
  sound := fun _ => hs
  before := nofun
  told := by
    rintro account told ⟨e', he', htells, rfl⟩
    cases he.symm.trans he'
    exact ⟨_, hengine, htells, htold account htells⟩

end After

/-! ## Asking the plugin -/

/-- A pull does what the plugin does about it. -/
theorem pull_eq_of_run {e : Engine ι ε} {result : Except PluginError Reply} {state : ι}
    {b : Bench ι ε} (he : s.engine = some e)
    (hrun : (e.plugin.read e.state window).run (answer tap s.post s.buffer.length false)
      (s.bench f e window) = ((result, state), b)) :
    ∃ answered, s.pull tap window f = (answered,
      { s with
        desk := b.desk
        engine := some { e with state }
        errored := s.errored || (Outcome.read window result).failed },
      b.front) := by
  unfold bench at hrun
  unfold pull play
  rw [he]
  dsimp only
  rw [hrun]
  cases result with
  | error err => exact ⟨_, by rw [Outcome.failed, Bool.or_true]⟩
  | ok reply =>
    dsimp only
    rw [Outcome.failed]
    split
    next hle => exact ⟨_, by rw [decide_eq_false (Nat.not_lt.mpr hle), Bool.or_false]⟩
    next hlt => exact ⟨_, by rw [decide_eq_true (Nat.lt_of_not_le hlt), Bool.or_true]⟩

theorem pull_after (tap : Tap ι ε) (window : Window) (f : Front ι ε) (hs : s.errored = false) :
    After s (s.pullOutcomes tap window f) (s.pull tap window f).2.1 := by
  unfold pullOutcomes
  split
  next he =>
    unfold pull
    rw [he]
    exact .quiet rfl rfl rfl
  next e he =>
    rcases hrun : (e.plugin.read e.state window).run (answer tap s.post s.buffer.length false)
      (s.bench f e window) with ⟨⟨result, state⟩, b⟩
    obtain ⟨answered, hpull⟩ := pull_eq_of_run he hrun
    rw [hpull]
    refine .single he hs rfl rfl (by rw [hs, Bool.false_or]) fun account htells => ?_
    have hended := ((htells.read e.state window).run (answer tap s.post s.buffer.length false)
      (J := fun _ => True) (fun _ _ _ _ => trivial) (s := s.bench f e window) trivial).1
    rwa [hrun] at hended

/-! ## Taking bytes -/

theorem fillOutcomes_of_pull (fresh : Bool) (hw : window.size ≠ 0)
    (hpull : s.pull tap window f = (.ok reply, s', f')) :
    fillOutcomes tap fresh window s f = s.pullOutcomes tap window f ++
      if reply.count = 0 then []
      else if (s'.landIf fresh).desk.marks.pending = [] then
        fillOutcomes tap false ((window.write reply.written).drop reply.count) (s'.landIf fresh) f'
      else [] := by
  rw [fillOutcomes, if_neg hw, hpull]

theorem fill_after (fresh : Bool) (hs : s.errored = false) :
    After s (fillOutcomes tap fresh window s f) (fill tap fresh window s f).2.1 := by
  fun_induction fill tap fresh window s f with
  | case1 fresh window s f hw =>
    rw [fillOutcomes, if_pos hw]
    exact .quiet rfl rfl rfl
  | case2 fresh window s f hw e s' f' hpull =>
    have hafter := pull_after tap window f hs
    rw [fillOutcomes, if_neg hw, hpull, List.append_nil]
    rwa [hpull] at hafter
  | case3 fresh window s f hw reply s' f' hpull written hzero =>
    have hafter := pull_after tap window f hs
    rw [hpull] at hafter
    rw [fillOutcomes_of_pull fresh hw hpull, if_pos hzero]
    exact hafter.trans (.quiet rfl rfl rfl)
  | case4 fresh window s f hw reply s' f' hpull written hzero bytes marks landed hpending ih =>
    have hafter := pull_after tap window f hs
    rw [hpull] at hafter
    have hnone : (s'.landIf fresh).desk.marks.pending = [] := hpending
    rw [fillOutcomes_of_pull fresh hw hpull, if_neg hzero, if_pos hnone, prepend_snd]
    have hlanded : After s' [] landed := .quiet rfl rfl rfl
    exact hafter.trans (hlanded.trans (ih ((pull_errored hpull).1.trans hs)))
  | case5 fresh window s f hw reply s' f' hpull written hzero bytes marks landed hpending =>
    have hafter := pull_after tap window f hs
    rw [hpull] at hafter
    have hsome : (s'.landIf fresh).desk.marks.pending ≠ [] := hpending
    rw [fillOutcomes_of_pull fresh hw hpull, if_neg hzero, if_neg hsome]
    exact hafter.trans (.quiet rfl rfl rfl)

theorem read_after (tap : Tap ι ε) (window : Window) (s : Stage ι ε) (f : Front ι ε) :
    After s (s.readOutcomes tap window f) (s.read tap window f).2.1 := by
  unfold readOutcomes
  cases hs : s.errored with
  | true =>
    unfold Stage.read
    rw [if_pos hs, if_pos (.inl rfl)]
    exact .quiet rfl rfl rfl
  | false =>
    rw [read_eq tap window f hs]
    cases hdone : s.done with
    | true => exact .quiet rfl rfl rfl
    | false =>
      rw [if_neg Bool.false_ne_true, if_neg (by simp), prepend_snd]
      have hserved : After s [] (s.served (s.reach window.size)) := .quiet rfl rfl rfl
      exact hserved.trans (fill_after _ hs)

/-! ## Looking ahead -/

theorem lookOutcomes_of_pull {size : Nat} (h : ¬(size ≤ s.buffer.length ∨ s.done))
    (hpull : s.pull tap s.window f = (.ok reply, s', f')) :
    lookOutcomes tap size s f = s.pullOutcomes tap s.window f ++
      if reply.count = 0 then []
      else lookOutcomes tap size
        { s' with
          scratch := (s.window.write reply.written).held
          buffer := s.buffer ++ reply.bytes s.window } f' := by
  rw [lookOutcomes, if_neg h, hpull]

theorem lookAhead_after (size : Nat) (hs : s.errored = false) :
    After s (lookOutcomes tap size s f) (lookAhead tap size s f).2.1 := by
  fun_induction lookAhead tap size s f with
  | case1 s f henough =>
    rw [lookOutcomes, if_pos henough]
    exact .quiet rfl rfl rfl
  | case2 s f hmore e s' f' hpull =>
    have hafter := pull_after tap s.window f hs
    rw [lookOutcomes, if_neg hmore, hpull, List.append_nil]
    rwa [hpull] at hafter
  | case3 s f hmore reply s' f' hpull written scratched hzero =>
    have hafter := pull_after tap s.window f hs
    rw [hpull] at hafter
    rw [lookOutcomes_of_pull hmore hpull, if_pos hzero]
    exact hafter.trans (.quiet rfl rfl rfl)
  | case4 s f hmore reply s' f' hpull written scratched hzero buffer ih =>
    have hafter := pull_after tap s.window f hs
    rw [hpull] at hafter
    rw [lookOutcomes_of_pull hmore hpull, if_neg hzero]
    have hscratched : After s' [] { scratched with buffer } := .quiet rfl rfl rfl
    exact hafter.trans (hscratched.trans (ih ((pull_errored hpull).1.trans hs)))

theorem peek_after (tap : Tap ι ε) (size : Nat) (s : Stage ι ε) (f : Front ι ε) :
    After s (s.peekOutcomes tap size f) (s.peek tap size f).2.1 := by
  unfold peekOutcomes
  rw [peek_snd]
  split
  · exact .quiet rfl rfl rfl
  next hs => exact lookAhead_after size (eq_false_of_ne_true hs)

/-! ## Seeking -/

/-- A seek is refused and nothing has changed, or else it is what the plugin does about it. -/
theorem seek_refused_or_run (tap : Tap ι ε) (offset : Int) (whence : Whence) (s : Stage ι ε)
    (f : Front ι ε) :
    (s.seekOutcomes tap offset whence f = [] ∧
      ∃ e, s.seek tap offset whence f = (.error e, s, f)) ∨
      ∃ e result state b, s.engine = some e ∧ s.errored = false ∧
        e.plugin.capabilities.seek = true ∧
        (e.plugin.seek e.state (s.seekOffset offset whence) whence).run
          (answer tap s.post s.buffer.length false) (s.seekBench f e offset whence) =
            ((result, state), b) ∧
        s.seekOutcomes tap offset whence f =
          [.seek (s.seekOffset offset whence) whence result] := by
  unfold seekOutcomes Stage.seek
  split
  · exact .inl ⟨rfl, _, rfl⟩
  next hs =>
    cases he : s.engine with
    | none => exact .inl ⟨rfl, _, rfl⟩
    | some e =>
      dsimp only
      split
      next hseeks =>
        exact .inr ⟨e, _, _, _, rfl, eq_false_of_ne_true hs, hseeks, rfl, rfl⟩
      next => exact .inl ⟨rfl, _, rfl⟩

theorem seek_after (tap : Tap ι ε) (offset : Int) (whence : Whence) (s : Stage ι ε)
    (f : Front ι ε) :
    After s (s.seekOutcomes tap offset whence f) (s.seek tap offset whence f).2.1 := by
  rcases seek_refused_or_run tap offset whence s f with
    ⟨hnone, e, hseek⟩ | ⟨e, result, state, b, he, hs, hseeks, hrun, hone⟩
  · rw [hnone, hseek]
    exact .quiet rfl rfl rfl
  · have htold : ∀ account, e.plugin.Tells account → account state = account e.state ++
        [.seek (s.seekOffset offset whence) whence result] := by
      intro account htells
      have hended := ((htells.seek e.state (s.seekOffset offset whence) whence).run
        (answer tap s.post s.buffer.length false) (J := fun _ => True)
        (fun _ _ _ _ => trivial) (s := s.seekBench f e offset whence) trivial).1
      rwa [hrun] at hended
    rw [hone, seek_of_run he hs hseeks hrun]
    cases result with
    | ok position => exact .single he hs rfl rfl hs htold
    | error err => exact .single he hs rfl rfl rfl htold

/-! ## Calls that are refused -/

theorem read_of_errored (tap : Tap ι ε) (window : Window) (f : Front ι ε)
    (hs : s.errored = true) : s.read tap window f = (.error (.errored s.name), s, f) :=
  if_pos hs

theorem peek_of_errored (tap : Tap ι ε) (size : Nat) (f : Front ι ε) (hs : s.errored = true) :
    s.peek tap size f = (.error (.errored s.name), s, f) :=
  if_pos hs

theorem seek_of_errored (tap : Tap ι ε) (offset : Int) (whence : Whence) (f : Front ι ε)
    (hs : s.errored = true) :
    s.seek tap offset whence f = (.error (.errored s.name), s, f) :=
  if_pos hs

/-- A seek that is not supported has not reached the plugin, and has changed nothing. -/
theorem seek_unsupported {offset : Int} {whence : Whence} {name : String}
    (h : (s.seek tap offset whence f).1 = .error (.seekUnsupported name)) :
    s.seekOutcomes tap offset whence f = [] ∧
      s.seek tap offset whence f = (.error (.seekUnsupported name), s, f) := by
  rcases seek_refused_or_run tap offset whence s f with
    ⟨hnone, e, hseek⟩ | ⟨e, result, state, b, he, hs, hseeks, hrun, -⟩
  · rw [hseek] at h
    exact ⟨hnone, hseek.trans (congrArg (·, s, f) h)⟩
  · rw [seek_of_run he hs hseeks hrun] at h
    cases result <;> cases h

end Stage

end MediaChain
