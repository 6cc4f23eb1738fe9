import MediaChain.Proofs.Stage.Diary

/-!
# The end of the stream

A reader that gets nothing takes it for the end of the stream. No mark deceives it: a read stops
before a mark only at a distance, and where it gets nothing nothing lies ahead, so that all marks are
reached (`Stage.Sound.ended_of_read`). From then on reads and peeks show nothing and call the plugin
for nothing, until it is sought (`Stage.Reached.ended`).
-/

namespace MediaChain

namespace Stage

variable {ι ε : Type} {tap : Tap ι ε} {window : Window} {s s' : Stage ι ε} {f f' : Front ι ε}
  {reply : Reply}

/-! ## Stages that have ended -/

/-- The plugin has come to the end of the stream, and the reader to the end of what was produced. -/
structure Ended (s : Stage ι ε) : Prop where
  done : s.done = true
  buffer : s.buffer = []
  not_errored : s.errored = false

/-- If the reader has got nothing yet, filling a window gives it nothing only at the end of the
stream. -/
theorem Sound.ended_of_fill (hs : s.Sound) (hok : s.errored = false) (hb : s.buffer = [])
    (hw : window.size ≠ 0) (hfill : Stage.fill tap true window s f = (.ok reply, s', f'))
    (hzero : reply.count = 0) : s'.Ended := by
  refine fill_induct (P := fun fresh window s _ reply s' => s.Sound → s.errored = false →
    s.buffer = [] → window.size ≠ 0 → fresh = true → reply.count = 0 → s'.Ended)
    ?full ?ended ?more ?aside hfill hs hok hb hw rfl hzero
  case full => exact fun hw _ _ _ hw' => absurd hw hw'
  case ended =>
    intro fresh window s s₁ f f₁ r hw hpull _ _ hok hb _ _ _
    obtain ⟨e, desk, state, -, rfl, -⟩ := pull_ok hpull
    exact ⟨rfl, hb, hok⟩
  case more =>
    intro fresh window s s₁ s' f f₁ r r' _ _ hr _ _ _ _ _ _ _ hzero
    rw [Reply.length_bytes] at hzero
    exact absurd (Nat.eq_zero_of_add_eq_zero_right hzero) hr
  case aside =>
    intro fresh window s s₁ f f₁ r _ hpull _ hpending hs _ hb _ hfresh _
    obtain ⟨hbuffer, hs₁⟩ := hs.pull hpull
    have hmarks := hs₁.marks
    rw [hbuffer, hb] at hmarks
    subst hfresh
    exact absurd hmarks.land_pending_eq_nil hpending

/-- A reader that has room and gets nothing has come to the end of the stream. -/
theorem Sound.ended_of_read (hs : s.Sound) (hw : 0 < window.size)
    (hread : s.read tap window f = (.ok reply, s', f')) (hzero : reply.count = 0) : s'.Ended := by
  have hok := not_errored_of_read hread
  -- a read reaches at least one byte far, so nothing lies ahead if none is served
  have hreach : s.reach window.size ≠ 0 := fun h =>
    Nat.ne_of_gt hw (eq_zero_of_reach_eq_zero hs.marks h)
  have hlen : (s.buffer.take (s.reach window.size)).length =
      min (s.reach window.size) s.buffer.length := List.length_take
  have hempty : (s.buffer.take (s.reach window.size)).length = 0 → s.buffer = [] := fun h =>
    List.length_eq_zero_iff.mp (by omega)
  rcases read_cases hread with ⟨hdone, rfl, rfl, -⟩ | ⟨r, hdone, hfill, rfl⟩
  · have hb := hempty hzero
    refine ⟨hdone, ?_, hok⟩
    show s.buffer.drop _ = []
    rw [hb, List.drop_nil]
  · have hb := hempty (Nat.eq_zero_of_add_eq_zero_right hzero)
    have hserved : (s.served (s.reach window.size)).buffer = [] := by
      show s.buffer.drop _ = []
      rw [hb, List.drop_nil]
    rw [hb, List.take_nil] at hfill
    refine (hs.served _).ended_of_fill hok hserved ?_ hfill (Nat.eq_zero_of_add_eq_zero_left hzero)
    rw [Window.size_drop, Window.size_take]
    have := s.reach_le window.size
    simp only [List.length_nil]
    omega

namespace Ended

/-- A stage that has ended is read from in vain, and not a single callback is called. -/
theorem read (h : s.Ended) (tap : Tap ι ε) (window : Window) (f : Front ι ε) :
    s.read tap window f = (.ok (.ofBytes []), s.served (s.reach window.size), f) := by
  rw [read_eq _ _ _ h.not_errored, if_pos h.done, h.buffer, List.take_nil]

theorem served (h : s.Ended) (size : Nat) : (s.served size).Ended := by
  refine ⟨h.done, ?_, h.not_errored⟩
  show s.buffer.drop _ = []
  rw [h.buffer, List.drop_nil]

theorem peek (h : s.Ended) (tap : Tap ι ε) (size : Nat) (f : Front ι ε) :
    s.peek tap size f = (.ok [], s, f) := by
  unfold Stage.peek
  rw [h.not_errored, if_neg Bool.false_ne_true, lookAhead_of_enough tap (.inr h.done)]
  dsimp only
  rw [h.buffer, List.take_nil]

end Ended

/-! ## Later on -/

/-- A seek of the stage is passed on to its plugin. -/
def PassesSeeks (s : Stage ι ε) : Prop :=
  s.errored = false ∧ ∃ e, s.engine = some e ∧ e.plugin.capabilities.seek = true

/-- Any calls have been made since, successful or not, but the plugin was not sought. -/
inductive Later (s : Stage ι ε) : Stage ι ε → Prop
  | refl : Later s s
  | recordFact {s₁ : Stage ι ε} (log : Facts.Log) (key : String) (value : Value) :
    Later s s₁ → Later s (s₁.recordFact log key value).1
  | read {tap : Tap ι ε} {window : Window} {s₁ s₂ : Stage ι ε} {f f' : Front ι ε}
    {result : Except StageError Reply} :
    Later s s₁ → s₁.read tap window f = (result, s₂, f') → Later s s₂
  | peek {tap : Tap ι ε} {size : Nat} {s₁ s₂ : Stage ι ε} {f f' : Front ι ε}
    {result : Except StageError Bytes} :
    Later s s₁ → s₁.peek tap size f = (result, s₂, f') → Later s s₂
  | seek {tap : Tap ι ε} {offset : Int} {whence : Whence} {s₁ s₂ : Stage ι ε} {f f' : Front ι ε}
    {result : Except StageError Nat} :
    Later s s₁ → ¬s₁.PassesSeeks → s₁.seek tap offset whence f = (result, s₂, f') → Later s s₂

/-- A seek that does not reach the plugin leaves the stage as it was. -/
theorem seek_of_not_passesSeeks (h : ¬s.PassesSeeks) (tap : Tap ι ε) (offset : Int)
    (whence : Whence) (f : Front ι ε) : (s.seek tap offset whence f).2.1 = s := by
  unfold Stage.seek
  split
  · rfl
  next herrored =>
    split
    · rfl
    next e he =>
      split
      next hseek => exact absurd ⟨Bool.eq_false_iff.mpr herrored, e, he, hseek⟩ h
      next => rfl

theorem Ended.later (h : s.Ended) (hlater : s.Later s') : s'.Ended := by
  induction hlater with
  | refl => exact h
  | recordFact log key value _ ih => exact ⟨ih.done, ih.buffer, ih.not_errored⟩
  | read _ hread ih =>
    rw [ih.read] at hread
    obtain ⟨⟩ := hread
    exact ih.served _
  | peek _ hpeek ih =>
    rw [ih.peek] at hpeek
    obtain ⟨⟩ := hpeek
    exact ih
  | @seek tap offset whence s₁ s₂ f _ _ _ hpasses hseek ih =>
    have hsame : s₂ = s₁ := by
      have hrefused := seek_of_not_passesSeeks hpasses tap offset whence f
      rwa [hseek] at hrefused
    exact hsame ▸ ih

variable {d : Diary ι ε}

/-- **The end of the stream.** A read into a window that has room gives nothing only if the plugin
has come to the end of the stream and nothing lies ahead. Then all reads and peeks show nothing and
call no callback until the plugin is sought: the scene and the stages in front stay as they are, and
so does the plugin. -/
theorem Reached.ended (h : Reached s d) (hw : 0 < window.size)
    (hread : s.read tap window f = (.ok reply, s', f')) (hzero : reply.count = 0) :
    s'.done = true ∧ s'.buffer = [] ∧ ∀ s₁, s'.Later s₁ → ∀ (tap : Tap ι ε) (f : Front ι ε),
      (∀ window, ∃ s₂, s₁.read tap window f = (.ok (.ofBytes []), s₂, f) ∧
        s₂.engine = s₁.engine) ∧
      ∀ size, s₁.peek tap size f = (.ok [], s₁, f) := by
  have hended := h.sound.ended_of_read hw hread hzero
  refine ⟨hended.done, hended.buffer, fun s₁ hlater tap f => ⟨fun window => ?_, fun size => ?_⟩⟩
  · exact ⟨_, (hended.later hlater).read tap window f, rfl⟩
  · exact (hended.later hlater).peek tap size f

/-- The reader of a stage whose plugin has come to its end behind six bytes gets nothing from the
fourth read on, though a mark is pending where it is. -/
theorem Reached.ended_stepping :
    ∃ (s s' : Stage Nat Unit) (d : Diary Nat Unit) (f f' : Front Nat Unit), Reached s d ∧
      s.done = true ∧ s.desk.marks.pending = [⟨0, none⟩] ∧
      s.read .closed (.blank 4) f = (.ok ⟨0, []⟩, s', f') ∧ s'.done = true ∧ s'.buffer = [] ∧
      s'.peek .closed 1 f' = (.ok [], s', f') := by
  obtain ⟨s, f, hs⟩ :
      ∃ s f, Stage.create stepping {} [] ⟨[], ⟨.empty, .empty⟩⟩ = (.ok s, f) := ⟨_, _, rfl⟩
  have take : ∀ {s : Stage Nat Unit}, (∃ d, Reached s d) →
      ∀ f, ∃ d, Reached (s.read .closed (.blank 4) f).2.1 d := fun ⟨_, h⟩ f => h.of_read _ _ f
  obtain ⟨d, reached⟩ := take (take (take ((Reached.create hs).of_peek .closed 10 f) f) f) f
  obtain ⟨t, ht⟩ : ∃ t, t = ((((s.peek .closed 10 f).2.1.read .closed (.blank 4) f).2.1.read
      .closed (.blank 4) f).2.1.read .closed (.blank 4) f).2.1 := ⟨_, rfl⟩
  rw [← ht] at reached
  have hread : (t.read .closed (.blank 4) f).1 = .ok ⟨0, []⟩ := by
    apply ok_of_toOption
    cases hs
    cases ht
    decide +kernel
  obtain ⟨hdone, hbuffer, hlater⟩ := reached.ended (by decide) (Prod.ext hread rfl) rfl
  refine ⟨t, _, d, f, _, reached, ?_, ?_, Prod.ext hread rfl, hdone, hbuffer,
    (hlater _ .refl .closed _).2 1⟩
  · cases hs
    cases ht
    decide +kernel
  · cases hs
    cases ht
    decide +kernel

end Stage

end MediaChain
