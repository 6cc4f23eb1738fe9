import MediaChain.Proofs.Stage.Anchors
import MediaChain.Proofs.Stage.Success
import MediaChain.Proofs.Stage.Tokens

/-!
# Stages and what has been done with them

Any calls may have brought a stage where it is (`Stage.Reached`), successful or not. A `Diary` says
what came of the successful ones since the stage was set up or since it was last sought: the bytes
that its reads returned, and the portions in which its plugin gave them. Whatever happened, the marks
of the stage are in order (`Stage.Reached.sound`). A call that fails leaves the stage errored or as it
was, so that what successful calls keep holds of every stage that is not errored
(`Stage.Reached.induct`).
-/

namespace MediaChain

variable {ι ε : Type}

/-! ## Portions -/

/-- What a plugin gave at one read: the window that it was handed, and its reply. -/
structure Portion where
  window : Window
  reply : Reply

def Portion.bytes (p : Portion) : Bytes := p.reply.bytes p.window

namespace Stage

/-- The portions that the plugin gives while a window is filled, in order. -/
def fillPortions (tap : Tap ι ε) (fresh : Bool) (window : Window) (s : Stage ι ε)
    (f : Front ι ε) : List Portion :=
  if window.size = 0 then []
  else
    match s.pull tap window f with
    | (.error _, _, _) => []
    | (.ok reply, s', f') =>
      ⟨window, reply⟩ ::
        if reply.count = 0 then []
        else if (s'.landIf fresh).desk.marks.pending = [] then
          fillPortions tap false ((window.write reply.written).drop reply.count)
            (s'.landIf fresh) f'
        else []
termination_by window.size
decreasing_by simp only [Window.size_drop, Window.size_write]; omega

/-- The portions that the plugin gives while bytes are taken. -/
def readPortions (tap : Tap ι ε) (window : Window) (s : Stage ι ε) (f : Front ι ε) :
    List Portion :=
  if s.done then []
  else
    fillPortions tap (s.buffer.take (s.reach window.size)).isEmpty
      ((window.take (s.reach window.size)).drop (s.buffer.take (s.reach window.size)).length)
      (s.served (s.reach window.size)) f

/-- The portions that the plugin gives while it is read ahead. -/
def peekPortions (tap : Tap ι ε) (size : Nat) (s : Stage ι ε) (f : Front ι ε) : List Portion :=
  if size ≤ s.buffer.length ∨ s.done then []
  else
    match s.pull tap s.window f with
    | (.error _, _, _) => []
    | (.ok reply, s', f') =>
      ⟨s.window, reply⟩ ::
        if reply.count = 0 then []
        else
          peekPortions tap size
            { s' with
              scratch := (s.window.write reply.written).held
              buffer := s.buffer ++ reply.bytes s.window } f'
termination_by size - s.buffer.length
decreasing_by simp only [List.length_append, Reply.length_bytes]; omega

variable {tap : Tap ι ε} {window : Window} {s s' : Stage ι ε} {f f' : Front ι ε} {reply : Reply}

theorem fillPortions_of_pull (fresh : Bool) (hw : window.size ≠ 0)
    (hpull : s.pull tap window f = (.ok reply, s', f')) :
    fillPortions tap fresh window s f = ⟨window, reply⟩ ::
      if reply.count = 0 then []
      else if (s'.landIf fresh).desk.marks.pending = [] then
        fillPortions tap false ((window.write reply.written).drop reply.count) (s'.landIf fresh) f'
      else [] := by
  rw [fillPortions, if_neg hw, hpull]

theorem peekPortions_of_pull {size : Nat} (h : ¬(size ≤ s.buffer.length ∨ s.done))
    (hpull : s.pull tap s.window f = (.ok reply, s', f')) :
    peekPortions tap size s f = ⟨s.window, reply⟩ ::
      if reply.count = 0 then []
      else peekPortions tap size
        { s' with
          scratch := (s.window.write reply.written).held
          buffer := s.buffer ++ reply.bytes s.window } f' := by
  rw [peekPortions, if_neg h, hpull]

/-! ## Stages that are sound -/

/-- A plugin drives the stage, its marks lie in the order of their positions, and none lies behind
what was produced ahead. -/
structure Sound (s : Stage ι ε) : Prop where
  driven : s.engine ≠ none
  marks : s.desk.marks.Ordered s.buffer.length

/-- Whatever comes of a pull, its bytes are still to be accounted for, and its marks lie where the
bytes end that were produced ahead. -/
theorem Sound.pull (h : s.Sound) {result : Except StageError Reply}
    (hpull : s.pull tap window f = (result, s', f')) : s'.buffer = s.buffer ∧ s'.Sound := by
  unfold Stage.pull at hpull
  split at hpull
  next hnone => exact absurd hnone h.driven
  next e _ =>
    have hplay := run_ordered tap s.post s.buffer.length false (e.plugin.read e.state window)
      (b := s.bench f e window) h.marks
    dsimp only at hpull
    split at hpull
    next =>
      split at hpull
      all_goals
        obtain ⟨-, rfl, -⟩ := hpull
        exact ⟨rfl, nofun, hplay⟩
    next =>
      obtain ⟨-, rfl, -⟩ := hpull
      exact ⟨rfl, nofun, hplay⟩

theorem Sound.landIf (h : s.Sound) (fresh : Bool) : (s.landIf fresh).Sound := by
  cases fresh with
  | true => exact ⟨h.driven, h.marks.land⟩
  | false => exact h

/-- More may lie ahead. -/
theorem Sound.append (h : s.Sound) (bytes : Bytes) (scratch : Bytes) :
    Sound { s with scratch, buffer := s.buffer ++ bytes } := by
  refine ⟨h.driven, h.marks.mono ?_⟩
  show s.buffer.length ≤ (s.buffer ++ bytes).length
  rw [List.length_append]
  exact Nat.le_add_right _ _

theorem Sound.end (h : s.Sound) (scratch : Bytes) : Sound { s with scratch, done := true } :=
  ⟨h.driven, h.marks⟩

theorem Sound.served (h : s.Sound) (size : Nat) : (s.served size).Sound :=
  ⟨h.driven, served_ordered h.marks size⟩

theorem Sound.fill (h : s.Sound) (tap : Tap ι ε) (fresh : Bool) (window : Window)
    (f : Front ι ε) : (Stage.fill tap fresh window s f).2.1.Sound := by
  fun_induction Stage.fill tap fresh window s f with
  | case1 => exact h
  | case2 fresh window s f _ e s' f' hpull => exact (h.pull hpull).2
  | case3 fresh window s f _ reply s' f' hpull => exact (h.pull hpull).2.end s'.scratch
  | case4 fresh window s f _ reply s' f' hpull _ _ bytes marks landed _ ih =>
    exact ih ((h.pull hpull).2.landIf fresh)
  | case5 fresh window s f _ reply s' f' hpull _ _ bytes marks landed =>
    exact ((h.pull hpull).2.landIf fresh).append bytes landed.scratch

theorem Sound.read (h : s.Sound) (tap : Tap ι ε) (window : Window) (f : Front ι ε) :
    (s.read tap window f).2.1.Sound := by
  cases herrored : s.errored with
  | true =>
    unfold Stage.read
    rw [if_pos herrored]
    exact h
  | false =>
    rw [read_eq tap window f herrored]
    split
    · exact h.served _
    · rw [prepend_snd]
      exact (h.served _).fill tap _ _ f

theorem Sound.lookAhead (h : s.Sound) (tap : Tap ι ε) (size : Nat) (f : Front ι ε) :
    (Stage.lookAhead tap size s f).2.1.Sound := by
  fun_induction Stage.lookAhead tap size s f with
  | case1 => exact h
  | case2 s f _ e s' f' hpull => exact (h.pull hpull).2
  | case3 s f _ reply s' f' hpull window scratched => exact (h.pull hpull).2.end scratched.scratch
  | case4 s f _ reply s' f' hpull window scratched _ buffer ih =>
    obtain ⟨hbuffer, hpulled⟩ := h.pull hpull
    have happended := hpulled.append (window.bytes reply.count) scratched.scratch
    rw [hbuffer] at happended
    exact ih happended

theorem Sound.peek (h : s.Sound) (tap : Tap ι ε) (size : Nat) (f : Front ι ε) :
    (s.peek tap size f).2.1.Sound := by
  rw [peek_snd]
  split
  · exact h
  · exact h.lookAhead tap size f

theorem Sound.seek (h : s.Sound) (tap : Tap ι ε) (offset : Int) (whence : Whence)
    (f : Front ι ε) : (s.seek tap offset whence f).2.1.Sound := by
  unfold Stage.seek
  split
  · exact h
  split
  · exact h
  next e _ =>
    split
    · dsimp only
      split
      · exact ⟨nofun, Marks.ordered_of_pending_eq_nil rfl⟩
      · exact ⟨nofun,
          run_ordered tap s.post s.buffer.length false _ (b := ⟨s.desk, some s.outType, _⟩) h.marks⟩
    · exact h

theorem sound_of_create {p : Plugin ι ε} {settings : Settings} {goals : List StreamType}
    (h : create p settings goals f = (.ok s, f')) : s.Sound := by
  have hmarks := create_marks h
  obtain ⟨state, bench, outType, -, rfl, -⟩ := create_ok h
  refine ⟨nofun, ?_⟩
  rw [hmarks]
  exact Marks.Ordered.foldl_place (Marks.ordered_of_pending_eq_nil rfl) _

/-! ## Calls that fail -/

/-- A stage fails with its reads. -/
theorem Sound.read_error (h : s.Sound) {e : StageError}
    (hread : s.read tap window f = (.error e, s', f')) : s'.errored = true := by
  cases herrored : s.errored with
  | true =>
    unfold Stage.read at hread
    rw [if_pos herrored] at hread
    obtain ⟨-, rfl, -⟩ := hread
    exact herrored
  | false =>
    rw [read_eq tap window f herrored] at hread
    split at hread
    · cases hread
    · have hfill := fill_error (prepend_error (congrArg Prod.fst hread))
      rw [← prepend_snd, hread] at hfill
      exact hfill.resolve_right fun hnone => h.driven hnone.1

/-- A stage fails when it cannot look ahead. -/
theorem Sound.peek_error (h : s.Sound) {size : Nat} {e : StageError}
    (hpeek : s.peek tap size f = (.error e, s', f')) : s'.errored = true := by
  have hsnd := peek_snd tap size s f
  rw [hpeek] at hsnd
  unfold Stage.peek at hpeek
  split at hpeek
  next herrored =>
    obtain ⟨-, rfl, -⟩ := hpeek
    exact herrored
  next herrored =>
    rw [if_neg herrored] at hsnd
    split at hpeek
    next => cases hpeek
    next e' s₁ f₁ hlook =>
      have hahead := lookAhead_error (congrArg Prod.fst hlook)
      rw [← hsnd] at hahead
      exact hahead.resolve_right fun hnone => h.driven hnone.1

/-- A seek that is refused leaves the stage as it was, any other that fails leaves it errored. -/
theorem seek_error {offset : Int} {whence : Whence} {e : StageError}
    (hseek : s.seek tap offset whence f = (.error e, s', f')) : s' = s ∨ s'.errored = true := by
  unfold Stage.seek at hseek
  split at hseek
  · obtain ⟨-, rfl, -⟩ := hseek
    exact .inl rfl
  split at hseek
  · obtain ⟨-, rfl, -⟩ := hseek
    exact .inl rfl
  next =>
    split at hseek
    · dsimp only at hseek
      split at hseek
      · cases hseek
      · obtain ⟨-, rfl, -⟩ := hseek
        exact .inr rfl
    · obtain ⟨-, rfl, -⟩ := hseek
      exact .inl rfl

end Stage

/-! ## Diaries -/

/-- What came of the successful calls of a stage since it was set up or last sought: its plugin as it
was then and the values that were in force, the bytes that its reads have returned, the portions that
the plugin gave, and what it asked for at each read, all of them oldest first. -/
structure Diary (ι ε : Type) where
  first : Option (Engine ι ε)
  base : Landed
  taken : Bytes
  portions : List Portion
  pulls : List (Pull ε)

namespace Diary

/-- The diary of a stage that was just set up with some requests. -/
def begun (s : Stage ι ε) (asked : List (Request ε)) : Diary ι ε :=
  ⟨s.engine, ∅, [], [], [⟨asked, 0⟩]⟩

/-- The diary of a stage that was just sought. -/
def sought (s : Stage ι ε) : Diary ι ε := ⟨s.engine, s.desk.marks.landed, [], [], []⟩

/-- Writes down a read that got a reply. -/
def read (d : Diary ι ε) (tap : Tap ι ε) (window : Window) (s : Stage ι ε) (f : Front ι ε)
    (reply : Reply) : Diary ι ε :=
  { d with
    taken := d.taken ++ reply.bytes window
    portions := d.portions ++ s.readPortions tap window f
    pulls := d.pulls ++ s.readPulls tap window f }

/-- Writes down that the reader has looked ahead. -/
def peek (d : Diary ι ε) (tap : Tap ι ε) (size : Nat) (s : Stage ι ε) (f : Front ι ε) :
    Diary ι ε :=
  { d with
    portions := d.portions ++ s.peekPortions tap size f
    pulls := d.pulls ++ s.peekPulls tap size f }

end Diary

namespace Stage

/-- A stage that any calls may have brought where it is, with the diary of those that were
successful. That the server records a fact for the stage makes no difference. -/
inductive Reached : Stage ι ε → Diary ι ε → Prop
  | create {p : Plugin ι ε} {settings : Settings} {goals : List StreamType} {s : Stage ι ε}
    {f f' : Front ι ε} :
    create p settings goals f = (.ok s, f') → Reached s (.begun s (firstAsked p settings goals f))
  | recordFact {s : Stage ι ε} {d : Diary ι ε} (log : Facts.Log) (key : String) (value : Value) :
    Reached s d → Reached (s.recordFact log key value).1 d
  | read {tap : Tap ι ε} {window : Window} {s s' : Stage ι ε} {f f' : Front ι ε} {d : Diary ι ε}
    {reply : Reply} :
    Reached s d → s.read tap window f = (.ok reply, s', f') →
      Reached s' (d.read tap window s f reply)
  | peek {tap : Tap ι ε} {size : Nat} {s s' : Stage ι ε} {f f' : Front ι ε} {d : Diary ι ε}
    {bytes : Bytes} :
    Reached s d → s.peek tap size f = (.ok bytes, s', f') → Reached s' (d.peek tap size s f)
  | seek {tap : Tap ι ε} {offset : Int} {whence : Whence} {position : Nat} {s s' : Stage ι ε}
    {f f' : Front ι ε} {d : Diary ι ε} :
    Reached s d → s.seek tap offset whence f = (.ok position, s', f') → Reached s' (.sought s')
  | read_error {tap : Tap ι ε} {window : Window} {s s' : Stage ι ε} {f f' : Front ι ε}
    {d : Diary ι ε} {e : StageError} :
    Reached s d → s.read tap window f = (.error e, s', f') → Reached s' d
  | peek_error {tap : Tap ι ε} {size : Nat} {s s' : Stage ι ε} {f f' : Front ι ε} {d : Diary ι ε}
    {e : StageError} :
    Reached s d → s.peek tap size f = (.error e, s', f') → Reached s' d
  | seek_error {tap : Tap ι ε} {offset : Int} {whence : Whence} {s s' : Stage ι ε}
    {f f' : Front ι ε} {d : Diary ι ε} {e : StageError} :
    Reached s d → s.seek tap offset whence f = (.error e, s', f') → Reached s' d

variable {d : Diary ι ε}

theorem Reached.sound (h : Reached s d) : s.Sound := by
  induction h with
  | create hcreate => exact sound_of_create hcreate
  | recordFact log key value _ ih => exact ⟨ih.driven, ih.marks⟩
  | @read tap window s s' f _ _ _ _ hread ih =>
    have hsound := ih.read tap window f
    rwa [hread] at hsound
  | @peek tap size s s' f _ _ _ _ hpeek ih =>
    have hsound := ih.peek tap size f
    rwa [hpeek] at hsound
  | @seek tap offset whence _ s s' f _ _ _ hseek ih =>
    have hsound := ih.seek tap offset whence f
    rwa [hseek] at hsound
  | @read_error tap window s s' f _ _ _ _ hread ih =>
    have hsound := ih.read tap window f
    rwa [hread] at hsound
  | @peek_error tap size s s' f _ _ _ _ hpeek ih =>
    have hsound := ih.peek tap size f
    rwa [hpeek] at hsound
  | @seek_error tap offset whence s s' f _ _ _ _ hseek ih =>
    have hsound := ih.seek tap offset whence f
    rwa [hseek] at hsound

/-- Whatever comes of a read, it brings the stage where calls can bring it. -/
theorem Reached.of_read (h : Reached s d) (tap : Tap ι ε) (window : Window) (f : Front ι ε) :
    ∃ d', Reached (s.read tap window f).2.1 d' := by
  cases hread : (s.read tap window f).1 with
  | ok reply => exact ⟨_, h.read (Prod.ext hread rfl)⟩
  | error e => exact ⟨_, h.read_error (Prod.ext hread rfl)⟩

theorem Reached.of_peek (h : Reached s d) (tap : Tap ι ε) (size : Nat) (f : Front ι ε) :
    ∃ d', Reached (s.peek tap size f).2.1 d' := by
  cases hpeek : (s.peek tap size f).1 with
  | ok bytes => exact ⟨_, h.peek (Prod.ext hpeek rfl)⟩
  | error e => exact ⟨_, h.peek_error (Prod.ext hpeek rfl)⟩

/-- What holds of stages that were just set up or just sought, and is kept by calls that are
successful, holds of every stage that is not errored: a call that failed has left it as it was. -/
theorem Reached.induct {P : Stage ι ε → Diary ι ε → Prop}
    (create : ∀ {p : Plugin ι ε} {settings : Settings} {goals : List StreamType} {s : Stage ι ε}
      {f f' : Front ι ε}, Stage.create p settings goals f = (.ok s, f') →
        P s (.begun s (firstAsked p settings goals f)))
    (recordFact : ∀ {s : Stage ι ε} {d : Diary ι ε} (log : Facts.Log) (key : String)
      (value : Value), P s d → P (s.recordFact log key value).1 d)
    (read : ∀ {tap : Tap ι ε} {window : Window} {s s' : Stage ι ε} {f f' : Front ι ε}
      {d : Diary ι ε} {reply : Reply}, s.Sound → P s d →
        s.read tap window f = (.ok reply, s', f') → P s' (d.read tap window s f reply))
    (peek : ∀ {tap : Tap ι ε} {size : Nat} {s s' : Stage ι ε} {f f' : Front ι ε} {d : Diary ι ε}
      {bytes : Bytes}, s.Sound → P s d → s.peek tap size f = (.ok bytes, s', f') →
        P s' (d.peek tap size s f))
    (seek : ∀ {tap : Tap ι ε} {offset : Int} {whence : Whence} {position : Nat}
      {s s' : Stage ι ε} {f f' : Front ι ε}, s.Sound →
        s.seek tap offset whence f = (.ok position, s', f') → P s' (.sought s'))
    (h : Reached s d) (hok : s.errored = false) : P s d := by
  induction h with
  | create hcreate => exact create hcreate
  | recordFact log key value _ ih => exact recordFact log key value (ih hok)
  | read hreached hread ih => exact read hreached.sound (ih (not_errored_of_read hread)) hread
  | peek hreached hpeek ih => exact peek hreached.sound (ih (not_errored_of_peek hpeek)) hpeek
  | seek hreached hseek _ => exact seek hreached.sound hseek
  | read_error hreached hread _ =>
    rw [hreached.sound.read_error hread] at hok
    cases hok
  | peek_error hreached hpeek _ =>
    rw [hreached.sound.peek_error hpeek] at hok
    cases hok
  | seek_error _ hseek ih =>
    rcases Stage.seek_error hseek with rfl | herrored
    · exact ih hok
    · rw [herrored] at hok
      cases hok

/-- A plugin that bars what it gives from what it gave before, two bytes at each of three reads. -/
def stepping : Plugin Nat Unit where
  descriptor := { name := "stepping" }
  init := do
    let _ ← Script.request (.setOutType .untyped)
    return .ok 0
  read n _ := do
    Script.request .barrier
    return (.ok (if n < 3 then .ofBytes [2 * n.toUInt8, 2 * n.toUInt8 + 1] else .ofBytes []), n + 1)

end Stage

end MediaChain
