import MediaChain.Proofs.Scripts
import MediaChain.Proofs.Stage.Marks
import MediaChain.Stage.Flow

/-!
# What a callback does to its stage

Of what a stage holds, a callback changes the marks only by the marks and barriers that it asks for
(`Stage.run_marks`), and the output type only by declaring one (`Stage.answer_outType`). Requests
that are local leave the stages in front alone (`Stage.answer_local`). `Stage.pull_ok` and
`Stage.pull_of_run` say the same of one read of the plugin.
-/

namespace MediaChain

variable {ι ε α : Type}

/-! ## Single requests -/

/-- What a request does to the marks of a stage that has produced `ahead` bytes its reader has not
taken. -/
def Request.place (ahead : Nat) (ms : Marks) : Request ε → Marks
  | .mark key value => ms.put ahead key value
  | .barrier => ms.bar ahead
  | _ => ms

theorem Marks.Ordered.place {ms : Marks} {ahead : Nat} (h : ms.Ordered ahead) (q : Request ε) :
    (q.place ahead ms).Ordered ahead := by
  cases q with
  | mark key value => exact h.put key value
  | barrier => exact h.bar
  | _ => exact h

theorem Marks.Ordered.foldl_place {ms : Marks} {ahead : Nat} (h : ms.Ordered ahead)
    (qs : List (Request ε)) : (qs.foldl (Request.place ahead) ms).Ordered ahead := by
  induction qs generalizing ms with
  | nil => exact h
  | cons q qs ih => exact ih (h.place q)

/-- What a request places is ahead of the reader, and does not touch the values in force. -/
theorem Request.landed_place (ahead : Nat) (ms : Marks) (q : Request ε) :
    (q.place ahead ms).landed = ms.landed := by
  cases q with
  | mark key value => exact ms.landed_put ahead key value
  | _ => rfl

theorem Request.landed_foldl_place (ahead : Nat) (ms : Marks) (qs : List (Request ε)) :
    (qs.foldl (Request.place ahead) ms).landed = ms.landed := by
  induction qs generalizing ms with
  | nil => rfl
  | cons q qs ih => exact (ih _).trans (q.landed_place ahead ms)

namespace Bench

/-- What changes at a bench only when it is asked for by name: the marks and the output type. -/
def own (b : Bench ι ε) : Marks × Option StreamType := (b.desk.marks, b.outType)

theorem reach_own (b : Bench ι ε) (name : String) (op : StageOp ι ε α) :
    (b.reach name op).2.own = b.own := by
  unfold reach
  split <;> rfl

theorem catchUp_own (b : Bench ι ε) : b.catchUp.own = b.own := by
  unfold catchUp
  split <;> rfl

theorem read_own (b : Bench ι ε) (tap : Tap ι ε) (post : Post) (window : Window) :
    (b.read tap post window).2.own = b.own := by
  have hreach := b.reach_own post.name (tap.read window)
  unfold Bench.read
  split
  next heq =>
    rw [heq] at hreach
    exact (catchUp_own _).trans hreach
  next heq =>
    rw [heq] at hreach
    exact hreach

theorem seek_own (b : Bench ι ε) (tap : Tap ι ε) (post : Post) (offset : Int) (whence : Whence) :
    (b.seek tap post offset whence).2.own = b.own := by
  have hreach := b.reach_own post.name (tap.seek offset whence)
  unfold Bench.seek
  split
  all_goals
    next heq =>
      rw [heq] at hreach
      exact hreach

theorem takeLine_own (b : Bench ι ε) (bytes : Bytes) : (b.takeLine bytes).2.own = b.own := by
  unfold takeLine
  split <;> rfl

theorem readLine_own (b : Bench ι ε) (tap : Tap ι ε) (post : Post) :
    (b.readLine tap post).2.own = b.own := by
  unfold readLine
  dsimp only
  split
  · exact takeLine_own _ _
  · have hread := b.read_own tap post (.blank (post.lineCap - b.desk.line.length))
    split
    all_goals
      next heq =>
        rw [heq] at hread
        first
          | exact (takeLine_own _ _).trans hread
          | exact hread

end Bench

namespace Stage

variable (tap : Tap ι ε) (post : Post) (ahead : Nat) (settingUp : Bool)

theorem answer_marks (q : Request ε) (b : Bench ι ε) :
    (answer tap post ahead settingUp q b).2.desk.marks = q.place ahead b.desk.marks := by
  cases q with
  | setOutType type => cases settingUp <;> rfl
  | read window => exact congrArg Prod.fst (b.read_own tap post window)
  | peek size => exact congrArg Prod.fst (b.reach_own post.name (tap.peek size))
  | seek offset whence => exact congrArg Prod.fst (b.seek_own tap post offset whence)
  | readLine => exact congrArg Prod.fst (b.readLine_own tap post)
  | recordText key value =>
    show (if _ then ((), b) else ((), b.recordFact post key (.text value))).2.desk.marks = _
    split <;> rfl
  | _ => rfl

/-- An output type is declared by the request to do so only. -/
theorem answer_outType {q : Request ε} (hq : ∀ type, q ≠ .setOutType type) (b : Bench ι ε) :
    (answer tap post ahead settingUp q b).2.outType = b.outType := by
  cases q with
  | setOutType type => exact absurd rfl (hq type)
  | read window => exact congrArg Prod.snd (b.read_own tap post window)
  | peek size => exact congrArg Prod.snd (b.reach_own post.name (tap.peek size))
  | seek offset whence => exact congrArg Prod.snd (b.seek_own tap post offset whence)
  | readLine => exact congrArg Prod.snd (b.readLine_own tap post)
  | recordText key value =>
    show (if _ then ((), b) else ((), b.recordFact post key (.text value))).2.outType = _
    split <;> rfl
  | _ => rfl

/-- A local request leaves the stages in front and the configuration as they are. -/
theorem answer_local {q : Request ε} (hq : q.IsLocal) (b : Bench ι ε) :
    (answer tap post ahead settingUp q b).2.front.stages = b.front.stages ∧
      (answer tap post ahead settingUp q b).2.front.scene.backstage.config =
        b.front.scene.backstage.config := by
  cases q with
  | read window => exact hq.elim
  | peek size => exact hq.elim
  | seek offset whence => exact hq.elim
  | readLine => exact hq.elim
  | setOutType type => cases settingUp <;> exact ⟨rfl, rfl⟩
  | recordText key value =>
    have hif : answer tap post ahead settingUp (.recordText key value) b =
        if b.known? post key = some (.text value) then ((), b)
        else ((), b.recordFact post key (.text value)) := rfl
    rw [hif]
    split <;> exact ⟨rfl, rfl⟩
  | _ => exact ⟨rfl, rfl⟩

/-- Nor does it change the bytes at hand of a line. -/
theorem answer_line {q : Request ε} (hq : q.IsLocal) (b : Bench ι ε) :
    (answer tap post ahead settingUp q b).2.desk.line = b.desk.line := by
  cases q with
  | read window => exact hq.elim
  | peek size => exact hq.elim
  | seek offset whence => exact hq.elim
  | readLine => exact hq.elim
  | setOutType type => cases settingUp <;> rfl
  | recordText key value =>
    show (if _ then ((), b) else ((), b.recordFact post key (.text value))).2.desk.line = _
    split <;> rfl
  | _ => rfl

/-- A callback places the marks that it asks for, one after the other. -/
theorem run_marks (x : Script ε α) (b : Bench ι ε) :
    (x.run (answer tap post ahead settingUp) b).2.desk.marks =
      (x.trace (answer tap post ahead settingUp) b).foldl (Request.place ahead) b.desk.marks :=
  Script.run_foldl (·.desk.marks) (answer_marks tap post ahead settingUp) x b

/-- A callback keeps the marks in order. -/
theorem run_ordered (x : Script ε α) {b : Bench ι ε} (h : b.desk.marks.Ordered ahead) :
    (x.run (answer tap post ahead settingUp) b).2.desk.marks.Ordered ahead := by
  rw [run_marks]
  exact h.foldl_place _

end Stage

/-! ## Reading from the plugin -/

namespace Stage

variable {tap : Tap ι ε} {window : Window} {s s' : Stage ι ε} {f f' : Front ι ε} {reply : Reply}

/-- What the callbacks that read a stage's plugin begin with. -/
def bench (s : Stage ι ε) (f : Front ι ε) (e : Engine ι ε) (window : Window) : Bench ι ε :=
  ⟨s.desk, some s.outType, f.record (.read s.name e.id window.size)⟩

/-- The requests that the plugin makes when it is asked to fill a window. -/
def asked (tap : Tap ι ε) (window : Window) (s : Stage ι ε) (f : Front ι ε) : List (Request ε) :=
  match s.engine with
  | none => []
  | some e =>
    (e.plugin.read e.state window).trace (answer tap s.post s.buffer.length false)
      (s.bench f e window)

/-- A callback that ends with a reply that fits the window makes the pull succeed. -/
theorem pull_of_run {e : Engine ι ε} {state : ι} {b : Bench ι ε} (he : s.engine = some e)
    (hrun : (e.plugin.read e.state window).run (answer tap s.post s.buffer.length false)
      (s.bench f e window) = ((.ok reply, state), b))
    (hle : reply.count ≤ window.size) :
    s.pull tap window f =
      (.ok reply, { s with desk := b.desk, engine := some { e with state } }, b.front) := by
  unfold bench at hrun
  unfold pull play
  rw [he]
  dsimp only
  rw [hrun]
  dsimp only
  rw [if_pos hle]

/-- All that a successful pull changes of its stage is the state of the plugin and the desk, and
there the marks by those that were asked for. -/
theorem pull_ok (h : s.pull tap window f = (.ok reply, s', f')) :
    ∃ e desk state, s.engine = some e ∧ s' = { s with desk, engine := some { e with state } } ∧
      desk.marks = (s.asked tap window f).foldl (Request.place s.buffer.length) s.desk.marks ∧
      reply.count ≤ window.size := by
  unfold pull at h
  split at h
  · simp at h
  next e he =>
    have hmarks := run_marks tap s.post s.buffer.length false (e.plugin.read e.state window)
      (s.bench f e window)
    unfold play at h
    dsimp only at h
    split at h
    next r hr =>
      split at h
      next hle =>
        simp only [Prod.mk.injEq, Except.ok.injEq] at h
        obtain ⟨rfl, rfl, -⟩ := h
        refine ⟨e, _, _, he, rfl, ?_, hle⟩
        rw [asked, he]
        exact hmarks
      next => simp at h
    next => simp at h

/-- Whatever comes of a pull, its bytes are still to be accounted for. -/
theorem pull_buffer {result : Except StageError Reply}
    (hpull : s.pull tap window f = (result, s', f')) : s'.buffer = s.buffer := by
  unfold pull play at hpull
  split at hpull
  · obtain ⟨-, rfl, -⟩ := hpull
    rfl
  · dsimp only at hpull
    split at hpull
    · split at hpull
      all_goals
        obtain ⟨-, rfl, -⟩ := hpull
        rfl
    · obtain ⟨-, rfl, -⟩ := hpull
      rfl

end Stage

end MediaChain
