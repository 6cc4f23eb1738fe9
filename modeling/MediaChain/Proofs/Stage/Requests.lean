import MediaChain.Proofs.Stage.Diary
import MediaChain.Proofs.Stage.Seek

/-!
# What plugins ask for during calls

The requests that a plugin makes while its stage is read from, looked at or sought are written down
whether the call is successful or not (`Stage.Onward`). They tell how the marks of the stage change:
what admissible requests keep of the marks, and landing, moving on and dropping as well, is kept by
all that is done with the stage (`Stage.Onward.keeps`).
-/

namespace MediaChain

variable {ι ε : Type}

/-! ## What the plugin asks for -/

namespace Stage

/-- The requests that the plugin makes while a window is filled, also at a read that fails. -/
def fillAsked (tap : Tap ι ε) (fresh : Bool) (window : Window) (s : Stage ι ε) (f : Front ι ε) :
    List (Request ε) :=
  if window.size = 0 then []
  else
    s.asked tap window f ++
      match s.pull tap window f with
      | (.error _, _, _) => []
      | (.ok reply, s', f') =>
        if reply.count = 0 then []
        else if (s'.landIf fresh).desk.marks.pending = [] then
          fillAsked tap false ((window.write reply.written).drop reply.count) (s'.landIf fresh) f'
        else []
termination_by window.size
decreasing_by simp only [Window.size_drop, Window.size_write]; omega

/-- The requests that the plugin makes while bytes are taken. -/
def readAsked (tap : Tap ι ε) (window : Window) (s : Stage ι ε) (f : Front ι ε) :
    List (Request ε) :=
  if s.errored ∨ s.done then []
  else
    fillAsked tap (s.buffer.take (s.reach window.size)).isEmpty
      ((window.take (s.reach window.size)).drop (s.buffer.take (s.reach window.size)).length)
      (s.served (s.reach window.size)) f

/-- The requests that the plugin makes while its stage looks ahead. -/
def lookAsked (tap : Tap ι ε) (size : Nat) (s : Stage ι ε) (f : Front ι ε) : List (Request ε) :=
  if size ≤ s.buffer.length ∨ s.done then []
  else
    s.asked tap s.window f ++
      match s.pull tap s.window f with
      | (.error _, _, _) => []
      | (.ok reply, s', f') =>
        if reply.count = 0 then []
        else
          lookAsked tap size
            { s' with
              scratch := (s.window.write reply.written).held
              buffer := s.buffer ++ reply.bytes s.window } f'
termination_by size - s.buffer.length
decreasing_by simp only [List.length_append, Reply.length_bytes]; omega

/-- The requests that the plugin makes while its stage is looked at. -/
def peekAsked (tap : Tap ι ε) (size : Nat) (s : Stage ι ε) (f : Front ι ε) : List (Request ε) :=
  if s.errored then [] else lookAsked tap size s f

/-- The requests that the plugin makes while its stage is sought. -/
def seekAsked (tap : Tap ι ε) (offset : Int) (whence : Whence) (s : Stage ι ε) (f : Front ι ε) :
    List (Request ε) :=
  if s.errored then []
  else
    match s.engine with
    | none => []
    | some e =>
      if e.plugin.capabilities.seek then
        (e.plugin.seek e.state (s.seekOffset offset whence) whence).trace
          (answer tap s.post s.buffer.length false) (s.seekBench f e offset whence)
      else []

/-- What any calls have made of a stage, successful or not, and what its plugin has asked for
meanwhile. -/
inductive Onward (s : Stage ι ε) : List (Request ε) → Stage ι ε → Prop
  | refl : Onward s [] s
  | recordFact {asked : List (Request ε)} {s₁ : Stage ι ε} (log : Facts.Log) (key : String)
    (value : Value) : Onward s asked s₁ → Onward s asked (s₁.recordFact log key value).1
  | read {asked : List (Request ε)} {s₁ : Stage ι ε} (tap : Tap ι ε) (window : Window)
    (f : Front ι ε) : Onward s asked s₁ →
      Onward s (asked ++ s₁.readAsked tap window f) (s₁.read tap window f).2.1
  | peek {asked : List (Request ε)} {s₁ : Stage ι ε} (tap : Tap ι ε) (size : Nat)
    (f : Front ι ε) : Onward s asked s₁ →
      Onward s (asked ++ s₁.peekAsked tap size f) (s₁.peek tap size f).2.1
  | seek {asked : List (Request ε)} {s₁ : Stage ι ε} (tap : Tap ι ε) (offset : Int)
    (whence : Whence) (f : Front ι ε) : Onward s asked s₁ →
      Onward s (asked ++ s₁.seekAsked tap offset whence f) (s₁.seek tap offset whence f).2.1

/-! ## What is kept of the marks -/

variable {tap : Tap ι ε} {window : Window} {s s' : Stage ι ε} {f f' : Front ι ε} {reply : Reply}

theorem fillAsked_of_pull (fresh : Bool) (hw : window.size ≠ 0)
    (hpull : s.pull tap window f = (.ok reply, s', f')) :
    fillAsked tap fresh window s f = s.asked tap window f ++
      if reply.count = 0 then []
      else if (s'.landIf fresh).desk.marks.pending = [] then
        fillAsked tap false ((window.write reply.written).drop reply.count) (s'.landIf fresh) f'
      else [] := by
  rw [fillAsked, if_neg hw, hpull]

theorem lookAsked_of_pull {size : Nat} (h : ¬(size ≤ s.buffer.length ∨ s.done))
    (hpull : s.pull tap s.window f = (.ok reply, s', f')) :
    lookAsked tap size s f = s.asked tap s.window f ++
      if reply.count = 0 then []
      else lookAsked tap size
        { s' with
          scratch := (s.window.write reply.written).held
          buffer := s.buffer ++ reply.bytes s.window } f' := by
  rw [lookAsked, if_neg h, hpull]

theorem pull_marks (tap : Tap ι ε) (window : Window) (s : Stage ι ε) (f : Front ι ε) :
    (s.pull tap window f).2.1.desk.marks =
      (s.asked tap window f).foldl (Request.place s.buffer.length) s.desk.marks := by
  unfold pull asked
  cases s.engine with
  | none => rfl
  | some e =>
    have hmarks := run_marks tap s.post s.buffer.length false (e.plugin.read e.state window)
      (s.bench f e window)
    dsimp only
    split
    next => split <;> exact hmarks
    next => exact hmarks

/-- A seek places the marks that are asked for, and may drop what is pending. -/
theorem seek_marks (tap : Tap ι ε) (offset : Int) (whence : Whence) (s : Stage ι ε)
    (f : Front ι ε) :
    let marks := (s.seekAsked tap offset whence f).foldl (Request.place s.buffer.length) s.desk.marks
    (s.seek tap offset whence f).2.1.desk.marks = marks ∨
      (s.seek tap offset whence f).2.1.desk.marks = marks.clear := by
  unfold Stage.seek seekAsked
  cases s.errored with
  | true => exact .inl rfl
  | false =>
    cases s.engine with
    | none => exact .inl rfl
    | some e =>
      have hmarks := run_marks tap s.post s.buffer.length false
        (e.plugin.seek e.state (s.seekOffset offset whence) whence) (s.seekBench f e offset whence)
      cases hseek : e.plugin.capabilities.seek with
      | false => exact .inl (by simp [hseek])
      | true =>
        simp only [Bool.false_eq_true, if_false, hseek, if_true]
        split
        next => exact .inr (congrArg Marks.clear hmarks)
        next => exact .inl hmarks

end Stage

/-- What is kept of marks when admissible requests set some more, when they land, when the reader
moves on, and when those that are pending are dropped. -/
structure Marks.Kept (ok : Request ε → Prop) (J : Marks → Prop) : Prop where
  place : ∀ {ms : Marks} {q : Request ε} (ahead : Nat), ok q → J ms → J (q.place ahead ms)
  land : ∀ {ms : Marks}, J ms → J ms.land
  advance : ∀ {ms : Marks} (n : Nat), J ms → J (ms.advance n)
  clear : ∀ {ms : Marks}, J ms → J ms.clear

namespace Marks.Kept

variable {ok : Request ε → Prop} {J : Marks → Prop} {ms : Marks} {tap : Tap ι ε} {window : Window}
  {s s' : Stage ι ε} {f : Front ι ε}

theorem foldl_place (hkept : Kept ok J) {qs : List (Request ε)} (hqs : ∀ q ∈ qs, ok q)
    (ahead : Nat) (h : J ms) : J (qs.foldl (Request.place ahead) ms) := by
  induction qs generalizing ms with
  | nil => exact h
  | cons q qs ih =>
    exact ih (fun q' hq' => hqs q' (List.mem_cons_of_mem _ hq'))
      (hkept.place ahead (hqs q List.mem_cons_self) h)

theorem pull (hkept : Kept ok J) (h : J s.desk.marks) (hasked : ∀ q ∈ s.asked tap window f, ok q) :
    J (s.pull tap window f).2.1.desk.marks := by
  rw [Stage.pull_marks]
  exact hkept.foldl_place hasked _ h

theorem landIf (hkept : Kept ok J) (h : J s.desk.marks) (fresh : Bool) :
    J (s.landIf fresh).desk.marks := by
  cases fresh with
  | true => exact hkept.land h
  | false => exact h

theorem served (hkept : Kept ok J) (h : J s.desk.marks) (size : Nat) :
    J (s.served size).desk.marks := hkept.advance _ (hkept.land h)

theorem fill (hkept : Kept ok J) (h : J s.desk.marks) (fresh : Bool)
    (hasked : ∀ q ∈ Stage.fillAsked tap fresh window s f, ok q) :
    J (Stage.fill tap fresh window s f).2.1.desk.marks := by
  fun_induction Stage.fill tap fresh window s f with
  | case1 => exact h
  | case2 fresh window s f hw e s' f' hpull =>
    rw [Stage.fillAsked, if_neg hw, List.forall_mem_append] at hasked
    have hpulled := hkept.pull h hasked.1
    rwa [hpull] at hpulled
  | case3 fresh window s f hw reply s' f' hpull =>
    rw [Stage.fillAsked, if_neg hw, List.forall_mem_append] at hasked
    have hpulled := hkept.pull h hasked.1
    rwa [hpull] at hpulled
  | case4 fresh window s f hw reply s' f' hpull _ hzero bytes marks landed hpending ih =>
    have hnone : (s'.landIf fresh).desk.marks.pending = [] := hpending
    rw [Stage.fillAsked_of_pull fresh hw hpull, if_neg hzero, if_pos hnone,
      List.forall_mem_append] at hasked
    have hpulled := hkept.pull h hasked.1
    rw [hpull] at hpulled
    exact ih (hkept.landIf hpulled fresh) hasked.2
  | case5 fresh window s f hw reply s' f' hpull =>
    rw [Stage.fillAsked, if_neg hw, List.forall_mem_append] at hasked
    have hpulled := hkept.pull h hasked.1
    rw [hpull] at hpulled
    exact hkept.landIf hpulled fresh

theorem read (hkept : Kept ok J) (h : J s.desk.marks)
    (hasked : ∀ q ∈ Stage.readAsked tap window s f, ok q) :
    J (s.read tap window f).2.1.desk.marks := by
  unfold Stage.readAsked at hasked
  cases herrored : s.errored with
  | true =>
    unfold Stage.read
    rw [if_pos herrored]
    exact h
  | false =>
    rw [Stage.read_eq tap window f herrored]
    split
    next => exact hkept.served h _
    next hdone =>
      rw [if_neg (by simp [herrored, hdone])] at hasked
      rw [Stage.prepend_snd]
      exact hkept.fill (hkept.served h _) _ hasked

theorem lookAhead (hkept : Kept ok J) (h : J s.desk.marks) {size : Nat}
    (hasked : ∀ q ∈ Stage.lookAsked tap size s f, ok q) :
    J (Stage.lookAhead tap size s f).2.1.desk.marks := by
  fun_induction Stage.lookAhead tap size s f with
  | case1 => exact h
  | case2 s f hmore e s' f' hpull =>
    rw [Stage.lookAsked, if_neg hmore, List.forall_mem_append] at hasked
    have hpulled := hkept.pull h hasked.1
    rwa [hpull] at hpulled
  | case3 s f hmore reply s' f' hpull =>
    rw [Stage.lookAsked, if_neg hmore, List.forall_mem_append] at hasked
    have hpulled := hkept.pull h hasked.1
    rwa [hpull] at hpulled
  | case4 s f hmore reply s' f' hpull window scratched hzero buffer ih =>
    rw [Stage.lookAsked_of_pull hmore hpull, if_neg hzero, List.forall_mem_append] at hasked
    have hpulled := hkept.pull h hasked.1
    rw [hpull] at hpulled
    exact ih hpulled hasked.2

theorem peek (hkept : Kept ok J) (h : J s.desk.marks) {size : Nat}
    (hasked : ∀ q ∈ s.peekAsked tap size f, ok q) :
    J (s.peek tap size f).2.1.desk.marks := by
  unfold Stage.peekAsked at hasked
  rw [Stage.peek_snd]
  split
  next => exact h
  next herrored =>
    rw [if_neg herrored] at hasked
    exact hkept.lookAhead h hasked

theorem seek (hkept : Kept ok J) (h : J s.desk.marks) {offset : Int} {whence : Whence}
    (hasked : ∀ q ∈ s.seekAsked tap offset whence f, ok q) :
    J (s.seek tap offset whence f).2.1.desk.marks := by
  have hplaced := hkept.foldl_place hasked s.buffer.length h
  rcases Stage.seek_marks tap offset whence s f with hmarks | hmarks
  · rwa [hmarks]
  · rw [hmarks]
    exact hkept.clear hplaced

end Marks.Kept

/-- Whatever is done with a stage, if only admissible requests are made. -/
theorem Stage.Onward.keeps {ok : Request ε → Prop} {J : Marks → Prop} (hkept : Marks.Kept ok J)
    {s s' : Stage ι ε} {asked : List (Request ε)} (h : s.Onward asked s') (hs : J s.desk.marks)
    (hasked : ∀ q ∈ asked, ok q) : J s'.desk.marks := by
  induction h with
  | refl => exact hs
  | recordFact log key value _ ih => exact ih hasked
  | read tap window f _ ih =>
    rw [List.forall_mem_append] at hasked
    exact hkept.read (ih hasked.1) hasked.2
  | peek tap size f _ ih =>
    rw [List.forall_mem_append] at hasked
    exact hkept.peek (ih hasked.1) hasked.2
  | seek tap offset whence f _ ih =>
    rw [List.forall_mem_append] at hasked
    exact hkept.seek (ih hasked.1) hasked.2

end MediaChain
