import MediaChain.Proofs.Stage.Callback

/-!
# Equations of reading

`Stage.read`, `Stage.fill` and `Stage.lookAhead` in terms of one pull each: what a stage serves of
what it has produced ahead (`Stage.served`), and what it does with the bytes of a successful pull
(`Stage.fill_of_pull`, `Stage.lookAhead_of_pull`).
-/

namespace MediaChain

variable {ι ε : Type}

/-- Of a reply that wrote all bytes that count, those are the ones that the reader gets. -/
theorem Reply.bytes_eq_take {r : Reply} {w : Window} (hw : r.count ≤ w.size)
    (hr : r.count ≤ r.written.length) : r.bytes w = r.written.take r.count := by
  have hlen : r.count ≤ (r.written.take w.size).length := by
    rw [List.length_take]
    omega
  unfold Reply.bytes Window.bytes Window.write
  dsimp only
  rw [List.take_append_of_le_length hlen, List.take_take, Nat.min_eq_left hw,
    Nat.sub_eq_zero_of_le (by rw [List.length_append]; omega), List.replicate_zero, List.append_nil]

namespace Stage

variable {tap : Tap ι ε} {window : Window} {s s' : Stage ι ε} {f f' : Front ι ε} {reply : Reply}

/-! ## Serving what was produced ahead -/

/-- How far a read of `size` bytes may reach: not behind the next mark. -/
def reach (s : Stage ι ε) (size : Nat) : Nat :=
  (s.desk.marks.land.next?.map (min size)).getD size

theorem reach_le (s : Stage ι ε) (size : Nat) : s.reach size ≤ size := by
  unfold reach
  cases s.desk.marks.land.next? with
  | none => exact Nat.le_refl _
  | some m => exact Nat.min_le_left _ _

/-- A mark ahead does not stop a read before it has taken a byte. -/
theorem eq_zero_of_reach_eq_zero (h : s.desk.marks.Ordered s.buffer.length) {size : Nat}
    (hz : s.reach size = 0) : size = 0 := by
  unfold reach at hz
  cases hnext : s.desk.marks.land.next? with
  | none => rwa [hnext] at hz
  | some m =>
    have := (h.next?_land hnext).1
    rw [hnext] at hz
    simp only [Option.map_some, Option.getD_some] at hz
    omega

/-- A stage after it has served the first bytes that it had produced ahead. -/
def served (s : Stage ι ε) (size : Nat) : Stage ι ε :=
  { s with
    desk := { s.desk with marks := s.desk.marks.land.advance (s.buffer.take size).length }
    buffer := s.buffer.drop size }

theorem served_ordered (h : s.desk.marks.Ordered s.buffer.length) (size : Nat) :
    (s.served size).desk.marks.Ordered (s.served size).buffer.length := by
  refine (h.land.advance (s.buffer.take size).length).mono ?_
  simp only [served, List.length_take, List.length_drop]
  omega

theorem read_eq (tap : Tap ι ε) (window : Window) (f : Front ι ε) (h : s.errored = false) :
    s.read tap window f =
      if s.done then (.ok (.ofBytes (s.buffer.take (s.reach window.size))),
        s.served (s.reach window.size), f)
      else prepend (s.buffer.take (s.reach window.size))
        (fill tap (s.buffer.take (s.reach window.size)).isEmpty
          ((window.take (s.reach window.size)).drop (s.buffer.take (s.reach window.size)).length)
          (s.served (s.reach window.size)) f) := by
  unfold Stage.read
  rw [if_neg (by rw [h]; exact Bool.false_ne_true)]
  rfl

theorem take_prepend (bytes : Bytes) (r : Reply) :
    (bytes ++ r.written).take (bytes.length + r.count) = bytes ++ r.written.take r.count :=
  List.take_length_add_append _

theorem prepend_ok {bytes : Bytes} {x : Except StageError Reply × Stage ι ε × Front ι ε}
    (h : prepend bytes x = (.ok reply, s', f')) :
    ∃ r, x = (.ok r, s', f') ∧ reply.count = bytes.length + r.count := by
  obtain ⟨_ | r, s, f⟩ := x
  · simp [prepend, Except.map] at h
  · simp only [prepend, Except.map, Prod.mk.injEq, Except.ok.injEq] at h
    obtain ⟨rfl, rfl, rfl⟩ := h
    exact ⟨r, rfl, rfl⟩

/-! ## Asking for more -/

/-- A stage whose marks at the position of its reader have taken effect, if the reader has got
nothing yet. -/
def landIf (s : Stage ι ε) (fresh : Bool) : Stage ι ε :=
  { s with
    desk := { s.desk with marks := if fresh then s.desk.marks.land else s.desk.marks } }

theorem fill_of_size_eq_zero (tap : Tap ι ε) (fresh : Bool) (h : window.size = 0)
    (s : Stage ι ε) (f : Front ι ε) : fill tap fresh window s f = (.ok ⟨0, []⟩, s, f) := by
  rw [fill, if_pos h]

theorem fill_of_pull (fresh : Bool) (hw : window.size ≠ 0)
    (hpull : s.pull tap window f = (.ok reply, s', f')) :
    fill tap fresh window s f =
      if reply.count = 0 then
        (.ok ⟨0, (window.write reply.written).held⟩, { s' with done := true }, f')
      else if (s'.landIf fresh).desk.marks.pending = [] then
        prepend (reply.bytes window)
          (fill tap false ((window.write reply.written).drop reply.count) (s'.landIf fresh) f')
      else (.ok ⟨0, (window.write reply.written).held⟩,
        { s'.landIf fresh with buffer := s'.buffer ++ reply.bytes window }, f') := by
  rw [fill, if_neg hw, hpull]
  rfl

theorem lookAhead_of_enough (tap : Tap ι ε) {size : Nat} (h : size ≤ s.buffer.length ∨ s.done)
    (f : Front ι ε) : lookAhead tap size s f = (.ok (), s, f) := by
  rw [lookAhead, if_pos h]

theorem lookAhead_of_pull {size : Nat} (h : ¬(size ≤ s.buffer.length ∨ s.done))
    (hpull : s.pull tap s.window f = (.ok reply, s', f')) :
    lookAhead tap size s f =
      if reply.count = 0 then
        (.ok (), { s' with scratch := (s.window.write reply.written).held, done := true }, f')
      else lookAhead tap size
        { s' with
          scratch := (s.window.write reply.written).held
          buffer := s.buffer ++ reply.bytes s.window } f' := by
  rw [lookAhead, if_neg h, hpull]
  rfl

/-! ## Seeking -/

/-- A successful seek leaves nothing ahead of the reader, and keeps the values in force. -/
theorem seek_ok {offset : Int} {whence : Whence} {position : Nat}
    (h : s.seek tap offset whence f = (.ok position, s', f')) :
    s'.buffer = [] ∧ s'.desk.marks.pending = [] ∧
      s'.desk.marks.landed = s.desk.marks.landed := by
  unfold Stage.seek at h
  split at h
  · simp at h
  split at h
  · simp at h
  next e he =>
    split at h
    next =>
      dsimp only at h
      split at h
      next =>
        simp only [Prod.mk.injEq, Except.ok.injEq] at h
        obtain ⟨-, rfl, -⟩ := h
        refine ⟨rfl, rfl, ?_⟩
        -- the callback itself places marks only ahead of the reader
        show (play tap s _ _).2.1.desk.marks.landed = _
        unfold play
        dsimp only
        rw [run_marks, Request.landed_foldl_place]
      next => simp at h
    next => simp at h

end Stage

end MediaChain
