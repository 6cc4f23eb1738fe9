import MediaChain.Proofs.Stage.Flow

/-!
# Calls that are successful

How a call of a stage comes to be successful. A window that is filled and a stage that looks ahead ask
the plugin again and again; what each read of the plugin keeps, they keep (`Stage.fill_induct`,
`Stage.lookAhead_induct`). Reads and peeks are made of these (`Stage.read_cases`, `Stage.peek_ok`).
-/

namespace MediaChain

namespace Stage

variable {ι ε : Type} {tap : Tap ι ε} {window : Window} {s s' : Stage ι ε} {f f' : Front ι ε}
  {reply : Reply}

/-! ## Filling a window and looking ahead -/

/-- What is true of a full window, of the end of the stream and of bytes that are put aside behind a
mark, and stays true when the plugin is asked for more, is true whenever a window is filled. -/
theorem fill_induct {P : Bool → Window → Stage ι ε → Front ι ε → Reply → Stage ι ε → Prop}
    {fresh : Bool}
    (full : ∀ {fresh : Bool} {window : Window} {s : Stage ι ε} {f : Front ι ε}, window.size = 0 →
      P fresh window s f ⟨0, []⟩ s)
    (ended : ∀ {fresh : Bool} {window : Window} {s s₁ : Stage ι ε} {f f₁ : Front ι ε} {r : Reply},
      window.size ≠ 0 → s.pull tap window f = (.ok r, s₁, f₁) → r.count = 0 →
        P fresh window s f ⟨0, (window.write r.written).held⟩ { s₁ with done := true })
    (more : ∀ {fresh : Bool} {window : Window} {s s₁ s' : Stage ι ε} {f f₁ : Front ι ε}
      {r r' : Reply}, window.size ≠ 0 → s.pull tap window f = (.ok r, s₁, f₁) → r.count ≠ 0 →
        (s₁.landIf fresh).desk.marks.pending = [] →
          P false ((window.write r.written).drop r.count) (s₁.landIf fresh) f₁ r' s' →
            P fresh window s f ⟨(r.bytes window).length + r'.count, r.bytes window ++ r'.written⟩ s')
    (aside : ∀ {fresh : Bool} {window : Window} {s s₁ : Stage ι ε} {f f₁ : Front ι ε} {r : Reply},
      window.size ≠ 0 → s.pull tap window f = (.ok r, s₁, f₁) → r.count ≠ 0 →
        (s₁.landIf fresh).desk.marks.pending ≠ [] →
          P fresh window s f ⟨0, (window.write r.written).held⟩
            { s₁.landIf fresh with buffer := s₁.buffer ++ r.bytes window })
    (h : fill tap fresh window s f = (.ok reply, s', f')) : P fresh window s f reply s' := by
  induction hsize : window.size using Nat.strongRecOn generalizing window fresh s f reply with
  | _ size ih =>
  subst hsize
  by_cases hw : window.size = 0
  · rw [fill_of_size_eq_zero _ _ hw] at h
    obtain ⟨⟩ := h
    exact full hw
  rcases hpull : s.pull tap window f with ⟨_ | r, s₁, f₁⟩
  · rw [fill, if_neg hw, hpull] at h
    cases h
  rw [fill_of_pull fresh hw hpull] at h
  split at h
  next hzero =>
    obtain ⟨⟩ := h
    exact ended hw hpull hzero
  next hzero =>
    split at h
    next hpending =>
      rcases hrest : fill tap false ((window.write r.written).drop r.count) (s₁.landIf fresh) f₁
        with ⟨_ | r', s₂, f₂⟩
      · rw [hrest] at h
        cases h
      · rw [hrest] at h
        obtain ⟨⟩ := h
        exact more hw hpull hzero hpending (ih (window.size - r.count)
          (Nat.sub_lt (Nat.pos_of_ne_zero hw) (Nat.pos_of_ne_zero hzero)) hrest rfl)
    next hpending =>
      obtain ⟨⟩ := h
      exact aside hw hpull hzero hpending

/-- What is true once enough bytes are at hand and at the end of the stream, and stays true when the
plugin is asked for more, is true whenever a stage looks ahead. -/
theorem lookAhead_induct {P : Stage ι ε → Front ι ε → Stage ι ε → Prop} {size : Nat}
    (enough : ∀ {s : Stage ι ε} {f : Front ι ε}, size ≤ s.buffer.length ∨ s.done → P s f s)
    (ended : ∀ {s s₁ : Stage ι ε} {f f₁ : Front ι ε} {r : Reply},
      ¬(size ≤ s.buffer.length ∨ s.done) → s.pull tap s.window f = (.ok r, s₁, f₁) → r.count = 0 →
        P s f { s₁ with scratch := (s.window.write r.written).held, done := true })
    (more : ∀ {s s₁ s' : Stage ι ε} {f f₁ : Front ι ε} {r : Reply},
      ¬(size ≤ s.buffer.length ∨ s.done) → s.pull tap s.window f = (.ok r, s₁, f₁) → r.count ≠ 0 →
        P { s₁ with
            scratch := (s.window.write r.written).held
            buffer := s.buffer ++ r.bytes s.window } f₁ s' → P s f s')
    (h : lookAhead tap size s f = (.ok (), s', f')) : P s f s' := by
  induction hmissing : size - s.buffer.length using Nat.strongRecOn generalizing s f with
  | _ missing ih =>
  subst hmissing
  by_cases henough : size ≤ s.buffer.length ∨ s.done
  · rw [lookAhead_of_enough _ henough] at h
    obtain ⟨⟩ := h
    exact enough henough
  rcases hpull : s.pull tap s.window f with ⟨_ | r, s₁, f₁⟩
  · rw [lookAhead, if_neg henough, hpull] at h
    cases h
  rw [lookAhead_of_pull henough hpull] at h
  split at h
  next hzero =>
    obtain ⟨⟩ := h
    exact ended henough hpull hzero
  next hzero =>
    have hlen : (s.buffer ++ r.bytes s.window).length = s.buffer.length + r.count := by
      rw [List.length_append, Reply.length_bytes]
    refine more henough hpull hzero (ih _ ?_ h rfl)
    show size - (s.buffer ++ r.bytes s.window).length < size - s.buffer.length
    omega

/-! ## Reads and peeks -/

/-- Only a stage that is not errored can be read from. -/
theorem not_errored_of_read (h : s.read tap window f = (.ok reply, s', f')) :
    s.errored = false := by
  cases herrored : s.errored with
  | false => rfl
  | true =>
    unfold Stage.read at h
    rw [if_pos herrored] at h
    cases h

theorem not_errored_of_peek {size : Nat} {bytes : Bytes}
    (h : s.peek tap size f = (.ok bytes, s', f')) : s.errored = false := by
  cases herrored : s.errored with
  | false => rfl
  | true =>
    unfold Stage.peek at h
    rw [if_pos herrored] at h
    cases h

/-- A read serves what lies ahead, and fills the rest of the window unless the stream has ended. -/
theorem read_cases (h : s.read tap window f = (.ok reply, s', f')) :
    (s.done = true ∧ reply = .ofBytes (s.buffer.take (s.reach window.size)) ∧
      s' = s.served (s.reach window.size) ∧ f' = f) ∨
    ∃ r, s.done = false ∧
      fill tap (s.buffer.take (s.reach window.size)).isEmpty
        ((window.take (s.reach window.size)).drop (s.buffer.take (s.reach window.size)).length)
        (s.served (s.reach window.size)) f = (.ok r, s', f') ∧
      reply = ⟨(s.buffer.take (s.reach window.size)).length + r.count,
        s.buffer.take (s.reach window.size) ++ r.written⟩ := by
  rw [read_eq _ _ _ (not_errored_of_read h)] at h
  cases hdone : s.done with
  | true =>
    rw [if_pos hdone] at h
    obtain ⟨⟩ := h
    exact .inl ⟨rfl, rfl, rfl, rfl⟩
  | false =>
    rw [if_neg (by rw [hdone]; exact Bool.false_ne_true)] at h
    rcases hfill : fill tap (s.buffer.take (s.reach window.size)).isEmpty
        ((window.take (s.reach window.size)).drop (s.buffer.take (s.reach window.size)).length)
        (s.served (s.reach window.size)) f with ⟨_ | r, s₁, f₁⟩
    · rw [hfill] at h
      cases h
    · rw [hfill] at h
      obtain ⟨⟩ := h
      exact .inr ⟨r, rfl, rfl, rfl⟩

/-- A peek looks ahead, and shows the first of the bytes that lie ahead then. -/
theorem peek_ok {size : Nat} {bytes : Bytes} (h : s.peek tap size f = (.ok bytes, s', f')) :
    lookAhead tap size s f = (.ok (), s', f') ∧ bytes = s'.buffer.take size := by
  unfold Stage.peek at h
  split at h
  · cases h
  split at h
  next hlook =>
    obtain ⟨⟩ := h
    exact ⟨hlook, rfl⟩
  next => cases h

end Stage

end MediaChain
