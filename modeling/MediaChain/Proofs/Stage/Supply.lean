import MediaChain.Proofs.Stage.Flow

/-!
# Stages that supply bytes

A stage whose plugin still has some bytes to give supplies its reader with the bytes it has produced
ahead and then with those. `Producing` says what is asked of the plugin, `Stage.Holds` how the stage
stands, and `Supply` what a reader of the stage can rely on: reading takes the next bytes, it takes
none only at the end, and looking ahead changes nothing (`Producing.supply`).
-/

namespace MediaChain

variable {ι ε : Type} {n : Nat}

/-- A reply gives the next of the bytes that are left, and none only if the window is empty or none
is left. -/
structure Reply.Takes (r : Reply) (window : Window) (rest : Bytes) : Prop where
  fits : r.count ≤ window.size
  bytes_eq : r.bytes window = rest.take r.count
  ends : r.count = 0 → window.size = 0 ∨ rest = []

theorem Reply.Takes.append_drop {r : Reply} {window : Window} {rest : Bytes}
    (h : r.Takes window rest) : r.bytes window ++ rest.drop r.count = rest := by
  rw [h.bytes_eq, List.take_append_drop]

theorem Reply.Takes.count_le {r : Reply} {window : Window} {rest : Bytes}
    (h : r.Takes window rest) : r.count ≤ rest.length := by
  have hlen := congrArg List.length h.bytes_eq
  rw [r.length_bytes, List.length_take] at hlen
  omega

/-- A reply for at most `size` bytes wrote all of its bytes; they are the first of `rest`, and
`left` is what comes after them. -/
structure Reply.Fills (r : Reply) (size : Nat) (rest left : Bytes) : Prop where
  fits : r.count ≤ size
  written : r.count ≤ r.written.length
  split : r.written.take r.count ++ left = rest

namespace Reply.Fills

variable {r : Reply} {size : Nat} {rest left : Bytes}

theorem zero (bytes : Bytes) (size : Nat) (rest : Bytes) :
    (⟨0, bytes⟩ : Reply).Fills size rest rest :=
  ⟨Nat.zero_le _, Nat.zero_le _, rfl⟩

theorem prepend (h : r.Fills size rest left) (bytes : Bytes) {size' : Nat}
    (hsize : bytes.length + size ≤ size') :
    (⟨bytes.length + r.count, bytes ++ r.written⟩ : Reply).Fills size' (bytes ++ rest) left := by
  refine ⟨Nat.le_trans (Nat.add_le_add_left h.fits _) hsize, ?_, ?_⟩
  · show bytes.length + r.count ≤ (bytes ++ r.written).length
    rw [List.length_append]
    exact Nat.add_le_add_left h.written _
  · rw [Stage.take_prepend, List.append_assoc, h.split]

theorem drop_eq (h : r.Fills size rest left) : rest.drop r.count = left := by
  rw [← h.split]
  apply List.drop_left'
  rw [List.length_take, Nat.min_eq_left h.written]

theorem takes {window : Window} (h : r.Fills window.size rest left)
    (hends : r.count = 0 → window.size = 0 ∨ rest = []) : r.Takes window rest := by
  refine ⟨h.fits, ?_, hends⟩
  rw [Reply.bytes_eq_take h.fits h.written, ← h.split]
  symm
  apply List.take_left'
  rw [List.length_take, Nat.min_eq_left h.written]

end Reply.Fills

/-- With `n` stages in front, a plugin in some state and those stages have some bytes left to give,
and each read of the plugin gives the next of them. -/
structure Producing (n : Nat) (K : Plugin ι ε → ι → List (Stage ι ε) → Bytes → Prop) : Prop where
  length : ∀ {p state front rest}, K p state front rest → front.length = n
  read : ∀ {p state front rest}, K p state front rest → ∀ {window : Window}, 0 < window.size →
    ∀ (post : Post) (ahead : Nat) (b : Bench ι ε), b.front.stages = front →
      ∃ reply state' b', (p.read state window).run (Stage.answer (.reaching n) post ahead false) b =
          ((.ok reply, state'), b') ∧
        reply.Takes window rest ∧ K p state' b'.front.stages (rest.drop reply.count)

/-- What a reader can rely on who reads from the first of `n + 1` stages: as long as they have
`rest` to give, reads succeed and take the next bytes, and looking ahead succeeds and takes none. -/
structure Supply (n : Nat) (R : List (Stage ι ε) → Bytes → Prop) : Prop where
  length : ∀ {stages rest}, R stages rest → stages.length = n + 1
  read : ∀ {s front rest}, R (s :: front) rest → ∀ (scene : Scene ε) (window : Window),
    ∃ reply s' f', s.read (.reaching n) window ⟨front, scene⟩ = (.ok reply, s', f') ∧
      reply.Takes window rest ∧ R (s' :: f'.stages) (rest.drop reply.count)
  peek : ∀ {s front rest}, R (s :: front) rest → ∀ (scene : Scene ε) (size : Nat),
    ∃ bytes s' f', s.peek (.reaching n) size ⟨front, scene⟩ = (.ok bytes, s', f') ∧
      R (s' :: f'.stages) rest

/-! ## A stage that holds bytes -/

/-- A stage is in order, and its plugin has `rest` left to give. -/
structure Stage.Holds (K : Plugin ι ε → ι → List (Stage ι ε) → Bytes → Prop) (s : Stage ι ε)
    (front : List (Stage ι ε)) (rest : Bytes) : Prop where
  engine : ∃ e, s.engine = some e ∧ K e.plugin e.state front rest
  not_errored : s.errored = false
  marks : s.desk.marks.Ordered s.buffer.length
  done : s.done = true → rest = []

namespace Stage

variable {K : Plugin ι ε → ι → List (Stage ι ε) → Bytes → Prop} {s : Stage ι ε} {f : Front ι ε}
  {rest : Bytes}

theorem Holds.pull (hK : Producing n K) (h : s.Holds K f.stages rest) {window : Window}
    (hw : 0 < window.size) :
    ∃ reply s' f', s.pull (.reaching n) window f = (.ok reply, s', f') ∧ reply.Takes window rest ∧
      s'.Holds K f'.stages (rest.drop reply.count) ∧ s'.buffer = s.buffer ∧ s'.done = s.done := by
  obtain ⟨e, he, hkeep⟩ := h.engine
  obtain ⟨reply, state, b, hrun, htakes, hkeep'⟩ :=
    hK.read hkeep hw s.post s.buffer.length (s.bench f e window) rfl
  have hmarks := run_ordered (.reaching n) s.post s.buffer.length false
    (e.plugin.read e.state window) (b := s.bench f e window) h.marks
  rw [hrun] at hmarks
  refine ⟨reply, _, _, pull_of_run he hrun htakes.fits, htakes, ?_, rfl, rfl⟩
  exact ⟨⟨_, rfl, hkeep'⟩, h.not_errored, hmarks, fun hd => by rw [h.done hd, List.drop_nil]⟩

/-- Filling a window takes the next bytes, and none only at the end or for the sake of a mark behind
bytes that were taken. -/
theorem Holds.fill (hK : Producing n K) (fresh : Bool) (window : Window)
    (h : s.Holds K f.stages rest) (hb : s.buffer = []) :
    ∃ reply s' f' rest', Stage.fill (.reaching n) fresh window s f = (.ok reply, s', f') ∧
      s'.Holds K f'.stages rest' ∧ reply.Fills window.size rest (s'.buffer ++ rest') ∧
      (fresh = true → reply.count = 0 → window.size = 0 ∨ rest = []) := by
  induction hsize : window.size using Nat.strongRecOn generalizing window fresh s f rest with
  | _ size ih =>
  subst hsize
  by_cases hw : window.size = 0
  · refine ⟨⟨0, []⟩, s, f, rest, fill_of_size_eq_zero _ _ hw s f, h, ?_, fun _ _ => .inl hw⟩
    rw [hb]
    exact .zero _ _ _
  obtain ⟨reply, s₁, f₁, hpull, htakes, h₁, hb₁, -⟩ := h.pull hK (Nat.pos_of_ne_zero hw)
  rw [hb] at hb₁
  have hm₁ : s₁.desk.marks.Ordered 0 := by simpa [hb₁] using h₁.marks
  rw [fill_of_pull fresh hw hpull]
  by_cases hzero : reply.count = 0
  · -- the stream has ended
    obtain rfl := (htakes.ends hzero).resolve_left hw
    rw [if_pos hzero]
    refine ⟨⟨0, _⟩, { s₁ with done := true }, f₁, [], rfl, ?_, ?_, fun _ _ => .inr rfl⟩
    · exact ⟨by simpa using h₁.engine, h₁.not_errored, h₁.marks, fun _ => rfl⟩
    · rw [hb₁]
      exact .zero _ _ _
  rw [if_neg hzero]
  by_cases hpending : (s₁.landIf fresh).desk.marks.pending = []
  · -- nothing is pending: the bytes are taken, and more are asked for
    have h₂ : (s₁.landIf fresh).Holds K f₁.stages (rest.drop reply.count) :=
      ⟨h₁.engine, h₁.not_errored, Marks.ordered_of_pending_eq_nil hpending, h₁.done⟩
    obtain ⟨r, s', f', rest', hfill, h', hr, -⟩ :=
      ih (window.size - reply.count) (Nat.sub_lt (Nat.pos_of_ne_zero hw) (Nat.pos_of_ne_zero hzero))
        false ((window.write reply.written).drop reply.count) h₂ hb₁ rfl
    rw [if_pos hpending, hfill]
    have hlen : (reply.bytes window).length = reply.count := reply.length_bytes window
    have hfits : reply.count ≤ window.size := htakes.fits
    have hsize : (reply.bytes window).length + (window.size - reply.count) ≤ window.size := by
      omega
    refine ⟨_, s', f', rest', rfl, h', ?_, fun _ hcount => ?_⟩
    · have hfills := hr.prepend (reply.bytes window) hsize
      rwa [htakes.append_drop] at hfills
    · have hcount : (reply.bytes window).length + r.count = 0 := hcount
      omega
  · -- a mark is pending behind bytes that were taken: the new bytes are kept
    have hfresh : fresh = false := by
      cases fresh with
      | false => rfl
      | true => exact absurd hm₁.land_pending_eq_nil hpending
    subst hfresh
    rw [if_neg hpending]
    refine ⟨⟨0, _⟩, { s₁.landIf false with buffer := s₁.buffer ++ reply.bytes window }, f₁,
      rest.drop reply.count, rfl, ?_, ?_, by simp⟩
    · exact ⟨h₁.engine, h₁.not_errored, hm₁.mono (Nat.zero_le _), h₁.done⟩
    · rw [hb₁, List.nil_append, htakes.append_drop]
      exact .zero _ _ _

/-- A read serves what was produced ahead up to the next mark, and fills in what is missing. -/
theorem Holds.read_prepend (hK : Producing n K) (h : s.Holds K f.stages rest) (window : Window)
    {size : Nat} (hsize : s.reach window.size = size) :
    ∃ r s' f' rest',
      s.read (.reaching n) window f = prepend (s.buffer.take size) (.ok r, s', f') ∧
      s'.Holds K f'.stages rest' ∧
      r.Fills (size - (s.buffer.take size).length) (s.buffer.drop size ++ rest)
        (s'.buffer ++ rest') ∧
      (s.buffer.take size = [] → r.count = 0 → size = 0 ∨ rest = []) := by
  have hle : size ≤ window.size := hsize ▸ s.reach_le window.size
  have hlen : (s.buffer.take size).length = min size s.buffer.length := List.length_take
  have hserved : (s.served size).Holds K f.stages rest :=
    ⟨h.engine, h.not_errored, served_ordered h.marks size, h.done⟩
  have hwindow : ((window.take size).drop (s.buffer.take size).length).size =
      size - (s.buffer.take size).length := by
    simp only [Window.size_drop, Window.size_take, Nat.min_eq_left hle]
  rw [read_eq _ window f h.not_errored, hsize]
  by_cases hdone : s.done = true
  · rw [if_pos hdone]
    refine ⟨⟨0, []⟩, s.served size, f, rest, ?_, hserved, .zero _ _ _,
      fun _ _ => .inr (h.done hdone)⟩
    simp [prepend, Reply.ofBytes, Except.map]
  rw [if_neg hdone]
  by_cases hfull : size ≤ (s.buffer.take size).length
  · -- the window is full: the plugin is not asked
    rw [fill_of_size_eq_zero _ _ (by omega)]
    refine ⟨⟨0, []⟩, s.served size, f, rest, rfl, hserved, .zero _ _ _, fun hnil _ => .inl ?_⟩
    rw [hnil] at hfull
    exact Nat.le_zero.mp hfull
  · have hdrop : s.buffer.drop size = [] := List.drop_of_length_le (by omega)
    obtain ⟨r, s', f', rest', hfill, h', hr, hends⟩ :=
      hserved.fill hK (s.buffer.take size).isEmpty
        ((window.take size).drop (s.buffer.take size).length) hdrop
    rw [hwindow] at hr hends
    rw [hfill]
    refine ⟨r, s', f', rest', rfl, h', ?_, fun hnil h0 => ?_⟩
    · rwa [hdrop, List.nil_append]
    · exact (hends (by rw [hnil]; rfl) h0).imp_left fun hs => by omega

theorem Holds.read (hK : Producing n K) (h : s.Holds K f.stages rest) (window : Window) :
    ∃ reply s' f' rest', s.read (.reaching n) window f = (.ok reply, s', f') ∧
      s'.Holds K f'.stages rest' ∧ reply.Takes window (s.buffer ++ rest) ∧
      (s.buffer ++ rest).drop reply.count = s'.buffer ++ rest' := by
  obtain ⟨size, hsize⟩ : ∃ size, s.reach window.size = size := ⟨_, rfl⟩
  have hle : size ≤ window.size := hsize ▸ s.reach_le window.size
  have hlen : (s.buffer.take size).length ≤ size := List.length_take_le _ _
  obtain ⟨r, s', f', rest', hread, h', hr, hends⟩ := h.read_prepend hK window hsize
  have hfills := hr.prepend (s.buffer.take size) (show _ ≤ window.size by omega)
  rw [← List.append_assoc, List.take_append_drop] at hfills
  refine ⟨_, s', f', rest', hread, h', hfills.takes fun h0 => ?_, hfills.drop_eq⟩
  have h0 : (s.buffer.take size).length + r.count = 0 := h0
  have hnil : s.buffer.take size = [] := List.length_eq_zero_iff.mp (by omega)
  by_cases hs : size = 0
  · exact .inl (eq_zero_of_reach_eq_zero h.marks (hsize.trans hs))
  · -- nothing was produced ahead, and nothing is left
    have hbuffer : s.buffer = [] := (List.take_eq_nil_iff.mp hnil).resolve_left hs
    have hrest : rest = [] := (hends hnil (by omega)).resolve_left hs
    exact .inr (by rw [hbuffer, hrest, List.append_nil])

/-! ## Looking ahead -/

theorem Holds.lookAhead (hK : Producing n K) (h : s.Holds K f.stages rest) (size : Nat) :
    ∃ s' f' rest', Stage.lookAhead (.reaching n) size s f = (.ok (), s', f') ∧
      s'.Holds K f'.stages rest' ∧ s'.buffer ++ rest' = s.buffer ++ rest := by
  induction hmissing : size - s.buffer.length using Nat.strongRecOn generalizing s f rest with
  | _ missing ih =>
  subst hmissing
  by_cases henough : size ≤ s.buffer.length ∨ s.done
  · exact ⟨s, f, rest, lookAhead_of_enough _ henough f, h, rfl⟩
  obtain ⟨reply, s₁, f₁, hpull, htakes, h₁, hb₁, -⟩ := h.pull hK
    (show 0 < s.window.size from s.post.readChunk_pos)
  have hlen : (reply.bytes s.window).length = reply.count := reply.length_bytes s.window
  rw [lookAhead_of_pull henough hpull]
  by_cases hzero : reply.count = 0
  · have hrest : rest = [] := (htakes.ends hzero).resolve_left (Nat.ne_of_gt s.post.readChunk_pos)
    subst hrest
    rw [if_pos hzero]
    refine ⟨_, f₁, [], rfl, ⟨by simpa using h₁.engine, h₁.not_errored, h₁.marks, fun _ => rfl⟩, ?_⟩
    simp [hb₁]
  rw [if_neg hzero]
  have h₂ : Holds K { s₁ with
      scratch := (s.window.write reply.written).held
      buffer := s.buffer ++ reply.bytes s.window } f₁.stages (rest.drop reply.count) := by
    refine ⟨h₁.engine, h₁.not_errored, h₁.marks.mono ?_, h₁.done⟩
    show s₁.buffer.length ≤ (s.buffer ++ reply.bytes s.window).length
    rw [hb₁, List.length_append]
    exact Nat.le_add_right _ _
  obtain ⟨s', f', rest', hlook, h', heq⟩ := ih _ (by
    show size - (s.buffer ++ reply.bytes s.window).length < size - s.buffer.length
    rw [List.length_append]
    omega) h₂ rfl
  refine ⟨s', f', rest', hlook, h', heq.trans ?_⟩
  show s.buffer ++ reply.bytes s.window ++ rest.drop reply.count = s.buffer ++ rest
  rw [List.append_assoc, htakes.append_drop]

theorem Holds.peek (hK : Producing n K) (h : s.Holds K f.stages rest) (size : Nat) :
    ∃ bytes s' f' rest', s.peek (.reaching n) size f = (.ok bytes, s', f') ∧
      s'.Holds K f'.stages rest' ∧ s'.buffer ++ rest' = s.buffer ++ rest := by
  obtain ⟨s', f', rest', hlook, h', heq⟩ := h.lookAhead hK size
  refine ⟨s'.buffer.take size, s', f', rest', ?_, h', heq⟩
  unfold Stage.peek
  rw [if_neg (by rw [h.not_errored]; exact Bool.false_ne_true), hlook]

end Stage

/-! ## Stages in a row -/

/-- The first of some stages holds bytes: what it has produced ahead, and what its plugin has left
to give. -/
inductive Stocked (K : Plugin ι ε → ι → List (Stage ι ε) → Bytes → Prop) :
    List (Stage ι ε) → Bytes → Prop
  | intro {s : Stage ι ε} {front : List (Stage ι ε)} {rest : Bytes} :
    s.Holds K front rest → Stocked K (s :: front) (s.buffer ++ rest)

/-- A fact that is recorded for a stage changes nothing of that. -/
theorem Stocked.recordFact {K : Plugin ι ε → ι → List (Stage ι ε) → Bytes → Prop} {s : Stage ι ε}
    {front : List (Stage ι ε)} {rest : Bytes} (h : Stocked K (s :: front) rest) (log : Facts.Log)
    (key : String) (value : Value) : Stocked K ((s.recordFact log key value).1 :: front) rest := by
  obtain ⟨h⟩ := h
  exact .intro (s := (s.recordFact log key value).1) ⟨h.engine, h.not_errored, h.marks, h.done⟩

/-- **Supply.** A stage whose plugin produces bytes supplies its reader with them. -/
theorem Producing.supply {K : Plugin ι ε → ι → List (Stage ι ε) → Bytes → Prop}
    (hK : Producing n K) : Supply n (Stocked K) := by
  constructor
  · rintro _ _ ⟨h⟩
    obtain ⟨e, -, hkeep⟩ := h.engine
    rw [List.length_cons, hK.length hkeep]
  · rintro s front _ ⟨h⟩ scene window
    obtain ⟨reply, s', f', rest', hread, h', htakes, hdrop⟩ :=
      h.read hK (f := ⟨front, scene⟩) window
    exact ⟨reply, s', f', hread, htakes, hdrop ▸ .intro h'⟩
  · rintro s front _ ⟨h⟩ scene size
    obtain ⟨bytes, s', f', rest', hpeek, h', heq⟩ := h.peek hK (f := ⟨front, scene⟩) size
    exact ⟨bytes, s', f', hpeek, heq ▸ .intro h'⟩

end MediaChain
