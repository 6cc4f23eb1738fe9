import MediaChain.Proofs.Stage.Diary

/-!
# Where readers stop

A plugin anchors values and barriers at the position that it has produced up to. A `Track` writes
down these positions; a number or a text that is the newest of its key already is not set again. The
pending marks of a stage stand for those that the reader has not come to (`Marks.Shows`), and no
advance goes farther than the first of them (`Stage.Sound.reach_le_distance`). So a read that starts
before an anchor returns no byte from behind it, also if the anchor was only set by that very read
(`Stage.Reached.stops`).
-/

namespace MediaChain

variable {ι ε : Type}

/-! ## Anchors -/

/-- How many bytes a plugin has produced, the newest value of each key, and the positions that it has
anchored something at, in the order in which it did. -/
structure Track where
  produced : Nat
  newest : Landed
  anchors : List Nat

namespace Track

/-- Anchors something where the bytes end that were produced so far. -/
def anchor (t : Track) : Track := { t with anchors := t.anchors ++ [t.produced] }

/-- Sets a value, unless it is a number or a text that is the newest of its key already. -/
def set (t : Track) (key : String) : Value → Track
  | .bytes bytes => { t.anchor with newest := t.newest.insert key (.bytes bytes) }
  | value =>
    if t.newest[key]? = some value then t
    else { t.anchor with newest := t.newest.insert key value }

/-- Writes down what a request anchors. -/
def ask (t : Track) : Request ε → Track
  | .mark key value => t.set key value
  | .barrier => t.anchor
  | _ => t

/-- Writes down a read of the plugin. -/
def add (t : Track) (pull : Pull ε) : Track :=
  { pull.asked.foldl ask t with produced := t.produced + pull.count }

end Track

/-- All that was anchored since the diary was begun. -/
def Diary.track (d : Diary ι ε) : Track := d.pulls.foldl Track.add ⟨0, d.base, []⟩

/-! ## The newest values -/

namespace Marks

variable {ms : Marks}

theorem latest?_push (ms : Marks) (m : Mark) (key : String) :
    (ms.push m).latest? key = (m.settle (ms.pending.foldl Mark.settle ms.landed))[key]? := by
  unfold latest? push
  rw [List.foldl_append, List.foldl_cons, List.foldl_nil]

theorem latest?_land (ms : Marks) (key : String) : ms.land.latest? key = ms.latest? key := by
  unfold latest? land
  dsimp only
  rw [← List.foldl_append, List.takeWhile_append_dropWhile]

theorem latest?_advance (ms : Marks) (n : Nat) (key : String) :
    (ms.advance n).latest? key = ms.latest? key := by
  unfold latest? advance
  rw [List.foldl_map]
  rfl

end Marks

/-- The newest values that some marks hold are those of a track. -/
def Track.Agrees (t : Track) (ms : Marks) : Prop := ∀ key, ms.latest? key = t.newest[key]?

/-- What is placed is anchored, at the position where the bytes end that were produced. -/
structure Track.Places (t t' : Track) (ms ms' : Marks) (ahead : Nat) : Prop where
  added : ∃ added : List Mark, (∀ m ∈ added, m.distance = ahead) ∧
    ms'.pending = ms.pending ++ added ∧
    t'.anchors = t.anchors ++ added.map fun _ => t.produced
  produced : t'.produced = t.produced
  agrees : t'.Agrees ms'

namespace Track

variable {t t' t'' : Track} {ms ms' ms'' : Marks} {ahead : Nat}

theorem Places.refl (h : t.Agrees ms) (ahead : Nat) : Places t t ms ms ahead :=
  ⟨⟨[], nofun, (List.append_nil _).symm, (List.append_nil _).symm⟩, rfl, h⟩

theorem Places.trans (h : Places t t' ms ms' ahead) (h' : Places t' t'' ms' ms'' ahead) :
    Places t t'' ms ms'' ahead := by
  obtain ⟨⟨added, hahead, hpending, hanchors⟩, hproduced, -⟩ := h
  obtain ⟨⟨added', hahead', hpending', hanchors'⟩, hproduced', hagrees⟩ := h'
  refine ⟨⟨added ++ added', fun m hm => ?_, ?_, ?_⟩, hproduced'.trans hproduced, hagrees⟩
  · exact (List.mem_append.mp hm).elim (hahead m) (hahead' m)
  · rw [hpending', hpending, List.append_assoc]
  · rw [hanchors', hanchors, hproduced, List.map_append, List.append_assoc]

theorem Agrees.bar (h : t.Agrees ms) (ahead : Nat) :
    Places t t.anchor ms (ms.bar ahead) ahead := by
  refine ⟨⟨[⟨ahead, none⟩], ?_, rfl, rfl⟩, rfl, fun key => ?_⟩
  · exact fun m hm => List.mem_singleton.mp hm ▸ rfl
  · exact (ms.latest?_push ⟨ahead, none⟩ key).trans (h key)

theorem Agrees.push (h : t.Agrees ms) (ahead : Nat) (key : String) (value : Value) :
    Places t { t.anchor with newest := t.newest.insert key value } ms
      (ms.push ⟨ahead, some (key, value)⟩) ahead := by
  refine ⟨⟨[⟨ahead, some (key, value)⟩], ?_, rfl, rfl⟩, rfl, fun key' => ?_⟩
  · exact fun m hm => List.mem_singleton.mp hm ▸ rfl
  · rw [Marks.latest?_push]
    show ((ms.pending.foldl Mark.settle ms.landed).insert key value)[key']? =
      (t.newest.insert key value)[key']?
    rw [Std.ExtTreeMap.getElem?_insert, Std.ExtTreeMap.getElem?_insert]
    split
    · rfl
    · exact h key'

theorem Agrees.put (h : t.Agrees ms) (ahead : Nat) (key : String) (value : Value) :
    Places t (t.set key value) ms (ms.put ahead key value) ahead := by
  have hskip : Places t (if t.newest[key]? = some value then t
        else { t.anchor with newest := t.newest.insert key value }) ms
      (if ms.latest? key = some value then ms else ms.push ⟨ahead, some (key, value)⟩) ahead := by
    rw [h key]
    split
    · exact .refl h ahead
    · exact h.push ahead key value
  cases value with
  | bytes bytes => exact h.push ahead key (.bytes bytes)
  | int n => exact hskip
  | text s => exact hskip

theorem Agrees.ask (h : t.Agrees ms) (ahead : Nat) (q : Request ε) :
    Places t (t.ask q) ms (q.place ahead ms) ahead := by
  cases q with
  | mark key value => exact h.put ahead key value
  | barrier => exact h.bar ahead
  | _ => exact .refl h ahead

theorem Agrees.foldl_ask (h : t.Agrees ms) (ahead : Nat) (qs : List (Request ε)) :
    Places t (qs.foldl Track.ask t) ms (qs.foldl (Request.place ahead) ms) ahead := by
  induction qs generalizing t ms with
  | nil => exact .refl h ahead
  | cons q qs ih =>
    have hq := h.ask ahead q
    exact hq.trans (ih hq.agrees)

/-! ## Tracks and marks -/

/-- The pending marks stand for the anchors that a reader at a position has not come to. -/
structure Stands (t : Track) (ms : Marks) (position : Nat) : Prop where
  agrees : t.Agrees ms
  anchors : ∃ passed, t.anchors = passed ++ ms.pending.map (position + ·.distance) ∧
    ∀ a ∈ passed, a ≤ position

namespace Stands

variable {position : Nat}

theorem places (h : t.Stands ms position) (hproduced : t.produced = position + ahead)
    (hplaces : Places t t' ms ms' ahead) : t'.Stands ms' position := by
  obtain ⟨passed, hanchors, hpassed⟩ := h.anchors
  obtain ⟨added, hahead, hpending, hanchors'⟩ := hplaces.added
  refine ⟨hplaces.agrees, passed, ?_, hpassed⟩
  have hadded : added.map (fun _ => t.produced) = added.map (position + ·.distance) :=
    List.map_congr_left fun m hm => by rw [hproduced, hahead m hm]
  rw [hanchors', hanchors, hpending, hadded, List.map_append, List.append_assoc]

/-- What lands lies where the reader is. -/
theorem land (h : t.Stands ms position) : t.Stands ms.land position := by
  obtain ⟨passed, hanchors, hpassed⟩ := h.anchors
  refine ⟨fun key => (ms.latest?_land key).trans (h.agrees key),
    passed ++ (ms.pending.takeWhile (·.distance = 0)).map (position + ·.distance), ?_, ?_⟩
  · rw [hanchors, List.append_assoc, Marks.land, ← List.map_append, List.takeWhile_append_dropWhile]
  · intro a ha
    rcases List.mem_append.mp ha with ha | ha
    · exact hpassed a ha
    · obtain ⟨m, hm, rfl⟩ := List.mem_map.mp ha
      have hzero := List.all_eq_true.mp List.all_takeWhile m hm
      simp only [decide_eq_true_eq] at hzero
      omega

/-- As long as the reader stays before all that is pending, it comes nearer to that. -/
theorem advance (h : t.Stands ms position) {n : Nat} (hn : ∀ m ∈ ms.pending, n ≤ m.distance) :
    t.Stands (ms.advance n) (position + n) := by
  obtain ⟨passed, hanchors, hpassed⟩ := h.anchors
  refine ⟨fun key => (ms.latest?_advance n key).trans (h.agrees key), passed, ?_,
    fun a ha => Nat.le_add_right_of_le (hpassed a ha)⟩
  rw [hanchors, Marks.advance, List.map_map]
  congr 1
  refine List.map_congr_left fun m hm => ?_
  have := hn m hm
  show position + m.distance = position + n + (m.distance - n)
  omega

/-- Where nothing is pending, the reader has come to all anchors. -/
theorem anchors_le (h : t.Stands ms position) (hms : ms.pending = []) :
    ∀ a ∈ t.anchors, a ≤ position := by
  obtain ⟨passed, hanchors, hpassed⟩ := h.anchors
  rw [hms, List.map_nil, List.append_nil] at hanchors
  exact hanchors ▸ hpassed

theorem skip (h : t.Stands ms position) (hms : ms.pending = []) (n : Nat) :
    t.Stands ms (position + n) := by
  refine ⟨h.agrees, t.anchors, ?_, fun a ha => Nat.le_add_right_of_le (h.anchors_le hms a ha)⟩
  rw [hms, List.map_nil, List.append_nil]

end Stands

end Track

namespace Stage

variable {tap : Tap ι ε} {window : Window} {s s' : Stage ι ε} {f f' : Front ι ε} {reply : Reply}
  {t : Track} {position start : Nat}

/-! ## Serving what lies ahead -/

/-- A read does not reach behind a mark. -/
theorem Sound.reach_le_distance (h : s.Sound) (size : Nat) :
    ∀ m ∈ s.desk.marks.land.pending, s.reach size ≤ m.distance := by
  intro m hm
  unfold reach Marks.next?
  cases hpending : s.desk.marks.land.pending with
  | nil =>
    rw [hpending] at hm
    cases hm
  | cons first rest =>
    have hsorted := h.marks.land.sorted
    rw [hpending] at hm hsorted
    show min size first.distance ≤ m.distance
    rcases List.mem_cons.mp hm with rfl | hm
    · exact Nat.min_le_right _ _
    · exact Nat.le_trans (Nat.min_le_right _ _) (List.rel_of_pairwise_cons hsorted hm)

/-- An advance never takes more than there is from a distance. -/
theorem Sound.served_le_distance (h : s.Sound) (size : Nat) :
    ∀ m ∈ s.desk.marks.land.pending, (s.buffer.take (s.reach size)).length ≤ m.distance :=
  fun m hm => Nat.le_trans (List.length_take_le _ _) (h.reach_le_distance size m hm)

/-- A read that reaches behind what was produced ahead leaves no mark behind. -/
theorem Sound.served_pending (h : s.Sound) {size : Nat} (hsize : s.buffer.length < s.reach size) :
    s.desk.marks.land.pending = [] := by
  refine List.eq_nil_iff_forall_not_mem.mpr fun m hm => ?_
  have hreach := h.reach_le_distance size m hm
  have hwithin := h.marks.land.within m hm
  omega

/-- The reader of a stage is at a position, and its marks stand for what was anchored. -/
structure Tracked (s : Stage ι ε) (position : Nat) (t : Track) : Prop where
  sound : s.Sound
  produced : t.produced = position + s.buffer.length
  stands : t.Stands s.desk.marks position

theorem Tracked.served (h : s.Tracked position t) (size : Nat) :
    (s.served (s.reach size)).Tracked
      (position + (s.buffer.take (s.reach size)).length) t := by
  refine ⟨h.sound.served _, ?_, h.stands.land.advance (h.sound.served_le_distance size)⟩
  rw [h.produced]
  show position + s.buffer.length = position + (s.buffer.take _).length + (s.buffer.drop _).length
  rw [List.length_take, List.length_drop]
  omega

/-! ## Asking the plugin -/

/-- After a read of the plugin its marks are set, where the bytes end that were produced before. -/
theorem Tracked.pull (h : s.Tracked position t)
    (hpull : s.pull tap window f = (.ok reply, s', f')) :
    let t' := t.add ⟨s.asked tap window f, reply.count⟩
    t'.produced = position + s.buffer.length + reply.count ∧
      t'.Stands s'.desk.marks position ∧
      ∃ added, s'.desk.marks.pending = s.desk.marks.pending ++ added ∧
        t'.anchors = t.anchors ++ added.map fun _ => t.produced := by
  obtain ⟨e, desk, state, -, rfl, hmarks, -⟩ := pull_ok hpull
  have hplaces := h.stands.agrees.foldl_ask s.buffer.length (s.asked tap window f)
  rw [← hmarks] at hplaces
  have hstands := h.stands.places h.produced hplaces
  obtain ⟨added, -, hpending, hanchors⟩ := hplaces.added
  exact ⟨congrArg (· + reply.count) h.produced, ⟨hstands.agrees, hstands.anchors⟩, added, hpending,
    hanchors⟩

/-- What the plugin has just anchored lies ahead of the reader. -/
theorem Tracked.pull_clear (h : s.Tracked position t)
    (hclear : ∀ a ∈ t.anchors, a ≤ start ∨ position ≤ a)
    (hpull : s.pull tap window f = (.ok reply, s', f')) :
    ∀ a ∈ (t.add ⟨s.asked tap window f, reply.count⟩).anchors, a ≤ start ∨ position ≤ a := by
  obtain ⟨-, -, added, -, hanchors⟩ := h.pull hpull
  rw [hanchors]
  intro a ha
  rcases List.mem_append.mp ha with ha | ha
  · exact hclear a ha
  · obtain ⟨m, -, rfl⟩ := List.mem_map.mp ha
    exact .inr (h.produced ▸ Nat.le_add_right _ _)

theorem stands_landIf (h : t.Stands s.desk.marks position) (fresh : Bool) :
    t.Stands (s.landIf fresh).desk.marks position := by
  cases fresh with
  | true => exact h.land
  | false => exact h

/-- A reader that started at `start` wants more than there was ahead: what was anchored up to here it
had come to when it started, and unless it has got nothing yet, nothing was pending since. -/
structure Wanting (fresh : Bool) (s : Stage ι ε) (start position : Nat) (t : Track) : Prop where
  buffer : s.buffer = []
  behind : ∀ a ∈ t.anchors, a ≤ start
  nothing : fresh = true → position = start
  pending : fresh = false → s.desk.marks.pending = []

/-- While bytes that were just produced go to the reader, it stays so. -/
theorem Wanting.pull {fresh : Bool} (hwant : Wanting fresh s start position t)
    (h : s.Tracked position t) (hpull : s.pull tap window f = (.ok reply, s', f'))
    (hpending : (s'.landIf fresh).desk.marks.pending = []) :
    let t' := t.add ⟨s.asked tap window f, reply.count⟩
    Wanting false (s'.landIf fresh) start (position + reply.count) t' ∧
      (s'.landIf fresh).Tracked (position + reply.count) t' := by
  obtain ⟨hproduced, hstands, added, hadded, hanchors⟩ := h.pull hpull
  obtain ⟨hbuffer, hsound⟩ := h.sound.pull hpull
  have hempty : (s'.landIf fresh).buffer = [] := hbuffer.trans hwant.buffer
  have hlanded := stands_landIf hstands fresh
  refine ⟨⟨hempty, ?_, nofun, fun _ => hpending⟩, hsound.landIf fresh, ?_,
    hlanded.skip hpending reply.count⟩
  · cases hfresh : fresh with
    | true =>
      intro a ha
      exact hwant.nothing hfresh ▸ hlanded.anchors_le hpending a ha
    | false =>
      -- had anything been anchored, it would be pending
      subst hfresh
      have hnone : added = [] := (List.append_eq_nil_iff.mp (hadded.symm.trans hpending)).2
      rw [hanchors, hnone, List.map_nil, List.append_nil]
      exact hwant.behind
  · rw [hproduced, hempty, hwant.buffer]
    rfl

/-- However a window is filled, the reader does not come past an anchor that it was before. -/
theorem Tracked.fill {fresh : Bool} (h : s.Tracked position t)
    (hclear : ∀ a ∈ t.anchors, a ≤ start ∨ position ≤ a)
    (hwant : window.size ≠ 0 → Wanting fresh s start position t)
    (hfill : Stage.fill tap fresh window s f = (.ok reply, s', f')) :
    let t' := (fillPulls tap fresh window s f).foldl Track.add t
    s'.Tracked (position + reply.count) t' ∧
      ∀ a ∈ t'.anchors, a ≤ start ∨ position + reply.count ≤ a := by
  refine fill_induct (P := fun fresh window s f reply s' => ∀ {position : Nat} {t : Track},
    s.Tracked position t → (∀ a ∈ t.anchors, a ≤ start ∨ position ≤ a) →
    (window.size ≠ 0 → Wanting fresh s start position t) →
    s'.Tracked (position + reply.count) ((fillPulls tap fresh window s f).foldl Track.add t) ∧
      ∀ a ∈ ((fillPulls tap fresh window s f).foldl Track.add t).anchors,
        a ≤ start ∨ position + reply.count ≤ a) ?full ?ended ?more ?aside hfill h hclear hwant
  case full =>
    intro fresh window s f hw position t h hclear _
    rw [fillPulls, if_pos hw]
    exact ⟨h, hclear⟩
  case ended =>
    intro fresh window s s₁ f f₁ r hw hpull hzero position t h hclear _
    rw [fillPulls_of_pull fresh hw hpull, if_pos hzero]
    obtain ⟨hproduced, hstands, -⟩ := h.pull hpull
    obtain ⟨hbuffer, hsound⟩ := h.sound.pull hpull
    refine ⟨⟨hsound.end s₁.scratch, ?_, hstands⟩, h.pull_clear hclear hpull⟩
    show (t.add _).produced = position + 0 + s₁.buffer.length
    rw [hproduced, hzero, hbuffer]
    rfl
  case more =>
    intro fresh window s s₁ s' f f₁ r r' hw hpull hzero hpending ih position t h _ hwant
    rw [fillPulls_of_pull fresh hw hpull, if_neg hzero, if_pos hpending, Reply.length_bytes,
      ← Nat.add_assoc]
    obtain ⟨hwant', h'⟩ := (hwant hw).pull h hpull hpending
    exact ih h' (fun a ha => .inl (hwant'.behind a ha)) fun _ => hwant'
  case aside =>
    intro fresh window s s₁ f f₁ r hw hpull hzero hpending position t h hclear _
    rw [fillPulls_of_pull fresh hw hpull, if_neg hzero, if_neg hpending]
    obtain ⟨hproduced, hstands, -⟩ := h.pull hpull
    obtain ⟨hbuffer, hsound⟩ := h.sound.pull hpull
    refine ⟨⟨(hsound.landIf fresh).append (r.bytes window) s₁.scratch, ?_,
      stands_landIf hstands fresh⟩, h.pull_clear hclear hpull⟩
    show (t.add _).produced = position + 0 + (s₁.buffer ++ r.bytes window).length
    rw [hproduced, List.length_append, Reply.length_bytes, hbuffer]
    exact Nat.add_assoc _ _ _

/-! ## Reads and peeks -/

/-- What a read serves of what lies ahead ends before the next anchor. -/
theorem Tracked.served_clear (h : s.Tracked position t) (size : Nat) :
    ∀ a ∈ t.anchors, a ≤ position ∨ position + (s.buffer.take (s.reach size)).length ≤ a := by
  obtain ⟨passed, hanchors, hpassed⟩ := h.stands.land.anchors
  intro a ha
  rw [hanchors] at ha
  rcases List.mem_append.mp ha with ha | ha
  · exact .inl (hpassed a ha)
  · obtain ⟨m, hm, rfl⟩ := List.mem_map.mp ha
    exact .inr (Nat.add_le_add_left (h.sound.served_le_distance size m hm) _)

theorem Tracked.read (h : s.Tracked position t)
    (hread : s.read tap window f = (.ok reply, s', f')) :
    let t' := (readPulls tap window s f).foldl Track.add t
    s'.Tracked (position + reply.count) t' ∧
      ∀ a ∈ t'.anchors, a ≤ position ∨ position + reply.count ≤ a := by
  have hserved := h.served window.size
  have hclear := h.served_clear window.size
  unfold readPulls
  rcases read_cases hread with ⟨hdone, rfl, rfl, -⟩ | ⟨r, hdone, hfill, rfl⟩
  · rw [if_pos hdone]
    exact ⟨hserved, hclear⟩
  · rw [hdone, if_neg Bool.false_ne_true]
    dsimp only
    rw [← Nat.add_assoc]
    refine hserved.fill hclear (fun hroom => ?_) hfill
    have hlen : (s.buffer.take (s.reach window.size)).length =
        min (s.reach window.size) s.buffer.length := List.length_take
    have hreach := s.reach_le window.size
    have hbehind : s.buffer.length < s.reach window.size := by
      rw [Window.size_drop, Window.size_take] at hroom
      omega
    have hpending := h.sound.served_pending hbehind
    refine ⟨List.drop_of_length_le (Nat.le_of_lt hbehind), h.stands.land.anchors_le hpending,
      fun hempty => ?_, fun _ => ?_⟩
    · rw [List.isEmpty_iff.mp hempty]
      rfl
    · show s.desk.marks.land.pending.map _ = []
      rw [hpending, List.map_nil]

theorem Tracked.lookAhead {size : Nat} (h : s.Tracked position t)
    (hlook : Stage.lookAhead tap size s f = (.ok (), s', f')) :
    s'.Tracked position ((peekPulls tap size s f).foldl Track.add t) := by
  refine lookAhead_induct (P := fun s f s' => ∀ {t : Track}, s.Tracked position t →
    s'.Tracked position ((peekPulls tap size s f).foldl Track.add t))
    ?enough ?ended ?more hlook h
  case enough =>
    intro s f henough t h
    rw [peekPulls, if_pos henough]
    exact h
  case ended =>
    intro s s₁ f f₁ r hmore hpull hzero t h
    rw [peekPulls_of_pull hmore hpull, if_pos hzero]
    obtain ⟨hproduced, hstands, -⟩ := h.pull hpull
    obtain ⟨hbuffer, hsound⟩ := h.sound.pull hpull
    refine ⟨hsound.end _, ?_, hstands⟩
    show (t.add _).produced = position + s₁.buffer.length
    rw [hproduced, hzero, hbuffer]
    rfl
  case more =>
    intro s s₁ s' f f₁ r hmore hpull hzero ih t h
    rw [peekPulls_of_pull hmore hpull, if_neg hzero]
    obtain ⟨hproduced, hstands, -⟩ := h.pull hpull
    obtain ⟨hbuffer, hsound⟩ := h.sound.pull hpull
    refine ih ⟨hbuffer ▸ hsound.append (r.bytes s.window) _, ?_, hstands⟩
    show (t.add _).produced = position + (s.buffer ++ r.bytes s.window).length
    rw [hproduced, List.length_append, Reply.length_bytes]
    exact Nat.add_assoc _ _ _

/-! ## Stages that are reached -/

variable {d : Diary ι ε}

theorem Reached.tracked (h : Reached s d) (hok : s.errored = false) :
    s.Tracked d.taken.length d.track := by
  refine h.induct (P := fun s d => s.Tracked d.taken.length d.track)
    ?create ?recordFact ?read ?peek ?seek hok
  case create =>
    intro p settings goals s f f' hcreate
    have hsound := sound_of_create hcreate
    have hmarks := create_marks hcreate
    obtain ⟨state, bench, outType, -, rfl, -⟩ := create_ok hcreate
    have hfirst : (Track.mk 0 ∅ []).Stands .empty 0 := ⟨fun _ => rfl, [], rfl, nofun⟩
    have hplaces := hfirst.agrees.foldl_ask 0 (firstAsked p settings goals f)
    rw [← hmarks] at hplaces
    have hstands := hfirst.places rfl hplaces
    exact ⟨hsound, rfl, hstands.agrees, hstands.anchors⟩
  case recordFact =>
    intro s d log key value ih
    exact ⟨⟨ih.sound.driven, ih.sound.marks⟩, ih.produced, ih.stands⟩
  case read =>
    intro tap window s s' f f' d reply _ ih hread
    have hlen : (d.taken ++ reply.bytes window).length = d.taken.length + reply.count := by
      rw [List.length_append, Reply.length_bytes]
    show s'.Tracked (d.taken ++ reply.bytes window).length
      ((d.pulls ++ readPulls tap window s f).foldl Track.add _)
    rw [hlen, List.foldl_append]
    exact (ih.read hread).1
  case peek =>
    intro tap size s s' f f' d bytes _ ih hpeek
    show s'.Tracked d.taken.length ((d.pulls ++ peekPulls tap size s f).foldl Track.add _)
    rw [List.foldl_append]
    exact ih.lookAhead (peek_ok hpeek).1
  case seek =>
    intro tap offset whence position s s' f f' hs hseek
    have hsound := hs.seek tap offset whence f
    rw [hseek] at hsound
    obtain ⟨hbuffer, hpending, -⟩ := seek_ok hseek
    refine ⟨hsound, ?_, fun key => ?_, [], ?_, nofun⟩
    · rw [hbuffer]
      rfl
    · unfold Marks.latest?
      rw [hpending]
      rfl
    · rw [hpending]
      rfl

/-- **Anchors stop readers.** Whatever calls have brought a stage where it is, its marks are pending
in the order of their positions, none of them behind what lies ahead, and what a read serves of that
ends before the first of them, so that no advance cuts a distance short. And a read that starts
before a position that the plugin has anchored something at, now or earlier, returns no byte from
behind it. -/
theorem Reached.stops (h : Reached s d) :
    s.desk.marks.pending.Pairwise (·.distance ≤ ·.distance) ∧
      (∀ m ∈ s.desk.marks.pending, m.distance ≤ s.buffer.length) ∧
      (∀ size, ∀ m ∈ s.desk.marks.land.pending,
        (s.buffer.take (s.reach size)).length ≤ m.distance) ∧
      ∀ {tap : Tap ι ε} {window : Window} {f : Front ι ε} {reply : Reply} {s' : Stage ι ε}
        {f' : Front ι ε}, s.read tap window f = (.ok reply, s', f') →
          ∀ a ∈ (d.read tap window s f reply).track.anchors,
            d.taken.length < a → d.taken.length + reply.count ≤ a := by
  refine ⟨h.sound.marks.sorted, h.sound.marks.within, h.sound.served_le_distance, ?_⟩
  intro tap window f reply s' f' hread a ha hbefore
  have htracked := h.tracked (not_errored_of_read hread)
  have htrack : (d.read tap window s f reply).track =
      (readPulls tap window s f).foldl Track.add d.track := List.foldl_append
  rw [htrack] at ha
  exact ((htracked.read hread).2 a ha).resolve_left (Nat.not_le.mpr hbefore)

/-- A read that could take ten bytes gets two, since the plugin sets a barrier behind them before it
is asked for more. -/
theorem Reached.stops_stepping :
    ∃ (s s' : Stage Nat Unit) (d : Diary Nat Unit) (f f' : Front Nat Unit), Reached s d ∧
      d.taken = [] ∧ s.read .closed (.blank 10) f = (.ok ⟨2, [0, 1, 2, 3]⟩, s', f') ∧
      (d.read .closed (.blank 10) s f ⟨2, [0, 1, 2, 3]⟩).track.anchors = [0, 2] ∧
      d.taken.length + 2 ≤ 2 := by
  obtain ⟨s, f, hs⟩ :
      ∃ s f, Stage.create stepping {} [] ⟨[], ⟨.empty, .empty⟩⟩ = (.ok s, f) := ⟨_, _, rfl⟩
  have hread : (s.read .closed (.blank 10) f).1 = .ok ⟨2, [0, 1, 2, 3]⟩ := by
    apply ok_of_toOption
    cases hs
    decide +kernel
  have hanchors : ((Diary.begun s (firstAsked stepping {} [] ⟨[], ⟨.empty, .empty⟩⟩)).read .closed
      (.blank 10) s f ⟨2, [0, 1, 2, 3]⟩).track.anchors = [0, 2] := by
    cases hs
    decide +kernel
  obtain ⟨-, -, -, hstops⟩ := (Reached.create hs).stops
  exact ⟨s, _, _, f, _, Reached.create hs, rfl, Prod.ext hread rfl, hanchors,
    hstops (Prod.ext hread rfl) 2 (by rw [hanchors]; decide) Nat.zero_lt_two⟩

end Stage

end MediaChain
