import MediaChain.Proofs.Stage.Lines
import MediaChain.Proofs.Stage.Stops
import MediaChain.Proofs.Text.Stops

/-!
# Lines and marks

A read of the stage in front ends where its window ends, at an anchor or with the stream
(`Stage.Tracked.read_ends`). So the lines that a stage reads depend on the bytes in front and on the
positions of the anchors, and on nothing else (`Stage.Reads.told`): not on the portions in which the
bytes come, nor on what was anchored. An anchor inside of a line can cut a call for it. Two runs over
the same text (`LineRun`) get the same lines as long as no call is cut, and other lines if a call of
one of them alone is (`LineRun.same_lines`).
-/

namespace MediaChain

variable {ι ε : Type}

/-! ## Tracks grow -/

namespace Track

variable {t t' t'' : Track}

/-- More was produced, and what was anchored since stands behind what was produced before. -/
structure Grows (t t' : Track) : Prop where
  produced : t.produced ≤ t'.produced
  anchors : ∃ later, t'.anchors = t.anchors ++ later ∧ ∀ a ∈ later, t.produced ≤ a

theorem Grows.refl (t : Track) : t.Grows t :=
  ⟨Nat.le_refl _, [], (List.append_nil _).symm, nofun⟩

theorem Grows.trans (h : t.Grows t') (h' : t'.Grows t'') : t.Grows t'' := by
  obtain ⟨later, hlater, hbehind⟩ := h.anchors
  obtain ⟨later', hlater', hbehind'⟩ := h'.anchors
  refine ⟨Nat.le_trans h.produced h'.produced, later ++ later', ?_, ?_⟩
  · rw [hlater', hlater, List.append_assoc]
  · intro a ha
    rcases List.mem_append.mp ha with ha | ha
    · exact hbehind a ha
    · exact Nat.le_trans h.produced (hbehind' a ha)

theorem grows_anchor (t : Track) : t.Grows t.anchor :=
  ⟨Nat.le_refl _, [t.produced], rfl, fun _ ha => Nat.le_of_eq (List.mem_singleton.mp ha).symm⟩

theorem grows_set (t : Track) (key : String) (value : Value) : t.Grows (t.set key value) := by
  obtain ⟨hproduced, hanchors⟩ := t.grows_anchor
  unfold set
  split
  · exact ⟨hproduced, hanchors⟩
  · split
    · exact .refl t
    · exact ⟨hproduced, hanchors⟩

theorem grows_ask (t : Track) (q : Request ε) : t.Grows (t.ask q) := by
  cases q with
  | mark key value => exact t.grows_set key value
  | barrier => exact t.grows_anchor
  | _ => exact .refl t

theorem grows_foldl_ask (t : Track) (qs : List (Request ε)) : t.Grows (qs.foldl ask t) := by
  induction qs generalizing t with
  | nil => exact .refl t
  | cons q qs ih => exact (t.grows_ask q).trans (ih _)

theorem grows_add (t : Track) (pull : Pull ε) : t.Grows (t.add pull) := by
  have hasked := t.grows_foldl_ask pull.asked
  exact ⟨Nat.le_add_right _ _, hasked.anchors⟩

theorem grows_foldl_add (t : Track) (pulls : List (Pull ε)) : t.Grows (pulls.foldl add t) := by
  induction pulls generalizing t with
  | nil => exact .refl t
  | cons pull pulls ih => exact (t.grows_add pull).trans (ih _)

end Track

/-! ## Where reads end -/

namespace Stage

variable {tap : Tap ι ε} {window : Window} {s s' : Stage ι ε} {f f' : Front ι ε} {reply : Reply}
  {t : Track} {position : Nat}

/-- A read reaches as far as its window, or to a mark at a distance. -/
theorem Sound.reach_cases (h : s.Sound) (size : Nat) :
    s.reach size = size ∨
      ∃ m ∈ s.desk.marks.land.pending, s.reach size = m.distance ∧ 0 < m.distance := by
  unfold reach Marks.next?
  cases hpending : s.desk.marks.land.pending with
  | nil => exact .inl rfl
  | cons m rest =>
    have hm : m ∈ s.desk.marks.land.pending := by simp [hpending]
    show min size m.distance = size ∨ _
    by_cases hle : size ≤ m.distance
    · exact .inl (Nat.min_eq_left hle)
    · have hreach : min size m.distance = m.distance := by omega
      exact .inr ⟨m, List.mem_cons_self, hreach, h.marks.pos_of_mem_land m hm⟩

/-- A mark stands right in front of the reader. -/
def Barred (s : Stage ι ε) : Prop := ∃ m ∈ s.desk.marks.pending, m.distance = 0

theorem Tracked.anchored (h : s.Tracked position t) (hbarred : s.Barred) : position ∈ t.anchors := by
  obtain ⟨m, hm, hdistance⟩ := hbarred
  obtain ⟨passed, hanchors, -⟩ := h.stands.anchors
  rw [hanchors]
  refine List.mem_append_right passed (List.mem_map.mpr ⟨m, hm, ?_⟩)
  omega

/-- A window that is filled is full, or the stream has ended, or behind bytes that the reader got a
mark has come. -/
theorem Sound.fill_ends {fresh : Bool} (h : s.Sound) (hb : window.size ≠ 0 → s.buffer = [])
    (hfill : Stage.fill tap fresh window s f = (.ok reply, s', f')) :
    reply.count = window.size ∨ (s'.done = true ∧ s'.buffer = []) ∨
      s'.Barred ∧ (fresh = true → 0 < reply.count) := by
  refine fill_induct (P := fun fresh window s _ reply s' => s.Sound →
    (window.size ≠ 0 → s.buffer = []) →
    reply.count = window.size ∨ (s'.done = true ∧ s'.buffer = []) ∨
      s'.Barred ∧ (fresh = true → 0 < reply.count)) ?full ?ended ?more ?aside hfill h hb
  case full =>
    intro fresh window s f hw _ _
    exact .inl hw.symm
  case ended =>
    intro fresh window s s₁ f f₁ r hw hpull _ _ hb
    exact .inr (.inl ⟨rfl, (pull_buffer hpull).trans (hb hw)⟩)
  case more =>
    intro fresh window s s₁ s' f f₁ r r' hw hpull hcount _ ih h hb
    obtain ⟨-, -, -, -, -, -, hle⟩ := pull_ok hpull
    have hrest := ih ((h.pull hpull).2.landIf fresh) fun _ => (pull_buffer hpull).trans (hb hw)
    rw [Window.size_drop, Window.size_write] at hrest
    rw [Reply.length_bytes]
    dsimp only
    refine hrest.imp (fun hfull => ?_) (.imp_right fun hbarred => ⟨hbarred.1, fun _ => ?_⟩)
    · omega
    · omega
  case aside =>
    intro fresh window s s₁ f f₁ r hw hpull _ hpending h hb
    obtain ⟨hbuffer, hsound⟩ := h.pull hpull
    rw [hb hw] at hbuffer
    have hmarks : s₁.desk.marks.Ordered 0 := by simpa [hbuffer] using hsound.marks
    cases fresh with
    | true => exact absurd hmarks.land_pending_eq_nil hpending
    | false =>
      obtain ⟨m, hm⟩ := List.exists_mem_of_ne_nil _ hpending
      refine .inr (.inr ⟨⟨m, hm, ?_⟩, nofun⟩)
      exact Nat.le_zero.mp (hmarks.within m hm)

/-- A read brings as much as fits the window, or the stream has ended, or behind the bytes that it
brought a mark has come. -/
theorem Sound.read_ends (h : s.Sound) (hread : s.read tap window f = (.ok reply, s', f')) :
    reply.count ≤ window.size ∧
      (reply.count = window.size ∨ (s'.done = true ∧ s'.buffer = []) ∨
        s'.Barred ∧ 0 < reply.count) := by
  have hreach := s.reach_le window.size
  have hlen : (s.buffer.take (s.reach window.size)).length =
      min (s.reach window.size) s.buffer.length := List.length_take
  -- what was served up to a mark is all that the reader gets
  have hmark : ∀ m ∈ s.desk.marks.land.pending, s.reach window.size = m.distance →
      (s.buffer.take (s.reach window.size)).length = s.reach window.size ∧
        (s.served (s.reach window.size)).Barred := by
    intro m hm hdistance
    have hwithin := h.marks.land.within m hm
    have hserved : (s.buffer.take (s.reach window.size)).length = s.reach window.size := by omega
    refine ⟨hserved, _, List.mem_map.mpr ⟨m, hm, rfl⟩, ?_⟩
    show m.distance - (s.buffer.take (s.reach window.size)).length = 0
    omega
  rcases read_cases hread with ⟨hdone, rfl, rfl, -⟩ | ⟨r, -, hfill, rfl⟩
  · show (s.buffer.take (s.reach window.size)).length ≤ window.size ∧
      ((s.buffer.take (s.reach window.size)).length = window.size ∨ _)
    refine ⟨by omega, ?_⟩
    by_cases hall : s.buffer.length ≤ s.reach window.size
    · exact .inr (.inl ⟨hdone, List.drop_of_length_le hall⟩)
    · rcases h.reach_cases window.size with hfull | ⟨m, hm, hdistance, hpos⟩
      · exact .inl (by omega)
      · obtain ⟨hserved, hbarred⟩ := hmark m hm hdistance
        exact .inr (.inr ⟨hbarred, by
          show 0 < (s.buffer.take (s.reach window.size)).length
          omega⟩)
  · have hsize : ((window.take (s.reach window.size)).drop
        (s.buffer.take (s.reach window.size)).length).size =
          s.reach window.size - (s.buffer.take (s.reach window.size)).length := by
      simp only [Window.size_drop, Window.size_take, Nat.min_eq_left hreach]
    have hserved : s.reach window.size - (s.buffer.take (s.reach window.size)).length ≠ 0 →
        (s.served (s.reach window.size)).buffer = [] :=
      fun hroom => List.drop_of_length_le (by omega)
    rw [← hsize] at hserved
    have hle := (count_of_fill hserved hfill).1
    have hends := (h.served (s.reach window.size)).fill_ends hserved hfill
    rw [hsize] at hle hends
    dsimp only
    refine ⟨by omega, ?_⟩
    rcases h.reach_cases window.size with hfull | ⟨m, hm, hdistance, hpos⟩
    · refine hends.imp (fun hcount => by omega) (.imp_right fun ⟨hbarred, hfresh⟩ => ?_)
      refine ⟨hbarred, ?_⟩
      by_cases hnil : s.buffer.take (s.reach window.size) = []
      · have hpos := hfresh (List.isEmpty_iff.mpr hnil)
        omega
      · have hpos := List.length_pos_iff.mpr hnil
        omega
    · obtain ⟨hall, hbarred⟩ := hmark m hm hdistance
      rw [fill_of_size_eq_zero _ _ (hsize.trans (by omega))] at hfill
      obtain ⟨⟩ := hfill
      refine .inr (.inr ⟨hbarred, ?_⟩)
      omega

theorem Tracked.read_ends (h : s.Tracked position t)
    (hread : s.read tap window f = (.ok reply, s', f')) :
    reply.count ≤ window.size ∧
      (reply.count = window.size ∨ (s'.done = true ∧ s'.buffer = []) ∨
        position + reply.count ∈ ((readPulls tap window s f).foldl Track.add t).anchors ∧
          0 < reply.count) := by
  obtain ⟨hle, hends⟩ := h.sound.read_ends hread
  obtain ⟨htracked, -⟩ := h.read hread
  exact ⟨hle, hends.imp_right (.imp_right (.imp_left htracked.anchored))⟩

end Stage

/-! ## Runs of lines -/

namespace Bench

/-- How the diary of the stage in front goes on when a line is read. -/
def lineDiary (tap : Tap ι ε) (post : Post) (b : Bench ι ε) (d : Diary ι ε) : Diary ι ε :=
  match b.front.stages with
  | [] => d
  | s :: rest =>
    if b.LineAtHand post then d
    else
      match s.read tap (b.lineWindow post) { b.front with stages := rest } with
      | (.ok reply, _, _) =>
        d.read tap (b.lineWindow post) s { b.front with stages := rest } reply
      | (.error _, _, _) => d

variable {tap : Tap ι ε} {post : Post} {s : Stage ι ε} {rest : List (Stage ι ε)} {b : Bench ι ε}

theorem lineDiary_of_atHand (h : b.LineAtHand post) (d : Diary ι ε) :
    b.lineDiary tap post d = d := by
  unfold lineDiary
  split
  · rfl
  · rw [if_pos h]

theorem lineDiary_of_read (h : ¬b.LineAtHand post) (hb : b.front.stages = s :: rest)
    {reply : Reply} {s' : Stage ι ε} {f' : Front ι ε} (d : Diary ι ε)
    (hread : s.read tap (b.lineWindow post) { b.front with stages := rest } =
      (.ok reply, s', f')) :
    b.lineDiary tap post d =
      d.read tap (b.lineWindow post) s { b.front with stages := rest } reply := by
  simp only [lineDiary, hb, if_neg h, hread]

/-- Some lines in a row, if all are got, with the diary of the stage in front. -/
def tellLines (tap : Tap ι ε) (post : Post) :
    Nat → Bench ι ε → Diary ι ε → Option (List (Option String) × Diary ι ε × Bench ι ε)
  | 0, b, d => some ([], d, b)
  | n + 1, b, d =>
    match b.readLine (.through tap) post with
    | (.ok line, b') =>
      (b'.tellLines tap post n (b.lineDiary tap post d)).map fun (lines, d', b'') =>
        (line :: lines, d', b'')
    | (.error _, _) => none

end Bench

namespace Stage

variable {post : Post} {first s : Stage ι ε} {d₀ d : Diary ι ε} {line : Bytes}
  {results : List (Option String)}

/-- A stage at a post has read lines from one in front, which was as it is `first` with this diary,
and may have looked ahead in between; of the stage in front nothing else was asked. What is at hand of
the next line, how the stage in front is now, its diary, and the lines. -/
inductive Reads (post : Post) (first : Stage ι ε) (d₀ : Diary ι ε) :
    Bytes → Stage ι ε → Diary ι ε → List (Option String) → Prop
  | begin : Reads post first d₀ [] first d₀ []
  | line {tap : Tap ι ε} {s s' : Stage ι ε} {rest rest' : List (Stage ι ε)} {b b' : Bench ι ε}
    {d : Diary ι ε} {results : List (Option String)} {result : Option String} :
    Reads post first d₀ b.desk.line s d results → b.front.stages = s :: rest →
      b.readLine (.through tap) post = (.ok result, b') → b'.front.stages = s' :: rest' →
        Reads post first d₀ b'.desk.line s' (b.lineDiary tap post d) (results ++ [result])
  | line_error {tap : Tap ι ε} {s s' : Stage ι ε} {rest rest' : List (Stage ι ε)}
    {b b' : Bench ι ε} {d : Diary ι ε} {results : List (Option String)} {e : StageError} :
    Reads post first d₀ b.desk.line s d results → b.front.stages = s :: rest →
      b.readLine (.through tap) post = (.error e, b') → b'.front.stages = s' :: rest' →
        Reads post first d₀ b'.desk.line s' d results
  | peek {tap : Tap ι ε} {size : Nat} {line : Bytes} {s s' : Stage ι ε} {f f' : Front ι ε}
    {d : Diary ι ε} {results : List (Option String)} {bytes : Bytes} :
    Reads post first d₀ line s d results → s.peek tap size f = (.ok bytes, s', f') →
      Reads post first d₀ line s' (d.peek tap size s f) results
  | peek_error {tap : Tap ι ε} {size : Nat} {line : Bytes} {s s' : Stage ι ε} {f f' : Front ι ε}
    {d : Diary ι ε} {results : List (Option String)} {e : StageError} :
    Reads post first d₀ line s d results → s.peek tap size f = (.error e, s', f') →
      Reads post first d₀ line s' d results

theorem Reads.tellLines {tap : Tap ι ε} {rest : List (Stage ι ε)} {b b' : Bench ι ε} {n : Nat}
    {lines : List (Option String)} {d' : Diary ι ε}
    (h : Reads post first d₀ b.desk.line s d results) (hb : b.front.stages = s :: rest)
    (hlines : b.tellLines tap post n d = some (lines, d', b')) :
    ∃ s' rest', b'.front.stages = s' :: rest' ∧
      Reads post first d₀ b'.desk.line s' d' (results ++ lines) := by
  induction n generalizing b s rest d results lines with
  | zero =>
    obtain ⟨⟩ := hlines
    rw [List.append_nil]
    exact ⟨s, rest, hb, h⟩
  | succ n ih =>
    unfold Bench.tellLines at hlines
    split at hlines
    next result b₁ hline =>
      obtain ⟨⟨lines', d₁, b₂⟩, hlines', ⟨⟩⟩ := Option.map_eq_some_iff.mp hlines
      obtain ⟨s₁, rest₁, hb₁⟩ := Bench.readLine_stages hb hline
      obtain ⟨s', rest', hb', h'⟩ := ih (h.line hb hline hb₁) hb₁ hlines'
      rw [List.append_assoc] at h'
      exact ⟨s', rest', hb', h'⟩
    next => cases hlines

end Stage

/-! ## What the lines are -/

/-- A stream with stops that begins as the diary says: what was produced comes first, and what the
diary does not tell of lies behind that. -/
structure Diary.Opens (d : Diary ι ε) (done : Bool) (stops : List Nat) (stream : Bytes) :
    Prop where
  stream : ∃ rest, stream = bytesOf d.portions ++ rest ∧ (done = true → rest = [])
  stops : ∃ later, stops = d.track.anchors ++ later ∧ ∀ a ∈ later, d.track.produced ≤ a

/-- What begins as a diary says begins as its beginning said. -/
theorem Diary.Opens.earlier {d d' : Diary ι ε} {done done' : Bool} {portions : List Portion}
    {pulls : List (Pull ε)} {stops : List Nat} {stream : Bytes} (h : d'.Opens done' stops stream)
    (hportions : d'.portions = d.portions ++ portions)
    (htrack : d'.track = pulls.foldl Track.add d.track)
    (hdone : done = true → done' = true ∧ portions = []) : d.Opens done stops stream := by
  obtain ⟨⟨rest, hstream, hrest⟩, later, hstops, hlater⟩ := h
  obtain ⟨hproduced, new, hanchors, hnew⟩ := d.track.grows_foldl_add pulls
  rw [htrack] at hstops hlater
  refine ⟨⟨bytesOf portions ++ rest, ?_, fun hended => ?_⟩, new ++ later, ?_, ?_⟩
  · rw [hstream, hportions, bytesOf_append, List.append_assoc]
  · obtain ⟨hended', hnone⟩ := hdone hended
    rw [hnone, hrest hended', bytesOf_nil, List.append_nil]
  · rw [hstops, hanchors, List.append_assoc]
  · intro a ha
    rcases List.mem_append.mp ha with ha | ha
    · exact hnew a ha
    · exact Nat.le_trans hproduced (hlater a ha)

/-- Where the reader of a stage is who begins to look for lines. -/
def Diary.reading (d : Diary ι ε) : Line.Reading := ⟨d.taken.length, []⟩

namespace Stage

variable {tap : Tap ι ε} {window : Window} {s s' : Stage ι ε} {f f' : Front ι ε} {reply : Reply}
  {post : Post} {first : Stage ι ε} {d₀ d : Diary ι ε} {line : Bytes} {start : Line.Reading}
  {results : List (Option String)} {cap : Nat}

/-- In every stream with stops that begins as the diary says, the lines so far are those that are got
there, and the reader is where it would be there. -/
structure Told (cap : Nat) (start : Line.Reading) (s : Stage ι ε) (d : Diary ι ε) (line : Bytes)
    (results : List (Option String)) : Prop where
  line_le : line.length ≤ cap
  reached : Reached s d
  shown : ∀ {stops : List Nat} {stream : Bytes}, d.Opens s.done stops stream →
    results = (start.gots cap stops stream results.length).map (·.map Utf8.lossy) ∧
      start.after cap stops stream results.length = ⟨d.taken.length, line⟩

namespace Told

/-- One line more is got where the reader is. -/
theorem succ {stops : List Nat} {stream : Bytes} {r r' : Line.Reading} {bytes : Option Bytes}
    (hresults : results = (start.gots cap stops stream results.length).map (·.map Utf8.lossy) ∧
      start.after cap stops stream results.length = r)
    (hgot : r.got cap stops stream = bytes) (hnext : r.next cap stops stream = r') :
    results ++ [bytes.map Utf8.lossy] =
        (start.gots cap stops stream (results ++ [bytes.map Utf8.lossy]).length).map
          (·.map Utf8.lossy) ∧
      start.after cap stops stream (results ++ [bytes.map Utf8.lossy]).length = r' := by
  obtain ⟨hgots, hafter⟩ := hresults
  rw [List.length_append, List.length_singleton, Line.Reading.gots_succ,
    Line.Reading.after_succ, hafter, hgot, hnext, List.map_append, ← hgots]
  exact ⟨rfl, rfl⟩

/-- A line is taken that is at hand. -/
theorem at_hand (h : Told cap start s d line results)
    (hline : Line.newline ∈ line ∨ cap ≤ line.length) :
    Told cap start s d (Line.first line).2 (results ++ [(Line.first line).1.map Utf8.lossy]) := by
  refine ⟨Nat.le_trans (Line.length_first_le line) h.line_le, h.reached, ?_⟩
  intro stops stream hopens
  have hbrings : (⟨d.taken.length, line⟩ : Line.Reading).brings cap stops stream = [] :=
    Line.Reading.brings_of_atHand hline
  refine succ (h.shown hopens) ?_ ?_
  · rw [Line.Reading.got, Line.Reading.seen, hbrings, List.append_nil]
  · rw [Line.Reading.next, Line.Reading.seen, hbrings, List.append_nil]
    rfl

/-- A line is taken from what is at hand and what a read brings. -/
theorem read (h : Told cap start s d line results)
    (hhand : ¬(Line.newline ∈ line ∨ cap ≤ line.length))
    (hwindow : window.size = cap - line.length)
    (hread : s.read tap window f = (.ok reply, s', f')) :
    Told cap start s' (d.read tap window s f reply) (Line.first (line ++ reply.bytes window)).2
      (results ++ [(Line.first (line ++ reply.bytes window)).1.map Utf8.lossy]) := by
  have hok := not_errored_of_read hread
  have htracked := h.reached.tracked hok
  have hcount := Reply.length_bytes reply window
  obtain ⟨hle, hends⟩ := htracked.read_ends hread
  obtain ⟨htracked', hclear⟩ := htracked.read hread
  have hroom : line.length < cap := Nat.lt_of_not_le fun hfull => hhand (.inr hfull)
  have hlen : (line ++ reply.bytes window).length ≤ cap := by
    rw [List.length_append]
    omega
  have htrack : (d.read tap window s f reply).track =
      (readPulls tap window s f).foldl Track.add d.track := List.foldl_append
  refine ⟨Nat.le_trans (Line.length_first_le _) hlen, h.reached.read hread, ?_⟩
  intro stops stream hopens
  have hearlier : d.Opens s.done stops stream := hopens.earlier rfl htrack (read_of_done · hread)
  obtain ⟨⟨rest, hstream, hrest⟩, later, hstops, hlater⟩ := hopens
  rw [htrack] at hstops hlater
  -- the reply comes next in the stream, before what lies ahead now
  have hahead : stream.drop d.taken.length = reply.bytes window ++ (s'.buffer ++ rest) := by
    have hbytes : stream = d.taken ++ (reply.bytes window ++ (s'.buffer ++ rest)) := by
      rw [hstream, ← List.append_assoc (reply.bytes window), read_portions hread]
      show bytesOf (d.portions ++ s.readPortions tap window f) ++ rest = _
      rw [bytesOf_append, ← (h.reached.accounts hok).1]
      simp only [List.append_assoc]
    rw [hbytes, List.drop_left]
  have hbrings : (⟨d.taken.length, line⟩ : Line.Reading).brings cap stops stream =
      reply.bytes window := by
    refine Line.Reading.brings_eq hhand hahead ?_ ?_ ?_
    · show (reply.bytes window).length ≤ cap - line.length
      omega
    · intro a ha
      rw [hstops] at ha
      rcases List.mem_append.mp ha with ha | ha
      · rw [hcount]
        exact hclear a ha
      · have hbehind := hlater a ha
        rw [htracked'.produced] at hbehind
        refine .inr ?_
        show d.taken.length + (reply.bytes window).length ≤ a
        omega
    · rw [hcount, hstops]
      rcases hends with hfull | ⟨hdone, hempty⟩ | ⟨hanchored, hpos⟩
      · exact .inl (hfull.trans hwindow)
      · rw [hempty, hrest hdone]
        exact .inr (.inr rfl)
      · exact .inr (.inl ⟨List.mem_append_left later hanchored, hpos⟩)
  refine succ (h.shown hearlier) ?_ ?_
  · rw [Line.Reading.got, Line.Reading.seen, hbrings]
  · rw [Line.Reading.next, Line.Reading.seen, hbrings]
    show _ = (⟨(d.taken ++ reply.bytes window).length, _⟩ : Line.Reading)
    rw [List.length_append]

/-- Looking ahead shows nothing of the stream to who reads lines. -/
theorem peek (h : Told cap start s d line results) {size : Nat} {bytes : Bytes}
    (hpeek : s.peek tap size f = (.ok bytes, s', f')) :
    Told cap start s' (d.peek tap size s f) line results := by
  have htrack : (d.peek tap size s f).track =
      (peekPulls tap size s f).foldl Track.add d.track := List.foldl_append
  refine ⟨h.line_le, h.reached.peek hpeek, fun hopens => h.shown (hopens.earlier rfl htrack ?_)⟩
  intro hdone
  obtain ⟨hlook, -⟩ := peek_ok hpeek
  rw [lookAhead_of_enough tap (.inr hdone)] at hlook
  obtain ⟨⟩ := hlook
  exact ⟨hdone, by rw [peekPortions, if_pos (.inr hdone)]⟩

/-- If the stage in front fails, all else stays as it is. -/
theorem fail (h : Told cap start s d line results) (hreached : Reached s' d)
    (hfail : s' = s ∨ s.done = false ∧ s'.errored = true) :
    Told cap start s' d line results := by
  refine ⟨h.line_le, hreached, fun hopens => h.shown ⟨?_, hopens.stops⟩⟩
  rcases hfail with rfl | ⟨hdone, -⟩
  · exact hopens.stream
  · obtain ⟨rest, hstream, -⟩ := hopens.stream
    refine ⟨rest, hstream, fun hdone' => ?_⟩
    rw [hdone] at hdone'
    cases hdone'

end Told

theorem Reads.told (h : Reads post first d₀ line s d results) (hfirst : Reached first d₀) :
    Told post.lineCap d₀.reading s d line results := by
  induction h with
  | begin => exact ⟨Nat.zero_le _, hfirst, fun _ => ⟨rfl, rfl⟩⟩
  | @line tap s s' rest rest' b b' d results result _ hb hline hb' ih =>
    rcases Bench.readLine_ok hb hline hb' with
      ⟨hat, rfl, rfl, hdesk⟩ | ⟨hat, reply, f', hread, rfl, hdesk⟩
    · rw [Bench.lineDiary_of_atHand hat, hdesk]
      exact ih.at_hand hat
    · rw [Bench.lineDiary_of_read hat hb d hread, hdesk]
      exact ih.read hat rfl hread
  | line_error _ hb hline hb' ih =>
    obtain ⟨⟨f', hread⟩, hdesk⟩ := Bench.readLine_error hb hline hb'
    rw [hdesk]
    exact ih.fail (ih.reached.read_error hread) (ih.reached.sound.read_fail hread)
  | peek _ hpeek ih => exact ih.peek hpeek
  | peek_error _ hpeek ih =>
    exact ih.fail (ih.reached.peek_error hpeek) (ih.reached.sound.peek_fail hpeek)

end Stage

/-! ## Runs over a text -/

/-- A run of lines that a stage at a post has read from one in front, whatever had been done to that
stage before: this text came next. -/
structure LineRun (ι ε : Type) (post : Post) (text : Bytes) where
  first : Stage ι ε
  begun : Diary ι ε
  reached : Stage.Reached first begun
  line : Bytes
  last : Stage ι ε
  diary : Diary ι ε
  results : List (Option String)
  reads : Stage.Reads post first begun line last diary results
  /-- What may still come. -/
  rest : Bytes
  rest_eq : last.done = true → rest = []
  text_eq : (bytesOf diary.portions ++ rest).drop begun.taken.length = text

namespace LineRun

variable {ι' ε' : Type} {post : Post} {text : Bytes}

/-- All that the plugin in front gave and may still give. -/
def stream (r : LineRun ι ε post text) : Bytes := bytesOf r.diary.portions ++ r.rest

/-- The lines of the stream in windows that stop at the positions that the plugin anchored something
at. -/
def gots (r : LineRun ι ε post text) : List (Option Bytes) :=
  r.begun.reading.gots post.lineCap r.diary.track.anchors r.stream r.results.length

/-- No call of the run is cut by an anchor. -/
def Uncut (r : LineRun ι ε post text) : Prop :=
  r.begun.reading.Uncut post.lineCap r.diary.track.anchors r.stream r.results.length

theorem left_reading (r : LineRun ι ε post text) : r.begun.reading.left r.stream = text := r.text_eq

theorem results_eq (r : LineRun ι ε post text) : r.results = r.gots.map (·.map Utf8.lossy) :=
  ((r.reads.told r.reached).shown
    ⟨⟨r.rest, rfl, r.rest_eq⟩, [], (List.append_nil _).symm, nofun⟩).1

theorem results_take (r : LineRun ι ε post text) {n : Nat} (hn : n ≤ r.results.length) :
    r.results.take n = (r.begun.reading.gots post.lineCap r.diary.track.anchors r.stream n).map
      (·.map Utf8.lossy) := by
  rw [r.results_eq, gots, ← List.map_take, Line.Reading.gots_take hn]

/-- As long as no call is cut, the lines are those of the text. -/
theorem Uncut.results_take {r : LineRun ι ε post text} (h : r.Uncut) {n : Nat}
    (hn : n ≤ r.results.length) :
    r.results.take n = (Line.lines post.lineCap n text).map (·.map Utf8.lossy) := by
  have hgots := (Line.Reading.gots_eq_lines post.lineCap_pos (Nat.zero_le _) h).1
  rw [left_reading] at hgots
  rw [r.results_eq, gots, hgots, ← List.map_take, Line.lines_take hn]

/-- **Anchors and lines.** Let a stage read lines of a text, all of which fit the longest line with
their terminators, from two stages in front, in whatever portions their plugins give it and whatever
they anchor. If no call is cut by an anchor, the lines are the same. If none of one run is, and both
have looked for more lines than the text has, they are the same only if none of the other run is cut.
In any case the lines depend on nothing but the bytes and the positions of the anchors, no call is cut
where the anchors stand behind newlines, and a call for a line gets one or else the stage in front has
failed. -/
theorem same_lines {settings : Settings} {goals : List StreamType} {name : String} {order : Nat}
    (hfits : Line.Fits (settings.maxLineSize - 1) text)
    (r : LineRun ι ε (.ofSettings settings goals name order) text)
    (r' : LineRun ι' ε' (.ofSettings settings goals name order) text) :
    (r.Uncut → r'.Uncut → ∀ n, n ≤ r.results.length → n ≤ r'.results.length →
      r.results.take n = r'.results.take n) ∧
    (r.Uncut → ∀ n, Line.count text < n → n ≤ r.results.length → n ≤ r'.results.length →
      r.results.take n = r'.results.take n → r'.Uncut) ∧
    r.results = r.gots.map (·.map Utf8.lossy) ∧
    ((∀ a ∈ r.diary.track.anchors, r.begun.taken.length < a → a < r.stream.length →
      r.stream[a - 1]? = some Line.newline) → r.Uncut) ∧
    ∀ (tap : Tap ι ε) (b : Bench ι ε) (rest : List (Stage ι ε)), b.desk.line = r.line →
      b.front.stages = r.last :: rest →
        (∃ result, (b.readLine (.through tap) (.ofSettings settings goals name order)).1 =
          .ok result) ∨
        (b.readLine (.through tap) (.ofSettings settings goals name order)).2.desk.line = r.line ∧
          ∃ s' rest', (b.readLine (.through tap)
            (.ofSettings settings goals name order)).2.front.stages = s' :: rest' ∧
              s'.errored = true := by
  refine ⟨fun h h' n hn hn' => ?_, fun h n hcount hn hn' hsame => ?_, r.results_eq,
    fun hstops => Line.Reading.uncut_of_stops _ hstops, fun tap b rest hline hb => ?_⟩
  · rw [h.results_take hn, h'.results_take hn']
  · -- the other run gets the lines of the text as well, and then none
    rw [h.results_take hn, r'.results_take hn'] at hsame
    have hroom : settings.maxLineSize - 1 ≤
        (Post.ofSettings settings goals name order).lineCap :=
      Nat.sub_le_sub_right (Nat.le_max_left _ _) 1
    exact Line.Reading.uncut_of_gots (Post.lineCap_pos _) r'.left_reading (hfits.mono hroom) hcount
      hsame.symm _
  · rw [← hline]
    exact (r.reads.told r.reached).reached.sound.readLine_answered tap _ hb

/-- A plugin that gives the bytes that it holds, some at a time, and sets a barrier first if it holds
one of these numbers of bytes. -/
def barred (step : Nat) (bars : List Nat) (data : Bytes) : Plugin Bytes Unit where
  descriptor := { name := "barred" }
  init := do
    let _ ← Script.request (.setOutType .untyped)
    return .ok data
  read held window := do
    if held.length ∈ bars then
      Script.request .barrier
    let portion := held.take (min step window.size)
    return (.ok (.ofBytes portion), held.drop portion.length)

theorem of_barred (post : Post) (n : Nat) {lines : List (Option String)} {anchors : List Nat}
    {step : Nat} {bars : List Nat} {data : Bytes} {s : Stage Bytes Unit} {f : Front Bytes Unit}
    {b : Bench Bytes Unit}
    (hs : Stage.create (barred step bars data) {} [] ⟨[], ⟨.empty, .empty⟩⟩ = (.ok s, f))
    (hb : b = ⟨⟨0, .empty, []⟩, none, ⟨[s], f.scene⟩⟩)
    (hlines : (b.tellLines .closed post n (.begun s
      (Stage.firstAsked (barred step bars data) {} [] ⟨[], ⟨.empty, .empty⟩⟩))).map
        (fun r => (r.1, bytesOf r.2.1.portions, r.2.1.track.anchors)) =
      some (lines, data, anchors)) :
    ∃ r : LineRun Bytes Unit post data, r.results = lines ∧ r.begun.taken = [] ∧
      r.diary.track.anchors = anchors ∧ r.stream = data := by
  obtain ⟨⟨lines, d, b'⟩, hread, hrun⟩ := Option.map_eq_some_iff.mp hlines
  simp only [Prod.mk.injEq] at hrun
  obtain ⟨rfl, hbytes, hanchors⟩ := hrun
  have hstages : b.front.stages = [s] := by rw [hb]
  have hempty : b.desk.line = [] := by rw [hb]
  have hbegin : Stage.Reads post s (.begun s (Stage.firstAsked (barred step bars data) {} []
      ⟨[], ⟨.empty, .empty⟩⟩)) [] s _ [] := .begin
  rw [← hempty] at hbegin
  obtain ⟨s', rest', hb', h⟩ := hbegin.tellLines hstages hread
  rw [List.nil_append] at h
  have hstream : bytesOf d.portions ++ [] = data := by rw [hbytes, List.append_nil]
  exact ⟨⟨s, _, .create hs, _, s', d, lines, h, [], fun _ => rfl, hstream⟩, rfl, rfl, hanchors,
    hstream⟩

/-- Two lines that fit a window of four bytes. -/
def shortText : Bytes := [0x61, 0x62, 0x63, 0x0A, 0x64, 0x65, 0x66, 0x0A]

theorem shortText_fits : Line.Fits 4 shortText := by
  have hrows : Line.Fits 4 ([0x61, 0x62, 0x63] ++ Line.newline ::
      ([0x64, 0x65, 0x66] ++ Line.newline :: [])) :=
    .row (by decide) (by decide) (.row (by decide) (by decide) (.last (by decide) (by decide)))
  exact hrows

/-- The lines of a text from a stage whose plugin bars what it gives. -/
theorem run_of_shortText (n step : Nat) (bars anchors : List Nat) (lines : List (Option String))
    (hlines : ∀ {s : Stage Bytes Unit} {f : Front Bytes Unit},
      Stage.create (barred step bars shortText) {} [] ⟨[], ⟨.empty, .empty⟩⟩ = (.ok s, f) →
      (Bench.tellLines .closed (.ofSettings { maxLineSize := 5 } [] "reader" 1) n
        ⟨⟨0, .empty, []⟩, none, ⟨[s], f.scene⟩⟩ (.begun s
        (Stage.firstAsked (barred step bars shortText) {} [] ⟨[], ⟨.empty, .empty⟩⟩))).map
          (fun r => (r.1, bytesOf r.2.1.portions, r.2.1.track.anchors)) =
        some (lines, shortText, anchors)) :
    ∃ r : LineRun Bytes Unit (.ofSettings { maxLineSize := 5 } [] "reader" 1) shortText,
      r.results = lines ∧ r.begun.taken = [] ∧ r.diary.track.anchors = anchors ∧
        r.stream = shortText := by
  obtain ⟨s, f, hs⟩ : ∃ s f, Stage.create (barred step bars shortText) {} []
    ⟨[], ⟨.empty, .empty⟩⟩ = (.ok s, f) := ⟨_, _, rfl⟩
  exact of_barred _ n hs rfl (hlines hs)

/-- A barrier between them changes nothing. -/
theorem same_lines_shortText :
    Line.Fits 4 shortText ∧
    ∃ r r' : LineRun Bytes Unit (.ofSettings { maxLineSize := 5 } [] "reader" 1) shortText,
      r.diary.track.anchors = [] ∧ r.results.length = 3 ∧
      r'.diary.track.anchors = [4] ∧ r'.results.length = 3 ∧
      r.results.take 3 = r'.results.take 3 := by
  obtain ⟨r, hresults, htaken, hanchors, hstream⟩ :=
    run_of_shortText 3 3 [] [] [some "abc", some "def", none] fun hs => by
      cases hs
      decide +kernel
  obtain ⟨r', hresults', htaken', hanchors', hstream'⟩ :=
    run_of_shortText 3 2 [4] [4] [some "abc", some "def", none] fun hs => by
      cases hs
      decide +kernel
  have hfits : Line.Fits (({ maxLineSize := 5 } : Settings).maxLineSize - 1) shortText :=
    shortText_fits
  obtain ⟨hsame, -, -, hclear, -⟩ := same_lines hfits r r'
  obtain ⟨-, -, -, hclear', -⟩ := same_lines hfits r' r
  have huncut : r.Uncut := hclear (by rw [hanchors]; nofun)
  have huncut' : r'.Uncut := hclear' (by
    rw [hanchors', hstream', htaken']
    decide)
  have hlength : r.results.length = 3 := by rw [hresults]; rfl
  have hlength' : r'.results.length = 3 := by rw [hresults']; rfl
  exact ⟨shortText_fits, r, r', hanchors, hlength, hanchors', hlength',
    hsame huncut huncut' 3 (Nat.le_of_eq hlength.symm) (Nat.le_of_eq hlength'.symm)⟩

/-- A barrier behind the second byte cuts the first line in two. -/
theorem lines_of_shortText_differ :
    Line.Fits 4 shortText ∧
    ∃ r r' : LineRun Bytes Unit (.ofSettings { maxLineSize := 5 } [] "reader" 1) shortText,
      r.diary.track.anchors = [] ∧ r.results = [some "abc", some "def", none] ∧
      r'.diary.track.anchors = [2] ∧ r'.results = [some "ab", some "c", some "def", none] ∧
      ¬r'.Uncut := by
  obtain ⟨r, hresults, -, hanchors, -⟩ :=
    run_of_shortText 3 2 [] [] [some "abc", some "def", none] fun hs => by
      cases hs
      decide +kernel
  obtain ⟨r', hresults', htaken', hanchors', hstream'⟩ :=
    run_of_shortText 4 2 [6] [2] [some "ab", some "c", some "def", none] fun hs => by
      cases hs
      decide +kernel
  have hcut : ¬r'.Uncut := by
    unfold Uncut Diary.reading
    rw [htaken', hanchors', hstream', hresults']
    decide +kernel
  exact ⟨shortText_fits, r, r', hanchors, hresults, hanchors', hresults', hcut⟩

end LineRun

end MediaChain
