import MediaChain.Proofs.Stage.Conservation
import MediaChain.Proofs.Stage.Requests
import MediaChain.Proofs.Text.Document

/-!
# Reading lines

A stage that reads lines keeps the bytes that it has read of a line. It asks the stage in front for as
many bytes as fit its window besides, and if no mark stops them it gets these or else all there are
(`Stage.count_of_read`). So the lines that it gets are those of the stream of the stage in front
(`Line.lines`), whatever the portions in which the bytes come and however far that stage was read
ahead (`Stage.Lines.windowed`). The lines of a text are got one by one if each fits the window with
its terminator (`Stage.Lines.of_document`).
-/

namespace MediaChain

variable {ι ε : Type}

/-! ## Stages that set no marks -/

/-- A request that sets neither a mark nor a barrier. -/
def Request.IsPlain : Request ε → Prop
  | .mark _ _ | .barrier => False
  | _ => True

/-- Without such requests nothing comes to be pending. -/
theorem Marks.kept_clear : Marks.Kept (ε := ε) Request.IsPlain (·.pending = []) where
  place ahead hq h := by
    rename_i ms q
    cases q with
    | mark key value => exact hq.elim
    | barrier => exact hq.elim
    | _ => exact h
  land h := by simp [Marks.land, h]
  advance n h := by simp [Marks.advance, h]
  clear _ := rfl

namespace Stage

variable {tap : Tap ι ε} {window : Window} {s s' : Stage ι ε} {f f' : Front ι ε} {reply : Reply}

/-- Where the stream has ended a read asks for nothing more. -/
theorem read_of_done (hdone : s.done = true)
    (hread : s.read tap window f = (.ok reply, s', f')) :
    s'.done = true ∧ s.readPortions tap window f = [] := by
  refine ⟨?_, if_pos hdone⟩
  rcases read_cases hread with ⟨-, -, rfl, -⟩ | ⟨r, hmore, -⟩
  · exact hdone
  · rw [hdone] at hmore
    cases hmore

/-- A window that is filled is full, unless the stream has ended or a mark is pending. -/
theorem count_of_fill {fresh : Bool} (hb : window.size ≠ 0 → s.buffer = [])
    (hfill : fill tap fresh window s f = (.ok reply, s', f')) :
    reply.count ≤ window.size ∧ (s'.desk.marks.pending = [] →
      reply.count = window.size ∨ s'.done = true ∧ s'.buffer = []) := by
  refine fill_induct (P := fun _ window s _ reply s' => (window.size ≠ 0 → s.buffer = []) →
    reply.count ≤ window.size ∧ (s'.desk.marks.pending = [] →
      reply.count = window.size ∨ s'.done = true ∧ s'.buffer = []))
    ?full ?ended ?more ?aside hfill hb
  case full =>
    intro fresh window s f hw _
    exact ⟨Nat.zero_le _, fun _ => .inl hw.symm⟩
  case ended =>
    intro fresh window s s₁ f f₁ r hw hpull _ hb
    exact ⟨Nat.zero_le _, fun _ => .inr ⟨rfl, (pull_buffer hpull).trans (hb hw)⟩⟩
  case more =>
    intro fresh window s s₁ s' f f₁ r r' hw hpull _ _ ih hb
    obtain ⟨-, -, -, -, -, -, hle⟩ := pull_ok hpull
    obtain ⟨hrest, hfull⟩ := ih fun _ => (pull_buffer hpull).trans (hb hw)
    rw [Window.size_drop, Window.size_write] at hrest hfull
    rw [Reply.length_bytes]
    dsimp only
    exact ⟨by omega, fun hpending => (hfull hpending).imp_left fun h => by omega⟩
  case aside =>
    intro fresh window s s₁ f f₁ r _ _ _ hpending _
    exact ⟨Nat.zero_le _, fun h => absurd h hpending⟩

/-- A read without marks brings as much as fits the window, unless the stream has ended. -/
theorem count_of_read (hmarks : s.desk.marks.pending = [])
    (hread : s.read tap window f = (.ok reply, s', f')) (hmarks' : s'.desk.marks.pending = []) :
    reply.count ≤ window.size ∧
      (reply.count = window.size ∨ s'.done = true ∧ s'.buffer = []) := by
  have hreach : s.reach window.size = window.size := by
    simp [reach, Marks.next?, Marks.land, hmarks]
  have hlen : (s.buffer.take window.size).length = min window.size s.buffer.length :=
    List.length_take
  rcases read_cases hread with ⟨hdone, rfl, rfl, -⟩ | ⟨r, hdone, hfill, rfl⟩
  · rw [hreach]
    refine ⟨?_, ?_⟩
    · show (s.buffer.take window.size).length ≤ window.size
      omega
    · show (s.buffer.take window.size).length = window.size ∨
        s.done = true ∧ s.buffer.drop window.size = []
      by_cases hall : s.buffer.length ≤ window.size
      · exact .inr ⟨hdone, List.drop_of_length_le hall⟩
      · exact .inl (by omega)
  · rw [hreach] at hfill ⊢
    have hsize : ((window.take window.size).drop (s.buffer.take window.size).length).size =
        window.size - (s.buffer.take window.size).length := by simp
    obtain ⟨hle, hfull⟩ := count_of_fill (by
      rw [hsize]
      exact fun hroom => List.drop_of_length_le (by omega)) hfill
    rw [hsize] at hle hfull
    dsimp only
    exact ⟨by omega, (hfull hmarks').imp_left fun h => by omega⟩

end Stage

/-! ## Taking a line -/

namespace Bench

variable {tap : Tap ι ε} {post : Post} {s : Stage ι ε} {rest : List (Stage ι ε)} {b b' : Bench ι ε}

/-- The bytes at hand hold a newline or leave no room. -/
def LineAtHand (b : Bench ι ε) (post : Post) : Prop :=
  Line.newline ∈ b.desk.line ∨ post.lineCap ≤ b.desk.line.length

instance (b : Bench ι ε) (post : Post) : Decidable (b.LineAtHand post) :=
  inferInstanceAs (Decidable (_ ∨ _))

/-- The room that the bytes at hand leave. -/
def lineWindow (b : Bench ι ε) (post : Post) : Window := .blank (post.lineCap - b.desk.line.length)

theorem readLine_eq (b : Bench ι ε) (tap : Tap ι ε) (post : Post) :
    b.readLine tap post =
      if b.LineAtHand post then
        (.ok (b.takeLine b.desk.line).1, (b.takeLine b.desk.line).2)
      else
        match b.read tap post (b.lineWindow post) with
        | (.ok reply, b₁) =>
          (.ok (b₁.takeLine (b.desk.line ++ reply.bytes (b.lineWindow post))).1,
            (b₁.takeLine (b.desk.line ++ reply.bytes (b.lineWindow post))).2)
        | (.error e, b₁) => (.error e, b₁) := rfl

theorem takeLine_fst (b : Bench ι ε) (bytes : Bytes) :
    (b.takeLine bytes).1 = (Line.first bytes).1.map Utf8.lossy := by
  unfold takeLine Line.first
  split <;> rfl

theorem takeLine_snd (b : Bench ι ε) (bytes : Bytes) :
    (b.takeLine bytes).2 = b.setLine (Line.first bytes).2 := by
  unfold takeLine Line.first
  split <;> rfl

/-- What is done to the stage in front changes that stage and what lies in front of it. -/
theorem reach_of_stages {α : Type} {name : String} {op : StageOp ι ε α}
    (hb : b.front.stages = s :: rest) {result : Except StageError α} {s' : Stage ι ε}
    {f' : Front ι ε} (hop : op s { b.front with stages := rest } = (result, s', f')) :
    b.reach name op = (result, { b with front := { f' with stages := s' :: f'.stages } }) := by
  simp only [reach, hb, hop]

/-- A line at hand is taken without the stage in front. -/
theorem readLine_of_atHand (h : b.LineAtHand post) :
    b.readLine tap post =
      (.ok ((Line.first b.desk.line).1.map Utf8.lossy),
        b.setLine (Line.first b.desk.line).2) := by
  rw [readLine_eq, if_pos h, takeLine_fst, takeLine_snd]

/-- Else the stage in front is read from once. A line is taken from what is at hand then; what was at
hand before stays if the read fails. -/
theorem readLine_of_read (h : ¬b.LineAtHand post) (hb : b.front.stages = s :: rest)
    {result : Except StageError Reply} {s' : Stage ι ε} {f' : Front ι ε}
    (hread : s.read tap (b.lineWindow post) { b.front with stages := rest } = (result, s', f')) :
    (b.readLine (.through tap) post).1 = result.map (fun reply =>
      (Line.first (b.desk.line ++ reply.bytes (b.lineWindow post))).1.map Utf8.lossy) ∧
    (b.readLine (.through tap) post).2.front.stages = s' :: f'.stages ∧
    (∀ reply, result = .ok reply → (b.readLine (.through tap) post).2.desk.line =
      (Line.first (b.desk.line ++ reply.bytes (b.lineWindow post))).2) ∧
    ∀ e, result = .error e → (b.readLine (.through tap) post).2.desk.line = b.desk.line := by
  have hreach : b.reach post.name ((Tap.through tap).read (b.lineWindow post)) =
      (result, { b with front := { f' with stages := s' :: f'.stages } }) := reach_of_stages hb hread
  rw [readLine_eq, if_neg h, Bench.read, hreach]
  cases result with
  | error e =>
    refine ⟨rfl, rfl, fun reply heq => ?_, fun _ _ => rfl⟩
    cases heq
  | ok reply =>
    dsimp only
    rw [takeLine_snd, takeLine_fst]
    refine ⟨rfl, rfl, fun reply' heq => ?_, fun e heq => ?_⟩
    · rw [← Except.ok.inj heq]
      rfl
    · cases heq

/-- The stage in front stays where it is. -/
theorem readLine_stages (hb : b.front.stages = s :: rest) {result : Except StageError (Option String)}
    (hline : b.readLine (.through tap) post = (result, b')) :
    ∃ s' rest', b'.front.stages = s' :: rest' := by
  obtain rfl := congrArg Prod.snd hline
  by_cases hat : b.LineAtHand post
  · rw [readLine_of_atHand hat]
    exact ⟨s, rest, hb⟩
  · rcases hread : s.read tap (b.lineWindow post) { b.front with stages := rest } with
      ⟨result, s', f'⟩
    exact ⟨s', f'.stages, (readLine_of_read hat hb hread).2.1⟩

/-- Whoever gets a line had it at hand, or has read from the stage in front. -/
theorem readLine_ok {result : Option String} {s' : Stage ι ε} {rest' : List (Stage ι ε)}
    (hb : b.front.stages = s :: rest) (hline : b.readLine (.through tap) post = (.ok result, b'))
    (hb' : b'.front.stages = s' :: rest') :
    (b.LineAtHand post ∧ s' = s ∧ result = (Line.first b.desk.line).1.map Utf8.lossy ∧
      b'.desk.line = (Line.first b.desk.line).2) ∨
    ¬b.LineAtHand post ∧ ∃ reply f',
      s.read tap (b.lineWindow post) { b.front with stages := rest } = (.ok reply, s', f') ∧
      result =
        (Line.first (b.desk.line ++ reply.bytes (b.lineWindow post))).1.map Utf8.lossy ∧
      b'.desk.line = (Line.first (b.desk.line ++ reply.bytes (b.lineWindow post))).2 := by
  by_cases hat : b.LineAtHand post
  · rw [readLine_of_atHand hat] at hline
    obtain ⟨⟩ := hline
    obtain ⟨rfl, -⟩ := List.cons.inj (hb.symm.trans hb')
    exact .inl ⟨hat, rfl, rfl, rfl⟩
  · rcases hread : s.read tap (b.lineWindow post) { b.front with stages := rest } with
      ⟨result₀, s₁, f₁⟩
    obtain ⟨hfst, hstages, hdesk, -⟩ := readLine_of_read hat hb hread
    rw [hline] at hfst hstages hdesk
    obtain ⟨rfl, -⟩ := List.cons.inj (hstages.symm.trans hb')
    cases result₀ with
    | error e => cases hfst
    | ok reply => exact .inr ⟨hat, reply, f₁, rfl, Except.ok.inj hfst, hdesk reply rfl⟩

/-- Whoever gets an error has got it from the stage in front, and keeps what is at hand. -/
theorem readLine_error {e : StageError} {s' : Stage ι ε} {rest' : List (Stage ι ε)}
    (hb : b.front.stages = s :: rest) (hline : b.readLine (.through tap) post = (.error e, b'))
    (hb' : b'.front.stages = s' :: rest') :
    (∃ f', s.read tap (b.lineWindow post) { b.front with stages := rest } = (.error e, s', f')) ∧
      b'.desk.line = b.desk.line := by
  by_cases hat : b.LineAtHand post
  · rw [readLine_of_atHand hat] at hline
    cases hline
  · rcases hread : s.read tap (b.lineWindow post) { b.front with stages := rest } with
      ⟨result₀, s₁, f₁⟩
    obtain ⟨hfst, hstages, -, hdesk⟩ := readLine_of_read hat hb hread
    rw [hline] at hfst hstages hdesk
    obtain ⟨rfl, -⟩ := List.cons.inj (hstages.symm.trans hb')
    cases result₀ with
    | ok reply => cases hfst
    | error e' =>
      obtain rfl := Except.error.inj hfst
      exact ⟨⟨f₁, rfl⟩, hdesk e rfl⟩

/-- The portions that the plugin of the stage in front gives while a line is read. -/
def linePortions (tap : Tap ι ε) (post : Post) (b : Bench ι ε) : List Portion :=
  match b.front.stages with
  | [] => []
  | s :: rest =>
    if b.LineAtHand post then []
    else s.readPortions tap (b.lineWindow post) { b.front with stages := rest }

/-- The requests that it makes. -/
def lineAsked (tap : Tap ι ε) (post : Post) (b : Bench ι ε) : List (Request ε) :=
  match b.front.stages with
  | [] => []
  | s :: rest =>
    if b.LineAtHand post then []
    else s.readAsked tap (b.lineWindow post) { b.front with stages := rest }

/-- Some lines in a row, with the portions that came for them, if all are got and the plugin of the
stage in front asks for nothing. -/
def readLines (tap : Tap ι ε) (post : Post) :
    Nat → Bench ι ε → Option (List (Option String) × List Portion × Bench ι ε)
  | 0, b => some ([], [], b)
  | n + 1, b =>
    match b.readLine (.through tap) post with
    | (.ok line, b') =>
      if (b.lineAsked tap post).isEmpty then
        (b'.readLines tap post n).map fun (lines, portions, b') =>
          (line :: lines, b.linePortions tap post ++ portions, b')
      else none
    | (.error _, _) => none

end Bench

namespace Stage

variable {tap : Tap ι ε} {window : Window} {s s' : Stage ι ε} {f f' : Front ι ε} {reply : Reply}
  {e : StageError} {post : Post} {first : Stage ι ε} {line : Bytes} {portions : List Portion}
  {results : List (Option String)}

/-! ## Line by line -/

/-- A stage at a post has read lines from one in front, which was as it is `first`, and may have looked
ahead in between; of the stage in front nothing else was asked, and its plugin set no marks. What is
at hand of the next line, how the stage in front is now, the portions that its plugin gave at calls
that were successful, and the lines. -/
inductive Lines (post : Post) (first : Stage ι ε) :
    Bytes → Stage ι ε → List Portion → List (Option String) → Prop
  | begin : Lines post first [] first [] []
  | line {tap : Tap ι ε} {s s' : Stage ι ε} {rest rest' : List (Stage ι ε)} {b b' : Bench ι ε}
    {portions : List Portion} {results : List (Option String)} {result : Option String} :
    Lines post first b.desk.line s portions results → b.front.stages = s :: rest →
      b.readLine (.through tap) post = (.ok result, b') → b'.front.stages = s' :: rest' →
        (∀ q ∈ b.lineAsked tap post, q.IsPlain) →
          Lines post first b'.desk.line s' (portions ++ b.linePortions tap post)
            (results ++ [result])
  | line_error {tap : Tap ι ε} {s s' : Stage ι ε} {rest rest' : List (Stage ι ε)}
    {b b' : Bench ι ε} {portions : List Portion} {results : List (Option String)}
    {e : StageError} :
    Lines post first b.desk.line s portions results → b.front.stages = s :: rest →
      b.readLine (.through tap) post = (.error e, b') → b'.front.stages = s' :: rest' →
        Lines post first b'.desk.line s' portions results
  | peek {tap : Tap ι ε} {size : Nat} {line : Bytes} {s s' : Stage ι ε} {f f' : Front ι ε}
    {portions : List Portion} {results : List (Option String)} {bytes : Bytes} :
    Lines post first line s portions results → s.peek tap size f = (.ok bytes, s', f') →
      (∀ q ∈ s.peekAsked tap size f, q.IsPlain) →
        Lines post first line s' (portions ++ s.peekPortions tap size f) results
  | peek_error {tap : Tap ι ε} {size : Nat} {line : Bytes} {s s' : Stage ι ε} {f f' : Front ι ε}
    {portions : List Portion} {results : List (Option String)} {e : StageError} :
    Lines post first line s portions results → s.peek tap size f = (.error e, s', f') →
      Lines post first line s' portions results

theorem Lines.readLines {tap : Tap ι ε} {rest : List (Stage ι ε)} {b b' : Bench ι ε} {n : Nat}
    {lines : List (Option String)} {more : List Portion}
    (h : Lines post first b.desk.line s portions results) (hb : b.front.stages = s :: rest)
    (hlines : b.readLines tap post n = some (lines, more, b')) :
    ∃ s' rest', b'.front.stages = s' :: rest' ∧
      Lines post first b'.desk.line s' (portions ++ more) (results ++ lines) := by
  induction n generalizing b s rest portions results lines more with
  | zero =>
    obtain ⟨⟩ := hlines
    rw [List.append_nil, List.append_nil]
    exact ⟨s, rest, hb, h⟩
  | succ n ih =>
    unfold Bench.readLines at hlines
    split at hlines
    next line b₁ hline =>
      split at hlines
      next hasked =>
        obtain ⟨⟨lines', more', b₂⟩, hlines', ⟨⟩⟩ := Option.map_eq_some_iff.mp hlines
        obtain ⟨s₁, rest₁, hb₁⟩ := Bench.readLine_stages hb hline
        have hplain : ∀ q ∈ b.lineAsked tap post, q.IsPlain := by
          simp [List.isEmpty_iff.mp hasked]
        obtain ⟨s', rest', hb', h'⟩ := ih (h.line hb hline hb₁ hplain) hb₁ hlines'
        rw [List.append_assoc, List.append_assoc] at h'
        exact ⟨s', rest', hb', h'⟩
      next => cases hlines
    next => cases hlines

/-- The lines so far are those of the stream, what is at hand and what lies ahead is left of it, and
whatever may still come stands behind that. A stage in front that has failed had something that lay
ahead as well. -/
structure Windowed (cap : Nat) (first s : Stage ι ε) (line : Bytes) (portions : List Portion)
    (results : List (Option String)) : Prop where
  line_le : line.length ≤ cap
  sound : s.Sound
  clear : s.errored = false → s.desk.marks.pending = []
  gave : s.errored = false → Gave first.engine s.engine portions
  shown : ∃ ahead, (s.errored = false → ahead = s.buffer) ∧
    ∀ rest, (s.done = true → rest = []) →
      results = (Line.lines cap results.length (first.buffer ++ (bytesOf portions ++ rest))).map
        (·.map Utf8.lossy) ∧
      Line.left cap results.length (first.buffer ++ (bytesOf portions ++ rest)) =
        line ++ (ahead ++ rest)

namespace Windowed

variable {cap size : Nat}

/-- A line is taken that is at hand. -/
theorem at_hand (h : Windowed cap first s line portions results) (hcap : 0 < cap)
    (hline : Line.newline ∈ line ∨ cap ≤ line.length) :
    Windowed cap first s (Line.first line).2 portions
      (results ++ [(Line.first line).1.map Utf8.lossy]) := by
  obtain ⟨ahead, hahead, hshown⟩ := h.shown
  have hdecided : ∀ more : Bytes, Line.newline ∈ line ∨ line.length = cap ∨ more = [] := fun more =>
    hline.imp_right fun hfull => .inl (Nat.le_antisymm h.line_le hfull)
  refine ⟨Nat.le_trans (Line.length_first_le line) h.line_le, h.sound, h.clear, h.gave, ahead,
    hahead, fun rest hrest => ?_⟩
  obtain ⟨hresults, hleft⟩ := hshown rest hrest
  obtain ⟨hlines, hleft'⟩ := Line.lines_succ_of_left hcap hleft h.line_le (hdecided _)
  rw [List.length_append, List.length_singleton, hlines, hleft', List.map_append, ← hresults]
  exact ⟨rfl, rfl⟩

/-- A line is taken from what is at hand and what a read brings. -/
theorem read (h : Windowed cap first s line portions results) (hcap : 0 < cap)
    (hroom : line.length < cap) (hwindow : window.size = cap - line.length)
    (hread : s.read tap window f = (.ok reply, s', f'))
    (hasked : ∀ q ∈ s.readAsked tap window f, q.IsPlain) :
    Windowed cap first s' (Line.first (line ++ reply.bytes window)).2
      (portions ++ s.readPortions tap window f)
      (results ++ [(Line.first (line ++ reply.bytes window)).1.map Utf8.lossy]) := by
  have hok := not_errored_of_read hread
  have hsound := h.sound.read tap window f
  have hclear := Marks.kept_clear.read (h.clear hok) hasked
  rw [hread] at hsound hclear
  obtain ⟨hle, hfull⟩ := count_of_read (h.clear hok) hread hclear
  have hportions := read_portions hread
  obtain ⟨ahead, hahead, hshown⟩ := h.shown
  obtain rfl := hahead hok
  have hlen : (line ++ reply.bytes window).length ≤ cap := by
    rw [List.length_append, Reply.length_bytes]
    omega
  refine ⟨Nat.le_trans (Line.length_first_le _) hlen, hsound, fun _ => hclear,
    fun _ => (h.gave hok).append (read_gave h.sound.driven hread), s'.buffer, fun _ => rfl,
    fun rest hrest => ?_⟩
  -- what the plugin gave at this read stands in front of what may come
  obtain ⟨hresults, hleft⟩ := hshown (bytesOf (s.readPortions tap window f) ++ rest) fun hdone => by
    obtain ⟨hdone', hnone⟩ := read_of_done hdone hread
    rw [hnone, hrest hdone', bytesOf_nil, List.append_nil]
  rw [← List.append_assoc (bytesOf portions), ← bytesOf_append] at hresults hleft
  rw [← List.append_assoc s.buffer, ← hportions, List.append_assoc, ← List.append_assoc line]
    at hleft
  have hdecided : Line.newline ∈ line ++ reply.bytes window ∨
      (line ++ reply.bytes window).length = cap ∨ s'.buffer ++ rest = [] := by
    rcases hfull with hfull | ⟨hdone, hempty⟩
    · refine .inr (.inl ?_)
      rw [List.length_append, Reply.length_bytes]
      omega
    · rw [hempty, hrest hdone]
      exact .inr (.inr rfl)
  obtain ⟨hlines, hleft'⟩ := Line.lines_succ_of_left hcap hleft hlen hdecided
  rw [List.length_append, List.length_singleton, hlines, hleft', List.map_append, ← hresults]
  exact ⟨rfl, rfl⟩

/-- Looking ahead moves bytes from what may still come to what lies ahead. -/
theorem peek (h : Windowed cap first s line portions results) {bytes : Bytes}
    (hpeek : s.peek tap size f = (.ok bytes, s', f'))
    (hasked : ∀ q ∈ s.peekAsked tap size f, q.IsPlain) :
    Windowed cap first s' line (portions ++ s.peekPortions tap size f) results := by
  have hok := not_errored_of_peek hpeek
  have hsound := h.sound.peek tap size f
  have hclear := Marks.kept_clear.peek (h.clear hok) hasked
  rw [hpeek] at hsound hclear
  obtain ⟨hlook, -⟩ := peek_ok hpeek
  have hportions := (lookAhead_portions hlook).1
  obtain ⟨ahead, hahead, hshown⟩ := h.shown
  obtain rfl := hahead hok
  refine ⟨h.line_le, hsound, fun _ => hclear,
    fun _ => (h.gave hok).append (lookAhead_gave h.sound.driven hlook), s'.buffer, fun _ => rfl,
    fun rest hrest => ?_⟩
  have hshown := hshown (bytesOf (s.peekPortions tap size f) ++ rest) fun hdone => by
    rw [lookAhead_of_enough tap (.inr hdone)] at hlook
    obtain ⟨⟩ := hlook
    rw [peekPortions, if_pos (.inr hdone), hrest hdone, bytesOf_nil, List.append_nil]
  rwa [← List.append_assoc (bytesOf portions), ← bytesOf_append, ← List.append_assoc s.buffer,
    ← hportions] at hshown

/-- If the stage in front fails, all else stays as it is. -/
theorem fail (h : Windowed cap first s line portions results) (hsound : s'.Sound)
    (hfail : s' = s ∨ s.done = false ∧ s'.errored = true) :
    Windowed cap first s' line portions results := by
  rcases hfail with rfl | ⟨hdone, herrored⟩
  · exact h
  · have hnever : s'.errored ≠ false := by simp [herrored]
    obtain ⟨ahead, -, hshown⟩ := h.shown
    refine ⟨h.line_le, hsound, fun hok => absurd hok hnever, fun hok => absurd hok hnever, ahead,
      fun hok => absurd hok hnever, fun rest _ => hshown rest fun hdone' => ?_⟩
    rw [hdone] at hdone'
    cases hdone'

end Windowed

/-- A read that fails leaves a stage that has failed before as it was, and any other fails before the
end of the stream. -/
theorem Sound.read_fail (h : s.Sound) (hread : s.read tap window f = (.error e, s', f')) :
    s' = s ∨ s.done = false ∧ s'.errored = true := by
  have herrored' := h.read_error hread
  cases herrored : s.errored with
  | true =>
    unfold Stage.read at hread
    rw [if_pos herrored] at hread
    obtain ⟨⟩ := hread
    exact .inl rfl
  | false =>
    rw [read_eq tap window f herrored] at hread
    cases hdone : s.done with
    | true =>
      rw [if_pos hdone] at hread
      cases hread
    | false => exact .inr ⟨rfl, herrored'⟩

theorem Sound.peek_fail (h : s.Sound) {size : Nat}
    (hpeek : s.peek tap size f = (.error e, s', f')) :
    s' = s ∨ s.done = false ∧ s'.errored = true := by
  have herrored' := h.peek_error hpeek
  unfold Stage.peek at hpeek
  split at hpeek
  next =>
    obtain ⟨⟩ := hpeek
    exact .inl rfl
  next =>
    cases hdone : s.done with
    | true =>
      rw [lookAhead_of_enough tap (.inr hdone)] at hpeek
      cases hpeek
    | false => exact .inr ⟨rfl, herrored'⟩

theorem Lines.windows (h : Lines post first line s portions results) (hsound : first.Sound)
    (hclear : first.desk.marks.pending = []) :
    Windowed post.lineCap first s line portions results := by
  induction h with
  | begin =>
    refine ⟨Nat.zero_le _, hsound, fun _ => hclear, fun _ => .refl hsound.driven, first.buffer,
      fun _ => rfl, fun rest _ => ⟨rfl, rfl⟩⟩
  | @line tap s s' rest rest' b b' portions results result _ hb hline hb' hasked ih =>
    unfold Bench.linePortions
    unfold Bench.lineAsked at hasked
    rw [hb] at hasked ⊢
    dsimp only at hasked ⊢
    rcases Bench.readLine_ok hb hline hb' with
      ⟨hat, rfl, rfl, hdesk⟩ | ⟨hat, reply, f', hread, rfl, hdesk⟩
    · rw [if_pos hat, List.append_nil, hdesk]
      exact ih.at_hand post.lineCap_pos hat
    · rw [if_neg hat] at hasked ⊢
      rw [hdesk]
      have hroom : b.desk.line.length < post.lineCap := Nat.lt_of_not_le fun hle => hat (.inr hle)
      exact ih.read post.lineCap_pos hroom rfl hread hasked
  | @line_error tap s s' rest rest' b b' portions results e _ hb hline hb' ih =>
    obtain ⟨⟨f', hread⟩, hdesk⟩ := Bench.readLine_error hb hline hb'
    have hsound := ih.sound.read tap (b.lineWindow post) { b.front with stages := rest }
    rw [hread] at hsound
    rw [hdesk]
    exact ih.fail hsound (ih.sound.read_fail hread)
  | peek _ hpeek hasked ih => exact ih.peek hpeek hasked
  | @peek_error tap size line s s' f _ _ _ _ _ hpeek ih =>
    have hsound := ih.sound.peek tap size f
    rw [hpeek] at hsound
    exact ih.fail hsound (ih.sound.peek_fail hpeek)

/-- A call for a line gets one, or else the stage in front has failed and what is at hand stays. -/
theorem Sound.readLine_answered (h : s.Sound) (tap : Tap ι ε) (post : Post) {b : Bench ι ε}
    {rest : List (Stage ι ε)} (hb : b.front.stages = s :: rest) :
    (∃ result, (b.readLine (.through tap) post).1 = .ok result) ∨
      (b.readLine (.through tap) post).2.desk.line = b.desk.line ∧
        ∃ s' rest', (b.readLine (.through tap) post).2.front.stages = s' :: rest' ∧
          s'.errored = true := by
  obtain ⟨s', rest', hb'⟩ := Bench.readLine_stages hb (Prod.ext rfl rfl)
  cases hresult : (b.readLine (.through tap) post).1 with
  | ok result => exact .inl ⟨result, rfl⟩
  | error e =>
    obtain ⟨⟨f', hread⟩, hdesk⟩ := Bench.readLine_error hb (Prod.ext hresult rfl) hb'
    exact .inr ⟨hdesk, s', rest', hb', h.read_error hread⟩

theorem Lines.answered (h : Lines post first line s portions results) (hsound : first.Sound)
    (hclear : first.desk.marks.pending = []) {tap : Tap ι ε} {b : Bench ι ε}
    {rest : List (Stage ι ε)} (hline : b.desk.line = line) (hb : b.front.stages = s :: rest) :
    (∃ result, (b.readLine (.through tap) post).1 = .ok result) ∨
      (b.readLine (.through tap) post).2.desk.line = line ∧
        ∃ s' rest', (b.readLine (.through tap) post).2.front.stages = s' :: rest' ∧
          s'.errored = true := by
  rw [← hline]
  exact (h.windows hsound hclear).sound.readLine_answered tap post hb

/-- **Lines.** Let a stage read lines from one that sets no marks. Whatever may still come, the lines
are those that are shown of the stream in windows of one byte less than the longest line, and once
there is none there are none from then on. They fit the window and are, with their terminators, what
is at hand and what lies ahead, the bytes that came; as long as the stage in front has not failed, no
byte is missing. A call for a line gets one or else the stage in front has failed, and then what is at
hand stays. -/
theorem Lines.windowed {settings : Settings} {goals : List StreamType} {name : String} {order : Nat}
    (h : Lines (.ofSettings settings goals name order) first line s portions results)
    {d : Diary ι ε} (hfirst : Reached first d) (hclear : first.desk.marks.pending = []) :
    (∀ rest, (s.done = true → rest = []) →
      results = (Line.lines (max settings.maxLineSize 2 - 1) results.length
        (first.buffer ++ (bytesOf portions ++ rest))).map (·.map Utf8.lossy)) ∧
    (∀ i j, i ≤ j → j < results.length → results[i]? = some none → results[j]? = some none) ∧
    (∃ (pieces : List (Bytes × Bytes)) (ahead : Bytes),
      results.filterMap id = pieces.map (fun p => Utf8.lossy p.1) ∧
      (∀ p ∈ pieces, p.2 ∈ Line.terminators ∧ Line.newline ∉ p.1 ∧
        p.1.length ≤ max settings.maxLineSize 2 - 1) ∧
      pieces.flatMap (fun p => p.1 ++ p.2) ++ (line ++ ahead) = first.buffer ++ bytesOf portions ∧
      (s.errored = false → ahead = s.buffer ∧ Gave first.engine s.engine portions)) ∧
    ∀ (tap : Tap ι ε) (b : Bench ι ε) (rest : List (Stage ι ε)), b.desk.line = line →
      b.front.stages = s :: rest →
        (∃ result, (b.readLine (.through tap) (.ofSettings settings goals name order)).1 =
          .ok result) ∨
        (b.readLine (.through tap) (.ofSettings settings goals name order)).2.desk.line = line ∧
          ∃ s' rest', (b.readLine (.through tap)
            (.ofSettings settings goals name order)).2.front.stages = s' :: rest' ∧
              s'.errored = true := by
  have hwindows : Windowed (max settings.maxLineSize 2 - 1) first s line portions results :=
    h.windows hfirst.sound hclear
  obtain ⟨ahead, hahead, hshown⟩ := hwindows.shown
  obtain ⟨hresults, hleft⟩ := hshown [] fun _ => rfl
  rw [List.append_nil] at hresults hleft
  refine ⟨fun rest hrest => (hshown rest hrest).1, ?_, ?_, ?_⟩
  · intro i j hij hj hnone
    rw [hresults, List.getElem?_map, Line.map_lossy_eq_none_iff] at hnone ⊢
    exact Line.lines_none hij hj hnone
  · obtain ⟨pieces, hlines, hstream, hpieces⟩ :=
      Line.lines_pieces (max settings.maxLineSize 2 - 1) results.length
        (first.buffer ++ bytesOf portions)
    refine ⟨pieces, ahead, ?_, hpieces, ?_, fun hok => ⟨hahead hok, hwindows.gave hok⟩⟩
    · rw [hresults, Line.filterMap_map_lossy, hlines, List.map_map]
      rfl
    · rw [List.append_nil] at hleft
      rw [← hleft]
      exact hstream
  · exact fun tap b rest hline hb => h.answered hfirst.sound hclear hline hb

/-- A plugin that gives the bytes that it holds, three at a time. -/
def dripping (data : Bytes) : Plugin Bytes Unit where
  descriptor := { name := "dripping" }
  init := do
    let _ ← Script.request (.setOutType .untyped)
    return .ok data
  read held window :=
    let portion := held.take (min 3 window.size)
    return (.ok (.ofBytes portion), held.drop portion.length)

/-- Lines that are got from the plugin if it is read ahead first. -/
theorem Lines.of_dripping (post : Post) (n : Nat) (lines : List (Option String))
    {data bytes : Bytes} {s : Stage Bytes Unit} {f : Front Bytes Unit} {b : Bench Bytes Unit}
    (hs : Stage.create (dripping data) {} [] ⟨[], ⟨.empty, .empty⟩⟩ = (.ok s, f))
    (hpeek : (s.peek .closed 2 f).1 = .ok bytes) (hasked : s.peekAsked .closed 2 f = [])
    (hb : b = ⟨⟨0, .empty, []⟩, none, ⟨[(s.peek .closed 2 f).2.1], f.scene⟩⟩)
    (hlines : (b.readLines .closed post n).map (fun r =>
      (r.1, bytesOf (s.peekPortions .closed 2 f ++ r.2.1), r.2.2.front.stages.map Stage.done)) =
      some (lines, data, [true])) :
    ∃ (first s : Stage Bytes Unit) (line : Bytes) (portions : List Portion) (d : Diary Bytes Unit),
      Lines post first line s portions lines ∧ Reached first d ∧
      first.desk.marks.pending = [] ∧ s.done = true ∧
      first.buffer ++ (bytesOf portions ++ []) = data := by
  have hbegin : Lines post s [] s [] [] := .begin
  have hahead := hbegin.peek (Prod.ext hpeek rfl) (by simp [hasked])
  have hstages : b.front.stages = [(s.peek .closed 2 f).2.1] := by rw [hb]
  have hempty : b.desk.line = [] := by rw [hb]
  rw [← hempty] at hahead
  obtain ⟨⟨lines, more, b'⟩, hread, hrun⟩ := Option.map_eq_some_iff.mp hlines
  simp only [Prod.mk.injEq] at hrun
  obtain ⟨rfl, hbytes, hdone⟩ := hrun
  obtain ⟨s', rest', hb', h⟩ := hahead.readLines hstages hread
  rw [hb', List.map_cons] at hdone
  have hbuffer : s.buffer = [] := by
    cases hs
    rfl
  have hclear : s.desk.marks.pending = [] := by
    cases hs
    rfl
  refine ⟨s, s', _, _, _, h, .create hs, hclear, (List.cons.inj hdone).1, ?_⟩
  rw [hbuffer, List.nil_append, List.append_nil, List.nil_append]
  exact hbytes

/-- Lines in which a terminator, the end of a portion and that of a window meet. -/
def smallText : Document 4 where
  rows := [⟨"a", true⟩, ⟨"bcd", false⟩]
  last := some "ef"
  rows_proper := by decide +kernel
  last_proper := by decide +kernel

theorem Lines.of_smallText :
    ∃ (first s : Stage Bytes Unit) (line : Bytes) (portions : List Portion) (d : Diary Bytes Unit),
      Lines (.ofSettings { maxLineSize := 5 } [] "reader" 1) first line s portions
        [some "a", some "bcd", some "ef", none] ∧ Reached first d ∧
      first.desk.marks.pending = [] ∧ s.done = true ∧
      first.buffer ++ (bytesOf portions ++ []) = smallText.bytes := by
  obtain ⟨s, f, hs⟩ : ∃ s f, Stage.create (dripping smallText.bytes) {} []
    ⟨[], ⟨.empty, .empty⟩⟩ = (.ok s, f) := ⟨_, _, rfl⟩
  have hpeek : (s.peek .closed 2 f).1 = .ok [0x61, 0x0D] := by
    apply ok_of_toOption
    cases hs
    decide +kernel
  have hasked : s.peekAsked .closed 2 f = [] := by
    apply List.isEmpty_iff.mp
    cases hs
    decide +kernel
  refine Lines.of_dripping _ 4 _ hs hpeek hasked rfl ?_
  cases hs
  decide +kernel

/-- They are those that windows of four bytes show. -/
theorem Lines.windowed_smallText :
    ∃ (first s : Stage Bytes Unit) (line : Bytes) (portions : List Portion),
      Lines (.ofSettings { maxLineSize := 5 } [] "reader" 1) first line s portions
        [some "a", some "bcd", some "ef", none] ∧ s.done = true ∧
      first.buffer ++ (bytesOf portions ++ []) = smallText.bytes ∧
      [some "a", some "bcd", some "ef", none] =
        (Line.lines 4 4 (first.buffer ++ (bytesOf portions ++ []))).map (·.map Utf8.lossy) := by
  obtain ⟨first, s, line, portions, d, h, hfirst, hclear, hdone, hstream⟩ := Lines.of_smallText
  exact ⟨first, s, line, portions, h, hdone, hstream,
    (h.windowed hfirst hclear).1 [] fun _ => rfl⟩

/-- **Texts.** Let a stage read lines from one that sets no marks and whose stream is a text of lines
that fit the longest line without their terminators. What is shown are these lines in order and then
none, with an empty line behind each for every window that is full before its newline comes. So
these are the lines of the text if all rows fit the window with their terminators; and if it was
looked for more lines than the text has, then only if they do. -/
theorem Lines.of_document {settings : Settings} {goals : List StreamType} {name : String}
    {order : Nat} (h : Lines (.ofSettings settings goals name order) first line s portions results)
    {d : Diary ι ε} (hfirst : Reached first d) (hclear : first.desk.marks.pending = [])
    (hsize : 2 ≤ settings.maxLineSize) (doc : Document (settings.maxLineSize - 1)) {rest : Bytes}
    (hrest : s.done = true → rest = [])
    (hstream : first.buffer ++ (bytesOf portions ++ rest) = doc.bytes) :
    results = (List.range results.length).map (doc.shown[·]?) ∧
    (doc.Fits → results = (List.range results.length).map (doc.contents[·]?)) ∧
    (doc.contents.length < results.length →
      results = (List.range results.length).map (doc.contents[·]?) → doc.Fits) ∧
    ∀ (tap : Tap ι ε) (b : Bench ι ε) (rest : List (Stage ι ε)), b.desk.line = line →
      b.front.stages = s :: rest →
        (∃ result, (b.readLine (.through tap) (.ofSettings settings goals name order)).1 =
          .ok result) ∨
        (b.readLine (.through tap) (.ofSettings settings goals name order)).2.desk.line = line ∧
          ∃ s' rest', (b.readLine (.through tap)
            (.ofSettings settings goals name order)).2.front.stages = s' :: rest' ∧
              s'.errored = true := by
  have hcap : 0 < settings.maxLineSize - 1 := by omega
  have hpost : (Post.ofSettings settings goals name order).lineCap = settings.maxLineSize - 1 :=
    congrArg (· - 1) (Nat.max_eq_left hsize)
  obtain ⟨ahead, -, hshown⟩ := (h.windows hfirst.sound hclear).shown
  have hresults := (hshown rest hrest).1
  rw [hpost, hstream, doc.lines_bytes hcap] at hresults
  refine ⟨hresults, fun hfits => ?_, fun hcalls hwhole => ?_,
    fun tap b rest hline hb => h.answered hfirst.sound hclear hline hb⟩
  · rw [← Document.shown_eq_contents hcap hfits]
    exact hresults
  · -- the line that is looked for last of all is not there
    have hnone := congrArg (·[doc.contents.length]?) (hresults.symm.trans hwhole)
    refine Document.fits_of_length hcap ?_
    simpa [List.getElem?_range hcalls] using hnone

/-- The rows of the text above fit windows of four bytes. -/
theorem Lines.of_document_smallText :
    ∃ (first s : Stage Bytes Unit) (line : Bytes) (portions : List Portion),
      Lines (.ofSettings { maxLineSize := 5 } [] "reader" 1) first line s portions
        [some "a", some "bcd", some "ef", none] ∧ s.done = true ∧
      first.buffer ++ (bytesOf portions ++ []) = smallText.bytes ∧ smallText.Fits ∧
      [some "a", some "bcd", some "ef", none] = (List.range 4).map (smallText.contents[·]?) := by
  obtain ⟨first, s, line, portions, d, h, hfirst, hclear, hdone, hstream⟩ := Lines.of_smallText
  have hfits : smallText.Fits := by decide +kernel
  exact ⟨first, s, line, portions, h, hdone, hstream, hfits,
    (h.of_document hfirst hclear (by decide) smallText (fun _ => rfl) hstream).2.1 hfits⟩

/-- A line that fills a window without its terminator, and one behind it. -/
def fullText : Document 4 where
  rows := [⟨"abcd", false⟩, ⟨"ef", false⟩]
  last := none
  rows_proper := by decide +kernel
  last_proper := by decide +kernel

/-- Between these an empty line is shown, which is not in the text. -/
theorem Lines.stray_of_fullText :
    fullText.contents = ["abcd", "ef"] ∧
    ∃ (first s : Stage Bytes Unit) (line : Bytes) (portions : List Portion) (d : Diary Bytes Unit),
      Lines (.ofSettings { maxLineSize := 5 } [] "reader" 1) first line s portions
        [some "abcd", some "", some "ef", none] ∧ Reached first d ∧
      first.desk.marks.pending = [] ∧ s.done = true ∧
      first.buffer ++ (bytesOf portions ++ []) = fullText.bytes := by
  obtain ⟨s, f, hs⟩ : ∃ s f, Stage.create (dripping fullText.bytes) {} []
    ⟨[], ⟨.empty, .empty⟩⟩ = (.ok s, f) := ⟨_, _, rfl⟩
  have hpeek : (s.peek .closed 2 f).1 = .ok [0x61, 0x62] := by
    apply ok_of_toOption
    cases hs
    decide +kernel
  have hasked : s.peekAsked .closed 2 f = [] := by
    apply List.isEmpty_iff.mp
    cases hs
    decide +kernel
  refine ⟨rfl, Lines.of_dripping _ 4 _ hs hpeek hasked rfl ?_⟩
  cases hs
  decide +kernel

end Stage

end MediaChain
