import MediaChain.Proofs.Plugin.Scripted
import MediaChain.Proofs.Stage.Life
import MediaChain.Proofs.Stage.Lines
import MediaChain.Proofs.Text.Stops

/-!
# Lines and bytes of one stream

A stage can read its stream line by line, take bytes of it, look ahead in it and ask where it is. All
but the lines come from the stage in front, which does not know of the bytes that the reader keeps of
a line (`Line.Reading.ahead`). As long as bytes are asked for only when nothing is kept, every call
begins with the first byte that was not consumed (`Line.Reading.consumed_append_left`); while some
bytes are kept, any call but that for a line begins as many bytes behind them
(`Stage.Calls.one_cursor`).
-/

namespace MediaChain

variable {ι ε : Type}

/-! ## Requests for a stream -/

namespace Request

/-- A request to the stage in front for something else than a line. -/
def IsBare : Request ε → Prop
  | .read _ | .peek _ | .seek _ _ => True
  | _ => False

/-- A request that leaves the reader where it is, or takes it on by what it gets. -/
def Stays : Request ε → Prop
  | .seek offset whence => offset = 0 ∧ whence = .here
  | _ => True

end Request

namespace Line.Reading

variable {cap : Nat} {data : Bytes} {r : Reading} {q : Request ε} {qs : List (Request ε)}

/-- The bytes from which a request is met. -/
def ahead (data : Bytes) (r : Reading) : Request ε → Bytes
  | .read _ | .peek _ | .seek _ _ => data.drop r.position
  | _ => r.left data

/-- The bytes that a request consumes: a line with its terminator, or what is read. -/
def takes (cap : Nat) (data : Bytes) (r : Reading) : Request ε → Bytes
  | .readLine => (r.left data).take ((r.left data).length - (Line.next cap (r.left data)).2.length)
  | .read window => (data.drop r.position).take window.size
  | _ => []

/-- How far one is behind a request. A seek drops the bytes at hand. -/
def moved (cap : Nat) (data : Bytes) (r : Reading) : Request ε → Reading
  | .readLine => r.next cap [] data
  | .read window => ⟨r.position + ((data.drop r.position).take window.size).length, r.line⟩
  | .seek _ _ => ⟨r.position, []⟩
  | _ => r

/-- The answer that a request gets of who reads the data. -/
def Answers (cap : Nat) (data : Bytes) (r : Reading) : (q : Request ε) → q.Answer → Prop
  | .readLine, answer => answer = .ok ((Line.next cap (r.left data)).1.map Utf8.lossy)
  | .read window, answer => ∃ reply, answer = .ok reply ∧
      reply.bytes window = (data.drop r.position).take window.size
  | .peek size, answer => answer = .ok ((data.drop r.position).take size)
  | .seek _ _, answer => answer = .ok r.position
  | _, _ => True

def follow (cap : Nat) (data : Bytes) (r : Reading) (qs : List (Request ε)) : Reading :=
  qs.foldl (moved cap data) r

/-- All bytes that some requests consume. -/
def consumed (cap : Nat) (data : Bytes) : Reading → List (Request ε) → Bytes
  | _, [] => []
  | r, q :: qs => r.takes cap data q ++ consumed cap data (r.moved cap data q) qs

/-- Nothing is at hand when something else than a line is asked for. -/
def Straight (cap : Nat) (data : Bytes) : Reading → List (Request ε) → Prop
  | _, [] => True
  | r, q :: qs => (q.IsBare → r.line = []) ∧ Straight cap data (r.moved cap data q) qs

/-! ### One request -/

theorem line_length_moved (h : r.line.length ≤ cap) (q : Request ε) :
    (r.moved cap data q).line.length ≤ cap := by
  cases q with
  | readLine => exact length_next_le h
  | seek offset whence => exact Nat.zero_le cap
  | _ => exact h

/-- In a stream without stops the next line is that of all that is left. -/
theorem next_left (hcap : 0 < cap) (h : r.line.length ≤ cap) :
    Line.next cap (r.left data) = (r.got cap [] data, (r.next cap [] data).left data) := by
  refine next_of_not_cut hcap h fun hcut => ?_
  obtain ⟨a, ha, -⟩ := hcut.stop
  exact List.not_mem_nil ha

/-- Where something is left, a line and its terminator are consumed. -/
theorem takes_line (hleft : r.left data ≠ []) :
    ∃ line t, (Line.next cap (r.left data)).1 = some line ∧ t ∈ terminators ∧ newline ∉ line ∧
      r.takes cap data (.readLine : Request ε) = line ++ t := by
  obtain ⟨line, t, rest, hnext, ht, hpiece, hline, -⟩ := @next_piece cap _ hleft
  refine ⟨line, t, congrArg Prod.fst hnext, ht, hline, ?_⟩
  rw [takes, hnext, ← hpiece, List.length_append, Nat.add_sub_cancel]
  exact List.take_left

/-- What is consumed and what is left then are what was left before. -/
theorem takes_append_left (hcap : 0 < cap) (h : r.line.length ≤ cap)
    (hbare : q.IsBare → r.line = []) :
    r.takes cap data q ++ (r.moved cap data q).left data = r.left data := by
  cases q with
  | readLine =>
    have hrest : (Line.next cap (r.left data)).2 = (r.next cap [] data).left data :=
      congrArg Prod.snd (next_left hcap h)
    rw [takes, moved, ← hrest]
    exact List.suffix_iff_eq_append.mp (next_suffix cap _)
  | read window =>
    have hline : r.line = [] := hbare trivial
    rw [takes, moved, left, left, hline, List.nil_append, List.nil_append, ← List.drop_drop]
    exact List.prefix_iff_eq_append.mp (List.take_prefix _ _)
  | seek offset whence =>
    have hline : r.line = [] := hbare trivial
    rw [left, left, hline]
    rfl
  | _ => rfl

/-- A request is met from the first byte that is left, unless it is one to the stage in front and
bytes are at hand that this stage does not know of. -/
theorem ahead_eq_left_iff (data : Bytes) (r : Reading) (q : Request ε) :
    r.ahead data q = r.left data ↔ (q.IsBare → r.line = []) := by
  have hdrop : data.drop r.position = r.left data ↔ r.line = [] := List.self_eq_append_left
  cases q with
  | read window => simpa [ahead, Request.IsBare] using hdrop
  | peek size => simpa [ahead, Request.IsBare] using hdrop
  | seek offset whence => simpa [ahead, Request.IsBare] using hdrop
  | _ => exact ⟨fun _ hbare => hbare.elim, fun _ => rfl⟩

/-- Such a request is met behind the bytes at hand. -/
theorem ahead_of_bare (hq : q.IsBare) : r.ahead data q = (r.left data).drop r.line.length := by
  rw [left, List.drop_left]
  cases q with
  | read window => rfl
  | peek size => rfl
  | seek offset whence => rfl
  | _ => exact hq.elim

/-! ### Requests in a row -/

/-- If nothing is at hand whenever the stage in front is asked for something else than a line, what
was consumed and what is left are the stream. -/
theorem consumed_append_left (hcap : 0 < cap) (h : r.line.length ≤ cap)
    (hstraight : r.Straight cap data qs) :
    r.consumed cap data qs ++ (r.follow cap data qs).left data = r.left data := by
  induction qs generalizing r with
  | nil => rfl
  | cons q qs ih =>
    obtain ⟨hbare, hstraight⟩ := hstraight
    have hrest := ih (line_length_moved h q) hstraight
    rw [consumed, List.append_assoc]
    show _ ++ (_ ++ (follow cap data (r.moved cap data q) qs).left data) = _
    rw [hrest]
    exact takes_append_left hcap h hbare

end Line.Reading

/-! ## Stages without marks -/

theorem Stocked.holds {K : Plugin ι ε → ι → List (Stage ι ε) → Bytes → Prop} {s : Stage ι ε}
    {front : List (Stage ι ε)} {rest : Bytes} (h : Stocked K (s :: front) rest) :
    ∃ left, s.Holds K front left ∧ rest = s.buffer ++ left := by
  cases h with
  | intro h => exact ⟨_, h, rfl⟩

theorem Stocked.cons {K : Plugin ι ε → ι → List (Stage ι ε) → Bytes → Prop}
    {stages : List (Stage ι ε)} {rest : Bytes} (h : Stocked K stages rest) :
    ∃ s front, stages = s :: front := by
  cases h with
  | intro h => exact ⟨_, _, rfl⟩

/-- The first of some stages holds bytes, and no mark stands in front of its reader. -/
structure Afloat (K : Plugin ι ε → ι → List (Stage ι ε) → Bytes → Prop)
    (stages : List (Stage ι ε)) (rest : Bytes) : Prop where
  stocked : Stocked K stages rest
  clear : ∀ s ∈ stages.head?, s.desk.marks.pending = []

namespace Afloat

variable {n : Nat} {K : Plugin ι ε → ι → List (Stage ι ε) → Bytes → Prop} {s : Stage ι ε}
  {front : List (Stage ι ε)} {data rest : Bytes}

theorem of_holds {left : Bytes} (h : s.Holds K front left) (hclear : s.desk.marks.pending = []) :
    Afloat K (s :: front) (s.buffer ++ left) := by
  refine ⟨.intro h, fun s' hs' => ?_⟩
  obtain rfl := Option.some.inj hs'
  exact hclear

/-- A read takes as many bytes as fit the window, or else all there are. -/
theorem read (hK : Producing n K) (h : Afloat K (s :: front) rest) (scene : Scene ε)
    (window : Window)
    (hasked : ∀ q ∈ s.readAsked (.reaching n) window ⟨front, scene⟩, q.IsPlain) :
    ∃ reply s' f', s.read (.reaching n) window ⟨front, scene⟩ = (.ok reply, s', f') ∧
      reply.bytes window = rest.take window.size ∧
      Afloat K (s' :: f'.stages) (rest.drop window.size) := by
  obtain ⟨hstocked, hclear⟩ := h
  obtain ⟨left, hholds, rfl⟩ := hstocked.holds
  obtain ⟨reply, s', f', rest', hread, hholds', htakes, hdrop⟩ :=
    hholds.read hK (f := ⟨front, scene⟩) window
  have hclear' := Marks.kept_clear.read (hclear s rfl) hasked
  rw [hread] at hclear'
  obtain ⟨hle, hfull⟩ := Stage.count_of_read (hclear s rfl) hread hclear'
  -- a reply that does not fill the window holds all there was
  have hall : (s.buffer ++ left).take reply.count = (s.buffer ++ left).take window.size ∧
      (s.buffer ++ left).drop reply.count = (s.buffer ++ left).drop window.size := by
    rcases hfull with hfull | ⟨hdone, hempty⟩
    · rw [hfull]
      exact ⟨rfl, rfl⟩
    · rw [hempty, hholds'.done hdone, List.append_nil, List.drop_eq_nil_iff] at hdrop
      rw [List.take_of_length_le hdrop, List.take_of_length_le (Nat.le_trans hdrop hle),
        List.drop_of_length_le hdrop, List.drop_of_length_le (Nat.le_trans hdrop hle)]
      exact ⟨rfl, rfl⟩
  refine ⟨reply, s', f', hread, htakes.bytes_eq.trans hall.1, ?_⟩
  rw [← hall.2, hdrop]
  exact .of_holds hholds' hclear'

theorem peek (hK : Producing n K) (h : Afloat K (s :: front) rest) (scene : Scene ε) (size : Nat)
    (hasked : ∀ q ∈ s.peekAsked (.reaching n) size ⟨front, scene⟩, q.IsPlain) :
    ∃ s' f', s.peek (.reaching n) size ⟨front, scene⟩ = (.ok (rest.take size), s', f') ∧
      Afloat K (s' :: f'.stages) rest := by
  obtain ⟨hstocked, hclear⟩ := h
  obtain ⟨left, hholds, rfl⟩ := hstocked.holds
  obtain ⟨bytes, s', f', rest', hpeek, hholds', hrest⟩ :=
    hholds.peek hK (f := ⟨front, scene⟩) size
  have hclear' := Marks.kept_clear.peek (hclear s rfl) hasked
  rw [hpeek] at hclear'
  obtain ⟨hlook, hbytes⟩ := Stage.peek_ok hpeek
  rw [← hrest]
  refine ⟨s', f', ?_, .of_holds hholds' hclear'⟩
  rw [hpeek, hbytes]
  -- what lies ahead is enough, or else it is all there is
  rcases (Stage.lookAhead_portions hlook).2 with henough | hdone
  · rw [List.take_append_of_le_length henough]
  · rw [hholds'.done hdone, List.append_nil]

/-- Who seeks where it is stays there. -/
theorem seek (hK : Steering n data K) {position : Nat} (hposition : position ≤ data.length)
    (h : Afloat K (s :: front) (data.drop position)) (scene : Scene ε) :
    ∃ s' f', s.seek (.reaching n) 0 .here ⟨front, scene⟩ = (.ok position, s', f') ∧
      Afloat K (s' :: f'.stages) (data.drop position) := by
  have hlands := hK.seekable.seek h.stocked scene 0 .here
  rw [length_sub_length_drop hposition] at hlands
  have htarget : seekTarget data.length position 0 .here = position := Int.add_zero _
  rw [htarget] at hlands
  obtain ⟨hresult, hstocked, hrewound⟩ := hlands.inside ⟨Int.natCast_nonneg _, by omega⟩
  rw [Int.toNat_natCast] at hresult hstocked
  refine ⟨_, _, Prod.ext hresult rfl, ?_⟩
  obtain ⟨left, hholds, hrest⟩ := hstocked.holds
  obtain ⟨e, he, -⟩ := hholds.engine
  obtain ⟨-, hclear, -⟩ := hrewound _ List.mem_cons_self (by rw [he]; rfl)
  rw [hrest]
  exact .of_holds hholds hclear

end Afloat

/-! ## Calls in a row -/

namespace Bench

variable {tap : Tap ι ε} {post : Post} {b : Bench ι ε} {q : Request ε}

/-- What the plugin of the stage in front asks for while bytes are taken or looked at. -/
def frontAsked (tap : Tap ι ε) (post : Post) (b : Bench ι ε) : Request ε → List (Request ε)
  | .readLine => b.lineAsked tap post
  | .read window =>
    match b.front.stages with
    | [] => []
    | s :: rest => s.readAsked tap window { b.front with stages := rest }
  | .peek size =>
    match b.front.stages with
    | [] => []
    | s :: rest => s.peekAsked tap size { b.front with stages := rest }
  | _ => []

/-- Some requests in a row, if the plugin of the stage in front asks for nothing meanwhile. -/
def callAll (n : Nat) (post : Post) :
    List (Request ε) → Bench ι ε → Option (List ((q : Request ε) × q.Answer) × Bench ι ε)
  | [], b => some ([], b)
  | q :: qs, b =>
    if (b.frontAsked (.reaching n) post q).isEmpty then
      let (answer, b') := Stage.answer (.reaching (n + 1)) post 0 false q b
      (b'.callAll n post qs).map fun (events, b'') => (⟨q, answer⟩ :: events, b'')
    else none

end Bench

/-- A reader of some data keeps the bytes at hand, and the stages in front have the rest of the data
behind these to give. -/
structure Stands (K : Plugin ι ε → ι → List (Stage ι ε) → Bytes → Prop) (data : Bytes) (cap : Nat)
    (line : Bytes) (stages : List (Stage ι ε)) (r : Line.Reading) : Prop where
  line_eq : r.line = line
  line_le : r.line.length ≤ cap
  position_le : r.position ≤ data.length
  afloat : Afloat K stages (data.drop r.position)

namespace Stands

variable {n : Nat} {K : Plugin ι ε → ι → List (Stage ι ε) → Bytes → Prop} {data : Bytes}
  {post : Post} {b : Bench ι ε} {r : Line.Reading}

/-- Bytes are taken from the rest of the data. -/
theorem afloat_take {stages : List (Stage ι ε)} {position size : Nat} {bytes : Bytes}
    (h : Afloat K stages ((data.drop position).drop size))
    (hbytes : bytes = (data.drop position).take size) :
    Afloat K stages (data.drop (position + bytes.length)) := by
  have hdrop : data.drop (position + bytes.length) = (data.drop position).drop size := by
    rw [hbytes, ← List.drop_drop, List.length_take]
    rcases Nat.le_total size (data.drop position).length with hle | hle
    · rw [Nat.min_eq_left hle]
    · rw [Nat.min_eq_right hle, List.drop_of_length_le hle, List.drop_length]
  rw [hdrop]
  exact h

theorem position_take {position size : Nat} {bytes : Bytes} (h : position ≤ data.length)
    (hbytes : bytes = (data.drop position).take size) : position + bytes.length ≤ data.length := by
  rw [hbytes, List.length_take, List.length_drop]
  omega

theorem readLine (hK : Steering n data K)
    (h : Stands K data post.lineCap b.desk.line b.front.stages r)
    (hasked : ∀ q ∈ b.lineAsked (.reaching n) post, q.IsPlain) :
    (b.readLine (.reaching (n + 1)) post).1 =
        .ok ((r.got post.lineCap [] data).map Utf8.lossy) ∧
      Stands K data post.lineCap (b.readLine (.reaching (n + 1)) post).2.desk.line
        (b.readLine (.reaching (n + 1)) post).2.front.stages (r.next post.lineCap [] data) := by
  have hle : (r.next post.lineCap [] data).line.length ≤ post.lineCap :=
    Line.Reading.length_next_le h.line_le
  have hthrough : (Tap.reaching (n + 1) : Tap ι ε) = .through (.reaching n) := rfl
  rw [hthrough]
  by_cases hat : b.LineAtHand post
  · have hhand : r.AtHand post.lineCap := by
      rw [Line.Reading.AtHand, h.line_eq]
      exact hat
    have hbrings : r.brings post.lineCap [] data = [] := Line.Reading.brings_of_atHand hhand
    have hseen : r.seen post.lineCap [] data = b.desk.line := by
      rw [Line.Reading.seen, hbrings, List.append_nil, h.line_eq]
    rw [Bench.readLine_of_atHand hat]
    refine ⟨by rw [Line.Reading.got, hseen], ?_, hle, ?_, ?_⟩
    · rw [Line.Reading.next, hseen]
      rfl
    · rw [Line.Reading.next, hbrings]
      exact h.position_le
    · rw [Line.Reading.next, hbrings]
      exact h.afloat
  · have hhand : ¬r.AtHand post.lineCap := by
      rw [Line.Reading.AtHand, h.line_eq]
      exact hat
    have hafloat := h.afloat
    obtain ⟨s, front, hb⟩ := hafloat.stocked.cons
    rw [hb] at hafloat
    simp only [Bench.lineAsked, hb, if_neg hat] at hasked
    obtain ⟨reply, s', f', hread, hbytes, hafloat'⟩ :=
      hafloat.read hK.toProducing b.front.scene (b.lineWindow post) hasked
    obtain ⟨hresult, hstages, hline, -⟩ := Bench.readLine_of_read hat hb hread
    have hbrings : r.brings post.lineCap [] data = reply.bytes (b.lineWindow post) := by
      rw [hbytes, Line.Reading.brings, if_neg hhand, h.line_eq]
      rfl
    have hseen : r.seen post.lineCap [] data =
        b.desk.line ++ reply.bytes (b.lineWindow post) := by
      rw [Line.Reading.seen, hbrings, h.line_eq]
    refine ⟨?_, ?_, hle, ?_, ?_⟩
    · rw [hresult, Line.Reading.got, hseen]
      rfl
    · rw [hline reply rfl, Line.Reading.next, hseen]
    · rw [Line.Reading.next, hbrings]
      exact position_take h.position_le hbytes
    · rw [hstages, Line.Reading.next, hbrings]
      exact afloat_take hafloat' hbytes

theorem answer_local (h : Stands K data post.lineCap b.desk.line b.front.stages r)
    {q : Request ε} (hq : q.IsLocal) (ahead : Nat) (settingUp : Bool) :
    r.Answers post.lineCap data q
        (Stage.answer (.reaching (n + 1)) post ahead settingUp q b).1 ∧
      Stands K data post.lineCap
        (Stage.answer (.reaching (n + 1)) post ahead settingUp q b).2.desk.line
        (Stage.answer (.reaching (n + 1)) post ahead settingUp q b).2.front.stages
        (r.moved post.lineCap data q) := by
  rw [Stage.answer_line _ _ _ _ hq b, (Stage.answer_local _ _ _ _ hq b).1]
  cases q with
  | read window => exact hq.elim
  | peek size => exact hq.elim
  | seek offset whence => exact hq.elim
  | readLine => exact hq.elim
  | _ => exact ⟨trivial, h⟩

/-- What a request comes to, and where it leaves the reader. -/
theorem answer (hK : Steering n data K)
    (h : Stands K data post.lineCap b.desk.line b.front.stages r) {q : Request ε} (hq : q.Stays)
    (hasked : ∀ q' ∈ b.frontAsked (.reaching n) post q, q'.IsPlain) (ahead : Nat)
    (settingUp : Bool) :
    r.Answers post.lineCap data q
        (Stage.answer (.reaching (n + 1)) post ahead settingUp q b).1 ∧
      Stands K data post.lineCap
        (Stage.answer (.reaching (n + 1)) post ahead settingUp q b).2.desk.line
        (Stage.answer (.reaching (n + 1)) post ahead settingUp q b).2.front.stages
        (r.moved post.lineCap data q) := by
  have hafloat := h.afloat
  obtain ⟨s, front, hb⟩ := hafloat.stocked.cons
  rw [hb] at hafloat
  cases q with
  | readLine =>
    obtain ⟨hresult, hstands⟩ := h.readLine hK hasked
    refine ⟨?_, hstands⟩
    show (b.readLine (.reaching (n + 1)) post).1 = _
    rw [hresult, Line.Reading.next_left post.lineCap_pos h.line_le]
  | read window =>
    simp only [Bench.frontAsked, hb] at hasked
    obtain ⟨reply, s', f', hread, hbytes, hafloat'⟩ :=
      hafloat.read hK.toProducing b.front.scene window hasked
    have hreach : b.reach post.name ((Tap.reaching (n + 1)).read window) =
        (.ok reply, { b with front := { f' with stages := s' :: f'.stages } }) :=
      Bench.reach_of_stages hb hread
    have hanswer : Stage.answer (.reaching (n + 1)) post ahead settingUp (.read window) b =
        (.ok reply,
          Bench.catchUp { b with front := { f' with stages := s' :: f'.stages } }) := by
      show b.read (.reaching (n + 1)) post window = _
      rw [Bench.read, hreach]
    rw [hanswer]
    refine ⟨⟨reply, rfl, hbytes⟩, h.line_eq, h.line_le, ?_, ?_⟩
    · exact position_take h.position_le rfl
    · exact afloat_take hafloat' rfl
  | peek size =>
    simp only [Bench.frontAsked, hb] at hasked
    obtain ⟨s', f', hpeek, hafloat'⟩ := hafloat.peek hK.toProducing b.front.scene size hasked
    have hanswer : Stage.answer (.reaching (n + 1)) post ahead settingUp (.peek size) b =
        (.ok ((data.drop r.position).take size),
          { b with front := { f' with stages := s' :: f'.stages } }) :=
      Bench.reach_of_stages hb hpeek
    rw [hanswer]
    exact ⟨rfl, h.line_eq, h.line_le, h.position_le, hafloat'⟩
  | seek offset whence =>
    obtain ⟨rfl, rfl⟩ := hq
    obtain ⟨s', f', hseek, hafloat'⟩ := hafloat.seek hK h.position_le b.front.scene
    have hreach : b.reach post.name ((Tap.reaching (n + 1)).seek 0 .here) =
        (.ok r.position, { b with front := { f' with stages := s' :: f'.stages } }) :=
      Bench.reach_of_stages hb hseek
    have hanswer : Stage.answer (.reaching (n + 1)) post ahead settingUp (.seek 0 .here) b =
        (.ok r.position,
          Bench.setLine { b with front := { f' with stages := s' :: f'.stages } } []) := by
      show b.seek (.reaching (n + 1)) post 0 .here = _
      rw [Bench.seek, hreach]
    rw [hanswer]
    exact ⟨rfl, rfl, Nat.zero_le _, h.position_le, hafloat'⟩
  | _ =>
    refine h.answer_local ?_ ahead settingUp
    trivial

end Stands

namespace Stage

variable {n : Nat} {K : Plugin ι ε → ι → List (Stage ι ε) → Bytes → Prop} {post : Post}
  {start stages : List (Stage ι ε)} {line data : Bytes} {position : Nat}
  {events : List ((q : Request ε) × q.Answer)}

/-- A stage at a post has made some requests, one after the other and at any of its callbacks, with
these stages in front at first; it has not sought anything but where it is, and the plugin of the
stage in front set no marks. What is at hand of a line, how the stages in front are now, and the
requests with their answers. -/
inductive Calls (n : Nat) (post : Post) (start : List (Stage ι ε)) :
    Bytes → List (Stage ι ε) → List ((q : Request ε) × q.Answer) → Prop
  | begin : Calls n post start [] start []
  | call {b b' : Bench ι ε} {q : Request ε} {answer : q.Answer} {ahead : Nat} {settingUp : Bool}
    {events : List ((q : Request ε) × q.Answer)} :
    Calls n post start b.desk.line b.front.stages events → q.Stays →
      (∀ q' ∈ b.frontAsked (.reaching n) post q, q'.IsPlain) →
        Stage.answer (.reaching (n + 1)) post ahead settingUp q b = (answer, b') →
          Calls n post start b'.desk.line b'.front.stages (events ++ [⟨q, answer⟩])

/-- The requests of some calls. -/
def asks (events : List ((q : Request ε) × q.Answer)) : List (Request ε) := events.map (·.1)

theorem Calls.stands (h : Calls n post start line stages events) (hK : Steering n data K)
    (hposition : position ≤ data.length) (hstart : Afloat K start (data.drop position)) :
    Stands K data post.lineCap line stages
      (Line.Reading.follow post.lineCap data ⟨position, []⟩ (asks events)) ∧
    ∀ before q answer later, events = before ++ ⟨q, answer⟩ :: later →
      (Line.Reading.follow post.lineCap data ⟨position, []⟩ (asks before)).Answers
        post.lineCap data q answer := by
  induction h with
  | begin =>
    refine ⟨⟨rfl, Nat.zero_le _, hposition, hstart⟩, ?_⟩
    intro before q answer later hevents
    simp at hevents
  | @call b b' q answer ahead settingUp events _ hq hasked hanswer ih =>
    obtain ⟨hstands, hanswers⟩ := ih
    obtain ⟨hright, hstands'⟩ := hstands.answer hK hq hasked ahead settingUp
    rw [hanswer] at hright hstands'
    refine ⟨?_, ?_⟩
    · unfold asks
      rw [List.map_append, Line.Reading.follow, List.foldl_append]
      exact hstands'
    · intro before q' answer' later hevents
      rcases List.eq_nil_or_concat later with rfl | ⟨later', last, rfl⟩
      · obtain ⟨rfl, hlast⟩ := List.append_inj' hevents rfl
        cases (List.cons.inj hlast).1
        exact hright
      · rw [List.concat_eq_append, ← List.cons_append, ← List.append_assoc] at hevents
        exact hanswers before q' answer' later' (List.append_inj' hevents rfl).1

/-- **One cursor.** Let a stage read lines, take bytes, look ahead and ask where it is, in any order,
where the stages in front serve some data, can seek in it and set no marks. Every call is successful
and is answered from the data; one for a line consumes that line and its terminator. As long as bytes
were asked for only when nothing was kept of a line, what was consumed and what is left are the data,
and the next call begins with the first byte of what is left, unless bytes are asked for now while
some are kept: then it begins as many bytes behind that. -/
theorem Calls.one_cursor (h : Calls n post start line stages events) (hK : Steering n data K)
    (hposition : position ≤ data.length) (hstart : Afloat K start (data.drop position)) :
    (∀ before q answer later, events = before ++ ⟨q, answer⟩ :: later →
      ∃ r : Line.Reading,
        r = .follow post.lineCap data ⟨position, []⟩ (asks before) ∧
        r.Answers post.lineCap data q answer ∧
        (Line.Reading.Straight post.lineCap data ⟨position, []⟩ (asks before) →
          Line.Reading.consumed post.lineCap data ⟨position, []⟩ (asks before) ++ r.left data =
              data.drop position ∧
            (r.ahead data q = r.left data ↔ (q.IsBare → r.line = [])) ∧
            (q.IsBare → r.ahead data q = (r.left data).drop r.line.length)) ∧
        (r.left data ≠ [] → ∃ line t, (Line.next post.lineCap (r.left data)).1 = some line ∧
          t ∈ Line.terminators ∧ Line.newline ∉ line ∧
          r.takes post.lineCap data (.readLine : Request ε) = line ++ t)) ∧
    (Line.Reading.Straight post.lineCap data ⟨position, []⟩ (asks events) →
      ∃ rest, Stocked K stages rest ∧
        Line.Reading.consumed post.lineCap data ⟨position, []⟩ (asks events) ++ (line ++ rest) =
          data.drop position) := by
  obtain ⟨hstands, hanswers⟩ := h.stands hK hposition hstart
  have hempty : (⟨position, []⟩ : Line.Reading).line.length ≤ post.lineCap := Nat.zero_le _
  refine ⟨fun before q answer later hevents => ?_, fun hstraight => ?_⟩
  · refine ⟨_, rfl, hanswers before q answer later hevents, fun hstraight => ?_, fun hleft => ?_⟩
    · exact ⟨Line.Reading.consumed_append_left post.lineCap_pos hempty hstraight,
        Line.Reading.ahead_eq_left_iff _ _ _, Line.Reading.ahead_of_bare⟩
    · exact Line.Reading.takes_line hleft
  · refine ⟨_, hstands.afloat.stocked, ?_⟩
    rw [← hstands.line_eq]
    exact Line.Reading.consumed_append_left post.lineCap_pos hempty hstraight

theorem Calls.callAll {b b' : Bench ι ε} {qs : List (Request ε)}
    {more : List ((q : Request ε) × q.Answer)}
    (h : Calls n post start b.desk.line b.front.stages events) (hqs : ∀ q ∈ qs, q.Stays)
    (hcalls : b.callAll n post qs = some (more, b')) :
    Calls n post start b'.desk.line b'.front.stages (events ++ more) ∧ asks more = qs := by
  induction qs generalizing b events more with
  | nil =>
    obtain ⟨⟩ := hcalls
    rw [List.append_nil]
    exact ⟨h, rfl⟩
  | cons q qs ih =>
    obtain ⟨hq, hqs⟩ := List.forall_mem_cons.mp hqs
    unfold Bench.callAll at hcalls
    split at hcalls
    next hasked =>
      obtain ⟨⟨more', b₁⟩, hmore, ⟨⟩⟩ := Option.map_eq_some_iff.mp hcalls
      have hplain : ∀ q' ∈ b.frontAsked (.reaching n) post q, q'.IsPlain := by
        simp [List.isEmpty_iff.mp hasked]
      obtain ⟨hcalls', hasks⟩ := ih (h.call hq hplain rfl) hqs hmore
      rw [List.append_assoc] at hcalls'
      exact ⟨hcalls', congrArg (q :: ·) hasks⟩
    next => cases hcalls

/-! ### A plugin without marks -/

open Scripted

/-- A description that gives two bytes at a time, can seek, and asks for nothing. -/
def quiet (data : Bytes) : Scripted :=
  { winding .feed .feed data with
    readCalls := []
    seekCalls := [] }

theorem quiet_steady (data : Bytes) : (quiet data).Steady :=
  let h := paced_steady .feed data
  ⟨h.init, nofun, h.single, h.fail, h.excess, h.limit⟩

/-- Calls to a stage that is set up with it and reads it from the beginning. -/
theorem Calls.of_quiet (post : Post) (data : Bytes) (qs : List (Request Note))
    (hqs : ∀ q ∈ qs, q.Stays)
    (hcalls : ∀ {s : Stage State Note} {f : Front State Note},
      Stage.create (quiet data).plugin {} [] ⟨[], ⟨.empty, .empty⟩⟩ = (.ok s, f) →
        (Bench.callAll 0 post qs ⟨⟨0, .empty, []⟩, none, ⟨s :: f.stages, f.scene⟩⟩).isSome) :
    ∃ (start stages : List (Stage State Note)) (line : Bytes)
      (events : List ((q : Request Note) × q.Answer)), Calls 0 post start line stages events ∧
        asks events = qs ∧ Afloat (Serving 0 data) start (data.drop 0) := by
  have hp := quiet_steady data
  have hserves := hp.serves rfl rfl nofun rfl
  obtain ⟨s, f, hs⟩ : ∃ s f, Stage.create (quiet data).plugin {} [] ⟨[], ⟨.empty, .empty⟩⟩ =
    (.ok s, f) := ⟨_, _, rfl⟩
  have hstocked : Stocked (Serving 0 data) (s :: f.stages) data :=
    stocked_of_create (hp.begins ⟨rfl, Nat.zero_le _⟩)
      (fun state hstate => ⟨rfl, fun s hs => absurd hs List.not_mem_nil, _, 0, hserves, hstate,
        rfl⟩) hs
  obtain ⟨⟨events, b'⟩, hrun⟩ := Option.isSome_iff_exists.mp (hcalls hs)
  have hbegin : Calls 0 post (s :: f.stages) [] (s :: f.stages) [] := .begin
  obtain ⟨hevents, hasks⟩ :=
    hbegin.callAll (b := ⟨⟨0, .empty, []⟩, none, ⟨s :: f.stages, f.scene⟩⟩) hqs hrun
  refine ⟨_, _, _, _, hevents, hasks, hstocked, ?_⟩
  intro s' hs'
  obtain rfl := Option.some.inj hs'
  cases hs
  rfl

/-- A line that fills the window, and bytes behind it. -/
def headedData : Bytes := [0x61, 0x62, 0x0A, 0x63, 0x64, 0x0A, 0x65, 0x66]

/-- All of them are consumed in order. -/
theorem Calls.one_cursor_headedData :
    ∃ (start stages : List (Stage State Note)) (line rest : Bytes)
      (events : List ((q : Request Note) × q.Answer)),
      Calls 0 (.ofSettings { maxLineSize := 4 } [] "reader" 1) start line stages events ∧
      asks events = [.readLine, .peek 2, .read (.blank 3), .seek 0 .here, .readLine] ∧
      Line.Reading.Straight 3 headedData ⟨0, []⟩ (asks events) ∧ Stocked (Serving 0 headedData) stages rest ∧
      Line.Reading.consumed 3 headedData ⟨0, []⟩ (asks events) ++ (line ++ rest) = headedData := by
  obtain ⟨start, stages, line, events, h, hasks, hstart⟩ :=
    Calls.of_quiet (.ofSettings { maxLineSize := 4 } [] "reader" 1) headedData
      [.readLine, .peek 2, .read (.blank 3), .seek 0 .here, .readLine]
      (by simp [Request.Stays]) fun hs => by
        cases hs
        decide +kernel
  have hstraight : Line.Reading.Straight 3 headedData ⟨0, []⟩ (asks events) := by
    rw [hasks]
    exact ⟨fun _ => rfl, fun _ => rfl, fun _ => rfl, fun _ => rfl, fun _ => rfl, trivial⟩
  obtain ⟨-, hwhole⟩ := h.one_cursor (serving_steering 0 headedData) (Nat.zero_le _) hstart
  obtain ⟨rest, hrest, hconsumed⟩ := hwhole hstraight
  exact ⟨start, stages, line, rest, events, h, hasks, hstraight, hrest, hconsumed⟩

/-- Lines that fit a window of four bytes. -/
def shortLines : Bytes := [0x61, 0x62, 0x0A, 0x63, 0x64, 0x0A]

/-- A read behind the first of them leaves out the byte that is kept of the second one. -/
theorem Calls.skip_shortLines :
    Line.Fits 4 shortLines ∧
    ∃ (start stages : List (Stage State Note)) (line : Bytes) (reply : Reply),
      Afloat (Serving 0 shortLines) start shortLines ∧
      Calls 0 (.ofSettings { maxLineSize := 5 } [] "reader" 1) start line stages
        [⟨.readLine, .ok (some "ab")⟩, ⟨.read (.blank 3), .ok reply⟩] ∧
      reply.bytes (.blank 3) = [0x64, 0x0A] ∧ (shortLines.drop 3).take 3 = [0x63, 0x64, 0x0A] := by
  obtain ⟨start, stages, line, events, h, hasks, hstart⟩ :=
    Calls.of_quiet (.ofSettings { maxLineSize := 5 } [] "reader" 1) shortLines
      [.readLine, .read (.blank 3)] (by simp [Request.Stays]) fun hs => by
        cases hs
        decide +kernel
  obtain ⟨-, hanswers⟩ := h.stands (serving_steering 0 shortLines) (Nat.zero_le _) hstart
  rcases events with _ | ⟨⟨q₁, a₁⟩, _ | ⟨⟨q₂, a₂⟩, _ | _⟩⟩
  all_goals cases hasks
  have hfirst : a₁ = .ok ((Line.next 4 shortLines).1.map Utf8.lossy) := hanswers [] _ a₁ _ rfl
  have hline : (Line.next 4 shortLines).1.map Utf8.lossy = some "ab" := by decide +kernel
  rw [hline] at hfirst
  obtain ⟨reply, rfl, hbytes⟩ := hanswers [⟨.readLine, a₁⟩] _ a₂ [] rfl
  rw [hfirst] at h
  have hrows : Line.Fits 4 ([0x61, 0x62] ++ Line.newline :: ([0x63, 0x64] ++ Line.newline :: [])) :=
    .row (by decide) (by decide) (.row (by decide) (by decide) (.last (by decide) (by decide)))
  exact ⟨hrows, start, stages, line, reply, hstart, h, hbytes, rfl⟩

end Stage

end MediaChain
