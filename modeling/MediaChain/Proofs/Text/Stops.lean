import MediaChain.Proofs.Text.Document

/-!
# Lines of a stream with stops

A reader who looks for lines in a stream with stops takes at most a window at a time and nothing from
behind the next stop, and what it gets then counts as a line even if it holds no newline. Such a call
is cut (`Line.Reading.Cut`). As long as none is, the lines are those of the stream, wherever the stops
are (`Line.Reading.gots_eq_lines`); and whoever gets the lines of a stream one by one where they fit
the window, and then none, has had no call that was cut (`Line.Reading.uncut_of_gots`). Stops
behind newlines cut nothing (`Line.Reading.uncut_of_stops`).
-/

namespace MediaChain

namespace Line

variable {cap position room : Nat} {stops : List Nat} {stream w more bytes : Bytes}

/-! ## How far one gets -/

/-- How many bytes one can take from a position who has some room: none from behind the next stop. -/
def reach (stops : List Nat) (position room : Nat) : Nat :=
  stops.foldl (fun n a => if position < a then min n (a - position) else n) room

theorem reach_cons (a : Nat) (stops : List Nat) (position room : Nat) :
    reach (a :: stops) position room =
      reach stops position (if position < a then min room (a - position) else room) := rfl

theorem reach_le (stops : List Nat) (position room : Nat) : reach stops position room ≤ room := by
  induction stops generalizing room with
  | nil => exact Nat.le_refl room
  | cons a stops ih =>
    rw [reach_cons]
    refine Nat.le_trans (ih _) ?_
    split
    · exact Nat.min_le_left _ _
    · exact Nat.le_refl room

theorem reach_le_stop {a : Nat} (ha : a ∈ stops) (hlt : position < a) :
    reach stops position room ≤ a - position := by
  induction stops generalizing room with
  | nil => cases ha
  | cons b stops ih =>
    rw [reach_cons]
    rcases List.mem_cons.mp ha with rfl | ha
    · rw [if_pos hlt]
      exact Nat.le_trans (reach_le _ _ _) (Nat.min_le_right _ _)
    · exact ih ha

theorem le_reach {n : Nat} (hroom : n ≤ room)
    (hclear : ∀ a ∈ stops, a ≤ position ∨ position + n ≤ a) : n ≤ reach stops position room := by
  induction stops generalizing room with
  | nil => exact hroom
  | cons a stops ih =>
    obtain ⟨ha, hclear⟩ := List.forall_mem_cons.mp hclear
    rw [reach_cons]
    refine ih ?_ hclear
    split
    · omega
    · exact hroom

/-- One gets as far as there is room, or to a stop. -/
theorem reach_cases (stops : List Nat) (position room : Nat) :
    reach stops position room = room ∨ position + reach stops position room ∈ stops := by
  induction stops generalizing room with
  | nil => exact .inl rfl
  | cons a stops ih =>
    rw [reach_cons]
    rcases ih (if position < a then min room (a - position) else room) with h | h
    · rw [h]
      by_cases hlt : position < a
      · rw [if_pos hlt]
        by_cases hle : room ≤ a - position
        · exact .inl (Nat.min_eq_left hle)
        · refine .inr ?_
          have hstop : position + min room (a - position) = a := by omega
          rw [hstop]
          exact List.mem_cons_self
      · rw [if_neg hlt]
        exact .inl rfl
    · exact .inr (List.mem_cons_of_mem a h)

/-- Who has room gets on. -/
theorem reach_pos (hroom : 0 < room) : 0 < reach stops position room :=
  le_reach hroom fun a _ => Nat.lt_or_ge position a |>.symm

/-! ## Looking for a line -/

/-- How far one is who looks for lines: the position in the stream, and the bytes at hand of the next
line. -/
structure Reading where
  position : Nat
  line : Bytes

namespace Reading

variable {r : Reading}

/-- The bytes at hand hold a newline or fill the window. -/
def AtHand (cap : Nat) (r : Reading) : Prop := newline ∈ r.line ∨ cap ≤ r.line.length

instance (cap : Nat) (r : Reading) : Decidable (r.AtHand cap) :=
  inferInstanceAs (Decidable (_ ∨ _))

/-- What is taken from the stream for the next line. -/
def brings (cap : Nat) (stops : List Nat) (stream : Bytes) (r : Reading) : Bytes :=
  if r.AtHand cap then []
  else (stream.drop r.position).take (reach stops r.position (cap - r.line.length))

/-- What the next line is looked for in. -/
def seen (cap : Nat) (stops : List Nat) (stream : Bytes) (r : Reading) : Bytes :=
  r.line ++ r.brings cap stops stream

def got (cap : Nat) (stops : List Nat) (stream : Bytes) (r : Reading) : Option Bytes :=
  (first (r.seen cap stops stream)).1

/-- How far one is behind this line. -/
def next (cap : Nat) (stops : List Nat) (stream : Bytes) (r : Reading) : Reading :=
  ⟨r.position + (r.brings cap stops stream).length, (first (r.seen cap stops stream)).2⟩

def after (cap : Nat) (stops : List Nat) (stream : Bytes) : Nat → Reading → Reading
  | 0, r => r
  | n + 1, r => (after cap stops stream n r).next cap stops stream

/-- The lines that one gets, as often as one looks for a line. -/
def gots (cap : Nat) (stops : List Nat) (stream : Bytes) (n : Nat) (r : Reading) :
    List (Option Bytes) :=
  (List.range n).map fun i => (after cap stops stream i r).got cap stops stream

theorem after_succ (cap : Nat) (stops : List Nat) (stream : Bytes) (n : Nat) (r : Reading) :
    after cap stops stream (n + 1) r = (after cap stops stream n r).next cap stops stream := rfl

theorem gots_succ (cap : Nat) (stops : List Nat) (stream : Bytes) (n : Nat) (r : Reading) :
    gots cap stops stream (n + 1) r =
      gots cap stops stream n r ++ [(after cap stops stream n r).got cap stops stream] := by
  unfold gots
  rw [List.range_succ, List.map_append, List.map_singleton]

/-- All that was not shown yet. -/
def left (stream : Bytes) (r : Reading) : Bytes := r.line ++ stream.drop r.position

/-- The next call for a line gets a part of it only: more is to come, there is room for it and no
newline stands in front of it. -/
def Cut (cap : Nat) (stops : List Nat) (stream : Bytes) (r : Reading) : Prop :=
  ¬r.AtHand cap ∧ newline ∉ r.seen cap stops stream ∧ (r.seen cap stops stream).length < cap ∧
    r.position + (r.brings cap stops stream).length < stream.length

instance (cap : Nat) (stops : List Nat) (stream : Bytes) (r : Reading) :
    Decidable (r.Cut cap stops stream) :=
  inferInstanceAs (Decidable (_ ∧ _ ∧ _ ∧ _))

/-- None of some calls in a row is cut. -/
def Uncut (cap : Nat) (stops : List Nat) (stream : Bytes) (n : Nat) (r : Reading) : Prop :=
  ∀ i < n, ¬(after cap stops stream i r).Cut cap stops stream

instance (cap : Nat) (stops : List Nat) (stream : Bytes) (n : Nat) (r : Reading) :
    Decidable (r.Uncut cap stops stream n) :=
  inferInstanceAs (Decidable (∀ i < n, _))

/-! ### One call -/

theorem brings_of_atHand (h : r.AtHand cap) : r.brings cap stops stream = [] := if_pos h

theorem brings_prefix (cap : Nat) (stops : List Nat) (stream : Bytes) (r : Reading) :
    r.brings cap stops stream <+: stream.drop r.position := by
  unfold brings
  split
  · exact List.nil_prefix
  · exact List.take_prefix _ _

/-- A read that stays before the stops, and ends at the room that there is, at a stop or with the
stream, is what is brought. -/
theorem brings_eq (hhand : ¬r.AtHand cap) (hstream : stream.drop r.position = bytes ++ more)
    (hroom : bytes.length ≤ cap - r.line.length)
    (hclear : ∀ a ∈ stops, a ≤ r.position ∨ r.position + bytes.length ≤ a)
    (hends : bytes.length = cap - r.line.length ∨
      (r.position + bytes.length ∈ stops ∧ 0 < bytes.length) ∨ more = []) :
    r.brings cap stops stream = bytes := by
  have hle := le_reach hroom hclear
  have hreach := reach_le stops r.position (cap - r.line.length)
  rw [brings, if_neg hhand, hstream]
  rcases hends with hfull | ⟨hstop, hpos⟩ | rfl
  · refine List.take_left' ?_
    omega
  · have hbefore : reach stops r.position (cap - r.line.length) ≤
        r.position + bytes.length - r.position := reach_le_stop hstop (Nat.lt_add_of_pos_right hpos)
    refine List.take_left' ?_
    omega
  · rw [List.append_nil]
    exact List.take_of_length_le hle

/-- What is looked at and what is left of the stream behind that. -/
theorem left_eq (cap : Nat) (stops : List Nat) (stream : Bytes) (r : Reading) :
    r.left stream = r.seen cap stops stream ++
      stream.drop (r.position + (r.brings cap stops stream).length) := by
  have hsplit := List.prefix_iff_eq_append.mp (r.brings_prefix cap stops stream)
  rw [List.drop_drop] at hsplit
  rw [left, seen, List.append_assoc, hsplit]

theorem left_next (cap : Nat) (stops : List Nat) (stream : Bytes) (r : Reading) :
    (r.next cap stops stream).left stream = (first (r.seen cap stops stream)).2 ++
      stream.drop (r.position + (r.brings cap stops stream).length) := rfl

theorem length_seen_le (hline : r.line.length ≤ cap) :
    (r.seen cap stops stream).length ≤ cap := by
  rw [seen, List.length_append]
  by_cases hhand : r.AtHand cap
  · rw [brings_of_atHand hhand]
    exact hline
  · have hroom := reach_le stops r.position (cap - r.line.length)
    rw [brings, if_neg hhand, List.length_take]
    omega

theorem length_next_le (hline : r.line.length ≤ cap) :
    (r.next cap stops stream).line.length ≤ cap :=
  Nat.le_trans (length_first_le _) (length_seen_le hline)

/-- A call that is not cut shows the next line of all that is left. -/
theorem next_of_not_cut (hcap : 0 < cap) (hline : r.line.length ≤ cap)
    (h : ¬r.Cut cap stops stream) :
    Line.next cap (r.left stream) =
      (r.got cap stops stream, (r.next cap stops stream).left stream) := by
  have hseen : (r.seen cap stops stream).length ≤ cap := length_seen_le hline
  rw [left_eq cap stops stream, left_next]
  refine next_append hcap hseen ?_
  by_cases hhand : r.AtHand cap
  · rw [seen, brings_of_atHand hhand, List.append_nil]
    rcases hhand with hnewline | hfull
    · exact .inl hnewline
    · exact .inr (.inl (Nat.le_antisymm hline hfull))
  · by_cases hnewline : newline ∈ r.seen cap stops stream
    · exact .inl hnewline
    · by_cases hfull : (r.seen cap stops stream).length < cap
      · have hend : stream.length ≤ r.position + (r.brings cap stops stream).length :=
          Nat.le_of_not_lt fun hmore => h ⟨hhand, hnewline, hfull, hmore⟩
        exact .inr (.inr (List.drop_of_length_le hend))
      · exact .inr (.inl (by omega))

/-- Where there is no line nothing is left. -/
theorem left_of_got_none (hcap : 0 < cap) (h : r.got cap stops stream = none) :
    r.left stream = [] := by
  have hseen : r.seen cap stops stream = [] := by
    by_contra hne
    simp [got, first, hne] at h
  obtain ⟨hline, hbrings⟩ := List.append_eq_nil_iff.mp hseen
  have hhand : ¬r.AtHand cap := by
    simp only [AtHand, hline, List.not_mem_nil, List.length_nil, false_or]
    omega
  have hpos : 0 < reach stops r.position (cap - r.line.length) := by
    refine reach_pos ?_
    rw [hline]
    exact hcap
  rw [brings, if_neg hhand, List.take_eq_nil_iff] at hbrings
  rw [left, hline, hbrings.resolve_left (Nat.ne_of_gt hpos)]
  rfl

theorem left_next_of_left (h : r.left stream = []) :
    (r.next cap stops stream).left stream = [] := by
  rw [left_eq cap stops stream, List.append_eq_nil_iff] at h
  rw [left_next, h.1, h.2]
  rfl

theorem not_cut_of_left (h : r.left stream = []) : ¬r.Cut cap stops stream := by
  rintro ⟨-, -, -, hmore⟩
  rw [left_eq cap stops stream, List.append_eq_nil_iff, List.drop_eq_nil_iff] at h
  omega

/-! ### Calls in a row -/

theorem length_after_le (hline : r.line.length ≤ cap) (n : Nat) :
    (after cap stops stream n r).line.length ≤ cap := by
  induction n with
  | zero => exact hline
  | succ n ih => exact length_next_le ih

theorem Uncut.of_succ {n : Nat} (h : r.Uncut cap stops stream (n + 1)) :
    r.Uncut cap stops stream n ∧ ¬(after cap stops stream n r).Cut cap stops stream :=
  ⟨fun i hi => h i (Nat.lt_succ_of_lt hi), h n (Nat.lt_succ_self n)⟩

/-- As long as no call is cut, the lines are those of all that is left, wherever the stops are. -/
theorem gots_eq_lines (hcap : 0 < cap) (hline : r.line.length ≤ cap) {n : Nat}
    (h : r.Uncut cap stops stream n) :
    r.gots cap stops stream n = lines cap n (r.left stream) ∧
      (after cap stops stream n r).left stream = Line.left cap n (r.left stream) := by
  induction n with
  | zero => exact ⟨rfl, rfl⟩
  | succ n ih =>
    obtain ⟨huncut, hcut⟩ := h.of_succ
    obtain ⟨hgots, hleft⟩ := ih huncut
    have hnext := next_of_not_cut hcap (length_after_le hline n) hcut
    rw [hleft] at hnext
    rw [gots_succ, lines_succ, left_succ, after_succ, hgots, hnext]
    exact ⟨rfl, rfl⟩

/-! ### Counting lines -/

end Reading

/-- How many lines some bytes are: one for each newline, and one for what stands behind the last. -/
def count (bytes : Bytes) : Nat :=
  bytes.count newline + if bytes.getLast?.all (· = newline) then 0 else 1

/-- Bytes without a newline are no line of their own in front of others. -/
theorem count_append (hw : newline ∉ w) (hmore : more ≠ []) : count (w ++ more) = count more := by
  unfold count
  rw [List.count_append, List.count_eq_zero_of_not_mem hw, Nat.zero_add,
    List.getLast?_append_of_ne_nil w hmore]

theorem count_newline_cons (bytes : Bytes) : count (newline :: bytes) = count bytes + 1 := by
  unfold count
  cases bytes with
  | nil => rfl
  | cons b bytes =>
    rw [List.count_cons_self, List.getLast?_cons_cons]
    omega

theorem count_le_of_not_mem (hw : newline ∉ w) : count w ≤ 1 := by
  unfold count
  rw [List.count_eq_zero_of_not_mem hw]
  split
  · exact Nat.zero_le _
  · exact Nat.le_refl _

/-- With a line one line goes at most. -/
theorem count_first_le (w more : Bytes) : count (w ++ more) ≤ count ((first w).2 ++ more) + 1 := by
  by_cases hw : newline ∈ w
  · obtain ⟨front, back, rfl, hfront⟩ := List.eq_append_cons_of_mem hw
    have hne : front ++ newline :: back ≠ [] := by simp
    refine Nat.le_of_eq ?_
    rw [first, if_neg hne, split_append hfront, List.append_assoc, List.cons_append,
      count_append hfront (List.cons_ne_nil _ _), count_newline_cons]
  · by_cases hmore : more = []
    · subst hmore
      rw [List.append_nil]
      exact Nat.le_trans (count_le_of_not_mem hw) (Nat.le_add_left 1 _)
    · have hrest : (first w).2 = [] := by
        unfold first
        split
        · rfl
        · rw [split_of_not_mem hw]
      rw [count_append hw hmore, hrest]
      exact Nat.le_succ _

namespace Reading

variable {r : Reading}

/-- With a call that is cut no line goes. -/
theorem count_left_le (cap : Nat) (stops : List Nat) (stream : Bytes) (r : Reading) :
    count (r.left stream) + (if r.Cut cap stops stream then 1 else 0) ≤
      count ((r.next cap stops stream).left stream) + 1 := by
  rw [left_eq cap stops stream, left_next]
  by_cases hcut : r.Cut cap stops stream
  · obtain ⟨-, hnewline, -, hmore⟩ := id hcut
    have hne : stream.drop (r.position + (r.brings cap stops stream).length) ≠ [] := by
      rw [ne_eq, List.drop_eq_nil_iff]
      omega
    have hrest : (first (r.seen cap stops stream)).2 = [] := by
      unfold first
      split
      · rfl
      · rw [split_of_not_mem hnewline]
    rw [if_pos hcut, count_append hnewline hne, hrest]
    exact Nat.le_refl _
  · rw [if_neg hcut]
    exact count_first_le _ _

theorem count_after_le (cap : Nat) (stops : List Nat) (stream : Bytes) (n : Nat) (r : Reading) :
    count (r.left stream) ≤ count ((after cap stops stream n r).left stream) + n := by
  induction n with
  | zero => exact Nat.le_refl _
  | succ n ih =>
    have hstep := count_left_le cap stops stream (after cap stops stream n r)
    rw [after_succ]
    omega

/-- Calls with each of which a line has gone were not cut. -/
theorem uncut_of_count {n : Nat}
    (h : count ((after cap stops stream n r).left stream) + n ≤ count (r.left stream)) :
    r.Uncut cap stops stream n := by
  induction n with
  | zero => exact fun i hi => absurd hi (Nat.not_lt_zero i)
  | succ n ih =>
    have hstep := count_left_le cap stops stream (after cap stops stream n r)
    have hall := count_after_le cap stops stream n r
    rw [after_succ] at h
    intro i hi
    rcases Nat.lt_succ_iff_lt_or_eq.mp hi with hlt | rfl
    · exact ih (by omega) i hlt
    · intro hcut
      rw [if_pos hcut] at hstep
      omega

theorem left_after_of_left {n m : Nat} (hnm : n ≤ m)
    (h : (after cap stops stream n r).left stream = []) :
    (after cap stops stream m r).left stream = [] := by
  induction hnm with
  | refl => exact h
  | step _ ih => exact left_next_of_left ih

/-- Who looks for more lines than there are, and then gets none, had no call that was cut. -/
theorem uncut_of_got_none (hcap : 0 < cap) {n : Nat} (m : Nat) (hn : n ≤ count (r.left stream))
    (h : (after cap stops stream n r).got cap stops stream = none) :
    r.Uncut cap stops stream m := by
  have hleft := left_of_got_none hcap h
  have huncut : r.Uncut cap stops stream n := by
    refine uncut_of_count ?_
    rw [hleft]
    show 0 + n ≤ _
    omega
  intro i _
  by_cases hi : i < n
  · exact huncut i hi
  · exact not_cut_of_left (left_after_of_left (Nat.le_of_not_lt hi) hleft)

/-! ### Stops behind newlines -/

theorem position_le_after (cap : Nat) (stops : List Nat) (stream : Bytes) (n : Nat) (r : Reading) :
    r.position ≤ (after cap stops stream n r).position := by
  induction n with
  | zero => exact Nat.le_refl _
  | succ n ih => exact Nat.le_trans ih (Nat.le_add_right _ _)

/-- A call is cut by a stop. -/
theorem Cut.stop (h : r.Cut cap stops stream) :
    ∃ a ∈ stops, r.position < a ∧ a < stream.length ∧ stream[a - 1]? ≠ some newline := by
  obtain ⟨hhand, hnewline, hroom, hmore⟩ := h
  have hbrings : r.brings cap stops stream = (stream.drop r.position).take
      (reach stops r.position (cap - r.line.length)) := if_neg hhand
  have hlength := congrArg List.length hbrings
  rw [List.length_take, List.length_drop] at hlength
  have hline : r.line.length < cap := Nat.lt_of_not_le fun hfull => hhand (.inr hfull)
  have hpos : 0 < reach stops r.position (cap - r.line.length) := reach_pos (by omega)
  rw [seen, List.length_append] at hroom
  have hstop := (reach_cases stops r.position (cap - r.line.length)).resolve_left (by omega)
  refine ⟨_, hstop, by omega, by omega, fun hlast => hnewline ?_⟩
  -- the byte in front of the stop is the last one that was brought
  refine List.mem_append_right _ ?_
  rw [hbrings]
  have hget : ((stream.drop r.position).take (reach stops r.position (cap - r.line.length)))[
      reach stops r.position (cap - r.line.length) - 1]? = some newline := by
    rw [List.getElem?_take_of_lt (by omega), List.getElem?_drop, ← hlast]
    congr 1
    omega
  exact List.mem_of_getElem? hget

/-- Where all stops that are still to come stand behind newlines, no call is cut. -/
theorem uncut_of_stops (n : Nat) (h : ∀ a ∈ stops, r.position < a → a < stream.length →
    stream[a - 1]? = some newline) : r.Uncut cap stops stream n := by
  intro i _ hcut
  obtain ⟨a, ha, hlt, hend, hbyte⟩ := hcut.stop
  exact hbyte (h a ha (Nat.lt_of_le_of_lt (position_le_after _ _ _ i r) hlt) hend)

end Reading

/-! ## Lines that fit -/

/-- Every line of the stream fits a window with its newline. -/
inductive Fits (cap : Nat) : Bytes → Prop
  | last {w : Bytes} : newline ∉ w → w.length ≤ cap → Fits cap w
  | row {w more : Bytes} : newline ∉ w → w.length < cap → Fits cap more →
      Fits cap (w ++ newline :: more)

/-- As many lines as there are lines that fit are all of the stream. -/
theorem Fits.left_count (h : Fits cap stream) : left cap (count stream) stream = [] := by
  induction h with
  | @last w hw hlen =>
    by_cases hne : w = []
    · rw [hne]
      rfl
    · obtain ⟨b, hb⟩ := Option.ne_none_iff_exists'.mp (mt List.getLast?_eq_none_iff.mp hne)
      have hnewline : b ≠ newline := fun heq => hw (heq ▸ List.mem_of_getLast? hb)
      have hone : count w = 1 := by
        simp [count, hb, hnewline, List.count_eq_zero_of_not_mem hw]
      rw [hone, left_succ]
      exact congrArg Prod.snd (next_of_last hne hw hlen)
  | @row w more hw hlen _ ih =>
    have hrow : left cap 1 (w ++ newline :: more) = more :=
      congrArg Prod.snd (next_of_newline hw hlen more)
    rw [count_append hw (List.cons_ne_nil _ _), count_newline_cons, Nat.add_comm, left_add, hrow,
      ih]

theorem Fits.mono {cap' : Nat} (h : Fits cap stream) (hle : cap ≤ cap') : Fits cap' stream := by
  induction h with
  | last hw hlen => exact .last hw (Nat.le_trans hlen hle)
  | row hw hlen _ ih => exact .row hw (Nat.lt_of_lt_of_le hlen hle) ih

theorem lines_take {n m : Nat} (h : n ≤ m) (stream : Bytes) :
    (lines cap m stream).take n = lines cap n stream := by
  unfold lines
  rw [← List.map_take, List.take_range, Nat.min_eq_left h]

theorem Reading.gots_take {r : Reading} {n m : Nat} (h : n ≤ m) :
    (r.gots cap stops stream m).take n = r.gots cap stops stream n := by
  unfold gots
  rw [← List.map_take, List.take_range, Nat.min_eq_left h]

/-- Whoever gets all lines of a text whose lines fit, and then none, has no call that is cut. -/
theorem Reading.uncut_of_gots {r : Reading} {text : Bytes} {n : Nat} (hcap : 0 < cap)
    (hleft : r.left stream = text) (hfits : Fits cap text) (hn : count text < n)
    (h : (r.gots cap stops stream n).map (·.map Utf8.lossy) =
      (lines cap n text).map (·.map Utf8.lossy)) (m : Nat) :
    r.Uncut cap stops stream m := by
  have hnone := congrArg (·[count text]?) h
  simp only [gots, lines, List.getElem?_map, List.getElem?_range hn, Option.map_some,
    hfits.left_count, next_nil, Option.map_none, Option.some.injEq, Option.map_eq_none_iff] at hnone
  exact uncut_of_got_none hcap m (Nat.le_of_eq (congrArg count hleft.symm)) hnone

end Line

end MediaChain
