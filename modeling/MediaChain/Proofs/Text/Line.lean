import MediaChain.Text.Line

/-!
# Lines of a stream

The lines that are shown of a stream in windows of some size: `Line.next` looks at the first bytes of
the stream that fit a window and takes a line from these, and `Line.lines` does so again and again.
Bytes that fill a window, hold a newline or are all there is decide alone what the next line is
(`Line.next_append`). The lines with their terminators are the stream again (`Line.lines_pieces`).
-/

namespace MediaChain

namespace Line

variable {cap : Nat} {front back w more stream : Bytes}

/-! ## Splitting -/

theorem split_append (h : newline ∉ front) (back : Bytes) :
    split (front ++ newline :: back) = (chomp front, back) := by
  have hfront : ∀ b ∈ front, decide (b ≠ newline) = true := fun b hb =>
    decide_eq_true fun heq => h (heq ▸ hb)
  unfold split
  rw [List.takeWhile_append_of_pos hfront, List.dropWhile_append_of_pos hfront,
    List.takeWhile_cons_of_neg (by simp), List.dropWhile_cons_of_neg (by simp), List.append_nil,
    List.drop_succ_cons, List.drop_zero]

theorem split_of_not_mem (h : newline ∉ w) : split w = (chomp w, []) := by
  have hall : ∀ b ∈ w, decide (b ≠ newline) = true := fun b hb =>
    decide_eq_true fun heq => h (heq ▸ hb)
  have hline : (w ++ []).takeWhile (· ≠ newline) = w ++ [] := List.takeWhile_append_of_pos hall
  have hrest : (w ++ []).dropWhile (· ≠ newline) = [] := List.dropWhile_append_of_pos hall
  rw [List.append_nil] at hline hrest
  unfold split
  rw [hline, hrest, List.drop_nil]

/-- What ends a line: a newline, a carriage return and a newline, or the window, and then a carriage
return may stand before that. -/
def terminators : List Bytes :=
  [[], [carriageReturn], [newline], [carriageReturn, newline]]

/-- Of a line only a carriage return at its end is left out. -/
theorem chomp_append (w : Bytes) :
    ∃ t, (t = [] ∨ t = [carriageReturn]) ∧ chomp w ++ t = w := by
  unfold chomp
  split
  next h =>
    obtain ⟨front, rfl⟩ := List.getLast?_eq_some_iff.mp h
    exact ⟨[carriageReturn], .inr rfl, by rw [List.dropLast_concat]⟩
  next => exact ⟨[], .inl rfl, List.append_nil w⟩

theorem chomp_of_getLast? (h : w.getLast? ≠ some carriageReturn) : chomp w = w := if_neg h

theorem chomp_concat (w : Bytes) : chomp (w ++ [carriageReturn]) = w := by
  unfold chomp
  rw [List.getLast?_concat, if_pos rfl, List.dropLast_concat]

theorem chomp_sublist (w : Bytes) : (chomp w).Sublist w := by
  unfold chomp
  split
  · exact List.dropLast_sublist w
  · exact .refl w

/-! ## One line of a stream -/

/-- The line that is shown of a stream in a window, without its terminator, and what is left of the
stream. Where there is no stream there is no line. -/
def next (cap : Nat) (stream : Bytes) : Option Bytes × Bytes :=
  let window := stream.take cap
  if stream = [] then (none, [])
  else if newline ∈ window then
    (some (chomp (window.takeWhile (· ≠ newline))), (stream.dropWhile (· ≠ newline)).drop 1)
  else (some (chomp window), stream.drop cap)

theorem next_nil (cap : Nat) : next cap [] = (none, []) := rfl

theorem next_eq_none_iff : (next cap stream).1 = none ↔ stream = [] := by
  unfold next
  dsimp only
  by_cases h : stream = []
  · simp [h]
  · rw [if_neg h]
    split <;> simp [h]

/-- A newline within the window ends the line. -/
theorem next_of_newline (h : newline ∉ front) (hlen : front.length < cap) (back : Bytes) :
    next cap (front ++ newline :: back) = (some (chomp front), back) := by
  obtain ⟨room, rfl⟩ := Nat.exists_eq_add_of_lt hlen
  have hwindow : (front ++ newline :: back).take (front.length + room + 1) =
      front ++ newline :: back.take room := by
    rw [Nat.add_assoc, List.take_length_add_append, List.take_succ_cons]
  have hmem : newline ∈ front ++ newline :: back.take room := by simp
  have hline := congrArg Prod.fst (split_append h (back.take room))
  have hrest := congrArg Prod.snd (split_append h back)
  unfold split at hline hrest
  dsimp only at hline hrest
  unfold next
  dsimp only
  rw [if_neg (by simp), hwindow, if_pos hmem, hline, hrest]

/-- A full window without a newline is a line. -/
theorem next_of_full (hne : w ≠ []) (h : newline ∉ w) (hlen : w.length = cap) (more : Bytes) :
    next cap (w ++ more) = (some (chomp w), more) := by
  unfold next
  dsimp only
  rw [if_neg (List.append_ne_nil_of_left_ne_nil hne more), ← hlen, List.take_left, if_neg h, List.drop_left]

/-- So are the last bytes of the stream. -/
theorem next_of_last (hne : w ≠ []) (h : newline ∉ w) (hlen : w.length ≤ cap) :
    next cap w = (some (chomp w), []) := by
  unfold next
  dsimp only
  rw [if_neg hne, List.take_of_length_le hlen, if_neg h, List.drop_of_length_le hlen]

/-- The first line of the bytes at hand, and what stands behind it; no bytes are no line. -/
def first (w : Bytes) : Option Bytes × Bytes :=
  if w = [] then (none, []) else (some (split w).1, (split w).2)

/-- Bytes that do not exceed the window, and hold a newline, fill the window or are all there is,
decide what the next line is. -/
theorem next_append (hcap : 0 < cap) (hlen : w.length ≤ cap)
    (h : newline ∈ w ∨ w.length = cap ∨ more = []) :
    next cap (w ++ more) = ((first w).1, (first w).2 ++ more) := by
  by_cases hne : w = []
  · subst hne
    have hmore : more = [] := by
      rcases h with h | h | h
      · cases h
      · exact absurd h (Nat.ne_of_lt hcap)
      · exact h
    rw [hmore]
    rfl
  rw [first, if_neg hne]
  by_cases hmem : newline ∈ w
  · obtain ⟨front, back, rfl, hfront⟩ := List.eq_append_cons_of_mem hmem
    rw [List.length_append, List.length_cons] at hlen
    rw [List.append_assoc, List.cons_append, next_of_newline hfront (by omega),
      split_append hfront]
  · rw [split_of_not_mem hmem]
    rcases h.resolve_left hmem with hfull | rfl
    · exact next_of_full hne hmem hfull more
    · rw [List.append_nil]
      exact next_of_last hne hmem hlen

/-- What stands behind the first line is shorter. -/
theorem length_first_le (w : Bytes) : (first w).2.length ≤ w.length := by
  unfold first
  split
  · exact Nat.zero_le _
  · show ((w.dropWhile (· ≠ newline)).drop 1).length ≤ w.length
    exact Nat.le_trans (List.drop_sublist 1 _).length_le (List.dropWhile_sublist _).length_le

/-- A line with its terminator and what is left are the stream. -/
theorem next_piece (hne : stream ≠ []) :
    ∃ line t rest, next cap stream = (some line, rest) ∧ t ∈ terminators ∧
      line ++ t ++ rest = stream ∧ newline ∉ line ∧ line.length ≤ cap := by
  have hwindow := List.length_take_le cap stream
  by_cases hmem : newline ∈ stream.take cap
  · obtain ⟨front, back, hsplit, hfront⟩ := List.eq_append_cons_of_mem hmem
    obtain ⟨t, ht, hchomp⟩ := chomp_append front
    have hsub := chomp_sublist front
    have hlen := hsub.length_le
    have hstream : stream = front ++ newline :: (back ++ stream.drop cap) := by
      rw [← List.cons_append, ← List.append_assoc, ← hsplit, List.take_append_drop]
    rw [hsplit, List.length_append, List.length_cons] at hwindow
    refine ⟨chomp front, t ++ [newline], back ++ stream.drop cap, ?_, ?_, ?_, ?_, by omega⟩
    · rw [hstream, next_of_newline hfront (by omega), ← hstream]
    · rcases ht with rfl | rfl <;> simp [terminators]
    · rw [← List.append_assoc (chomp front), hchomp, List.append_assoc, List.singleton_append]
      exact hstream.symm
    · exact fun h => hfront (hsub.subset h)
  · obtain ⟨t, ht, hchomp⟩ := chomp_append (stream.take cap)
    have hsub := chomp_sublist (stream.take cap)
    refine ⟨chomp (stream.take cap), t, stream.drop cap, ?_, ?_, ?_, ?_,
      Nat.le_trans hsub.length_le hwindow⟩
    · unfold next
      dsimp only
      rw [if_neg hne, if_neg hmem]
    · rcases ht with rfl | rfl <;> simp [terminators]
    · rw [hchomp, List.take_append_drop]
    · exact fun h => hmem (hsub.subset h)

theorem next_suffix (cap : Nat) (stream : Bytes) : (next cap stream).2 <:+ stream := by
  by_cases hne : stream = []
  · subst hne
    exact List.nil_suffix
  · obtain ⟨line, t, rest, hnext, -, hpiece, -⟩ := @next_piece cap _ hne
    rw [hnext]
    exact ⟨line ++ t, hpiece⟩

/-! ## Line by line -/

/-- What is left of a stream once some lines were taken. -/
def left (cap : Nat) : Nat → Bytes → Bytes
  | 0, stream => stream
  | n + 1, stream => (next cap (left cap n stream)).2

/-- The first lines of a stream, as often as one looks for a line. -/
def lines (cap n : Nat) (stream : Bytes) : List (Option Bytes) :=
  (List.range n).map fun i => (next cap (left cap i stream)).1

theorem left_succ (cap n : Nat) (stream : Bytes) :
    left cap (n + 1) stream = (next cap (left cap n stream)).2 := rfl

theorem lines_succ (cap n : Nat) (stream : Bytes) :
    lines cap (n + 1) stream = lines cap n stream ++ [(next cap (left cap n stream)).1] := by
  unfold lines
  rw [List.range_succ, List.map_append, List.map_singleton]

/-- Such bytes decide how one line more is taken. -/
theorem lines_succ_of_left (hcap : 0 < cap) {n : Nat} (hleft : left cap n stream = w ++ more)
    (hlen : w.length ≤ cap) (h : newline ∈ w ∨ w.length = cap ∨ more = []) :
    lines cap (n + 1) stream = lines cap n stream ++ [(first w).1] ∧
      left cap (n + 1) stream = (first w).2 ++ more := by
  rw [lines_succ, left_succ, hleft, next_append hcap hlen h]
  exact ⟨rfl, rfl⟩

/-- Where nothing is left there are no more lines. -/
theorem left_of_le {n m : Nat} (hnm : n ≤ m) (h : left cap n stream = []) :
    left cap m stream = [] := by
  induction hnm with
  | refl => exact h
  | step _ ih => rw [left_succ, ih, next_nil]

/-- Once there is no line there are none from then on. -/
theorem lines_none {n i j : Nat} (hij : i ≤ j) (hj : j < n)
    (h : (lines cap n stream)[i]? = some none) : (lines cap n stream)[j]? = some none := by
  have hi : i < n := Nat.lt_of_le_of_lt hij hj
  simp only [lines, List.getElem?_map, List.getElem?_range hi, List.getElem?_range hj,
    Option.map_some, Option.some.injEq, next_eq_none_iff] at h ⊢
  exact left_of_le hij h

/-- The lines that are shown with their terminators, and what is left, are the stream. -/
theorem lines_pieces (cap n : Nat) (stream : Bytes) :
    ∃ pieces : List (Bytes × Bytes),
      (lines cap n stream).filterMap id = pieces.map Prod.fst ∧
      pieces.flatMap (fun p => p.1 ++ p.2) ++ left cap n stream = stream ∧
      ∀ p ∈ pieces, p.2 ∈ terminators ∧ newline ∉ p.1 ∧ p.1.length ≤ cap := by
  induction n with
  | zero => exact ⟨[], rfl, rfl, nofun⟩
  | succ n ih =>
    obtain ⟨pieces, hlines, hstream, hpieces⟩ := ih
    rw [lines_succ, left_succ, List.filterMap_append, hlines]
    by_cases hleft : left cap n stream = []
    · refine ⟨pieces, ?_, ?_, hpieces⟩
      · rw [hleft, next_nil]
        simp
      · rw [hleft] at hstream
        rw [hleft, next_nil, hstream]
    · obtain ⟨line, t, rest, hnext, ht, hpiece, hline⟩ := next_piece hleft
      refine ⟨pieces ++ [(line, t)], ?_, ?_, ?_⟩
      · rw [hnext]
        simp
      · rw [hnext, List.flatMap_append, List.flatMap_singleton, List.append_assoc, hpiece, hstream]
      · intro p hp
        rcases List.mem_append.mp hp with hp | hp
        · exact hpieces p hp
        · rw [List.mem_singleton.mp hp]
          exact ⟨ht, hline⟩

/-! ## Decoded lines -/

/-- Whatever its bytes are, a line is decoded as a line. -/
theorem map_lossy_eq_none_iff {x : Option (Option Bytes)} :
    x.map (·.map Utf8.lossy) = some none ↔ x = some none := by
  rcases x with _ | _ | bytes <;> simp

theorem filterMap_map_lossy (l : List (Option Bytes)) :
    (l.map (·.map Utf8.lossy)).filterMap id = (l.filterMap id).map Utf8.lossy := by
  rw [List.filterMap_map, List.map_filterMap]
  rfl

end Line

end MediaChain
