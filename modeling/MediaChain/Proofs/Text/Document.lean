import MediaChain.Proofs.Text.Line
import Mathlib.Data.List.Basic

/-!
# Texts of lines

A `Document` is a text of rows, each with its terminator, and perhaps a last line that has none. In
windows that its lines fit, each row is shown as its content, but where it does not fit with its
terminator an empty line stands behind it for each window more that it takes (`Row.shows`). So the
text is shown as its lines if its rows fit with their terminators (`Document.shown_eq_contents`), and
only then (`Document.fits_of_length`).
-/

namespace MediaChain

namespace Line

variable {cap : Nat} {stream mid rest : Bytes} {shown shown' : List Bytes}

/-! ## What a stream begins with -/

theorem left_add (cap m n : Nat) (stream : Bytes) :
    left cap (m + n) stream = left cap n (left cap m stream) := by
  induction n with
  | zero => rfl
  | succ n ih => rw [← Nat.add_assoc, left_succ, ih, left_succ]

theorem lines_add (cap m n : Nat) (stream : Bytes) :
    lines cap (m + n) stream = lines cap m stream ++ lines cap n (left cap m stream) := by
  induction n with
  | zero => exact (List.append_nil _).symm
  | succ n ih => rw [← Nat.add_assoc, lines_succ, ih, lines_succ, left_add, List.append_assoc]

/-- The stream begins with these lines, and the rest is left behind them. -/
structure Shows (cap : Nat) (stream : Bytes) (shown : List Bytes) (rest : Bytes) : Prop where
  lines_eq : lines cap shown.length stream = shown.map some
  left_eq : left cap shown.length stream = rest

namespace Shows

theorem refl (cap : Nat) (stream : Bytes) : Shows cap stream [] stream := ⟨rfl, rfl⟩

theorem one {line : Bytes} (h : next cap stream = (some line, rest)) :
    Shows cap stream [line] rest where
  lines_eq := by
    show [(next cap stream).1] = [some line]
    rw [h]
  left_eq := congrArg Prod.snd h

theorem append (h : Shows cap stream shown mid) (h' : Shows cap mid shown' rest) :
    Shows cap stream (shown ++ shown') rest := by
  refine ⟨?_, ?_⟩
  · rw [List.length_append, lines_add, h.lines_eq, h.left_eq, h'.lines_eq, List.map_append]
  · rw [List.length_append, left_add, h.left_eq, h'.left_eq]

/-- Where nothing is left, these lines are all there are. -/
theorem lines (h : Shows cap stream shown []) (n : Nat) :
    Line.lines cap n stream = (List.range n).map (shown[·]?) := by
  refine List.map_congr_left fun i _ => ?_
  by_cases hi : i < shown.length
  · have hline := congrArg (·[i]?) h.lines_eq
    simpa [Line.lines, List.getElem?_range hi, hi] using hline
  · rw [left_of_le (Nat.le_of_not_lt hi) h.left_eq, next_nil,
      List.getElem?_eq_none (Nat.le_of_not_lt hi)]

end Shows

/-- What can stand in a line that fits a window. -/
structure Proper (cap : Nat) (w : Bytes) : Prop where
  length_le : w.length ≤ cap
  no_newline : newline ∉ w
  no_return : w.getLast? ≠ some carriageReturn

instance (cap : Nat) (w : Bytes) : Decidable (Proper cap w) :=
  decidable_of_iff (w.length ≤ cap ∧ newline ∉ w ∧ w.getLast? ≠ some carriageReturn)
    ⟨fun h => ⟨h.1, h.2.1, h.2.2⟩, fun h => ⟨h.length_le, h.no_newline, h.no_return⟩⟩

theorem Proper.chomp {w : Bytes} (h : Proper cap w) : chomp w = w := chomp_of_getLast? h.no_return

end Line

open Line

/-! ## Rows -/

/-- A line of a text that has a terminator. -/
structure Row where
  content : String
  /-- Whether a carriage return stands in front of its newline. -/
  returned : Bool

namespace Row

variable {cap : Nat} {r : Row}

/-- What stands in front of the newline. -/
def body (r : Row) : Bytes := Utf8.encode r.content ++ if r.returned then [carriageReturn] else []

def bytes (r : Row) : Bytes := r.body ++ [newline]

/-- The windows that are full before the newline comes. -/
def strays (cap : Nat) (r : Row) : Nat := r.body.length / cap

/-- The lines that are shown of a row. -/
def shown (cap : Nat) (r : Row) : List String := r.content :: List.replicate (r.strays cap) ""

theorem length_bytes (r : Row) : r.bytes.length = r.body.length + 1 := List.length_append

theorem strays_eq_zero_iff (hcap : 0 < cap) : r.strays cap = 0 ↔ r.bytes.length ≤ cap := by
  rw [strays, Nat.div_eq_zero_iff, length_bytes]
  omega

theorem chomp_body (h : Proper cap (Utf8.encode r.content)) :
    chomp r.body = Utf8.encode r.content := by
  unfold body
  split
  · exact chomp_concat _
  · rw [List.append_nil]
    exact h.chomp

theorem newline_not_mem_body (h : Proper cap (Utf8.encode r.content)) : newline ∉ r.body := by
  have hreturn : newline ≠ carriageReturn := by decide
  unfold body
  split
  · simp [h.no_newline, hreturn]
  · simp [h.no_newline]

/-- A row whose body is longer than a window has a carriage return in front of its newline. -/
theorem body_of_long (h : Proper cap (Utf8.encode r.content)) (hlong : cap < r.body.length) :
    r.body = Utf8.encode r.content ++ [carriageReturn] ∧ (Utf8.encode r.content).length = cap := by
  have hle := h.length_le
  unfold body at hlong ⊢
  by_cases hreturned : r.returned = true
  · rw [if_pos hreturned, List.length_append, List.length_singleton] at hlong
    exact ⟨by rw [if_pos hreturned], by omega⟩
  · rw [if_neg hreturned, List.append_nil] at hlong
    omega

/-- A newline at once is an empty line, and so is one behind a carriage return. -/
theorem shows_newline (hcap : 0 < cap) (more : Bytes) : Shows cap (newline :: more) [[]] more :=
  .one (next_of_newline List.not_mem_nil hcap more)

theorem shows_return (hcap : 0 < cap) (more : Bytes) :
    Shows cap (carriageReturn :: newline :: more) (List.replicate ((cap + 1) / cap) []) more := by
  have hline : newline ∉ [carriageReturn] := by decide
  rw [Nat.add_div_left 1 hcap]
  rcases Nat.lt_or_ge 1 cap with hroom | hone
  · rw [Nat.div_eq_of_lt hroom]
    exact .one (next_of_newline hline hroom more)
  · obtain rfl : cap = 1 := Nat.le_antisymm hone hcap
    exact .append (.one (next_of_full (by decide) hline rfl _)) (shows_newline hcap more)

/-- A row is shown as its content, with an empty line behind it for each window that is full before
its newline comes. -/
theorem shows (hcap : 0 < cap) (h : Proper cap (Utf8.encode r.content)) (more : Bytes) :
    Shows cap (r.bytes ++ more) ((r.shown cap).map Utf8.encode) more := by
  have hbody := newline_not_mem_body h
  have hshown : (r.shown cap).map Utf8.encode =
      [Utf8.encode r.content] ++ List.replicate (r.strays cap) [] := by
    rw [shown, List.map_cons, List.map_replicate]
    rfl
  rw [hshown, strays, bytes, List.append_assoc, List.singleton_append]
  rcases Nat.lt_trichotomy r.body.length cap with hshort | hfull | hlong
  · rw [Nat.div_eq_of_lt hshort]
    refine .one ?_
    rw [next_of_newline hbody hshort, chomp_body h]
  · rw [hfull, Nat.div_self hcap]
    refine Shows.append (.one ?_) (shows_newline hcap more)
    have hne : r.body ≠ [] := List.ne_nil_of_length_pos (by omega)
    rw [next_of_full hne hbody hfull, chomp_body h]
  · obtain ⟨hreturned, hlen⟩ := body_of_long h hlong
    have hne : Utf8.encode r.content ≠ [] := List.ne_nil_of_length_pos (by omega)
    rw [hreturned, List.length_append, hlen, List.append_assoc]
    refine Shows.append (.one ?_) (shows_return hcap more)
    rw [next_of_full hne h.no_newline hlen, h.chomp]
    rfl

end Row

/-! ## Texts -/

/-- A text of rows, with a line behind them that has no terminator if there is one. Its lines fit a
window. -/
structure Document (cap : Nat) where
  rows : List Row
  last : Option String
  rows_proper : ∀ r ∈ rows, Proper cap (Utf8.encode r.content)
  last_proper : ∀ text ∈ last, text ≠ "" ∧ Proper cap (Utf8.encode text)

namespace Document

variable {cap : Nat}

def bytes (doc : Document cap) : Bytes :=
  doc.rows.flatMap Row.bytes ++ doc.last.toList.flatMap Utf8.encode

/-- The lines of the text. -/
def contents (doc : Document cap) : List String := doc.rows.map Row.content ++ doc.last.toList

/-- The lines that are shown of it. -/
def shown (doc : Document cap) : List String :=
  doc.rows.flatMap (Row.shown cap) ++ doc.last.toList

/-- Every row fits the window with its terminator. -/
def Fits (doc : Document cap) : Prop := ∀ r ∈ doc.rows, r.bytes.length ≤ cap

instance (doc : Document cap) : Decidable doc.Fits :=
  inferInstanceAs (Decidable (∀ r ∈ doc.rows, r.bytes.length ≤ cap))

theorem rows_shows (hcap : 0 < cap) {rows : List Row}
    (h : ∀ r ∈ rows, Proper cap (Utf8.encode r.content)) (more : Bytes) :
    Shows cap (rows.flatMap Row.bytes ++ more)
      ((rows.flatMap (Row.shown cap)).map Utf8.encode) more := by
  induction rows with
  | nil => exact .refl cap more
  | cons r rows ih =>
    obtain ⟨hr, hrows⟩ := List.forall_mem_cons.mp h
    rw [List.flatMap_cons, List.flatMap_cons, List.map_append, List.append_assoc]
    exact (Row.shows hcap hr _).append (ih hrows)

theorem last_shows {last : Option String}
    (h : ∀ text ∈ last, text ≠ "" ∧ Proper cap (Utf8.encode text)) :
    Shows cap (last.toList.flatMap Utf8.encode) (last.toList.map Utf8.encode) [] := by
  cases last with
  | none => exact .refl cap []
  | some text =>
    obtain ⟨hne, hproper⟩ := h text rfl
    refine .one ?_
    have hbytes : Utf8.encode text ≠ [] := fun hnil => hne (Utf8.encode_injective hnil)
    rw [Option.toList_some, List.flatMap_singleton,
      next_of_last hbytes hproper.no_newline hproper.length_le, hproper.chomp]

/-- The lines of a text are shown one after the other, and then none. -/
theorem lines_bytes (hcap : 0 < cap) (doc : Document cap) (n : Nat) :
    (lines cap n doc.bytes).map (·.map Utf8.lossy) = (List.range n).map (doc.shown[·]?) := by
  have hshows := (rows_shows hcap doc.rows_proper _).append (last_shows doc.last_proper)
  rw [bytes, hshows.lines, ← List.map_append, List.map_map]
  refine List.map_congr_left fun i _ => ?_
  show ((doc.shown.map Utf8.encode)[i]?).map Utf8.lossy = doc.shown[i]?
  have hread : Utf8.lossy ∘ Utf8.encode = id := funext Utf8.lossy_encode
  rw [List.getElem?_map, Option.map_map, hread, Option.map_id, id]

theorem shown_eq_contents {doc : Document cap} (hcap : 0 < cap) (h : doc.Fits) :
    doc.shown = doc.contents := by
  have hrow : ∀ r ∈ doc.rows, r.shown cap = [r.content] := fun r hr => by
    rw [Row.shown, (Row.strays_eq_zero_iff hcap).mpr (h r hr), List.replicate_zero]
  rw [shown, contents, List.flatMap_congr hrow, List.map_eq_flatMap]

theorem length_le_rows_shown (cap : Nat) (rows : List Row) :
    rows.length ≤ (rows.flatMap (Row.shown cap)).length := by
  induction rows with
  | nil => exact Nat.le_refl 0
  | cons r rows ih =>
    rw [List.flatMap_cons, List.length_append, Row.shown, List.length_cons, List.length_cons]
    omega

/-- Where no more lines are shown than there are rows, none is shown besides their contents. -/
theorem strays_of_length {rows : List Row}
    (h : (rows.flatMap (Row.shown cap)).length ≤ rows.length) : ∀ r ∈ rows, r.strays cap = 0 := by
  induction rows with
  | nil => exact fun r hr => absurd hr List.not_mem_nil
  | cons r rows ih =>
    have hle := length_le_rows_shown cap rows
    rw [List.flatMap_cons, List.length_append, Row.shown, List.length_cons, List.length_replicate,
      List.length_cons] at h
    exact List.forall_mem_cons.mpr ⟨by omega, ih (by omega)⟩

/-- Where no more lines are shown than there are, every row fits. -/
theorem fits_of_length {doc : Document cap} (hcap : 0 < cap)
    (h : doc.shown.length ≤ doc.contents.length) : doc.Fits := by
  intro r hr
  rw [shown, contents, List.length_append, List.length_append, List.length_map] at h
  exact (Row.strays_eq_zero_iff hcap).mp (strays_of_length (by omega) r hr)

end Document

end MediaChain
