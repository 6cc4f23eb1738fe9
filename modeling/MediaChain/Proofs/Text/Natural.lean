import MediaChain.Text.Lowercase
import MediaChain.Text.Natural
import Mathlib.Algebra.Group.Nat.Defs
import Mathlib.Data.Nat.Basic

/-!
# Natural order is an order

A text is a list of pieces: runs of digits, and other characters in folded form. Whatever folds
characters, as long as digits stay apart from the others (`Natural.Folds`), to compare two texts
side by side is to compare them piece by piece (`Natural.lockstep_eq`). So the natural order of two
texts is the order of what their pieces are worth (`Natural.order_eq_sortKey`): a total order in
which texts are alike only if they are equal, and in which numbers count by their values
(`Natural.order_naturalOrder`).
-/

namespace MediaChain

namespace Natural

open Std

variable {fold : Char → List Char} {c d : Char} {x y f g : List Char}

/-- Folding keeps digits apart from the other characters. -/
structure Folds (fold : Char → List Char) : Prop where
  digit : ∀ c : Char, c.isDigit = true → fold c = [c]
  other : ∀ c : Char, c.isDigit = false → ∀ d ∈ (fold c).head?, d.isDigit = false

/-! ## Pieces -/

/-- A piece of a text: a run of digits, or one other character in its folded form. -/
inductive Piece
  | number (digits : List Char)
  | letter (folded : List Char)
deriving DecidableEq, Repr

/-- The pieces of a text, with `fold` giving the folded form of a character. -/
def pieces (fold : Char → List Char) : List Char → List Piece
  | [] => []
  | c :: cs =>
    if c.isDigit then
      match pieces fold cs with
      | .number ds :: more => .number (c :: ds) :: more
      | more => .number [c] :: more
    else .letter (fold c) :: pieces fold cs

/-- Orders two pieces. A number meets a letter by its first digit. -/
def Piece.order : Piece → Piece → Ordering
  | number x, number y => compareRuns x y
  | number x, letter y => compare (x.take 1) y
  | letter x, number y => compare x (y.take 1)
  | letter x, letter y => compare x y

/-! ## Runs of digits -/

/-- A run of digits only. -/
def Digits (x : List Char) : Prop := ∀ c ∈ x, c.isDigit = true

instance (x : List Char) : Decidable (Digits x) :=
  decidable_of_iff (x.all Char.isDigit = true) List.all_eq_true

/-- The number that a run of digits spells. -/
def value (x : List Char) : Nat := Nat.ofDigitChars 10 x 0

/-- The number that a digit stands for. -/
def digit (c : Char) : Nat := c.toNat - '0'.toNat

theorem compare_char (c d : Char) : compare c d = compare c.toNat d.toNat := by
  show compareOfLessAndEq c d = compareOfLessAndEq c.toNat d.toNat
  simp only [compareOfLessAndEq, Char.toNat_inj]
  rfl

theorem compare_digit (hc : c.isDigit = true) (hd : d.isDigit = true) :
    compare c d = compare (digit c) (digit d) := by
  obtain ⟨hc, _⟩ := Char.isDigit_iff_toNat.mp hc
  obtain ⟨hd, _⟩ := Char.isDigit_iff_toNat.mp hd
  rw [compare_char, digit, digit]
  grind [Nat.compare_eq_ite_lt]

theorem value_cons (c : Char) (x : List Char) :
    value (c :: x) = 10 ^ x.length * digit c + value x := by
  rw [value, Nat.ofDigitChars_cons, Nat.ofDigitChars_eq_ofDigitChars_zero]
  simp [value, digit]

theorem Digits.of_cons (h : Digits (c :: x)) : c.isDigit = true ∧ Digits x := by
  simpa [Digits] using h

theorem digit_le (hc : c.isDigit = true) : digit c ≤ 9 := by
  obtain ⟨_, hle⟩ := Char.isDigit_iff_toNat.mp hc
  exact Nat.sub_le_sub_right hle '0'.toNat

theorem value_lt (h : Digits x) : value x < 10 ^ x.length := by
  induction x with
  | nil => decide
  | cons c x ih =>
    obtain ⟨hc, hx⟩ := h.of_cons
    have hlt := ih hx
    have hmul := Nat.mul_le_mul_left (10 ^ x.length) (digit_le hc)
    rw [value_cons, List.length_cons, Nat.pow_succ]
    omega

/-- The places of a number count from the left. -/
theorem compare_mul_add {base a b v w : Nat} (hv : v < base) (hw : w < base) :
    compare (base * a + v) (base * b + w) = (compare a b).then (compare v w) := by
  rcases Nat.lt_trichotomy a b with hlt | rfl | hgt
  · have hmul : base * (a + 1) ≤ base * b := Nat.mul_le_mul_left base hlt
    rw [Nat.compare_eq_lt.mpr hlt, Nat.compare_eq_lt.mpr (by rw [Nat.mul_succ] at hmul; omega)]
    rfl
  · rw [Nat.compare_eq_eq.mpr rfl, Ordering.eq_then]
    grind [Nat.compare_eq_ite_lt]
  · have hmul : base * (b + 1) ≤ base * a := Nat.mul_le_mul_left base hgt
    rw [Nat.compare_eq_gt.mpr hgt, Nat.compare_eq_gt.mpr (by rw [Nat.mul_succ] at hmul; omega)]
    rfl

/-- Runs of one length are ordered by their values. -/
theorem compare_of_length_eq (hx : Digits x) (hy : Digits y) (hlength : x.length = y.length) :
    compare x y = compare (value x) (value y) := by
  induction x generalizing y with
  | nil =>
    obtain rfl := List.length_eq_zero_iff.mp hlength.symm
    rfl
  | cons c x ih =>
    obtain ⟨d, y, rfl⟩ := List.exists_cons_of_length_eq_add_one hlength.symm
    obtain ⟨hc, hx⟩ := hx.of_cons
    obtain ⟨hd, hy⟩ := hy.of_cons
    have hlength : x.length = y.length := Nat.succ.inj hlength
    have hvx := value_lt hx
    have hvy := value_lt hy
    rw [hlength] at hvx
    calc compare (c :: x) (d :: y) = (compare c d).then (compare x y) := by
          simp only [List.compare_eq_compareLex, List.compareLex_cons_cons]
      _ = (compare (digit c) (digit d)).then (compare (value x) (value y)) := by
          rw [compare_digit hc hd, ih hx hy hlength]
      _ = compare (value (c :: x)) (value (d :: y)) := by
          rw [value_cons, value_cons, hlength, compare_mul_add hvx hvy]

/-! ### Leading zeros -/

/-- A run without its leading zeros. -/
def trim (x : List Char) : List Char := x.dropWhile (· = '0')

theorem Digits.trim (h : Digits x) : Digits (trim x) := fun c hc =>
  h c ((List.dropWhile_suffix _).subset hc)

@[simp] theorem value_trim (x : List Char) : value (trim x) = value x := by
  induction x with
  | nil => rfl
  | cons c x ih =>
    by_cases hc : c = '0'
    · subst hc
      have hzero : digit '0' = 0 := rfl
      rw [value_cons, hzero, Nat.mul_zero, Nat.zero_add, ← ih]
      simp [trim]
    · simp [trim, hc]

theorem pow_le_value (h : Digits x) (hne : trim x ≠ []) :
    10 ^ ((trim x).length - 1) ≤ value x := by
  have hdigits := h.trim
  have hhead : ∀ c ∈ (trim x).head?, c ≠ '0' := by
    intro c hc hzero
    have hnot := List.head?_dropWhile_not (p := fun c => decide (c = '0')) x
    simp_all [trim]
  rw [← value_trim]
  obtain ⟨c, z, hz⟩ := List.exists_cons_of_ne_nil hne
  rw [hz] at hdigits hhead ⊢
  have hc := (Char.isDigit_iff_toNat.mp hdigits.of_cons.1).1
  have hne : c.toNat ≠ '0'.toNat := fun h => hhead c rfl (Char.toNat_inj.mp h)
  have hpos : 1 ≤ digit c := by
    unfold digit
    omega
  have hmul := Nat.mul_le_mul_left (10 ^ z.length) hpos
  rw [value_cons, List.length_cons, Nat.add_sub_cancel]
  omega

theorem value_lt_of_length_lt (hx : Digits x) (hy : Digits y)
    (h : (trim x).length < (trim y).length) : value x < value y := by
  have hne : trim y ≠ [] := List.length_pos_iff.mp (by omega)
  calc value x = value (trim x) := (value_trim x).symm
    _ < 10 ^ (trim x).length := value_lt hx.trim
    _ ≤ 10 ^ ((trim y).length - 1) := Nat.pow_le_pow_right (by decide) (by omega)
    _ ≤ value y := pow_le_value hy hne

/-- Runs of digits are ordered by their values. -/
theorem compareRuns_eq (hx : Digits x) (hy : Digits y) :
    compareRuns x y = compare (value x) (value y) := by
  show (compare (trim x).length (trim y).length).then (compare (trim x) (trim y)) = _
  rcases Nat.lt_trichotomy (trim x).length (trim y).length with hlt | heq | hgt
  · rw [Nat.compare_eq_lt.mpr hlt, Nat.compare_eq_lt.mpr (value_lt_of_length_lt hx hy hlt)]
    rfl
  · rw [Nat.compare_eq_eq.mpr heq, Ordering.eq_then, compare_of_length_eq hx.trim hy.trim heq,
      value_trim, value_trim]
  · rw [Nat.compare_eq_gt.mpr hgt, Nat.compare_eq_gt.mpr (value_lt_of_length_lt hy hx hgt)]
    rfl

/-! ## What a piece is worth -/

/-- What pieces are ordered by: whether they come before, among or behind the numbers, their number,
and their folded form. -/
structure Key where
  rank : Nat
  number : Nat
  folded : List Char

namespace Key

def order : Key → Key → Ordering :=
  compareLex (compareOn Key.rank) (compareLex (compareOn Key.number) (compareOn Key.folded))

instance : Ord Key := ⟨order⟩

instance : TransOrd Key :=
  inferInstanceAs (TransCmp
    (compareLex (compareOn Key.rank) (compareLex (compareOn Key.number) (compareOn Key.folded))))

theorem compare_def (k l : Key) :
    compare k l = (compare k.rank l.rank).then
      ((compare k.number l.number).then (compare k.folded l.folded)) := rfl

end Key

namespace Piece

variable {p q : Piece}

/-- A letter comes before the numbers or behind them, by its first character. -/
def rank : List Char → Nat
  | [] => 0
  | c :: _ => if c.toNat ≤ '9'.toNat then 0 else 2

def key : Piece → Key
  | number x => ⟨1, value x, []⟩
  | letter f => ⟨rank f, 0, f⟩

/-- What can be a piece of a text: a run of digits, or a letter that does not look like one. -/
def Proper : Piece → Prop
  | number x => x ≠ [] ∧ Digits x
  | letter f => ∀ c ∈ f.head?, c.isDigit = false

theorem compare_cons (c d : Char) (f g : List Char) :
    compare (c :: f) (d :: g) = (compare c.toNat d.toNat).then (compare f g) := by
  rw [List.compare_eq_compareLex, List.compareLex_cons_cons, ← List.compare_eq_compareLex,
    compare_char]

theorem rank_of_le (hc : c.toNat ≤ '9'.toNat) : rank (c :: f) = 0 := if_pos hc

theorem rank_of_lt (hc : '9'.toNat < c.toNat) : rank (c :: f) = 2 := if_neg (by omega)

theorem rank_le_of_compare_eq_lt (h : compare f g = .lt) : rank f ≤ rank g := by
  cases f with
  | nil => exact Nat.zero_le _
  | cons c f =>
    cases g with
    | nil => cases h
    | cons d g =>
      rw [compare_cons, Ordering.then_eq_lt, Nat.compare_eq_lt, Nat.compare_eq_eq] at h
      by_cases hc : c.toNat ≤ '9'.toNat
      · rw [rank_of_le hc]
        exact Nat.zero_le _
      · rw [rank_of_lt (by omega), rank_of_lt (by omega)]

/-- Letters are ordered by their ranks first, since their first characters are. -/
theorem compare_rank (f g : List Char) :
    (compare (rank f) (rank g)).then (compare f g) = compare f g := by
  cases h : compare f g with
  | lt =>
    rcases Nat.lt_or_eq_of_le (rank_le_of_compare_eq_lt h) with hlt | heq
    · rw [Nat.compare_eq_lt.mpr hlt]
      rfl
    · rw [heq, compare_self]
      rfl
  | eq =>
    obtain rfl := LawfulEqCmp.eq_of_compare h
    rw [compare_self]
    rfl
  | gt =>
    rcases Nat.lt_or_eq_of_le (rank_le_of_compare_eq_lt (OrientedCmp.lt_of_gt h)) with hlt | heq
    · rw [Nat.compare_eq_gt.mpr hlt]
      rfl
    · rw [heq, compare_self]
      rfl

/-- A number meets a letter by the letter's rank, and they are never alike. -/
theorem compare_number_letter (hx : x ≠ [] ∧ Digits x) (hf : ∀ c ∈ f.head?, c.isDigit = false) :
    compare (x.take 1) f = compare 1 (rank f) ∧ rank f ≠ 1 := by
  obtain ⟨d, x, rfl⟩ := List.exists_cons_of_ne_nil hx.1
  have hd := Char.isDigit_iff_toNat.mp hx.2.of_cons.1
  cases f with
  | nil => exact ⟨rfl, by decide⟩
  | cons c f =>
    have hc : ¬('0'.toNat ≤ c.toNat ∧ c.toNat ≤ '9'.toNat) := by
      rw [← Char.isDigit_iff_toNat]
      simpa using hf c rfl
    show compare [d] (c :: f) = _ ∧ _
    rw [compare_cons]
    by_cases hle : c.toNat ≤ '9'.toNat
    · rw [rank_of_le hle, Nat.compare_eq_gt.mpr (show c.toNat < d.toNat by omega)]
      exact ⟨rfl, by decide⟩
    · rw [rank_of_lt (by omega), Nat.compare_eq_lt.mpr (show d.toNat < c.toNat by omega)]
      exact ⟨rfl, by decide⟩

/-- Ranks that differ decide. -/
theorem compare_key_of_ne {k l : Key} (h : k.rank ≠ l.rank) :
    compare k l = compare k.rank l.rank := by
  rw [Key.compare_def]
  rcases Nat.lt_or_gt_of_ne h with hlt | hgt
  · rw [Nat.compare_eq_lt.mpr hlt]
    rfl
  · rw [Nat.compare_eq_gt.mpr hgt]
    rfl

/-- Pieces of texts are ordered by what they are worth. -/
theorem order_eq (hp : p.Proper) (hq : q.Proper) : p.order q = compare p.key q.key := by
  cases p with
  | number x =>
    cases q with
    | number y =>
      rw [Key.compare_def, order, compareRuns_eq hp.2 hq.2]
      simp [key]
    | letter f =>
      obtain ⟨hcompare, hne⟩ := compare_number_letter hp hq
      rw [order, hcompare, compare_key_of_ne hne.symm]
      rfl
  | letter f =>
    cases q with
    | number y =>
      obtain ⟨hcompare, hne⟩ := compare_number_letter hq hp
      have hkey : (letter f).key.rank ≠ (number y).key.rank := hne
      calc compare f (y.take 1) = (compare (y.take 1) f).swap := OrientedOrd.eq_swap
        _ = (compare 1 (rank f)).swap := by rw [hcompare]
        _ = compare (rank f) 1 := OrientedOrd.eq_swap.symm
        _ = compare (letter f).key (number y).key := (compare_key_of_ne hkey).symm
    | letter g =>
      rw [Key.compare_def, order, ← compare_rank]
      simp [key]

end Piece

/-! ## What a text is worth -/

/-- Every piece of a text is a run of digits, or the folded form of another character. -/
theorem proper_of_mem_pieces (hfold : Folds fold) {cs : List Char} :
    ∀ p ∈ pieces fold cs, p.Proper := by
  fun_induction pieces fold cs with
  | case1 => simp
  | case2 c cs hc ds more hpieces ih =>
    have hnumber : (Piece.number ds).Proper := ih _ (by simp [hpieces])
    have hmore : ∀ p ∈ more, p.Proper := fun p hp => ih p (by simp [hpieces, hp])
    rw [List.forall_mem_cons]
    refine ⟨⟨by simp, ?_⟩, hmore⟩
    simpa [Digits, hc] using hnumber.2
  | case3 c cs hc hpieces ih =>
    rw [List.forall_mem_cons]
    refine ⟨⟨by simp, ?_⟩, ih⟩
    simp [Digits, hc]
  | case4 c cs hc ih =>
    rw [List.forall_mem_cons]
    exact ⟨hfold.other c (by simpa using hc), ih⟩

/-- What a text is ordered by, before it is ordered as a text. -/
def sortKey (fold : Char → List Char) (s : String) : List Key :=
  (pieces fold s.toList).map Piece.key

theorem compareLex_pieces {ps qs : List Piece} (hps : ∀ p ∈ ps, p.Proper)
    (hqs : ∀ q ∈ qs, q.Proper) :
    List.compareLex Piece.order ps qs = compare (ps.map Piece.key) (qs.map Piece.key) := by
  induction ps generalizing qs with
  | nil => cases qs <;> rfl
  | cons p ps ih =>
    cases qs with
    | nil => rfl
    | cons q qs =>
      rw [List.forall_mem_cons] at hps hqs
      rw [List.compareLex_cons_cons, Piece.order_eq hps.1 hqs.1, ih hps.2 hqs.2]
      simp only [List.compare_eq_compareLex, List.map_cons, List.compareLex_cons_cons]

/-! ## Numbers inside of texts -/

theorem pieces_ne_nil {cs : List Char} (h : cs ≠ []) : pieces fold cs ≠ [] := by
  fun_cases pieces fold cs <;> simp_all

theorem pieces_run {x w : List Char} (hx : Digits x) (hne : x ≠ [])
    (hw : ∀ c ∈ w.head?, c.isDigit = false) :
    pieces fold (x ++ w) = .number x :: pieces fold w := by
  induction x with
  | nil => exact absurd rfl hne
  | cons c x ih =>
    obtain ⟨hc, hx⟩ := hx.of_cons
    cases x with
    | nil =>
      cases w with
      | nil => simp [pieces, hc]
      | cons d w =>
        have hd : d.isDigit = false := hw d rfl
        simp [pieces, hc, hd]
    | cons d x =>
      have hmore := ih hx (by simp)
      rw [List.cons_append, pieces, if_pos hc, hmore]

theorem pieces_append {u v : List Char} (hu : ∀ c ∈ u.getLast?, c.isDigit = false) :
    pieces fold (u ++ v) = pieces fold u ++ pieces fold v := by
  induction u with
  | nil => rfl
  | cons c u ih =>
    cases u with
    | nil =>
      have hc : c.isDigit = false := hu c rfl
      simp [pieces, hc]
    | cons d u =>
      have happend := ih (by simpa using hu)
      have hne : pieces fold (d :: u) ≠ [] := pieces_ne_nil (List.cons_ne_nil d u)
      obtain ⟨p, ps, hpieces⟩ := List.exists_cons_of_ne_nil hne
      rw [hpieces] at happend
      by_cases hc : c.isDigit = true
      · rw [List.cons_append, pieces, if_pos hc, pieces, if_pos hc, happend, hpieces]
        cases p <;> rfl
      · rw [List.cons_append, pieces, if_neg hc, pieces, if_neg hc, happend, hpieces]
        rfl

theorem compare_append_left {ks ls ms : List Key} :
    compare (ks ++ ls) (ks ++ ms) = compare ls ms := by
  induction ks with
  | nil => rfl
  | cons k ks ih =>
    rw [List.compare_eq_compareLex] at ih ⊢
    simp [List.compareLex_cons_cons, ih]

/-! ## Side by side -/

/-- A text that begins with a digit begins with a run of digits. -/
theorem pieces_of_isDigit (hc : c.isDigit = true) (cs : List Char) :
    pieces fold (c :: cs) = .number (c :: cs.takeWhile Char.isDigit) ::
      pieces fold (cs.dropWhile Char.isDigit) := by
  have hrun : Digits (c :: cs.takeWhile Char.isDigit) :=
    List.forall_mem_cons.mpr ⟨hc, List.all_eq_true.mp List.all_takeWhile⟩
  have hrest : ∀ d ∈ (cs.dropWhile Char.isDigit).head?, d.isDigit = false := by
    intro d hd
    have hnot := List.head?_dropWhile_not Char.isDigit cs
    rw [Option.mem_def.mp hd] at hnot
    simpa using hnot
  rw [← pieces_run hrun (List.cons_ne_nil _ _) hrest, List.cons_append,
    List.takeWhile_append_dropWhile]

theorem pieces_of_not_isDigit (hc : c.isDigit = false) (cs : List Char) :
    pieces fold (c :: cs) = .letter (fold c) :: pieces fold cs := by
  rw [pieces, if_neg (by rw [hc]; exact Bool.false_ne_true)]

/-- A digit that meets another character decides. -/
theorem compare_digit_letter (hc : c.isDigit = true) (hf : ∀ d ∈ f.head?, d.isDigit = false) :
    compare [c] f ≠ .eq := by
  obtain ⟨hcompare, hne⟩ := Piece.compare_number_letter (x := [c])
    ⟨List.cons_ne_nil _ _, List.forall_mem_singleton.mpr hc⟩ hf
  rw [show compare [c] f = compare 1 (Piece.rank f) from hcompare, ne_eq, Nat.compare_eq_eq]
  exact hne.symm

theorem then_of_ne_eq {o : Ordering} (h : o ≠ .eq) (p q : Ordering) : o.then p = o.then q := by
  cases o with
  | eq => exact absurd rfl h
  | _ => rfl

/-- To compare texts side by side is to compare them piece by piece. -/
theorem lockstep_eq (hfold : Folds fold) (cs ds : List Char) :
    lockstep fold cs ds = List.compareLex Piece.order (pieces fold cs) (pieces fold ds) := by
  fun_induction lockstep fold cs ds with
  | case1 => rfl
  | case2 d ds =>
    have hne : pieces fold (d :: ds) ≠ [] := pieces_ne_nil (List.cons_ne_nil d ds)
    obtain ⟨p, ps, hpieces⟩ := List.exists_cons_of_ne_nil hne
    rw [hpieces]
    rfl
  | case3 c cs =>
    have hne : pieces fold (c :: cs) ≠ [] := pieces_ne_nil (List.cons_ne_nil c cs)
    obtain ⟨p, ps, hpieces⟩ := List.exists_cons_of_ne_nil hne
    rw [hpieces]
    rfl
  | case4 c cs d ds hdigits ih =>
    rw [pieces_of_isDigit hdigits.1, pieces_of_isDigit hdigits.2, List.compareLex_cons_cons, ih]
    rfl
  | case5 c cs d ds hdigits ih =>
    cases hc : c.isDigit with
    | true =>
      have hd : d.isDigit = false := by simpa [hc] using hdigits
      rw [pieces_of_isDigit hc, pieces_of_not_isDigit hd, List.compareLex_cons_cons,
        hfold.digit c hc]
      exact then_of_ne_eq (compare_digit_letter hc (hfold.other d hd)) _ _
    | false =>
      cases hd : d.isDigit with
      | true =>
        have hne : compare (fold c) [d] ≠ .eq := by
          rw [OrientedOrd.eq_swap, ne_eq, Ordering.swap_eq_eq]
          exact compare_digit_letter hd (hfold.other c hc)
        rw [pieces_of_not_isDigit hc, pieces_of_isDigit hd, List.compareLex_cons_cons,
          hfold.digit d hd]
        exact then_of_ne_eq hne _ _
      | false =>
        rw [pieces_of_not_isDigit hc, pieces_of_not_isDigit hd, List.compareLex_cons_cons, ih]
        rfl

theorem order_eq_sortKey (hfold : Folds fold) :
    order fold = compareLex (compareOn (sortKey fold)) compare := by
  funext a b
  rw [order, lockstep_eq hfold,
    compareLex_pieces (proper_of_mem_pieces hfold) (proper_of_mem_pieces hfold)]
  rfl

/-! ## Lower case -/

theorem not_isUpper_of_isDigit (hc : c.isDigit = true) :
    ¬('A'.val ≤ c.val ∧ c.val ≤ 'Z'.val) := by
  simp [Char.isDigit, UInt32.le_iff_toNat_le] at hc ⊢
  omega

theorem toLower_of_not_isUpper (hc : ¬('A'.val ≤ c.val ∧ c.val ≤ 'Z'.val)) : c.toLower = c :=
  dif_neg hc

theorem isDigit_toLower (c : Char) : c.toLower.isDigit = c.isDigit := by
  by_cases hupper : 'A'.val ≤ c.val ∧ c.val ≤ 'Z'.val
  · have hval : c.toLower.val = c.val + ('a'.val - 'A'.val) :=
      congrArg Char.val (dif_pos hupper)
    have hnot : ¬c.isDigit = true := fun hc => not_isUpper_of_isDigit hc hupper
    have hnot' : ¬c.toLower.isDigit = true := by
      simp only [UInt32.le_iff_toNat_le] at hupper
      simp [Char.isDigit, hval, UInt32.le_iff_toNat_le, UInt32.toNat_add] at hupper ⊢
      omega
    rw [Bool.eq_false_iff.mpr hnot, Bool.eq_false_iff.mpr hnot']
  · rw [toLower_of_not_isUpper hupper]

theorem isDigit_ofNat {n : Nat} (hn : '9'.toNat < n) : (Char.ofNat n).isDigit = false := by
  by_cases h : n.isValidChar
  · have htoNat : (Char.ofNat n).toNat = n := by
      rw [Char.ofNat, dif_pos h]
      rfl
    rw [Bool.eq_false_iff, ne_eq, Char.isDigit_iff_toNat, htoNat]
    omega
  · rw [Char.ofNat, dif_neg h]
    decide

/-- No run of characters moves down to the digits. -/
theorem shift_above : ∀ r ∈ CaseRun.all, '9'.toNat < r.first + r.shift := by decide +kernel

/-- Lower case keeps the digits apart from the other characters. -/
theorem folds_lowercase : Folds lowercase where
  digit c hc := by
    have hascii : c.toNat < 0x80 := Nat.lt_of_le_of_lt (Char.isDigit_iff_toNat.mp hc).2 (by decide)
    rw [lowercase, if_pos hascii, toLower_of_not_isUpper (not_isUpper_of_isDigit hc)]
  other c hc d hd := by
    unfold lowercase at hd
    split at hd
    · obtain rfl := Option.some.inj hd
      rw [isDigit_toLower, hc]
    · split at hd
      · obtain rfl := Option.some.inj hd
        decide
      · split at hd
        · next r hfind =>
          obtain rfl := Option.some.inj hd
          have hcovers : r.covers c.toNat = true :=
            List.find?_some (p := fun r => CaseRun.covers r c.toNat) hfind
          simp only [CaseRun.covers, Bool.and_eq_true, decide_eq_true_eq] at hcovers
          have habove := shift_above r (List.mem_of_find?_eq_some hfind)
          exact isDigit_ofNat (by omega)
        · obtain rfl := Option.some.inj hd
          exact hc

/-! ## The order -/

/-- A total order of texts in which only equal ones are alike, and in which texts that differ in one
number are ordered by its value. -/
structure NaturalOrder (cmp : String → String → Ordering) : Prop where
  swap : ∀ a b, cmp a b = (cmp b a).swap
  eq_iff : ∀ a b, cmp a b = .eq ↔ a = b
  trans : ∀ a b c, (cmp a b).isLE = true → (cmp b c).isLE = true → (cmp a c).isLE = true
  number : ∀ u w x y : String,
    (∀ c ∈ u.toList.getLast?, c.isDigit = false) → (∀ c ∈ w.toList.head?, c.isDigit = false) →
    x.toList ≠ [] → Digits x.toList → y.toList ≠ [] → Digits y.toList →
    value x.toList < value y.toList → cmp (u ++ x ++ w) (u ++ y ++ w) = .lt

/-- A number is a piece of its own between what does not touch it with a digit. -/
theorem sortKey_number {u w x : String} (hu : ∀ c ∈ u.toList.getLast?, c.isDigit = false)
    (hw : ∀ c ∈ w.toList.head?, c.isDigit = false) (hne : x.toList ≠ []) (hx : Digits x.toList) :
    sortKey fold (u ++ x ++ w) =
      sortKey fold u ++ ⟨1, value x.toList, []⟩ :: sortKey fold w := by
  rw [sortKey, String.toList_append, String.toList_append, List.append_assoc, pieces_append hu,
    pieces_run hx hne hw]
  simp [sortKey, Piece.key]

theorem order_naturalOrder (hfold : Folds fold) : NaturalOrder (order fold) := by
  have horder := order_eq_sortKey hfold
  have htrans : TransCmp (order fold) := by
    rw [horder]
    infer_instance
  refine ⟨fun a b => OrientedCmp.eq_swap, fun a b => ?_, fun a b c => TransCmp.isLE_trans, ?_⟩
  · constructor
    · intro h
      rw [order, Ordering.then_eq_eq] at h
      exact LawfulEqCmp.eq_of_compare h.2
    · rintro rfl
      exact ReflCmp.compare_self
  · intro u w x y hu hw hxne hx hyne hy hlt
    have hkey : compare (Key.mk 1 (value x.toList) []) ⟨1, value y.toList, []⟩ = .lt := by
      rw [Key.compare_def, Nat.compare_eq_lt.mpr hlt, compare_self]
      rfl
    have hless : compare (sortKey fold (u ++ x ++ w)) (sortKey fold (u ++ y ++ w)) = .lt := by
      rw [sortKey_number hu hw hxne hx, sortKey_number hu hw hyne hy, compare_append_left,
        List.compare_eq_compareLex, List.compareLex_cons_cons, hkey]
      rfl
    rw [horder, compareLex, compareOn, hless]
    rfl

/-- The numbers in the names of two tracks decide, however their letters are written. -/
theorem order_tracks :
    Folds lowercase ∧ value "2".toList < value "010".toList ∧
      order lowercase "Track 2.mod" "Track 010.mod" = .lt := by
  have hless : value "2".toList < value "010".toList := by decide
  have hu : ∀ c ∈ "Track ".toList.getLast?, c.isDigit = false := by
    intro c hc
    obtain rfl := Option.some.inj hc
    rfl
  have hw : ∀ c ∈ ".mod".toList.head?, c.isDigit = false := by
    intro c hc
    obtain rfl := Option.some.inj hc
    rfl
  exact ⟨folds_lowercase, hless, (order_naturalOrder folds_lowercase).number "Track " ".mod" "2" "010"
    hu hw (by decide) (by decide) (by decide) (by decide) hless⟩

end Natural

end MediaChain
