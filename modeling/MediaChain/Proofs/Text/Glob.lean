import MediaChain.Text.Glob
import Mathlib.Data.List.Basic

/-!
# What glob patterns stand for

`Glob.accepts` decides `Glob.Derives`, and so does a loop that remembers no more than the last star
it met (`Glob.accepts_iff_derives`). Both rest on one exchange: a piece without a star may as well
stand at its leftmost place, since a star in front of what follows takes any bytes that this leaves
over (`Glob.strip?_exchange`, `Glob.Derives.of_suffix`).
-/

namespace MediaChain

namespace Glob

variable {pattern p q piece : Bytes} {b : UInt8} {t u rest : Bytes}

/-! ## Patterns rule by rule -/

@[simp] theorem derives_nil_iff : Derives [] t ↔ t = [] := by
  constructor
  · intro h
    cases h
    rfl
  · rintro rfl
    exact .nil

theorem derives_star_iff : Derives (star :: p) t ↔ ∃ u, u <:+ t ∧ Derives p u := by
  constructor
  · intro h
    cases h with
    | many skipped h => exact ⟨_, List.suffix_append _ _, h⟩
    | same hstar _ _ => exact absurd rfl hstar
  · rintro ⟨u, ⟨skipped, rfl⟩, h⟩
    exact .many skipped h

/-- A byte that is not a star stands for the first byte of the text. -/
theorem derives_cons_iff (hb : b ≠ star) :
    Derives (b :: p) t ↔ ∃ c u, t = c :: u ∧ (b = anyByte ∨ b = c) ∧ Derives p u := by
  constructor
  · intro h
    cases h with
    | many _ _ => exact absurd rfl hb
    | one c h => exact ⟨c, _, rfl, .inl rfl, h⟩
    | same _ _ h => exact ⟨b, _, rfl, .inr rfl, h⟩
  · rintro ⟨c, u, rfl, hbyte, h⟩
    by_cases hany : b = anyByte
    · subst hany
      exact .one c h
    · obtain rfl := hbyte.resolve_left hany
      exact .same hb hany h

/-- A star in front takes any more bytes. -/
theorem Derives.of_suffix (h : Derives (star :: p) u) (hu : u <:+ t) : Derives (star :: p) t := by
  obtain ⟨v, hv, h⟩ := derives_star_iff.mp h
  exact derives_star_iff.mpr ⟨v, hv.trans hu, h⟩

/-- A star takes no byte, or the first byte and perhaps more. -/
theorem derives_star_iff_tail :
    Derives (star :: p) t ↔ Derives p t ∨ Derives (star :: p) t.tail := by
  constructor
  · intro h
    obtain ⟨u, hu, hp⟩ := derives_star_iff.mp h
    cases t with
    | nil =>
      obtain rfl := List.suffix_nil.mp hu
      exact .inl hp
    | cons b t =>
      rcases List.suffix_cons_iff.mp hu with rfl | hu
      · exact .inl hp
      · exact .inr (derives_star_iff.mpr ⟨u, hu, hp⟩)
  · rintro (h | h)
    · exact .many [] h
    · exact h.of_suffix (List.tail_suffix t)

/-- Nothing is what stars stand for. -/
theorem derives_nil_right_iff : Derives p [] ↔ ∀ b ∈ p, b = star := by
  induction p with
  | nil => simp
  | cons b p ih =>
    by_cases hb : b = star
    · subst hb
      simp [derives_star_iff, ih]
    · simp [derives_cons_iff hb, hb]

/-! ## Pieces without a star -/

theorem length_of_strip? (h : strip? piece t = some rest) :
    t.length = piece.length + rest.length := by
  fun_induction strip? piece t with
  | case1 t =>
    obtain rfl := Option.some.inj h
    simp
  | case2 => cases h
  | case3 p piece b t _ ih =>
    have hlength := ih h
    simp only [List.length_cons]
    omega
  | case4 => cases h

theorem suffix_of_strip? (h : strip? piece t = some rest) : rest <:+ t := by
  fun_induction strip? piece t with
  | case1 t =>
    obtain rfl := Option.some.inj h
    exact List.suffix_refl t
  | case2 => cases h
  | case3 p piece b t _ ih => exact (ih h).trans (List.suffix_cons b t)
  | case4 => cases h

theorem strip?_append :
    strip? (piece ++ q) t = (strip? piece t).bind (strip? q) := by
  fun_induction strip? piece t with
  | case1 => rfl
  | case2 => rfl
  | case3 p piece b t hb ih => simp [strip?, hb, ih]
  | case4 p piece b t hb => simp [strip?, hb]

theorem derives_append_iff (hpiece : star ∉ piece) :
    Derives (piece ++ q) t ↔ ∃ rest, strip? piece t = some rest ∧ Derives q rest := by
  induction piece generalizing t with
  | nil => simp [strip?]
  | cons b piece ih =>
    obtain ⟨hb, hpiece⟩ : star ≠ b ∧ star ∉ piece := by simpa using hpiece
    rw [List.cons_append, derives_cons_iff hb.symm]
    cases t with
    | nil => simp [strip?]
    | cons c t =>
      by_cases hbyte : b = anyByte ∨ b = c
      · simp [strip?, hbyte, ih hpiece]
      · simp [strip?, hbyte]

/-- A piece that stands further back in a text leaves no more of it. -/
theorem strip?_exchange {rest' : Bytes} (h : strip? piece t = some rest) (hu : u <:+ t)
    (h' : strip? piece u = some rest') : rest' <:+ rest := by
  have hlength := length_of_strip? h
  have hlength' := length_of_strip? h'
  have hle := hu.length_le
  refine List.suffix_of_suffix_length_le ((suffix_of_strip? h').trans hu) (suffix_of_strip? h) ?_
  omega

theorem exists_of_seek? (h : seek? piece t = some rest) :
    ∃ u, u <:+ t ∧ strip? piece u = some rest := by
  induction t with
  | nil => exact ⟨[], List.suffix_refl _, h⟩
  | cons b t ih =>
    unfold seek? at h
    split at h
    · next hfront =>
      cases h
      exact ⟨b :: t, List.suffix_refl _, hfront⟩
    · obtain ⟨u, hu, hpiece⟩ := ih h
      exact ⟨u, hu.trans (List.suffix_cons b t), hpiece⟩

/-- Wherever a piece stands in a text, its leftmost place leaves at least as much. -/
theorem seek?_of_strip? (hu : u <:+ t) (h : strip? piece u = some rest) :
    ∃ rest', seek? piece t = some rest' ∧ rest <:+ rest' := by
  induction t with
  | nil =>
    obtain rfl := List.suffix_nil.mp hu
    exact ⟨rest, h, List.suffix_refl _⟩
  | cons b t ih =>
    unfold seek?
    cases hfront : strip? piece (b :: t) with
    | some rest' => exact ⟨rest', rfl, strip?_exchange hfront hu h⟩
    | none =>
      rcases List.suffix_cons_iff.mp hu with rfl | hu
      · rw [hfront] at h
        cases h
      · exact ih hu

/-- Between two stars, a piece may as well stand at its leftmost place. -/
theorem derives_seek?_iff (hpiece : star ∉ piece) :
    Derives (star :: (piece ++ star :: q)) t ↔
      ∃ rest, seek? piece t = some rest ∧ Derives (star :: q) rest := by
  rw [derives_star_iff]
  constructor
  · rintro ⟨u, hu, h⟩
    obtain ⟨rest, hrest, h⟩ := (derives_append_iff hpiece).mp h
    obtain ⟨rest', hseek, hle⟩ := seek?_of_strip? hu hrest
    exact ⟨rest', hseek, h.of_suffix hle⟩
  · rintro ⟨rest, hseek, h⟩
    obtain ⟨u, hu, hrest⟩ := exists_of_seek? hseek
    exact ⟨u, hu, (derives_append_iff hpiece).mpr ⟨rest, hrest, h⟩⟩

theorem endsWith_iff : endsWith piece t = true ↔ ∃ u, u <:+ t ∧ strip? piece u = some [] := by
  simp only [endsWith, Bool.and_eq_true, decide_eq_true_eq, beq_iff_eq]
  constructor
  · rintro ⟨_, h⟩
    exact ⟨_, List.drop_suffix _ _, h⟩
  · rintro ⟨u, hu, h⟩
    have hlength : u.length = piece.length := length_of_strip? h
    have hdrop := List.suffix_iff_eq_drop.mp hu
    rw [hlength] at hdrop
    exact ⟨hlength ▸ hu.length_le, hdrop ▸ h⟩

/-- Behind the last star, a piece stands at the end. -/
theorem derives_endsWith_iff (hpiece : star ∉ piece) :
    Derives (star :: piece) t ↔ endsWith piece t = true := by
  rw [derives_star_iff, endsWith_iff]
  refine exists_congr fun u => and_congr_right fun _ => ?_
  have h := derives_append_iff (q := []) (t := u) hpiece
  simpa using h

/-! ## The pieces of a pattern -/

/-- The pieces behind the first star stand for what they spell. -/
theorem acceptsPieces_iff {pieces : List Bytes} (hpieces : ∀ piece ∈ pieces, star ∉ piece) :
    acceptsPieces pieces t = true ↔ Derives (pieces.flatMap (star :: ·)) t := by
  fun_induction acceptsPieces pieces t with
  | case1 t => simp
  | case2 last t =>
    have hlast : star ∉ last := hpieces last (by simp)
    rw [← derives_endsWith_iff hlast]
    simp
  | case3 piece more t hmore rest hseek ih =>
    obtain ⟨next, more, rfl⟩ := List.exists_cons_of_ne_nil hmore
    have hpiece : star ∉ piece := hpieces piece (by simp)
    rw [ih fun piece hmem => hpieces piece (List.mem_cons_of_mem _ hmem)]
    simp [derives_seek?_iff hpiece, hseek]
  | case4 piece more t hmore hseek =>
    obtain ⟨next, more, rfl⟩ := List.exists_cons_of_ne_nil hmore
    have hpiece : star ∉ piece := hpieces piece (by simp)
    simp [derives_seek?_iff hpiece, hseek]

/-- Cut at its stars, a pattern is its first piece and the others, with a star in front of each. -/
theorem splitOn_star (pattern : Bytes) :
    ∃ first more, pattern.splitOn star = first :: more ∧
      pattern = first ++ more.flatMap (star :: ·) ∧
      star ∉ first ∧ ∀ piece ∈ more, star ∉ piece := by
  induction pattern with
  | nil => exact ⟨[], [], by simp⟩
  | cons b pattern ih =>
    obtain ⟨first, more, hsplit, hspell, hfirst, hmore⟩ := ih
    rw [List.splitOn_eq_splitOnP] at hsplit ⊢
    rw [List.splitOnP_cons_eq_if_modifyHead, hsplit]
    by_cases hb : b = star
    · subst hb
      refine ⟨[], first :: more, by simp, by simp [← hspell], by simp, ?_⟩
      simpa using ⟨hfirst, hmore⟩
    · refine ⟨b :: first, more, by simp [hb], by simp [← hspell], ?_, hmore⟩
      simpa [Ne.symm hb] using hfirst

/-! ## The loop -/

/-- Where the loop goes back to: what the pattern has behind its last star, and the text that was
left where this star stands now. -/
structure Retry where
  behind : Bytes
  text : Bytes

/-- The pattern behind the star has led from where the star stands to here, without another star. -/
def Retry.Leads (r : Retry) (pattern text : Bytes) : Prop :=
  ∃ matched, r.behind = matched ++ pattern ∧ star ∉ matched ∧ strip? matched r.text = some text

theorem Retry.leads_self (q t : Bytes) : Retry.Leads ⟨q, t⟩ q t :=
  ⟨[], rfl, List.not_mem_nil, rfl⟩

theorem Retry.Leads.next {r : Retry} {c : UInt8} (h : r.Leads (b :: p) (c :: t)) (hb : b ≠ star)
    (hbyte : b = anyByte ∨ b = c) : r.Leads p t := by
  obtain ⟨matched, hbehind, hmatched, hstrip⟩ := h
  refine ⟨matched ++ [b], by simp [hbehind], by simp [hmatched, hb.symm], ?_⟩
  simp [strip?_append, hstrip, strip?, hbyte]

/-- If the star took more bytes, what is left of the pattern would stand further back. -/
theorem Retry.Leads.derives {r : Retry} (h : r.Leads p t)
    (hmore : Derives (star :: r.behind) r.text.tail) : Derives (star :: p) t := by
  obtain ⟨matched, hbehind, hmatched, hstrip⟩ := h
  obtain ⟨u, hu, hderives⟩ := derives_star_iff.mp hmore
  rw [hbehind] at hderives
  obtain ⟨rest, hrest, hderives⟩ := (derives_append_iff hmatched).mp hderives
  have hle := strip?_exchange hstrip (hu.trans (List.tail_suffix _)) hrest
  exact derives_star_iff.mpr ⟨rest, hle, hderives⟩

/-- How far the loop is: what is left of the pattern and of the text, and the last star. -/
structure Cursor where
  pattern : Bytes
  text : Bytes
  retry : Option Retry
  leads : ∀ r ∈ retry, r.Leads pattern text

namespace Cursor

variable {c c' : Cursor}

def start (pattern text : Bytes) : Cursor := ⟨pattern, text, none, by simp⟩

/-- Behind a star that stands in front of this text. -/
def behindStar (q t : Bytes) : Cursor := ⟨q, t, some ⟨q, t⟩, by simpa using Retry.leads_self q t⟩

/-- Lets the last star take one byte more. -/
def fallBack : Option Retry → Bool ⊕ Cursor
  | none => .inl false
  | some r => .inr (behindStar r.behind r.text.tail)

/-- One round of the loop: the answer, or where the next round begins. -/
def step : Cursor → Bool ⊕ Cursor
  | ⟨pattern, [], _, _⟩ => .inl (pattern.all (· = star))
  | ⟨[], _ :: _, retry, _⟩ => fallBack retry
  | ⟨b :: p, c :: t, retry, leads⟩ =>
    if hstar : b = star then .inr (behindStar p (c :: t))
    else if hbyte : b = anyByte ∨ b = c then
      .inr ⟨p, t, retry, fun r hr => (leads r hr).next hstar hbyte⟩
    else fallBack retry

/-- The answer of the loop, if that many rounds are enough. -/
def run : Nat → Cursor → Option Bool
  | 0, _ => none
  | n + 1, c =>
    match c.step with
    | .inl answer => some answer
    | .inr c' => c'.run n

/-- There is a way to match in which the last star takes more. -/
def Retryable (retry : Option Retry) : Prop :=
  ∃ r ∈ retry, Derives (star :: r.behind) r.text.tail

/-- There is still a way to match: from here, or with more bytes for the last star. -/
def Open (c : Cursor) : Prop := Derives c.pattern c.text ∨ Retryable c.retry

/-- A round says yes, or leaves a way to match. -/
def Promising : Bool ⊕ Cursor → Prop
  | .inl answer => answer = true
  | .inr c => c.Open

theorem open_start : (start pattern t).Open ↔ Derives pattern t := by
  simp [Open, start, Retryable]

theorem open_behindStar : (behindStar q t).Open ↔ Derives (star :: q) t := by
  simp [Open, behindStar, Retryable, ← derives_star_iff_tail]

theorem promising_fallBack {retry : Option Retry} :
    Promising (fallBack retry) ↔ Retryable retry := by
  cases retry with
  | none => simp [fallBack, Promising, Retryable]
  | some r => simp [fallBack, Promising, open_behindStar, Retryable]

/-- What the star before could reach stands behind what is left of the pattern as well. -/
theorem Retryable.derives {retry : Option Retry} (leads : ∀ r ∈ retry, r.Leads p t)
    (h : Retryable retry) : Derives (star :: p) t := by
  obtain ⟨r, hr, h⟩ := h
  exact (leads r hr).derives h

/-- A round gives the right answer, or leaves the question as it was. -/
theorem promising_step (c : Cursor) : Promising c.step ↔ c.Open := by
  obtain ⟨pattern, text, retry, leads⟩ := c
  cases text with
  | nil =>
    -- the last star would leave even less if it took more
    have hmore : Retryable retry → Derives pattern [] := by
      intro h
      simpa [derives_star_iff] using h.derives leads
    rw [Open, or_iff_left_of_imp hmore]
    simp [step, Promising, derives_nil_right_iff]
  | cons c t =>
    cases pattern with
    | nil =>
      have hnone : ¬Derives [] (c :: t) := by simp
      rw [Open, or_iff_right hnone]
      exact promising_fallBack
    | cons b p =>
      by_cases hstar : b = star
      · -- what the star before this one can reach, this one reaches as well
        subst hstar
        have hmore : Retryable retry → Derives (star :: p) (c :: t) := by
          intro h
          obtain ⟨u, hu, hderives⟩ := derives_star_iff.mp (h.derives leads)
          exact hderives.of_suffix hu
        rw [Open, or_iff_left_of_imp hmore]
        simp [step, Promising, open_behindStar]
      · by_cases hbyte : b = anyByte ∨ b = c
        · simp [step, hstar, hbyte, Promising, Open, derives_cons_iff hstar]
        · have hnone : ¬Derives (b :: p) (c :: t) := by
            simp [derives_cons_iff hstar, hbyte]
          rw [Open, or_iff_right hnone]
          simp only [step, hstar, hbyte, ↓reduceDIte]
          exact promising_fallBack

/-! ### How long the loop runs -/

/-- The text that the last star can still take from. -/
def reserve (c : Cursor) : Bytes := (c.retry.map Retry.text).getD c.text

/-- No more of the pattern than this is ever left. -/
def Fits (size : Nat) (c : Cursor) : Prop :=
  c.pattern.length ≤ size ∧ ∀ r ∈ c.retry, r.behind.length ≤ size

/-- An upper bound for the rounds before the last one: a star is widened at most once for each byte
of the text, and in between the pattern gets shorter. -/
def rounds (size : Nat) (c : Cursor) : Nat := c.reserve.length * (size + 1) + c.pattern.length

theorem fits_start (pattern t : Bytes) : (start pattern t).Fits pattern.length := by
  simp [Fits, start]

theorem text_length_le (c : Cursor) : c.text.length ≤ c.reserve.length := by
  obtain ⟨pattern, text, retry, leads⟩ := c
  cases retry with
  | none => simp [reserve]
  | some r =>
    obtain ⟨matched, _, _, hstrip⟩ := leads r rfl
    have hlength := length_of_strip? hstrip
    simp only [reserve, Option.map_some, Option.getD_some]
    omega

/-- To fall back costs a byte of the reserve, which pays for the pattern that comes back. -/
theorem rounds_fallBack {size : Nat} (hfits : c.Fits size) (htext : c.text ≠ [])
    (h : fallBack c.retry = .inr c') : c'.Fits size ∧ c'.rounds size < c.rounds size := by
  have hpos : 0 < c.text.length := List.length_pos_iff.mpr htext
  have hle := c.text_length_le
  cases hretry : c.retry with
  | none =>
    rw [hretry] at h
    cases h
  | some r =>
    rw [hretry] at h
    obtain rfl := Sum.inr.inj h
    have hbehind : r.behind.length ≤ size := hfits.2 r hretry
    simp only [reserve, hretry, Option.map_some, Option.getD_some] at hle
    obtain ⟨left, hleft⟩ : ∃ left, r.text.length = left + 1 := ⟨r.text.length - 1, by omega⟩
    refine ⟨⟨hbehind, by simpa [behindStar] using hbehind⟩, ?_⟩
    simp only [rounds, reserve, behindStar, hretry, Option.map_some, Option.getD_some,
      List.length_tail, hleft, Nat.add_sub_cancel, Nat.succ_mul]
    omega

theorem rounds_step {size : Nat} (hfits : c.Fits size) (h : c.step = .inr c') :
    c'.Fits size ∧ c'.rounds size < c.rounds size := by
  obtain ⟨pattern, text, retry, leads⟩ := c
  cases text with
  | nil => cases h
  | cons c t =>
    cases pattern with
    | nil => exact rounds_fallBack hfits (by simp) h
    | cons b p =>
      have hp : p.length + 1 ≤ size := hfits.1
      by_cases hstar : b = star
      · subst hstar
        have hreserve := text_length_le ⟨star :: p, c :: t, retry, leads⟩
        have hmul := Nat.mul_le_mul_right (size + 1) hreserve
        rw [step, dif_pos rfl] at h
        obtain rfl := Sum.inr.inj h
        refine ⟨⟨?_, by simpa [behindStar] using Nat.le_of_succ_le hp⟩, ?_⟩
        · exact Nat.le_of_succ_le hp
        · simp only [rounds, reserve, behindStar, Option.map_some, Option.getD_some,
            List.length_cons] at hmul ⊢
          omega
      · by_cases hbyte : b = anyByte ∨ b = c
        · rw [step, dif_neg hstar, dif_pos hbyte] at h
          obtain rfl := Sum.inr.inj h
          refine ⟨⟨Nat.le_of_succ_le hp, hfits.2⟩, ?_⟩
          have hreserve : ((retry.map Retry.text).getD t).length ≤
              ((retry.map Retry.text).getD (c :: t)).length := by
            cases retry with
            | none => simp
            | some r => simp
          have hmul := Nat.mul_le_mul_right (size + 1) hreserve
          simp only [rounds, reserve, List.length_cons]
          omega
        · rw [step, dif_neg hstar, dif_neg hbyte] at h
          exact rounds_fallBack hfits (by simp) h

/-- With rounds enough the loop gives an answer, and the right one. -/
theorem run_eq {size n : Nat} (hfits : c.Fits size) (hn : c.rounds size < n) :
    ∃ answer, c.run n = some answer ∧ (answer = true ↔ c.Open) := by
  induction n generalizing c with
  | zero => omega
  | succ n ih =>
    have hopen := promising_step c
    cases hstep : c.step with
    | inl answer =>
      rw [hstep] at hopen
      exact ⟨answer, by simp [run, hstep], hopen⟩
    | inr c' =>
      rw [hstep] at hopen
      obtain ⟨hfits', hlt⟩ := rounds_step hfits hstep
      obtain ⟨answer, hrun, hanswer⟩ := ih hfits' (by omega)
      exact ⟨answer, by simpa [run, hstep] using hrun, hanswer.trans hopen⟩

end Cursor

/-! ## The language of a pattern -/

theorem accepts_iff (pattern t : Bytes) : accepts pattern t = true ↔ Derives pattern t := by
  obtain ⟨first, more, hsplit, hspell, hfirst, hmore⟩ := splitOn_star pattern
  conv_rhs => rw [hspell]
  rw [derives_append_iff hfirst, accepts, hsplit]
  cases hstrip : strip? first t with
  | none => simp [hstrip]
  | some rest => simp [hstrip, acceptsPieces_iff hmore]

/-- A pattern is accepted for exactly the texts that it stands for. The loop that remembers one star
comes to the same answer, in a number of rounds that the two lengths bound. -/
theorem accepts_iff_derives (pattern t : Bytes) :
    (accepts pattern t = true ↔ Derives pattern t) ∧
      (Cursor.start pattern t).run ((t.length + 1) * (pattern.length + 1)) =
        some (accepts pattern t) := by
  refine ⟨accepts_iff pattern t, ?_⟩
  have hrounds : (Cursor.start pattern t).rounds pattern.length <
      (t.length + 1) * (pattern.length + 1) := by
    simp only [Cursor.rounds, Cursor.reserve, Cursor.start, Option.map_none, Option.getD_none,
      Nat.succ_mul]
    omega
  obtain ⟨answer, hrun, hanswer⟩ := Cursor.run_eq (Cursor.fits_start pattern t) hrounds
  have hsame : answer = accepts pattern t := by
    rw [Bool.eq_iff_iff, hanswer, Cursor.open_start, accepts_iff]
  rw [hrun, hsame]

end Glob

end MediaChain
