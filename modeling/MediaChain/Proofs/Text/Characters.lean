import MediaChain.Proofs.StreamType
import MediaChain.Proofs.Text.Wildcards

/-!
# Question marks and characters

A question mark takes one byte, so that with others it takes characters of as many bytes
(`Glob.acceptsText_iff`). That it takes one character is so in all patterns if the text is ASCII
(`Glob.agrees_text_iff`), and for all texts if each question mark stands beside a star and apart from
the others (`Glob.Loose`, `Glob.agrees_pattern_iff`), and not otherwise.
-/

namespace MediaChain

namespace Glob

variable {size size' : Char → Nat} {p t run : List Char}

/-- In bytes, characters count as many as they have. -/
theorem stands_utf8_iff : Stands star anyByte (p.flatMap String.utf8EncodeChar)
    (t.flatMap String.utf8EncodeChar) ↔ Fills Char.utf8Size p t := by
  have hsize : utf8.size = Char.utf8Size := funext fun c => String.length_utf8EncodeChar c
  rw [← hsize]
  exact utf8.stands_iff p t

/-- Patterns are matched in bytes. -/
theorem acceptsText_iff (pattern text : String) :
    acceptsText pattern text = true ↔ Fills Char.utf8Size pattern.toList text.toList := by
  rw [acceptsText, accepts_iff, derives_iff_stands, Utf8.encode_eq_flatMap,
    Utf8.encode_eq_flatMap, stands_utf8_iff]

/-- In characters, each of them counts one. -/
theorem stands_characters_iff : Stands '*' '?' p t ↔ Fills (fun _ => 1) p t := by
  have h := characters.stands_iff p t
  rwa [show characters.letters = fun c => [c] from rfl, List.flatMap_singleton',
    List.flatMap_singleton'] at h

theorem measure_cons (c : Char) (t : List Char) : measure size (c :: t) = size c + measure size t :=
  rfl

theorem measure_one (t : List Char) : measure (fun _ => 1) t = t.length := by
  induction t with
  | nil => rfl
  | cons c t ih => rw [measure_cons, ih, List.length_cons, Nat.add_comm]

theorem measure_congr (h : ∀ c ∈ t, size c = size' c) : measure size t = measure size' t := by
  induction t with
  | nil => rfl
  | cons c t ih =>
    obtain ⟨hc, ht⟩ := List.forall_mem_cons.mp h
    rw [measure_cons, measure_cons, hc, ih ht]

theorem fills_run_iff (hrun : ∀ c ∈ run, IsWild c) :
    Fills size run t ↔ Spans '*' '?' run (measure size t) := by
  constructor
  · intro h
    cases h with
    | last _ hspans => exact hspans
    | gap _ _ hc _ => exact absurd (hrun _ (by simp)) hc
  · exact .last hrun

/-! ## For all patterns -/

theorem Fills.congr (hsize : ∀ c ∈ t, size c = size' c) (h : Fills size p t) :
    Fills size' p t := by
  induction h with
  | last hrun hspans => exact .last hrun (measure_congr hsize ▸ hspans)
  | gap hrun hspans hc _ ih =>
    simp only [List.mem_append, List.mem_cons] at hsize
    exact .gap hrun (measure_congr (fun c hc => hsize c (.inl hc)) ▸ hspans) hc
      (ih fun c hc => hsize c (.inr (.inr hc)))

theorem length_le_measure (hsize : ∀ c, 0 < size c) (t : List Char) : t.length ≤ measure size t := by
  induction t with
  | nil => exact Nat.le_refl 0
  | cons c t ih =>
    have hc := hsize c
    rw [measure_cons, List.length_cons]
    omega

/-- A text of no more bytes than characters is ASCII. -/
theorem utf8Size_eq_one (h : measure Char.utf8Size t ≤ t.length) :
    ∀ c ∈ t, c.utf8Size = 1 := by
  induction t with
  | nil => nofun
  | cons c t ih =>
    have hc := c.utf8Size_pos
    have ht := length_le_measure Char.utf8Size_pos t
    rw [measure_cons, List.length_cons] at h
    exact List.forall_mem_cons.mpr ⟨by omega, ih (by omega)⟩

/-- Question marks alone tell the characters of a text from its bytes. -/
theorem agrees_text_iff (t : List Char) :
    (∀ p, Fills Char.utf8Size p t ↔ Fills (fun _ => 1) p t) ↔ ∀ c ∈ t, c.utf8Size = 1 := by
  constructor
  · intro h
    have hrun : ∀ c ∈ List.replicate t.length '?', IsWild c :=
      fun c hc => .inr (List.eq_of_mem_replicate hc)
    have hone : Fills (fun _ => 1) (List.replicate t.length '?') t := by
      rw [fills_run_iff hrun, Spans, measure_one, List.count_replicate_self]
      exact ⟨Nat.le_refl _, .inr (Nat.le_refl _)⟩
    have hspans := (fills_run_iff hrun).mp ((h _).mpr hone)
    rw [Spans, List.count_replicate_self] at hspans
    refine utf8Size_eq_one (hspans.2.resolve_left fun hstar => ?_)
    exact absurd (List.eq_of_mem_replicate hstar) (by decide)
  · exact fun h p => ⟨Fills.congr h, Fills.congr fun c hc => (h c hc).symm⟩

/-! ## For all texts -/

/-- Each question mark stands beside a star, and between any two of them stands something else than
stars. -/
structure Loose (p : List Char) : Prop where
  beside : ∀ front back, p = front ++ '?' :: back →
    front.getLast? = some '*' ∨ back.head? = some '*'
  apart : ∀ front between back, p = front ++ '?' :: (between ++ '?' :: back) →
    ∃ c ∈ between, c ≠ '*'

namespace Loose

theorem tail {c : Char} (h : Loose (run ++ c :: p)) (hc : ¬IsWild c) : Loose p := by
  constructor
  · rintro front back rfl
    have hbeside := h.beside (run ++ c :: front) back (by simp)
    refine hbeside.imp_left fun hlast => ?_
    cases hfront : front.getLast? with
    | none =>
      rw [List.getLast?_eq_none_iff] at hfront
      subst hfront
      rw [List.getLast?_concat] at hlast
      exact absurd (.inl (Option.some.inj hlast)) hc
    | some d =>
      rw [List.getLast?_append, List.getLast?_cons, hfront] at hlast
      exact hlast
  · rintro front between back rfl
    exact h.apart (run ++ c :: front) between back (by simp)

/-- In a run of wildcards there is one question mark at most, and a star beside it. -/
theorem calm {rest : List Char} (h : Loose (run ++ rest)) (hrun : ∀ c ∈ run, IsWild c)
    (hrest : rest.head? ≠ some '*') : run.count '?' ≤ 1 ∧ ('?' ∈ run → '*' ∈ run) := by
  constructor
  · by_contra hcount
    have hmem : '?' ∈ run := List.count_pos_iff.mp (by omega)
    obtain ⟨front, more, rfl, hfront⟩ := List.eq_append_cons_of_mem hmem
    rw [List.count_append, List.count_cons_self, List.count_eq_zero.mpr hfront] at hcount
    have hmem' : '?' ∈ more := List.count_pos_iff.mp (by omega)
    obtain ⟨between, back, rfl, hbetween⟩ := List.eq_append_cons_of_mem hmem'
    obtain ⟨c, hc, hstar⟩ := h.apart front between (back ++ rest) (by simp)
    rcases hrun c (by simp [hc]) with rfl | rfl
    · exact hstar rfl
    · exact hbetween hc
  · intro hmem
    obtain ⟨front, back, rfl⟩ := List.append_of_mem hmem
    rcases h.beside front (back ++ rest) (by simp) with hlast | hhead
    · exact List.mem_append_left _ (List.mem_of_getLast? hlast)
    · cases back with
      | nil => exact absurd hhead hrest
      | cons c back =>
        obtain rfl : c = '*' := Option.some.inj hhead
        simp

end Loose

/-- To such a run it only matters whether there is anything. -/
theorem Spans.of_calm {n n' : Nat} (h : Spans '*' '?' run n)
    (hcalm : run.count '?' ≤ 1 ∧ ('?' ∈ run → '*' ∈ run)) (hzero : n = 0 ↔ n' = 0) :
    Spans '*' '?' run n' := by
  obtain ⟨hle, hge⟩ := h
  obtain ⟨hone, hstar⟩ := hcalm
  rcases Nat.eq_zero_or_pos (run.count '?') with hcount | hcount
  · rw [hcount] at hle hge
    refine ⟨by omega, hge.imp_right fun hn => by omega⟩
  · exact ⟨by omega, .inl (hstar (List.count_pos_iff.mp hcount))⟩

theorem measure_eq_zero_iff (hsize : ∀ c, 0 < size c) : measure size t = 0 ↔ t = [] := by
  constructor
  · intro h
    exact List.eq_nil_of_length_eq_zero (Nat.le_zero.mp (h ▸ length_le_measure hsize t))
  · rintro rfl
    rfl

/-- A loose pattern stands for the same texts whatever the sizes of the characters are. -/
theorem Fills.of_loose (hp : Loose p) (hsize : ∀ c, 0 < size c) (hsize' : ∀ c, 0 < size' c)
    (h : Fills size p t) : Fills size' p t := by
  have hzero : ∀ l, measure size l = 0 ↔ measure size' l = 0 := fun l =>
    (measure_eq_zero_iff hsize).trans (measure_eq_zero_iff hsize').symm
  induction h with
  | @last run skipped hrun hspans =>
    have hloose : Loose (run ++ []) := by rwa [List.append_nil]
    have hcalm := hloose.calm hrun nofun
    exact .last hrun (hspans.of_calm hcalm (hzero skipped))
  | @gap run skipped p t c hrun hspans hc _ ih =>
    have hcalm := hp.calm hrun fun hhead => hc (.inl (Option.some.inj hhead))
    exact .gap hrun (hspans.of_calm hcalm (hzero skipped)) hc (ih (hp.tail hc))

/-- The shortest text that a pattern stands for. -/
def least (p : List Char) : List Char := p.filter (· ≠ '*')

theorem least_append (p q : List Char) : least (p ++ q) = least p ++ least q :=
  List.filter_append p q

theorem least_questionMark (p : List Char) : least ('?' :: p) = '?' :: least p := rfl

theorem utf8_stands_least (p : List Char) :
    Stands star anyByte (p.flatMap String.utf8EncodeChar)
      ((least p).flatMap String.utf8EncodeChar) := by
  have hfilter := utf8.letters_filter p
  show Stands star anyByte _ ((p.filter _).flatMap utf8.letters)
  rw [hfilter]
  exact stands_filter _

theorem utf8_least_length_le {bs : Bytes}
    (h : Stands star anyByte (p.flatMap String.utf8EncodeChar) bs) :
    ((least p).flatMap String.utf8EncodeChar).length ≤ bs.length := by
  have hfilter := utf8.letters_filter p
  show ((p.filter _).flatMap utf8.letters).length ≤ _
  rw [hfilter]
  exact h.length_le

theorem utf8_stands_literal_iff {c : Char} {bs : Bytes} (hc : ¬IsWild c) :
    Stands star anyByte (String.utf8EncodeChar c) bs ↔ bs = String.utf8EncodeChar c :=
  stands_word_iff (utf8.not_mem_letters hc).1 (utf8.not_mem_letters hc).2

/-- A character of two bytes. -/
def acute : Char := 'é'

theorem utf8EncodeChar_acute : String.utf8EncodeChar acute = [0xC3, 0xA9] := by decide

/-- Two question marks with nothing but stars between take the two bytes of one character. -/
theorem apart_of_agrees
    (h : ∀ t, Stands star anyByte (p.flatMap String.utf8EncodeChar)
      (t.flatMap String.utf8EncodeChar) → Stands '*' '?' p t)
    (front between back : List Char) (hp : p = front ++ '?' :: (between ++ '?' :: back)) :
    ∃ c ∈ between, c ≠ '*' := by
  by_contra hstars
  push Not at hstars
  have hbetween : least between = [] := by
    refine List.filter_eq_nil_iff.mpr fun c hc => ?_
    simpa using hstars c hc
  have hbytes : Stands star anyByte (p.flatMap String.utf8EncodeChar)
      ((least front ++ acute :: least back).flatMap String.utf8EncodeChar) := by
    have hnone := utf8_stands_least between
    rw [hbetween] at hnone
    rw [hp, List.flatMap_append, List.flatMap_append, List.flatMap_cons, List.flatMap_cons,
      List.flatMap_append, List.flatMap_cons, utf8EncodeChar_acute]
    exact (utf8_stands_least front).append
      (.one 0xC3 (hnone.append (.one 0xA9 (utf8_stands_least back))))
  have hle : (least p).length ≤ (least front ++ acute :: least back).length :=
    (h _ hbytes).length_le
  rw [hp, least_append, least_questionMark, least_append, hbetween, List.nil_append,
    least_questionMark] at hle
  simp only [List.length_append, List.length_cons] at hle
  omega

/-- Characters that stand for themselves do not begin inside of another one. -/
theorem not_stands_cons {back : List Char} {b : UInt8} {bs : Bytes} (hb : ¬b.IsUTF8FirstByte)
    (hback : ∀ c, back.head? = some c → ¬IsWild c) :
    ¬Stands star anyByte (back.flatMap String.utf8EncodeChar) (b :: bs) := by
  intro h
  cases back with
  | nil => cases stands_nil_iff.mp h
  | cons c back =>
    rw [List.flatMap_cons] at h
    obtain ⟨word, rest, hsplit, hword, -⟩ := stands_append_iff.mp h
    obtain rfl := (utf8_stands_literal_iff (hback c rfl)).mp hword
    obtain ⟨b', bs', hbytes⟩ := List.exists_cons_of_ne_nil (String.utf8EncodeChar_ne_nil (c := c))
    rw [hbytes, List.cons_append] at hsplit
    obtain rfl := (List.cons.inj hsplit).1
    exact hb (Utf8.firstByte_cons hbytes).1

/-- Nor do they end inside of another one. -/
theorem not_stands_concat {front : List Char} {b : UInt8} {bs : Bytes} (hb : ¬b < 0x80)
    (hfirst : b.IsUTF8FirstByte) (hfront : ∀ c, front.getLast? = some c → ¬IsWild c) :
    ¬Stands star anyByte (front.flatMap String.utf8EncodeChar) (bs ++ [b]) := by
  intro h
  rcases List.eq_nil_or_concat front with rfl | ⟨front, c, rfl⟩
  · simp at h
  · rw [List.concat_eq_append] at h hfront
    rw [List.flatMap_append, List.flatMap_singleton] at h
    obtain ⟨rest, word, hsplit, -, hword⟩ := stands_append_iff.mp h
    obtain rfl := (utf8_stands_literal_iff (hfront c List.getLast?_concat)).mp hword
    have hlast := congrArg List.getLast? hsplit
    rw [List.getLast?_concat,
      List.getLast?_append_of_ne_nil _ String.utf8EncodeChar_ne_nil] at hlast
    exact (Utf8.getLast?_utf8EncodeChar hlast.symm).elim hb fun h => h hfirst

/-- Between characters that stand for themselves a question mark takes no character of two bytes: if
it took one of them, one of its neighbours would have to take the other. -/
theorem not_beside (front back : List Char) (hfront : ∀ c, front.getLast? = some c → ¬IsWild c)
    (hback : ∀ c, back.head? = some c → ¬IsWild c) :
    ¬Stands star anyByte ((front ++ '?' :: back).flatMap String.utf8EncodeChar)
      ((least front ++ acute :: least back).flatMap String.utf8EncodeChar) := by
  intro h
  rw [List.flatMap_append, List.flatMap_append, List.flatMap_cons, List.flatMap_cons,
    utf8EncodeChar_acute] at h
  obtain ⟨u, v, hsplit, hu, hv⟩ := stands_append_iff.mp h
  obtain ⟨b, w, rfl, -, hw⟩ := (stands_cons_iff (by decide)).mp hv
  have hule := utf8_least_length_le hu
  have hwle := utf8_least_length_le hw
  have hlength := congrArg List.length hsplit
  simp only [List.length_append, List.length_cons, List.length_nil] at hlength
  generalize (least front).flatMap String.utf8EncodeChar = before at hsplit hule hlength
  generalize (least back).flatMap String.utf8EncodeChar = behind at hsplit hwle hlength
  rcases (by omega : before.length = u.length ∨ before.length + 1 = u.length) with hlen | hlen
  · obtain ⟨-, hrest⟩ := List.append_inj hsplit hlen
    rw [← (List.cons.inj hrest).2] at hw
    exact not_stands_cons (by decide) hback hw
  · rw [List.cons_append, List.append_cons] at hsplit
    obtain ⟨hbefore, -⟩ := List.append_inj hsplit (by simpa using hlen)
    rw [← hbefore] at hu
    exact not_stands_concat (by decide) (by decide) hfront hu

/-- Loose patterns, and no others, stand for the same texts in characters as in bytes. -/
theorem agrees_pattern_iff (p : List Char) :
    (∀ t, Fills Char.utf8Size p t ↔ Fills (fun _ => 1) p t) ↔ Loose p := by
  constructor
  · intro h
    have hstands : ∀ t, Stands star anyByte (p.flatMap String.utf8EncodeChar)
        (t.flatMap String.utf8EncodeChar) ↔ Stands '*' '?' p t := by
      intro t
      rw [stands_utf8_iff, h t, stands_characters_iff]
    have hapart := apart_of_agrees fun t => (hstands t).mp
    refine ⟨fun front back hp => ?_, hapart⟩
    by_contra hbeside
    rw [not_or] at hbeside
    -- a neighbour that is a question mark would stand too close
    refine not_beside front back ?_ ?_ ?_
    · rintro c hlast (rfl | rfl)
      · exact hbeside.1 hlast
      · obtain ⟨front', rfl⟩ := List.getLast?_eq_some_iff.mp hlast
        obtain ⟨c, hc, -⟩ := hapart front' [] back (by simpa using hp)
        cases hc
    · rintro c hhead (rfl | rfl)
      · exact hbeside.2 hhead
      · obtain ⟨back', rfl⟩ := List.head?_eq_some_iff.mp hhead
        obtain ⟨c, hc, -⟩ := hapart front [] back' hp
        cases hc
    · rw [← hp, hstands, hp]
      exact (stands_filter front).append (.one acute (stands_filter back))
  · intro hp t
    exact ⟨Fills.of_loose hp Char.utf8Size_pos fun _ => Nat.one_pos,
      Fills.of_loose hp (fun _ => Nat.one_pos) Char.utf8Size_pos⟩

end Glob

/-! ## Texts of types -/

namespace StreamType

open Glob

/-- **A question mark stands for one byte.** A text meets the text of a pattern if and only if it has
the characters of the pattern that are no wildcards, and for each run of wildcards characters of as
many bytes as there are question marks in it, or more if there is a star. So question marks stand for
one character each, whatever the pattern is, if and only if the text is ASCII; and whatever the text
is, if and only if each of them stands beside a star and apart from the others. -/
theorem meets_text_iff (pattern text : String) :
    (meets (.text pattern) (.text text) = true ↔
      Fills Char.utf8Size pattern.toList text.toList) ∧
    ((∀ pattern : String, meets (.text pattern) (.text text) = true ↔
        Stands '*' '?' pattern.toList text.toList) ↔ ∀ c ∈ text.toList, c.utf8Size = 1) ∧
    ((∀ text : String, meets (.text pattern) (.text text) = true ↔
        Stands '*' '?' pattern.toList text.toList) ↔ Loose pattern.toList) := by
  have hmeets : ∀ pattern text : String, meets (.text pattern) (.text text) = true ↔
      Fills Char.utf8Size pattern.toList text.toList := acceptsText_iff
  refine ⟨hmeets pattern text, ?_, ?_⟩
  · rw [← agrees_text_iff]
    simp only [hmeets, stands_characters_iff]
    refine ⟨fun h p => ?_, fun h pattern => h pattern.toList⟩
    simpa using h (String.ofList p)
  · rw [← agrees_pattern_iff]
    simp only [hmeets, stands_characters_iff]
    refine ⟨fun h t => ?_, fun h text => h text.toList⟩
    simpa using h (String.ofList t)

/-- A question mark does not stand for a character of two bytes. -/
theorem meets_text_acute :
    ¬(meets (.text "?") (.text "é") = true ↔ Stands '*' '?' "?".toList "é".toList) := by
  have hmeets : meets (.text "?") (.text "é") = false := by decide +kernel
  have hstands : Stands '*' '?' "?".toList "é".toList := .one 'é' .nil
  intro h
  rw [h.mpr hstands] at hmeets
  cases hmeets

end StreamType

end MediaChain
