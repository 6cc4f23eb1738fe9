import MediaChain.Proofs.Text.Glob
import MediaChain.Proofs.Text.Utf8

/-!
# Patterns and characters

Patterns are matched byte by byte, and texts are made of characters. Between two characters of a
pattern that stand for themselves lies a run of wildcards, and what it stands for is made of whole
characters: of as many bytes as the run has question marks, or more if there is a star in it
(`Glob.Fills`). Whether letters are bytes or characters, this is what patterns stand for
(`Glob.Coding.stands_iff`), with the letters counted.
-/

namespace MediaChain

namespace Glob

/-! ## Patterns over any letters -/

section Letters

variable {α : Type} {star any a : α} {p q t u run word : List α} {n : Nat}

/-- The texts that a pattern stands for, if one letter stands for any letters, one for any one
letter, and the others for themselves. -/
inductive Stands (star any : α) : List α → List α → Prop
  | nil : Stands star any [] []
  | many {p : List α} (skipped : List α) {t : List α} :
      Stands star any p t → Stands star any (star :: p) (skipped ++ t)
  | one {p : List α} (a : α) {t : List α} :
      Stands star any p t → Stands star any (any :: p) (a :: t)
  | same {p : List α} {a : α} {t : List α} : a ≠ star → a ≠ any → Stands star any p t →
      Stands star any (a :: p) (a :: t)

theorem derives_iff_stands {p t : Bytes} : Derives p t ↔ Stands Glob.star anyByte p t := by
  constructor
  · intro h
    induction h with
    | nil => exact .nil
    | many skipped _ ih => exact .many skipped ih
    | one b _ ih => exact .one b ih
    | same hstar hany _ ih => exact .same hstar hany ih
  · intro h
    induction h with
    | nil => exact .nil
    | many skipped _ ih => exact .many skipped ih
    | one b _ ih => exact .one b ih
    | same hstar hany _ ih => exact .same hstar hany ih

@[simp] theorem stands_nil_iff : Stands star any [] t ↔ t = [] := by
  constructor
  · intro h
    cases h
    rfl
  · rintro rfl
    exact .nil

theorem stands_star_iff :
    Stands star any (star :: p) t ↔ ∃ skipped u, t = skipped ++ u ∧ Stands star any p u := by
  constructor
  · intro h
    cases h with
    | many skipped h => exact ⟨skipped, _, rfl, h⟩
    | one a h => exact ⟨[a], _, rfl, h⟩
    | same hstar _ _ => exact absurd rfl hstar
  · rintro ⟨skipped, u, rfl, h⟩
    exact .many skipped h

theorem stands_cons_iff (ha : a ≠ star) : Stands star any (a :: p) t ↔
    ∃ b u, t = b :: u ∧ (a = any ∨ a = b) ∧ Stands star any p u := by
  constructor
  · intro h
    cases h with
    | many _ _ => exact absurd rfl ha
    | one b h => exact ⟨b, _, rfl, .inl rfl, h⟩
    | same _ _ h => exact ⟨a, _, rfl, .inr rfl, h⟩
  · rintro ⟨b, u, rfl, hletter, h⟩
    by_cases hany : a = any
    · subst hany
      exact .one b h
    · obtain rfl := hletter.resolve_left hany
      exact .same ha hany h

theorem Stands.append (h : Stands star any p t) (h' : Stands star any q u) :
    Stands star any (p ++ q) (t ++ u) := by
  induction h with
  | nil => exact h'
  | many skipped _ ih =>
    rw [List.append_assoc]
    exact .many skipped ih
  | one a _ ih => exact .one a ih
  | same hstar hany _ ih => exact .same hstar hany ih

/-- The two parts of a pattern stand for two parts of the text. -/
theorem stands_append_iff : Stands star any (p ++ q) t ↔
    ∃ u v, t = u ++ v ∧ Stands star any p u ∧ Stands star any q v := by
  constructor
  · intro h
    induction p generalizing t with
    | nil => exact ⟨[], t, rfl, .nil, h⟩
    | cons a p ih =>
      cases h with
      | many skipped h =>
        obtain ⟨u, v, rfl, hu, hv⟩ := ih h
        exact ⟨skipped ++ u, v, (List.append_assoc _ _ _).symm, .many skipped hu, hv⟩
      | one a h =>
        obtain ⟨u, v, rfl, hu, hv⟩ := ih h
        exact ⟨a :: u, v, rfl, .one a hu, hv⟩
      | same hstar hany h =>
        obtain ⟨u, v, rfl, hu, hv⟩ := ih h
        exact ⟨a :: u, v, rfl, .same hstar hany hu, hv⟩
  · rintro ⟨u, v, rfl, hu, hv⟩
    exact hu.append hv

/-- Letters that are no wildcards stand for themselves. -/
theorem stands_word_iff (hstar : star ∉ word) (hany : any ∉ word) :
    Stands star any word t ↔ t = word := by
  induction word generalizing t with
  | nil => exact stands_nil_iff
  | cons a word ih =>
    obtain ⟨hstar, hstar'⟩ := List.ne_and_not_mem_of_not_mem_cons hstar
    obtain ⟨hany, hany'⟩ := List.ne_and_not_mem_of_not_mem_cons hany
    rw [stands_cons_iff hstar.symm]
    simp [ih hstar' hany', hany.symm, eq_comm]

variable [DecidableEq α]

/-- How many letters a run of wildcards stands for: at least one for each that stands for one, and
no more unless there is a star. -/
def Spans (star any : α) (run : List α) (n : Nat) : Prop :=
  run.count any ≤ n ∧ (star ∈ run ∨ n ≤ run.count any)

/-- What the letters are does not matter to a run of wildcards. -/
theorem stands_run_iff (hne : star ≠ any) (hrun : ∀ a ∈ run, a = star ∨ a = any) :
    Stands star any run t ↔ Spans star any run t.length := by
  induction run generalizing t with
  | nil => simp [Spans]
  | cons a run ih =>
    obtain ⟨ha, hrun⟩ := List.forall_mem_cons.mp hrun
    rcases ha with rfl | rfl
    · have hcount : (a :: run).count any = run.count any := List.count_cons_of_ne hne
      rw [stands_star_iff, Spans, hcount]
      constructor
      · rintro ⟨skipped, u, rfl, h⟩
        have hle := ((ih hrun).mp h).1
        rw [List.length_append]
        exact ⟨by omega, .inl List.mem_cons_self⟩
      · rintro ⟨hle, -⟩
        -- the star leaves one letter for each that is asked for
        refine ⟨_, _, (List.take_append_drop (t.length - run.count any) t).symm, (ih hrun).mpr ?_⟩
        rw [Spans, List.length_drop]
        exact ⟨by omega, .inr (by omega)⟩
    · have hcount : (a :: run).count a = run.count a + 1 := List.count_cons_self
      rw [stands_cons_iff hne.symm, Spans, hcount]
      cases t with
      | nil => simp
      | cons b t => simp [ih hrun, Spans, hne]

/-- Every letter of a pattern but the stars takes a letter. -/
theorem Stands.length_le (h : Stands star any p t) : (p.filter (· ≠ star)).length ≤ t.length := by
  induction h with
  | nil => exact Nat.le_refl 0
  | many skipped _ ih =>
    rw [List.length_append, List.filter_cons_of_neg (by simp)]
    omega
  | @one p a t _ ih =>
    have hle := List.length_filter_le (fun b => decide (b ≠ star)) [any]
    rw [← List.singleton_append, List.filter_append, List.length_append, List.length_cons]
    rw [List.length_singleton] at hle
    omega
  | same hstar _ _ ih =>
    rw [List.filter_cons_of_pos (by simpa using hstar), List.length_cons, List.length_cons]
    omega

/-- The shortest text that a pattern stands for spells it without its stars. -/
theorem stands_filter (p : List α) : Stands star any p (p.filter (· ≠ star)) := by
  induction p with
  | nil => exact .nil
  | cons a p ih =>
    by_cases hstar : a = star
    · subst hstar
      rw [List.filter_cons_of_neg (by simp)]
      exact .many [] ih
    · rw [List.filter_cons_of_pos (by simpa using hstar)]
      by_cases hany : a = any
      · subst hany
        exact .one a ih
      · exact .same hstar hany ih

end Letters

/-! ## Runs of wildcards -/

/-- A character that does not stand for itself in a pattern. -/
def IsWild (c : Char) : Prop := c = '*' ∨ c = '?'

instance : DecidablePred IsWild := fun _ => inferInstanceAs (Decidable (_ ∨ _))

/-- The size of a text, from the sizes of its characters. -/
def measure (size : Char → Nat) : List Char → Nat
  | [] => 0
  | c :: t => size c + measure size t

/-- The texts that a pattern stands for, if each run of wildcards stands for characters of a certain
size together: one for each question mark, or more if there is a star in the run. -/
inductive Fills (size : Char → Nat) : List Char → List Char → Prop
  | last {run skipped : List Char} : (∀ c ∈ run, IsWild c) →
    Spans '*' '?' run (measure size skipped) → Fills size run skipped
  | gap {run skipped p t : List Char} {c : Char} : (∀ c ∈ run, IsWild c) →
    Spans '*' '?' run (measure size skipped) → ¬IsWild c → Fills size p t →
      Fills size (run ++ c :: p) (skipped ++ c :: t)

/-- A pattern is a run of wildcards, or one that a character follows which is none, and so on. -/
theorem runs_induction {P : List Char → Prop} (last : ∀ run, (∀ c ∈ run, IsWild c) → P run)
    (gap : ∀ run c p, (∀ c ∈ run, IsWild c) → ¬IsWild c → P p → P (run ++ c :: p))
    (p : List Char) : P p := by
  suffices h : ∀ run, (∀ c ∈ run, IsWild c) → P (run ++ p) from h [] nofun
  induction p with
  | nil =>
    intro run hrun
    rw [List.append_nil]
    exact last run hrun
  | cons c p ih =>
    intro run hrun
    by_cases hc : IsWild c
    · have hmore : ∀ d ∈ run ++ [c], IsWild d := by
        simpa [or_imp, forall_and] using ⟨hrun, hc⟩
      have h := ih (run ++ [c]) hmore
      rwa [List.append_assoc] at h
    · exact gap run c p hrun hc (ih [] nofun)

/-! ## Characters in letters -/

/-- A way to write characters in letters, in which wildcards are letters of their own and characters
can be found. -/
structure Coding (α : Type) where
  letters : Char → List α
  star : α
  any : α
  star_ne_any : star ≠ any
  letters_star : letters '*' = [star]
  letters_any : letters '?' = [any]
  not_mem_letters : ∀ {c}, ¬IsWild c → star ∉ letters c ∧ any ∉ letters c
  split : ∀ {t : List Char} {c : Char} {front back : List α},
    t.flatMap letters = front ++ (letters c ++ back) →
      ∃ t₁ t₂, t = t₁ ++ c :: t₂ ∧ t₁.flatMap letters = front ∧ t₂.flatMap letters = back

namespace Coding

variable {α : Type} (k : Coding α) {run p t : List Char} {n : Nat}

/-- How many letters a character has. -/
def size (c : Char) : Nat := (k.letters c).length

theorem length_letters (t : List Char) : (t.flatMap k.letters).length = measure k.size t := by
  induction t with
  | nil => rfl
  | cons c t ih =>
    rw [List.flatMap_cons, List.length_append, ih]
    rfl

theorem letters_run (hrun : ∀ c ∈ run, IsWild c) :
    run.flatMap k.letters = run.map fun c => if c = '*' then k.star else k.any := by
  induction run with
  | nil => rfl
  | cons c run ih =>
    obtain ⟨hc, hrun⟩ := List.forall_mem_cons.mp hrun
    rw [List.flatMap_cons, ih hrun, List.map_cons]
    rcases hc with rfl | rfl
    · rw [k.letters_star]
      rfl
    · rw [k.letters_any]
      rfl

/-- Without its stars a pattern is written as before, without theirs. -/
theorem letters_filter [DecidableEq α] (p : List Char) :
    (p.filter (· ≠ '*')).flatMap k.letters = (p.flatMap k.letters).filter (· ≠ k.star) := by
  induction p with
  | nil => rfl
  | cons c p ih =>
    rw [List.flatMap_cons, List.filter_append, ← ih]
    by_cases hstar : c = '*'
    · subst hstar
      rw [List.filter_cons_of_neg (by simp), k.letters_star, List.filter_cons_of_neg (by simp)]
      rfl
    · rw [List.filter_cons_of_pos (by simpa using hstar), List.flatMap_cons]
      have hmem : k.star ∉ k.letters c := by
        by_cases hany : c = '?'
        · rw [hany, k.letters_any, List.mem_singleton]
          exact k.star_ne_any
        · exact (k.not_mem_letters (not_or.mpr ⟨hstar, hany⟩)).1
      congr 1
      refine (List.filter_eq_self.mpr fun a ha => ?_).symm
      rw [decide_eq_true_eq]
      rintro rfl
      exact hmem ha

variable [DecidableEq α]

theorem spans_letters (hrun : ∀ c ∈ run, IsWild c) :
    Spans k.star k.any (run.flatMap k.letters) n ↔ Spans '*' '?' run n := by
  have hmem : k.star ∈ run.flatMap k.letters ↔ '*' ∈ run := by
    rw [k.letters_run hrun, List.mem_map]
    constructor
    · rintro ⟨c, hc, hstar⟩
      rcases hrun c hc with rfl | rfl
      · exact hc
      · exact absurd hstar.symm k.star_ne_any
    · exact fun h => ⟨'*', h, if_pos rfl⟩
  have hcount : (run.flatMap k.letters).count k.any = run.count '?' := by
    rw [k.letters_run hrun, List.count, List.countP_map]
    refine List.countP_congr fun c hc => ?_
    rcases hrun c hc with rfl | rfl
    · simp [k.star_ne_any]
    · simp
  rw [Spans, Spans, hmem, hcount]

/-- A run stands for the texts of the right size. -/
theorem stands_letters_run_iff (hrun : ∀ c ∈ run, IsWild c) {word : List α} :
    Stands k.star k.any (run.flatMap k.letters) word ↔ Spans '*' '?' run word.length := by
  rw [stands_run_iff k.star_ne_any ?_, k.spans_letters hrun]
  intro a ha
  rw [k.letters_run hrun, List.mem_map] at ha
  obtain ⟨c, -, rfl⟩ := ha
  split
  · exact .inl rfl
  · exact .inr rfl

/-- What a pattern stands for in letters is made of whole characters. -/
theorem stands_iff (p t : List Char) :
    Stands k.star k.any (p.flatMap k.letters) (t.flatMap k.letters) ↔ Fills k.size p t := by
  constructor
  · intro h
    induction p using runs_induction generalizing t with
    | last run hrun =>
      have hspans := (k.stands_letters_run_iff hrun).mp h
      rw [length_letters] at hspans
      exact .last hrun hspans
    | gap run c p hrun hc ih =>
      rw [List.flatMap_append, List.flatMap_cons] at h
      obtain ⟨front, rest, ht, hfront, hrest⟩ := stands_append_iff.mp h
      obtain ⟨word, back, rfl, hword, hback⟩ := stands_append_iff.mp hrest
      obtain ⟨hstar, hany⟩ := k.not_mem_letters hc
      obtain rfl := (stands_word_iff hstar hany).mp hword
      -- a character of the pattern that stands for itself is one of the text
      obtain ⟨skipped, t, rfl, rfl, rfl⟩ := k.split ht
      have hspans := (k.stands_letters_run_iff hrun).mp hfront
      rw [length_letters] at hspans
      exact .gap hrun hspans hc (ih t hback)
  · intro h
    induction h with
    | @last run skipped hrun hspans =>
      rw [← length_letters] at hspans
      exact (k.stands_letters_run_iff hrun).mpr hspans
    | @gap run skipped p t c hrun hspans hc _ ih =>
      rw [← length_letters] at hspans
      obtain ⟨hstar, hany⟩ := k.not_mem_letters hc
      rw [List.flatMap_append, List.flatMap_append, List.flatMap_cons, List.flatMap_cons]
      exact ((k.stands_letters_run_iff hrun).mpr hspans).append
        (((stands_word_iff hstar hany).mpr rfl).append ih)

end Coding

/-- Each character is a letter. -/
def characters : Coding Char where
  letters c := [c]
  star := '*'
  any := '?'
  star_ne_any := by decide
  letters_star := rfl
  letters_any := rfl
  not_mem_letters {c} hc := by
    constructor
    · rintro h
      exact hc (.inl (List.mem_singleton.mp h).symm)
    · rintro h
      exact hc (.inr (List.mem_singleton.mp h).symm)
  split {t c front back} h := by
    rw [List.flatMap_singleton'] at h
    exact ⟨front, back, h, List.flatMap_singleton' _, List.flatMap_singleton' _⟩

/-- Each character is one to four bytes. -/
def utf8 : Coding UInt8 where
  letters := String.utf8EncodeChar
  star := Glob.star
  any := anyByte
  star_ne_any := by decide
  letters_star := by decide
  letters_any := by decide
  not_mem_letters {c} hc := by
    constructor
    · exact Utf8.not_mem_utf8EncodeChar (by decide) fun h => hc (.inl h)
    · exact Utf8.not_mem_utf8EncodeChar (by decide) fun h => hc (.inr h)
  split := Utf8.split_of_encode

end Glob

end MediaChain
