import MediaChain.Proofs.Text.Glob
import MediaChain.StreamType

/-!
# What patterns of types ask for

A type meets itself as a pattern (`StreamType.accepts_self`), even where its texts contain stars and
question marks. A pattern that asks for less accepts no less: fewer parameters (`StreamType.Within`),
or a wildcard in place of a text or a number (`StreamType.relax`). A candidate may have more
parameters than it is asked for.
-/

namespace MediaChain

open Std

/-! ## Texts -/

namespace Glob

/-- A pattern stands for its own text: its stars for a star each, its question marks for one. -/
theorem derives_self (p : Bytes) : Derives p p := by
  induction p with
  | nil => exact .nil
  | cons b p ih =>
    by_cases hstar : b = star
    · subst hstar
      exact .many [star] ih
    · exact (derives_cons_iff hstar).mpr ⟨b, p, rfl, .inr rfl, ih⟩

theorem acceptsText_self (text : String) : acceptsText text text = true :=
  (accepts_iff _ _).mpr (derives_self _)

/-- The pattern that stands for any text. -/
def anyText : String := "*"

theorem acceptsText_any (text : String) : acceptsText anyText text = true := by
  have hstar : Utf8.encode anyText = [star] := rfl
  have hany := Derives.many (Utf8.encode text) .nil
  rw [List.append_nil] at hany
  rw [acceptsText, hstar, accepts_iff]
  exact hany

end Glob

namespace StreamType

variable {p q c d : StreamType}

/-! ## Single parameters -/

/-- A value of a pattern with the wildcard of its kind in its place, if there is one. -/
def relaxed : Value → Value
  | .text _ => .text Glob.anyText
  | .int _ => .int anyInt
  | .bytes bs => .bytes bs

theorem meets_self (v : Value) : meets v v = true := by
  cases v with
  | int n => simp [meets]
  | text s => exact Glob.acceptsText_self s
  | bytes bs => simp [meets]

/-- Of the values of one kind, a wildcard is met by all. -/
theorem meets_relaxed {expected actual : Value} (h : meets expected actual = true) :
    meets (relaxed expected) actual = true := by
  cases expected with
  | int n =>
    cases actual with
    | int m => simp [relaxed, meets]
    | text s => simp [meets] at h
    | bytes bs => simp [meets] at h
  | text pattern =>
    cases actual with
    | int m => simp [meets] at h
    | text s => exact Glob.acceptsText_any s
    | bytes bs => simp [meets] at h
  | bytes bs => exact h

/-! ## Types -/

/-- Every parameter of the first type is one of the second, with the same value. -/
def Within (p q : StreamType) : Prop :=
  ∀ key value, p.get? key = some value → q.get? key = some value

/-- Puts wildcards in place of the texts and numbers of some parameters. -/
def relax (p : StreamType) (keys : String → Bool) : StreamType :=
  ⟨p.params.map fun key value => if keys key then relaxed value else value⟩

theorem get?_relax (p : StreamType) (keys : String → Bool) (key : String) :
    (p.relax keys).get? key =
      (p.get? key).map fun value => if keys key then relaxed value else value := by
  unfold get? relax
  rw [ExtTreeMap.getElem?_map]

theorem accepts_self (t : StreamType) : t.accepts t = true :=
  (accepts_iff t t).mpr fun _ expected h => ⟨expected, h, meets_self expected⟩

/-- What has more parameters is still accepted, and what has fewer still accepts. -/
theorem accepts_mono (hq : q.Within p) (hd : c.Within d) (h : p.accepts c = true) :
    q.accepts d = true := by
  rw [accepts_iff] at h ⊢
  intro key expected hexpected
  obtain ⟨actual, hactual, hmeets⟩ := h key expected (hq key expected hexpected)
  exact ⟨actual, hd key actual hactual, hmeets⟩

theorem within_refl (t : StreamType) : t.Within t := fun _ _ h => h

theorem accepts_relax (keys : String → Bool) (h : p.accepts c = true) :
    (p.relax keys).accepts c = true := by
  rw [accepts_iff] at h ⊢
  intro key expected hexpected
  rw [get?_relax, Option.map_eq_some_iff] at hexpected
  obtain ⟨value, hvalue, rfl⟩ := hexpected
  obtain ⟨actual, hactual, hmeets⟩ := h key value hvalue
  refine ⟨actual, hactual, ?_⟩
  split
  · exact meets_relaxed hmeets
  · exact hmeets

end StreamType

end MediaChain
