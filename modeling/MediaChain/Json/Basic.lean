import Std.Data.ExtTreeMap

/-!
# JSON trees

`Json` is what a JSON text says. A number is kept as an integer where it is written as one, and a
string is `none` where one of its escapes names half of a surrogate pair and so no character.
`Json.fields?` reads a record with known field names from either of its two forms.
-/

namespace MediaChain

open Std

/-- A JSON value. -/
inductive Json
  | null
  | bool (b : Bool)
  | int (n : Int)
  /-- A number with a fraction or an exponent, or a negative zero. -/
  | real
  | text (s : Option String)
  | array (items : List Json)
  | object (members : List (Option String × Json))
deriving Repr

/-- A reader that undoes a writer, and reads nothing else, does so on lists. -/
theorem mapM_eq_some_iff_of_writer {α β : Type} {read : α → Option β} (write : β → α)
    (h : ∀ x y, read x = some y ↔ x = write y) {xs : List α} {ys : List β} :
    xs.mapM read = some ys ↔ xs = ys.map write := by
  induction xs generalizing ys with
  | nil => cases ys <;> simp
  | cons x xs ih =>
    rw [List.mapM_cons, Option.bind_eq_bind, Option.bind_eq_some_iff]
    constructor
    · rintro ⟨y, hy, hys⟩
      obtain ⟨ys', hys', heq⟩ := Option.bind_eq_some_iff.mp hys
      obtain rfl := Option.some_inj.mp heq
      rw [(h x y).mp hy, ih.mp hys', List.map_cons]
    · cases ys with
      | nil => exact fun heq => absurd heq (List.cons_ne_nil _ _)
      | cons y ys =>
        intro heq
        obtain ⟨rfl, hxs⟩ := List.cons.inj heq
        refine ⟨y, (h _ y).mpr rfl, ?_⟩
        rw [ih.mpr hxs]
        rfl

namespace Json

/-- The object with these members, by name. -/
def ofMap (members : ExtTreeMap String Json) : Json :=
  .object (members.toList.map fun (name, value) => (some name, value))

/-- The text of a string value. -/
def text? : Json → Option String
  | text s => s
  | _ => none

/-- The integer of a number that lies between two bounds. -/
def intWithin? (low high : Int) : Json → Option Int
  | int n => if low ≤ n ∧ n ≤ high then some n else none
  | _ => none

theorem intWithin?_eq_some_iff {low high n : Int} {j : Json} :
    j.intWithin? low high = some n ↔ j = .int n ∧ low ≤ n ∧ n ≤ high := by
  cases j with
  | int m =>
    simp only [intWithin?, int.injEq]
    grind
  | _ => simp [intWithin?]

/-- The members of an object, if all their names are texts. -/
def members? : Json → Option (List (String × Json))
  | object members => members.mapM fun (name, value) => name.map (·, value)
  | _ => none

theorem members?_object (members : List (String × Json)) :
    (object (members.map fun (name, value) => (some name, value))).members? = some members := by
  refine (mapM_eq_some_iff_of_writer (fun (name, value) => (some name, value))
    fun x y => ?_).mpr rfl
  obtain ⟨_ | name, value⟩ := x <;> simp [Prod.ext_iff]

/-- Reads a record with these fields: an object in which none of them is repeated, whatever else it
holds, or an array of the fields in order, the last of which may be missing. -/
def fields? (names : List String) : Json → Option (List (Option Json))
  | array items =>
    if items.length ≤ names.length then
      some (items.map some ++ List.replicate (names.length - items.length) none)
    else none
  | value => do
    let members ← value.members?
    if names.all fun name => (members.filter (·.1 = name)).length ≤ 1 then
      some (names.map fun name => (members.find? (·.1 = name)).map (·.2))
    else none

end Json

end MediaChain
