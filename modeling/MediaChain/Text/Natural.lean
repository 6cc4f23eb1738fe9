/-!
# Natural order

Two texts are compared side by side: where both have digits, by the numbers that the digits spell,
and elsewhere character by character, in folded form. `Natural.order` is this order; texts that it
does not tell apart are ordered as texts.
-/

namespace MediaChain

namespace Natural

/-- Orders two runs of digits by the numbers they spell. -/
def compareRuns (x y : List Char) : Ordering :=
  let x := x.dropWhile (· = '0')
  let y := y.dropWhile (· = '0')
  (compare x.length y.length).then (compare x y)

/-- Compares two texts from the left to the right, with `fold` giving the folded form of a
character. Where both go on with digits, all of these are taken at once. -/
def lockstep (fold : Char → List Char) : List Char → List Char → Ordering
  | [], [] => .eq
  | [], _ :: _ => .lt
  | _ :: _, [] => .gt
  | c :: cs, d :: ds =>
    if c.isDigit ∧ d.isDigit then
      (compareRuns (c :: cs.takeWhile Char.isDigit) (d :: ds.takeWhile Char.isDigit)).then
        (lockstep fold (cs.dropWhile Char.isDigit) (ds.dropWhile Char.isDigit))
    else (compare (fold c) (fold d)).then (lockstep fold cs ds)
termination_by cs => cs.length
decreasing_by
  · exact Nat.lt_succ_of_le (List.dropWhile_suffix _).length_le
  · exact Nat.lt_succ_self _

/-- The natural order of two texts. -/
def order (fold : Char → List Char) (a b : String) : Ordering :=
  (lockstep fold a.toList b.toList).then (compare a b)

end Natural

end MediaChain
