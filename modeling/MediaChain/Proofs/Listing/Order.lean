import Mathlib.Data.List.Basic
import MediaChain.Listing
import MediaChain.Proofs.Text.Natural

/-!
# The order of listings

Every entry that plugins can list has a path (`Listing.pathed_edited`). Two entries with sort
numbers are ordered by these and others by their paths, which is an order of three and more entries
only if the numbers grow along the paths wherever an entry without a number comes between
(`Listing.transitive_iff_graded`). Then sorting puts the entries in order, and those that were in
order before keep it (`Listing.stableSort_sorted`). Entries without numbers are sorted by their
paths alone (`Listing.Unnumbered.sorted`), and entries with numbers by these alone
(`Listing.Numbered.sorted`).
-/

namespace MediaChain

open Std

/-! ## Natural order -/

namespace Natural

variable {fold : Char → List Char} {s t : String}

theorem transCmp_order (hfold : Folds fold) : TransCmp (order fold) := by
  rw [order_eq_sortKey hfold]
  infer_instance

instance : TransCmp (order lowercase) := transCmp_order folds_lowercase

theorem eq_of_order (h : order fold s t = .eq) : s = t := by
  rw [order, Ordering.then_eq_eq] at h
  exact LawfulEqCmp.eq_of_compare h.2

end Natural

namespace Listing

/-! ## What plugins list -/

/-- One thing that is done to a listing. -/
inductive Edit
  | entry (name : String) (isDir : Bool)
  | property (key : String) (value : Value)
  | link (name : Option String) (url : String) (args : List String)
deriving DecidableEq

namespace Edit

/-- Does one thing to a listing; says whether it was accepted. -/
def apply : Edit → Listing → Bool × Listing
  | entry name isDir, l => l.addEntry name isDir
  | property key value, l => l.addProperty key value
  | link name url args, l => l.addLink name url args

/-- If the path of an entry is set, it is set to a text. -/
def Textual : Edit → Prop
  | property key value => key = pathKey → ∃ path, value = .text path
  | _ => True

end Edit

/-- The listing below a url after some things were done to it, refused ones among them. -/
def edited (base : String) (edits : List Edit) : Listing :=
  edits.foldl (fun l edit => (edit.apply l).2) (.empty base)

variable {base name key : String} {value : Value} {isDir : Bool} {l : Listing}
  {edits : List Edit} {entries : List Entry} {a b c e : Entry} {x y : Int64}

/-- All entries have paths. -/
def Pathed (entries : List Entry) : Prop := ∀ e ∈ entries, ∃ path, e.path? = some path

/-- The entry that is added for a name. -/
def fresh (base name : String) (isDir : Bool) : Entry :=
  ((⟨∅⟩ : Entry).set pathKey (.text (pathOf base name))).set isDirKey
    (.int (if isDir then 1 else 0))

theorem addEntry_of_mem (h : '/' ∈ name.toList) : l.addEntry name isDir = (false, l) := if_pos h

theorem addEntry_of_not_mem (h : '/' ∉ name.toList) :
    l.addEntry name isDir =
      (true, { l with entries := l.entries ++ [fresh l.base name isDir] }) := if_neg h

theorem Entry.path?_set (e : Entry) (key : String) (value : Value) :
    (e.set key value).path? = if key = pathKey then value.text? else e.path? := by
  unfold path?
  rw [get?_set]
  split <;> rfl

@[simp]
theorem path?_fresh (base name : String) (isDir : Bool) :
    (fresh base name isDir).path? = some (pathOf base name) := by
  unfold fresh
  rw [Entry.path?_set, if_neg (by decide), Entry.path?_set, if_pos rfl]
  rfl

namespace Pathed

theorem append (h : Pathed entries) (he : ∃ path, e.path? = some path) :
    Pathed (entries ++ [e]) := by
  intro e' he'
  rcases List.mem_append.mp he' with he' | he'
  · exact h e' he'
  · rwa [List.mem_singleton.mp he']

theorem addEntry (h : Pathed l.entries) (name : String) (isDir : Bool) :
    Pathed (l.addEntry name isDir).2.entries := by
  by_cases hslash : '/' ∈ name.toList
  · rwa [addEntry_of_mem hslash]
  · rw [addEntry_of_not_mem hslash]
    exact h.append ⟨_, path?_fresh _ _ _⟩

theorem addProperty (h : Pathed l.entries) (hvalue : key = pathKey → ∃ path, value = .text path) :
    Pathed (l.addProperty key value).2.entries := by
  unfold Listing.addProperty
  split
  · exact h
  next e he =>
    refine append (fun e' he' => h e' (List.dropLast_subset _ he')) ?_
    rw [Entry.path?_set]
    split
    next hkey =>
      obtain ⟨path, rfl⟩ := hvalue hkey
      exact ⟨path, rfl⟩
    next => exact h e (List.mem_of_getLast? he)

theorem addLink (h : Pathed l.entries) (name : Option String) (url : String) (args : List String) :
    Pathed (l.addLink name url args).2.entries := by
  have hreal : realPathKey = pathKey → ∃ path, Value.text (target url args) = .text path :=
    fun hkey => absurd hkey (by decide)
  unfold Listing.addLink
  cases name with
  | none =>
    have hadded := addEntry (l := { l with nextIndex := l.nextIndex + 1 }) h
      (toString l.nextIndex) false
    dsimp only
    split
    next heq =>
      rw [heq] at hadded
      exact hadded.addProperty hreal
    next heq =>
      rw [heq] at hadded
      exact hadded
  | some name =>
    have hadded := h.addEntry name false
    dsimp only
    split
    next heq =>
      rw [heq] at hadded
      exact hadded.addProperty hreal
    next heq =>
      rw [heq] at hadded
      exact hadded

theorem apply (h : Pathed l.entries) {edit : Edit} (hedit : edit.Textual) :
    Pathed (edit.apply l).2.entries := by
  cases edit with
  | entry name isDir => exact h.addEntry name isDir
  | property key value => exact h.addProperty hedit
  | link name url args => exact h.addLink name url args

end Pathed

/-- Whatever is listed has a path. -/
theorem pathed_edited (h : ∀ edit ∈ edits, edit.Textual) : Pathed (edited base edits).entries := by
  have hrun : ∀ l : Listing, Pathed l.entries →
      Pathed (edits.foldl (fun l edit => (edit.apply l).2) l).entries := by
    induction edits with
    | nil => exact fun l hl => hl
    | cons edit edits ih =>
      rw [List.forall_mem_cons] at h
      exact fun l hl => ih h.2 _ (hl.apply h.1)
  exact hrun (.empty base) nofun

/-! ## Comparing two entries -/

namespace Entry

/-- The order of two entries by their paths. -/
def byPath (a b : Entry) : Ordering :=
  Natural.order lowercase (a.path?.getD "") (b.path?.getD "")

instance : TransCmp byPath where
  eq_swap := by
    unfold byPath
    exact OrientedCmp.eq_swap
  isLE_trans := by
    unfold byPath
    exact TransCmp.isLE_trans

theorem byPath_total (a b : Entry) : (a.byPath b).isLE = true ∨ (b.byPath a).isLE = true := by
  cases h : a.byPath b with
  | lt | eq => exact .inl rfl
  | gt =>
    right
    rw [OrientedCmp.lt_of_gt h]
    rfl

theorem byPath_congr (h : a.path? = b.path?) (c : Entry) :
    a.byPath c = b.byPath c ∧ c.byPath a = c.byPath b := by
  unfold byPath
  rw [h]
  exact ⟨rfl, rfl⟩

theorem order_of_numbers (ha : a.sortNumber? = some x) (hb : b.sortNumber? = some y) :
    a.order b = compare x y := by
  unfold order
  rw [ha, hb]

theorem order_of_paths (h : a.sortNumber? = none ∨ b.sortNumber? = none)
    (ha : ∃ path, a.path? = some path) (hb : ∃ path, b.path? = some path) :
    a.order b = a.byPath b := by
  obtain ⟨s, hs⟩ := ha
  obtain ⟨t, ht⟩ := hb
  unfold order byPath
  rw [hs, ht]
  split
  next x y hx hy =>
    rw [hx, hy] at h
    rcases h with h | h <;> cases h
  next => rfl

theorem path?_eq_of_byPath (ha : ∃ path, a.path? = some path) (hb : ∃ path, b.path? = some path)
    (h : a.byPath b = .eq) : a.path? = b.path? := by
  obtain ⟨s, hs⟩ := ha
  obtain ⟨t, ht⟩ := hb
  unfold byPath at h
  rw [hs, ht] at h ⊢
  exact congrArg some (Natural.eq_of_order h)

/-- Two entries have numbers both, or are ordered by their paths. -/
theorem numbered_cases (a b : Entry) :
    (∃ x y, a.sortNumber? = some x ∧ b.sortNumber? = some y) ∨
      a.sortNumber? = none ∨ b.sortNumber? = none := by
  cases ha : a.sortNumber? with
  | none => exact .inr (.inl rfl)
  | some x =>
    cases hb : b.sortNumber? with
    | none => exact .inr (.inr rfl)
    | some y => exact .inl ⟨x, y, rfl, rfl⟩

theorem order_swap (ha : ∃ path, a.path? = some path) (hb : ∃ path, b.path? = some path) :
    a.order b = (b.order a).swap := by
  rcases numbered_cases a b with ⟨x, y, hx, hy⟩ | hnone
  · rw [order_of_numbers hx hy, order_of_numbers hy hx]
    exact OrientedCmp.eq_swap
  · rw [order_of_paths hnone ha hb, order_of_paths hnone.symm hb ha]
    exact OrientedCmp.eq_swap

end Entry

theorem Pathed.order_swap (h : Pathed entries) :
    ∀ a ∈ entries, ∀ b ∈ entries, a.order b = (b.order a).swap :=
  fun a ha b hb => Entry.order_swap (h a ha) (h b hb)

/-! ## Comparing three entries -/

/-- Numbers grow along the paths: if an entry without a number has its path between those of two
entries with numbers, the number of the first is the smaller one, or the two have one number and
one path. -/
def Graded (entries : List Entry) : Prop :=
  ∀ a ∈ entries, ∀ b ∈ entries, ∀ c ∈ entries, ∀ x y, a.sortNumber? = some x →
    b.sortNumber? = none → c.sortNumber? = some y → (a.byPath b).isLE = true →
      (b.byPath c).isLE = true → x < y ∨ x = y ∧ a.path? = c.path?

/-- Of three entries, if the first is not behind the second nor the second behind the third, the
first is not behind the third. -/
def Transitive (entries : List Entry) : Prop :=
  ∀ a ∈ entries, ∀ b ∈ entries, ∀ c ∈ entries, (a.order b).isLE = true →
    (b.order c).isLE = true → (a.order c).isLE = true

instance : Decidable (Transitive entries) :=
  inferInstanceAs (Decidable (∀ a ∈ entries, ∀ b ∈ entries, ∀ c ∈ entries, _ → _ → _))

theorem Transitive.graded (h : Transitive entries) (hpath : Pathed entries) : Graded entries := by
  intro a ha b hb c hc x y hx hnone hy hab hbc
  have hab' : a.order b = a.byPath b := Entry.order_of_paths (.inr hnone) (hpath a ha) (hpath b hb)
  have hbc' : b.order c = b.byPath c := Entry.order_of_paths (.inl hnone) (hpath b hb) (hpath c hc)
  have hca' : c.order b = c.byPath b := Entry.order_of_paths (.inr hnone) (hpath c hc) (hpath b hb)
  have hac := h a ha b hb c hc (hab' ▸ hab) (hbc' ▸ hbc)
  rw [Entry.order_of_numbers hx hy, isLE_compare] at hac
  rcases Int64.lt_or_eq_of_le hac with hlt | rfl
  · exact .inl hlt
  · -- The numbers tell nothing, so `c` is not behind `a`, and the paths are one.
    have hback : (c.order a).isLE = true := by
      rw [Entry.order_of_numbers hy hx, isLE_compare]
      exact Int64.le_refl x
    have hba := h b hb c hc a ha (hbc' ▸ hbc) hback
    have hcb := h c hc a ha b hb hback (hab' ▸ hab)
    rw [Entry.order_of_paths (.inl hnone) (hpath b hb) (hpath a ha)] at hba
    rw [Entry.order_of_paths (.inr hnone) (hpath c hc) (hpath b hb)] at hcb
    have hpaths : a.path? = b.path? :=
      Entry.path?_eq_of_byPath (hpath a ha) (hpath b hb) (OrientedCmp.isLE_antisymm hab hba)
    have hpaths' : b.path? = c.path? :=
      Entry.path?_eq_of_byPath (hpath b hb) (hpath c hc) (OrientedCmp.isLE_antisymm hbc hcb)
    exact .inr ⟨rfl, hpaths.trans hpaths'⟩

/-- Where the number of the entry behind is not the greater one, both entries have one path. -/
theorem Graded.path?_eq (h : Graded entries) (ha : a ∈ entries) (hb : b ∈ entries)
    (hc : c ∈ entries) (hx : a.sortNumber? = some x) (hnone : b.sortNumber? = none)
    (hy : c.sortNumber? = some y) (hle : y ≤ x) (hab : (a.byPath b).isLE = true)
    (hbc : (b.byPath c).isLE = true) : a.path? = c.path? := by
  rcases h a ha b hb c hc x y hx hnone hy hab hbc with hlt | ⟨-, hpath⟩
  · exact absurd hlt (Int64.not_lt.mpr hle)
  · exact hpath

theorem Graded.transitive (h : Graded entries) (hpath : Pathed entries) : Transitive entries := by
  intro a ha b hb c hc hab hbc
  have hpaths : ∀ e ∈ entries, ∀ e' ∈ entries, e.sortNumber? = none ∨ e'.sortNumber? = none →
      e.order e' = e.byPath e' := fun e he e' he' hnone =>
    Entry.order_of_paths hnone (hpath e he) (hpath e' he')
  rcases Entry.numbered_cases a c with ⟨x, z, hx, hz⟩ | hac
  · rw [Entry.order_of_numbers hx hz, isLE_compare]
    cases hy : b.sortNumber? with
    | some y =>
      rw [Entry.order_of_numbers hx hy, isLE_compare] at hab
      rw [Entry.order_of_numbers hy hz, isLE_compare] at hbc
      exact Int64.le_trans hab hbc
    | none =>
      rw [hpaths a ha b hb (.inr hy)] at hab
      rw [hpaths b hb c hc (.inl hy)] at hbc
      rcases h a ha b hb c hc x z hx hy hz hab hbc with hlt | ⟨rfl, -⟩
      · exact Int64.le_of_lt hlt
      · exact Int64.le_refl x
  · rw [hpaths a ha c hc hac]
    rcases Entry.byPath_total a c with hle | hca
    · exact hle
    · rcases Entry.numbered_cases a b with ⟨x, y, hx, hy⟩ | hnone
      · -- `c` has no number and is between `b` and `a`, whose numbers do not grow.
        have hz : c.sortNumber? = none := hac.resolve_left (by simp [hx])
        rw [Entry.order_of_numbers hx hy, isLE_compare] at hab
        rw [hpaths b hb c hc (.inr hz)] at hbc
        rwa [← (Entry.byPath_congr (h.path?_eq hb hc ha hy hz hx hab hbc hca) c).1]
      · rw [hpaths a ha b hb hnone] at hab
        rcases Entry.numbered_cases b c with ⟨y, z, hy, hz⟩ | hnone'
        · have hx : a.sortNumber? = none := hac.resolve_right (by simp [hz])
          rw [Entry.order_of_numbers hy hz, isLE_compare] at hbc
          rwa [(Entry.byPath_congr (h.path?_eq hc ha hb hz hx hy hbc hca hab) a).2]
        · rw [hpaths b hb c hc hnone'] at hbc
          exact TransCmp.isLE_trans hab hbc

theorem transitive_iff_graded (hpath : Pathed entries) : Transitive entries ↔ Graded entries :=
  ⟨fun h => h.graded hpath, fun h => h.transitive hpath⟩

/-! ## Sorting -/

/-- Sorting a list leaves it in order, and keeps the order of what was in order before. -/
structure StableSort {α : Type} (le : α → α → Prop) (before after : List α) : Prop where
  perm : after.Perm before
  pairwise : after.Pairwise le
  kept : ∀ part : List α, part.Sublist before → part.Pairwise le → part.Sublist after

theorem StableSort.congr {α : Type} {le le' : α → α → Prop} {before after : List α}
    (h : StableSort le before after) (hle : ∀ a ∈ before, ∀ b ∈ before, le a b ↔ le' a b) :
    StableSort le' before after := by
  have hpairwise : ∀ part : List α, (∀ a ∈ part, a ∈ before) →
      (part.Pairwise le ↔ part.Pairwise le') := fun part hpart =>
    List.Pairwise.iff_of_mem fun ha hb => hle _ (hpart _ ha) _ (hpart _ hb)
  refine ⟨h.perm, (hpairwise after fun a ha => h.perm.mem_iff.mp ha).mp h.pairwise, ?_⟩
  intro part hpart hordered
  exact h.kept part hpart ((hpairwise part fun a ha => hpart.subset ha).mpr hordered)

/-- Sorting needs an order of the members of a list only. -/
theorem stableSort_mergeSort {α : Type} {le : α → α → Bool} {l : List α}
    (htrans : ∀ a ∈ l, ∀ b ∈ l, ∀ c ∈ l, le a b = true → le b c = true → le a c = true)
    (htotal : ∀ a ∈ l, ∀ b ∈ l, le a b = true ∨ le b a = true) :
    StableSort (fun a b => le a b = true) l (l.mergeSort le) := by
  have htrans' : ∀ a b c : {a // a ∈ l}, le a.1 b.1 = true → le b.1 c.1 = true →
      le a.1 c.1 = true := fun a b c => htrans a a.2 b b.2 c c.2
  have htotal' : ∀ a b : {a // a ∈ l}, (le a.1 b.1 || le b.1 a.1) = true := fun a b =>
    Bool.or_eq_true_iff.mpr (htotal a a.2 b b.2)
  have hmap : (l.attach.mergeSort fun a b => le a.1 b.1).map Subtype.val = l.mergeSort le := by
    have hcomm : (l.attach.mergeSort fun a b => le a.1 b.1).map Subtype.val =
        (l.attach.map Subtype.val).mergeSort le := List.map_mergeSort fun _ _ _ _ => rfl
    rw [hcomm, List.attach_map_subtype_val]
  refine ⟨List.mergeSort_perm l le, ?_, ?_⟩
  · rw [← hmap, List.pairwise_map]
    exact List.pairwise_mergeSort htrans' htotal' l.attach
  · intro part hpart hordered
    rw [← List.attach_map_subtype_val l, List.sublist_map_iff] at hpart
    obtain ⟨part', hpart', rfl⟩ := hpart
    rw [← hmap]
    refine List.Sublist.map _ (List.sublist_mergeSort htrans' htotal' ?_ hpart')
    exact List.pairwise_map.mp hordered

theorem mergeSort_four {α : Type} {le : α → α → Bool} {a b c d : α} (hab : le a b = true)
    (hac : le a c = true) (hbc : le b c = true) (hcd : le c d = true) :
    [a, b, c, d].mergeSort le = [a, b, c, d] := by
  simp [List.mergeSort, List.MergeSort.Internal.splitInTwo, hab, hac, hbc, hcd]

theorem order_ne_gt (a b : Entry) : (a.order b != .gt) = (a.order b).isLE := by
  cases a.order b <;> rfl

theorem stableSort_sorted
    (hswap : ∀ a ∈ l.entries, ∀ b ∈ l.entries, a.order b = (b.order a).swap)
    (h : Transitive l.entries) :
    StableSort (fun a b => (a.order b).isLE = true) l.entries l.sorted := by
  unfold sorted
  simp only [order_ne_gt]
  refine stableSort_mergeSort h fun a ha b hb => ?_
  rw [hswap b hb a ha]
  cases a.order b with
  | lt | eq => exact .inl rfl
  | gt => exact .inr rfl

/-- Of two listed entries, each is as far in front of the other as the other is behind it. The order
is one of all that is listed exactly if the numbers grow along the paths, and then sorting is
stable. -/
theorem order_consistent_iff (base : String) {edits : List Edit}
    (h : ∀ edit ∈ edits, edit.Textual) :
    let l := edited base edits
    (∀ a ∈ l.entries, ∀ b ∈ l.entries, a.order b = (b.order a).swap) ∧
      (Transitive l.entries ↔ Graded l.entries) ∧
        (Graded l.entries →
          StableSort (fun a b => (a.order b).isLE = true) l.entries l.sorted) := by
  have hpath : Pathed (edited base edits).entries := pathed_edited h
  have hswap := hpath.order_swap
  exact ⟨hswap, transitive_iff_graded hpath,
    fun hgraded => stableSort_sorted hswap (hgraded.transitive hpath)⟩

/-- Two subtunes with numbers and a picture without one. -/
def subtunes : List Edit :=
  [.link none "file:///a.sid" ["subtune=1"], .property sortKey (.int 2), .entry "cover.png" false,
    .link none "file:///a.sid" ["subtune=0"], .property sortKey (.int 3)]

theorem order_consistent_subtunes :
    (∀ edit ∈ subtunes, edit.Textual) ∧
      StableSort (fun a b => (a.order b).isLE = true)
        (edited "sid://" subtunes).entries (edited "sid://" subtunes).sorted := by
  have htextual : ∀ edit ∈ subtunes, edit.Textual := by
    simp [subtunes, Edit.Textual, sortKey, pathKey]
  obtain ⟨-, hiff, hsort⟩ := order_consistent_iff "sid://" htextual
  exact ⟨htextual, hsort (hiff.mp (by decide +kernel))⟩

/-- Two files without numbers, and two with the same one. -/
def discs : List Edit :=
  [.entry "a" false, .entry "c" false, .entry "d" false, .property sortKey (.int 1),
    .entry "b" false, .property sortKey (.int 1)]

/-- The file `d` is not behind `b`, which has the same number, and `b` is in front of `c` by its
path, but `d` is behind `c`; sorting leaves all as it is, with `b` behind `c`. -/
theorem order_inconsistent_discs :
    let l := edited "dir:///music" discs
    (∀ edit ∈ discs, edit.Textual) ∧ ¬Transitive l.entries ∧ l.sorted = l.entries ∧
      ¬l.sorted.Pairwise (fun a b => (a.order b).isLE = true) := by
  have htextual : ∀ edit ∈ discs, edit.Textual := by
    simp [discs, Edit.Textual, sortKey, pathKey]
  have hsorted : (edited "dir:///music" discs).sorted = (edited "dir:///music" discs).entries := by
    refine mergeSort_four ?_ ?_ ?_ ?_ <;> decide +kernel
  refine ⟨htextual, by decide +kernel, hsorted, ?_⟩
  rw [hsorted]
  decide +kernel

/-! ## Listings with numbers only, or without any -/

namespace Entry

/-- The path of one entry is in front of that of another one. -/
def Before (a b : Entry) : Prop :=
  ∃ s t, a.path? = some s ∧ b.path? = some t ∧ Natural.order lowercase s t = .lt

/-- The number of one entry is not above that of another one. -/
def NumberLE (a b : Entry) : Prop :=
  ∃ x y, a.sortNumber? = some x ∧ b.sortNumber? = some y ∧ x ≤ y

theorem Before.asymm (h : a.Before b) : ¬b.Before a := by
  rintro ⟨t, s, hb, ha, hback⟩
  obtain ⟨s', t', ha', hb', hlt⟩ := h
  rw [ha] at ha'
  rw [hb] at hb'
  obtain rfl := Option.some.inj ha'
  obtain rfl := Option.some.inj hb'
  rw [OrientedCmp.gt_of_lt hlt] at hback
  cases hback

theorem before_of_byPath (ha : ∃ path, a.path? = some path) (hb : ∃ path, b.path? = some path)
    (h : (a.byPath b).isLE = true) (hne : a.path? ≠ b.path?) : a.Before b := by
  have hlt : a.byPath b = .lt := by
    cases hcmp : a.byPath b with
    | lt => rfl
    | eq => exact absurd (path?_eq_of_byPath ha hb hcmp) hne
    | gt =>
      rw [hcmp] at h
      cases h
  obtain ⟨s, hs⟩ := ha
  obtain ⟨t, ht⟩ := hb
  unfold byPath at hlt
  rw [hs, ht] at hlt
  exact ⟨s, t, hs, ht, hlt⟩

end Entry

/-- No entry has a number. -/
def Unnumbered (entries : List Entry) : Prop := ∀ e ∈ entries, e.sortNumber? = none

/-- All entries have numbers. -/
def Numbered (entries : List Entry) : Prop := ∀ e ∈ entries, e.sortNumber?.isSome = true

instance : Decidable (Unnumbered entries) :=
  inferInstanceAs (Decidable (∀ e ∈ entries, e.sortNumber? = none))

instance : Decidable (Numbered entries) :=
  inferInstanceAs (Decidable (∀ e ∈ entries, e.sortNumber?.isSome = true))

theorem Unnumbered.graded (h : Unnumbered entries) : Graded entries := by
  intro a ha b _ c _ x y hx
  rw [h a ha] at hx
  cases hx

theorem Numbered.order_isLE (h : Numbered entries) :
    ∀ a ∈ entries, ∀ b ∈ entries, (a.order b).isLE = true ↔ a.NumberLE b := by
  intro a ha b hb
  obtain ⟨x, hx⟩ := Option.isSome_iff_exists.mp (h a ha)
  obtain ⟨y, hy⟩ := Option.isSome_iff_exists.mp (h b hb)
  rw [Entry.order_of_numbers hx hy, isLE_compare]
  constructor
  · exact fun hle => ⟨x, y, hx, hy, hle⟩
  · rintro ⟨x', y', hx', hy', hle⟩
    rw [hx] at hx'
    rw [hy] at hy'
    cases hx'
    cases hy'
    exact hle

/-- Entries without numbers are sorted by their paths, if no two have one path. -/
theorem Unnumbered.sorted (h : Unnumbered l.entries) (hpath : Pathed l.entries)
    (hnodup : (l.entries.map Entry.path?).Nodup) :
    l.sorted.Perm l.entries ∧ l.sorted.Pairwise Entry.Before := by
  have hsort := stableSort_sorted hpath.order_swap (h.graded.transitive hpath)
  refine ⟨hsort.perm, ?_⟩
  have hdistinct : l.sorted.Pairwise fun a b => a.path? ≠ b.path? :=
    List.pairwise_map.mp ((hsort.perm.map Entry.path?).nodup_iff.mpr hnodup)
  refine (hsort.pairwise.and hdistinct).imp_of_mem ?_
  rintro a b ha hb ⟨hle, hne⟩
  have ha' := hsort.perm.mem_iff.mp ha
  have hb' := hsort.perm.mem_iff.mp hb
  rw [Entry.order_of_paths (.inl (h a ha')) (hpath a ha') (hpath b hb')] at hle
  exact Entry.before_of_byPath (hpath a ha') (hpath b hb') hle hne

/-- Entries with numbers are sorted by them, whatever their paths are. -/
theorem Numbered.sorted (h : Numbered l.entries) :
    StableSort Entry.NumberLE l.entries l.sorted := by
  refine StableSort.congr (stableSort_sorted ?_ ?_) h.order_isLE
  · intro a ha b hb
    obtain ⟨x, hx⟩ := Option.isSome_iff_exists.mp (h a ha)
    obtain ⟨y, hy⟩ := Option.isSome_iff_exists.mp (h b hb)
    rw [Entry.order_of_numbers hx hy, Entry.order_of_numbers hy hx]
    exact OrientedCmp.eq_swap
  · intro a ha b hb c hc hab hbc
    obtain ⟨x, y, hx, hy, hxy⟩ := (h.order_isLE a ha b hb).mp hab
    obtain ⟨y', z, hy', hz, hyz⟩ := (h.order_isLE b hb c hc).mp hbc
    rw [hy] at hy'
    cases hy'
    exact (h.order_isLE a ha c hc).mpr ⟨x, z, hx, hz, Int64.le_trans hxy hyz⟩

/-- Which entries there are settles their order by paths. -/
theorem eq_of_before {entries entries' : List Entry} (hperm : entries.Perm entries')
    (h : entries.Pairwise Entry.Before) (h' : entries'.Pairwise Entry.Before) :
    entries = entries' :=
  List.Perm.eq_of_pairwise (fun _ _ _ _ hab hba => absurd hba hab.asymm) h h' hperm

end Listing

end MediaChain
