import MediaChain.Proofs.Stage.Provenance

/-!
# Values that survive a seek

A seek drops the pending marks of a stage and keeps the values in force. A mark that the reader has
come to is seen at once, but it is pending until the next read lands it, and so a seek in between
drops it as well (`Marks.arrived`). Hence the reader sees after a seek what it saw before if and only
if such marks repeat what is in force. What is seen later on was in force at the seek, and then the
reader had come to it, or the plugin has set it since (`Stage.Reached.sought_marked`).
-/

namespace MediaChain

namespace Marks

/-- The values of the marks that the reader has come to and that have not landed yet. -/
def arrived (ms : Marks) : Landed := (ms.pending.takeWhile (·.distance = 0)).foldl Mark.settle ∅

theorem getElem?_settle (landed : Landed) (m : Mark) (key : String) :
    (m.settle landed)[key]? = ((m.settle ∅)[key]?).or landed[key]? := by
  obtain ⟨distance, _ | ⟨key', value⟩⟩ := m
  · simp [Mark.settle]
  · by_cases h : key' = key <;> simp [Mark.settle, Std.ExtTreeMap.getElem?_insert, h]

theorem getElem?_foldl_settle (marks : List Mark) (landed : Landed) (key : String) :
    (marks.foldl Mark.settle landed)[key]? =
      ((marks.foldl Mark.settle ∅)[key]?).or landed[key]? := by
  induction marks generalizing landed with
  | nil => simp
  | cons m marks ih =>
    rw [List.foldl_cons, List.foldl_cons, ih, ih (m.settle ∅), getElem?_settle, Option.or_assoc]

/-- The reader sees what it has come to last, or else what is in force. -/
theorem get?_eq_or (ms : Marks) (key : String) :
    ms.get? key = (ms.arrived[key]?).or ms.landed[key]? :=
  getElem?_foldl_settle (ms.pending.takeWhile (·.distance = 0)) ms.landed key

theorem get?_of_pending_eq_nil {ms : Marks} (h : ms.pending = []) (key : String) :
    ms.get? key = ms.landed[key]? := by
  rw [get?_eq_or, arrived, h]
  simp

/-- The reader sees what is in force if and only if what it has come to repeats that. -/
theorem forall_get?_eq_landed_iff (ms : Marks) :
    (∀ key, ms.landed[key]? = ms.get? key) ↔
      ∀ (key : String) (value : Value),
        ms.arrived[key]? = some value → ms.landed[key]? = some value := by
  constructor
  · intro h key value harrived
    rw [h key, get?_eq_or, harrived, Option.some_or]
  · intro h key
    rw [get?_eq_or]
    cases harrived : ms.arrived[key]? with
    | none => rw [Option.none_or]
    | some value => rw [Option.some_or, h key value harrived]

end Marks

namespace Stage

variable {ι ε : Type} {tap : Tap ι ε} {s s' : Stage ι ε} {f f' : Front ι ε} {d : Diary ι ε}

/-- Only a stage that is not errored can be sought. -/
theorem not_errored_of_seek {offset : Int} {whence : Whence} {position : Nat}
    (h : s.seek tap offset whence f = (.ok position, s', f')) : s.errored = false := by
  cases herrored : s.errored with
  | false => rfl
  | true =>
    unfold Stage.seek at h
    rw [if_pos herrored] at h
    cases h

/-- **What survives a seek.** After a seek the reader sees what was in force. That is what it saw
before if and only if the marks that it has come to, but that have not landed, repeat what is in
force. Whatever is done with the stage from then on, a value that is seen was set by the plugin
since, or else it was in force from the beginning or set at or before the position that the reader
had come to. -/
theorem Reached.sought_marked (h : Reached s d) {offset : Int} {whence : Whence} {position : Nat}
    (hseek : s.seek tap offset whence f = (.ok position, s', f')) :
    (∀ key, s'.marked? key = s.desk.marks.landed[key]?) ∧
    ((∀ key, s'.marked? key = s.marked? key) ↔ ∀ (key : String) (value : Value),
      s.desk.marks.arrived[key]? = some value → s.desk.marks.landed[key]? = some value) ∧
    ∀ (asked : List (Request ε)) (s₁ : Stage ι ε), s'.Onward asked s₁ →
      ∀ key value, s₁.marked? key = some value →
        .mark key value ∈ asked ∨ Met d.history.data d.base d.taken.length key value := by
  obtain ⟨-, hpending, hlanded⟩ := seek_ok hseek
  have hseen : ∀ key, s'.marked? key = s.desk.marks.landed[key]? := fun key => by
    rw [marked?, Marks.get?_of_pending_eq_nil hpending, hlanded]
  refine ⟨hseen, ?_, fun asked s₁ honward key value hvalue => ?_⟩
  · rw [← Marks.forall_get?_eq_landed_iff]
    exact forall_congr' fun key => by rw [hseen, marked?]
  · have hstem := (h.grounded (not_errored_of_seek hseek)).stem
    have hstem' : s'.desk.marks.Stem (fun _ key value =>
        .mark key value ∈ asked ∨ Met d.history.data d.base d.taken.length key value) 0 := by
      refine ⟨fun key value hvalue => .inr ?_, fun m hm => ?_⟩
      · rw [hlanded] at hvalue
        exact hstem.landed key value hvalue
      · rw [hpending] at hm
        cases hm
    exact (honward.stem hstem' fun key value => .inl).get? hvalue

/-- A plugin that numbers its reads, each of which brings two bytes, and that can seek. -/
def chaptered : Plugin Nat Unit where
  descriptor := { name := "chaptered", capabilities := { seek := true } }
  init := do
    let _ ← Script.request (.setOutType .untyped)
    return .ok 0
  read n _ := do
    Script.request (.mark "chapter" (.bytes [n.toUInt8]))
    return (.ok (.ofBytes [0, 0]), n + 1)
  seek n _ _ := return (.ok 0, n)

/-- After a read that was full with the bytes of one chapter, its number survives a seek. -/
theorem Reached.sought_within_chapter :
    ∃ (s s' : Stage Nat Unit) (d : Diary Nat Unit) (f f' : Front Nat Unit), Reached s d ∧
      s.seek .closed 0 .start f = (.ok 0, s', f') ∧ s.marked? "chapter" = some (.bytes [0]) ∧
      ∀ key, s'.marked? key = s.marked? key := by
  obtain ⟨s, f, hs⟩ :
      ∃ s f, Stage.create chaptered {} [] ⟨[], ⟨.empty, .empty⟩⟩ = (.ok s, f) := ⟨_, _, rfl⟩
  obtain ⟨d, reached⟩ := (Reached.create hs).of_read .closed (.blank 2) f
  obtain ⟨t, ht⟩ : ∃ t, t = (s.read .closed (.blank 2) f).2.1 := ⟨_, rfl⟩
  rw [← ht] at reached
  have hseek : (t.seek .closed 0 .start f).1 = .ok 0 := by
    apply ok_of_toOption
    cases hs
    cases ht
    decide +kernel
  have hpending : t.desk.marks.pending = [] := by
    cases hs
    cases ht
    decide +kernel
  obtain ⟨-, hsurvives, -⟩ := reached.sought_marked (Prod.ext hseek rfl)
  refine ⟨t, _, d, f, _, reached, Prod.ext hseek rfl, ?_, hsurvives.mpr fun key value hvalue => ?_⟩
  · cases hs
    cases ht
    decide +kernel
  · simp [Marks.arrived, hpending] at hvalue

/-- After a read that was to bring more than one chapter, the number of the next one is seen, until
a seek that sets nothing drops it. -/
theorem Reached.sought_between_chapters :
    ∃ (s s' : Stage Nat Unit) (d : Diary Nat Unit) (f f' : Front Nat Unit), Reached s d ∧
      s.seek .closed 0 .start f = (.ok 0, s', f') ∧ s.seekAsked .closed 0 .start f = [] ∧
      s.marked? "chapter" = some (.bytes [1]) ∧ s'.marked? "chapter" = some (.bytes [0]) := by
  obtain ⟨s, f, hs⟩ :
      ∃ s f, Stage.create chaptered {} [] ⟨[], ⟨.empty, .empty⟩⟩ = (.ok s, f) := ⟨_, _, rfl⟩
  obtain ⟨d, reached⟩ := (Reached.create hs).of_read .closed (.blank 4) f
  obtain ⟨t, ht⟩ : ∃ t, t = (s.read .closed (.blank 4) f).2.1 := ⟨_, rfl⟩
  rw [← ht] at reached
  have hseek : (t.seek .closed 0 .start f).1 = .ok 0 := by
    apply ok_of_toOption
    cases hs
    cases ht
    decide +kernel
  refine ⟨t, _, d, f, _, reached, Prod.ext hseek rfl, List.isEmpty_iff.mp ?_, ?_, ?_⟩
  · cases hs
    cases ht
    decide +kernel
  · cases hs
    cases ht
    decide +kernel
  · cases hs
    cases ht
    decide +kernel

end Stage

end MediaChain
