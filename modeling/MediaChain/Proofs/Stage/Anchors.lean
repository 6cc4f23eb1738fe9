import MediaChain.Proofs.Stage.Life

/-!
# Marks and the positions they stand for

A stage keeps its marks by their distance from the reader. Here they are given the positions that
the plugin meant: the number of bytes it had produced when the callback began that set them. A
`Stage.Run` writes down what the plugin set, and the reader sees of it what stands at or before its
own position, the last one of each key (`Stage.Run.marked_eq_visible`).
-/

namespace MediaChain

variable {ι ε : Type}

/-! ## What a plugin has set -/

/-- A value that a plugin set for a key at a position of its output. -/
structure Datum where
  anchor : Nat
  key : String
  value : Value

/-- The value of a key for a reader at a position: the last that was set at or before it, or else
the one that was in force from the beginning. -/
def visible (data : List Datum) (base : Landed) (position : Nat) (key : String) : Option Value :=
  ((data.filter fun d => d.anchor ≤ position ∧ d.key = key).getLast?.map Datum.value).or base[key]?

theorem visible_append_singleton (data : List Datum) (d : Datum) (base : Landed) (position : Nat)
    (key : String) :
    visible (data ++ [d]) base position key =
      if d.anchor ≤ position ∧ d.key = key then some d.value
      else visible data base position key := by
  unfold visible
  rw [List.filter_append]
  by_cases h : d.anchor ≤ position ∧ d.key = key <;> simp [h]

/-- What a request sets at a position. -/
def Request.datum? (position : Nat) : Request ε → Option Datum
  | .mark key value => some ⟨position, key, value⟩
  | _ => none

/-- One read of the plugin: what it asked for, and how many bytes it produced. -/
structure Pull (ε : Type) where
  asked : List (Request ε)
  count : Nat

/-- How many bytes a plugin has produced, and what it has set, oldest first. -/
structure History where
  produced : Nat
  data : List Datum

namespace History

def empty : History := ⟨0, []⟩

/-- A read sets values where the bytes end that were produced before. -/
def add (h : History) (pull : Pull ε) : History :=
  ⟨h.produced + pull.count, h.data ++ pull.asked.filterMap (Request.datum? h.produced)⟩

end History

/-! ## Marks with positions -/

/-- The marks of a stage whose reader is at a position stand for what was set. -/
def Marks.Stand (ms : Marks) (data : List Datum) (base : Landed) (position : Nat) : Prop :=
  ∀ n key, (ms.after n)[key]? = visible data base (position + n) key

namespace Marks.Stand

variable {ms : Marks} {data : List Datum} {base : Landed} {position ahead : Nat}

theorem place (h : ms.Stand data base position) (hms : ms.Ordered ahead) (q : Request ε) :
    (q.place ahead ms).Stand (data ++ (q.datum? (position + ahead)).toList) base position := by
  cases q with
  | mark key value =>
    intro n key'
    show ((ms.put ahead key value).after n)[key']? = visible (data ++ [_]) _ _ _
    rw [hms.after_put, visible_append_singleton, h n key']
    -- the mark is reached `n` bytes on if and only if its position is
    have hle : position + ahead ≤ position + n ↔ ahead ≤ n := Nat.add_le_add_iff_left
    simp only [hle]
  | barrier =>
    intro n key
    show ((ms.bar ahead).after n)[key]? = visible (data ++ []) _ _ _
    rw [after_bar, List.append_nil, h n key]
  | _ =>
    intro n key
    show (ms.after n)[key]? = visible (data ++ []) _ _ _
    rw [List.append_nil, h n key]

theorem foldl_place (h : ms.Stand data base position) (hms : ms.Ordered ahead)
    (qs : List (Request ε)) :
    (qs.foldl (Request.place ahead) ms).Stand
      (data ++ qs.filterMap (Request.datum? (position + ahead))) base position := by
  induction qs generalizing ms data with
  | nil =>
    rw [List.filterMap_nil, List.append_nil]
    exact h
  | cons q qs ih =>
    have hq := ih (h.place hms q) (hms.place q)
    have hdata : data ++ (q.datum? (position + ahead)).toList ++
        qs.filterMap (Request.datum? (position + ahead)) =
          data ++ (q :: qs).filterMap (Request.datum? (position + ahead)) := by
      rw [List.append_assoc, List.filterMap_cons]
      cases q.datum? (position + ahead) <;> rfl
    rw [hdata] at hq
    exact hq

theorem land (h : ms.Stand data base position) : ms.land.Stand data base position := by
  intro n key
  rw [after_land, h n key]

theorem advance (h : ms.Stand data base position) (k : Nat) :
    (ms.advance k).Stand data base (position + k) := by
  intro n key
  rw [after_advance, h (k + n) key, Nat.add_assoc]

/-- Where nothing is pending, what is in force stays so. -/
theorem skip (h : ms.Stand data base position) (hms : ms.pending = []) (k : Nat) :
    ms.Stand data base (position + k) := by
  intro n key
  have hk := h (k + n) key
  rw [after_of_pending_eq_nil hms] at hk ⊢
  rw [hk, Nat.add_assoc]

/-- The reader sees what stands at or before its position. -/
theorem get?_eq (h : ms.Stand data base position) (hms : ms.Ordered ahead) (key : String) :
    ms.get? key = visible data base position key := by
  rw [hms.get?_eq, h 0 key, Nat.add_zero]

end Marks.Stand

/-! ## The reads of the plugin -/

namespace Stage

/-- The reads of the plugin while a window is filled, in order. -/
def fillPulls (tap : Tap ι ε) (fresh : Bool) (window : Window) (s : Stage ι ε) (f : Front ι ε) :
    List (Pull ε) :=
  if window.size = 0 then []
  else
    match s.pull tap window f with
    | (.error _, _, _) => []
    | (.ok reply, s', f') =>
      ⟨s.asked tap window f, reply.count⟩ ::
        if reply.count = 0 then []
        else if (s'.landIf fresh).desk.marks.pending = [] then
          fillPulls tap false ((window.write reply.written).drop reply.count) (s'.landIf fresh) f'
        else []
termination_by window.size
decreasing_by simp only [Window.size_drop, Window.size_write]; omega

/-- The reads of the plugin while bytes are taken. -/
def readPulls (tap : Tap ι ε) (window : Window) (s : Stage ι ε) (f : Front ι ε) : List (Pull ε) :=
  if s.done then []
  else
    fillPulls tap (s.buffer.take (s.reach window.size)).isEmpty
      ((window.take (s.reach window.size)).drop (s.buffer.take (s.reach window.size)).length)
      (s.served (s.reach window.size)) f

/-- The reads of the plugin while it is read ahead. -/
def peekPulls (tap : Tap ι ε) (size : Nat) (s : Stage ι ε) (f : Front ι ε) : List (Pull ε) :=
  if size ≤ s.buffer.length ∨ s.done then []
  else
    match s.pull tap s.window f with
    | (.error _, _, _) => []
    | (.ok reply, s', f') =>
      ⟨s.asked tap s.window f, reply.count⟩ ::
        if reply.count = 0 then []
        else
          peekPulls tap size
            { s' with
              scratch := (s.window.write reply.written).held
              buffer := s.buffer ++ reply.bytes s.window } f'
termination_by size - s.buffer.length
decreasing_by simp only [List.length_append, Reply.length_bytes]; omega

variable {tap : Tap ι ε} {window : Window} {s s' : Stage ι ε} {f f' : Front ι ε} {reply : Reply}

theorem fillPulls_of_pull (fresh : Bool) (hw : window.size ≠ 0)
    (hpull : s.pull tap window f = (.ok reply, s', f')) :
    fillPulls tap fresh window s f = ⟨s.asked tap window f, reply.count⟩ ::
      if reply.count = 0 then []
      else if (s'.landIf fresh).desk.marks.pending = [] then
        fillPulls tap false ((window.write reply.written).drop reply.count) (s'.landIf fresh) f'
      else [] := by
  rw [fillPulls, if_neg hw, hpull]

theorem peekPulls_of_pull {size : Nat} (h : ¬(size ≤ s.buffer.length ∨ s.done))
    (hpull : s.pull tap s.window f = (.ok reply, s', f')) :
    peekPulls tap size s f = ⟨s.asked tap s.window f, reply.count⟩ ::
      if reply.count = 0 then []
      else peekPulls tap size
        { s' with
          scratch := (s.window.write reply.written).held
          buffer := s.buffer ++ reply.bytes s.window } f' := by
  rw [peekPulls, if_neg h, hpull]

/-! ## A stage and its history -/

/-- A stage whose reader is at a position has produced what the reader took and what lies ahead of
it, and its marks stand for what was set. -/
structure Follows (base : Landed) (s : Stage ι ε) (position : Nat) (h : History) : Prop where
  produced : h.produced = position + s.buffer.length
  ordered : s.desk.marks.Ordered s.buffer.length
  stand : s.desk.marks.Stand h.data base position

namespace Follows

variable {base : Landed} {position : Nat} {h : History}

/-- After a read of the plugin, its marks are set, and its bytes are still to be accounted for. -/
theorem pull (hs : s.Follows base position h) (hpull : s.pull tap window f = (.ok reply, s', f')) :
    let h' := h.add ⟨s.asked tap window f, reply.count⟩
    h'.produced = position + s.buffer.length + reply.count ∧ s'.buffer = s.buffer ∧
      s'.desk.marks.Ordered s.buffer.length ∧ s'.desk.marks.Stand h'.data base position := by
  obtain ⟨e, desk, state, -, rfl, hmarks, -⟩ := pull_ok hpull
  refine ⟨congrArg (· + reply.count) hs.produced, rfl, ?_, ?_⟩
  · rw [hmarks]
    exact hs.ordered.foldl_place _
  · show desk.marks.Stand (h.data ++ _) base position
    rw [hmarks, hs.produced]
    exact hs.stand.foldl_place hs.ordered _

theorem served (hs : s.Follows base position h) (size : Nat) :
    (s.served size).Follows base (position + (s.buffer.take size).length) h := by
  refine ⟨?_, served_ordered hs.ordered size, hs.stand.land.advance _⟩
  rw [hs.produced]
  show position + s.buffer.length =
    position + (s.buffer.take size).length + (s.buffer.drop size).length
  rw [List.length_take, List.length_drop]
  omega

theorem fill {fresh : Bool} (hs : s.Follows base position h)
    (hfill : Stage.fill tap fresh window s f = (.ok reply, s', f')) :
    s'.Follows base (position + reply.count)
      ((fillPulls tap fresh window s f).foldl History.add h) := by
  induction hsize : window.size using Nat.strongRecOn
    generalizing window fresh s f reply position h with
  | _ size ih =>
  subst hsize
  by_cases hw : window.size = 0
  · rw [fill_of_size_eq_zero _ _ hw] at hfill
    simp only [Prod.mk.injEq, Except.ok.injEq] at hfill
    obtain ⟨rfl, rfl, -⟩ := hfill
    rw [fillPulls, if_pos hw]
    exact hs
  rcases hpull : s.pull tap window f with ⟨_ | r, s₁, f₁⟩
  · rw [Stage.fill, if_neg hw, hpull] at hfill
    simp at hfill
  obtain ⟨hproduced, hbuffer, hordered, hstand⟩ := hs.pull hpull
  rw [fill_of_pull fresh hw hpull] at hfill
  rw [fillPulls_of_pull fresh hw hpull, List.foldl_cons]
  by_cases hzero : r.count = 0
  · rw [if_pos hzero] at hfill ⊢
    simp only [Prod.mk.injEq, Except.ok.injEq] at hfill
    obtain ⟨rfl, rfl, -⟩ := hfill
    exact ⟨by rw [List.foldl_nil, hproduced, hzero, hbuffer]; rfl, hbuffer ▸ hordered, hstand⟩
  rw [if_neg hzero] at hfill ⊢
  have hstand' : (s₁.landIf fresh).desk.marks.Stand
      (h.add ⟨s.asked tap window f, r.count⟩).data base position := by
    cases fresh with
    | true => exact hstand.land
    | false => exact hstand
  have hordered' : (s₁.landIf fresh).desk.marks.Ordered s.buffer.length := by
    cases fresh with
    | true => exact hordered.land
    | false => exact hordered
  by_cases hpending : (s₁.landIf fresh).desk.marks.pending = []
  · -- nothing is pending, so the reader gets the bytes
    rw [if_pos hpending] at hfill ⊢
    obtain ⟨r', hfill', hcount⟩ := prepend_ok hfill
    have hlanded : (s₁.landIf fresh).Follows base (position + r.count)
        (h.add ⟨s.asked tap window f, r.count⟩) := by
      refine ⟨?_, hbuffer ▸ hordered', hstand'.skip hpending _⟩
      rw [hproduced, ← hbuffer]
      exact Nat.add_right_comm _ _ _
    have hrest := ih (window.size - r.count)
      (Nat.sub_lt (Nat.pos_of_ne_zero hw) (Nat.pos_of_ne_zero hzero)) hlanded hfill' rfl
    rw [hcount, Reply.length_bytes, ← Nat.add_assoc]
    exact hrest
  · -- the bytes stay ahead of the reader
    rw [if_neg hpending] at hfill ⊢
    simp only [Prod.mk.injEq, Except.ok.injEq] at hfill
    obtain ⟨rfl, rfl, -⟩ := hfill
    have hlen : (s₁.buffer ++ r.bytes window).length = s.buffer.length + r.count := by
      rw [List.length_append, hbuffer, Reply.length_bytes]
    refine ⟨?_, hordered'.mono ?_, hstand'⟩
    · rw [List.foldl_nil, hproduced, Nat.add_assoc, ← hlen]
      rfl
    · show s.buffer.length ≤ (s₁.buffer ++ r.bytes window).length
      rw [hlen]
      exact Nat.le_add_right _ _

theorem read (hs : s.Follows base position h)
    (hread : s.read tap window f = (.ok reply, s', f')) :
    s'.Follows base (position + reply.count) ((readPulls tap window s f).foldl History.add h) := by
  have herrored : s.errored = false := by
    cases herr : s.errored with
    | false => rfl
    | true => simp [Stage.read, herr] at hread
  rw [read_eq _ _ _ herrored] at hread
  unfold readPulls
  by_cases hdone : s.done = true
  · rw [if_pos hdone] at hread ⊢
    simp only [Prod.mk.injEq, Except.ok.injEq] at hread
    obtain ⟨rfl, rfl, -⟩ := hread
    exact hs.served _
  · rw [if_neg hdone] at hread ⊢
    obtain ⟨r, hfill, hcount⟩ := prepend_ok hread
    rw [hcount, ← Nat.add_assoc]
    exact (hs.served _).fill hfill

theorem lookAhead {size : Nat} (hs : s.Follows base position h)
    (hlook : Stage.lookAhead tap size s f = (.ok (), s', f')) :
    s'.Follows base position ((peekPulls tap size s f).foldl History.add h) := by
  induction hmissing : size - s.buffer.length using Nat.strongRecOn generalizing s f h with
  | _ missing ih =>
  subst hmissing
  by_cases henough : size ≤ s.buffer.length ∨ s.done
  · rw [lookAhead_of_enough _ henough] at hlook
    simp only [Prod.mk.injEq, true_and] at hlook
    obtain ⟨rfl, -⟩ := hlook
    rw [peekPulls, if_pos henough]
    exact hs
  rcases hpull : s.pull tap s.window f with ⟨_ | r, s₁, f₁⟩
  · rw [Stage.lookAhead, if_neg henough, hpull] at hlook
    simp at hlook
  obtain ⟨hproduced, hbuffer, hordered, hstand⟩ := hs.pull hpull
  rw [lookAhead_of_pull henough hpull] at hlook
  rw [peekPulls_of_pull henough hpull, List.foldl_cons]
  by_cases hzero : r.count = 0
  · rw [if_pos hzero] at hlook ⊢
    simp only [Prod.mk.injEq, true_and] at hlook
    obtain ⟨rfl, -⟩ := hlook
    exact ⟨by rw [List.foldl_nil, hproduced, hzero, ← hbuffer]; rfl, hbuffer ▸ hordered, hstand⟩
  · rw [if_neg hzero] at hlook ⊢
    have hlen : (s.buffer ++ r.bytes s.window).length = s.buffer.length + r.count := by
      rw [List.length_append, Reply.length_bytes]
    refine ih _ ?_ ⟨?_, ?_, hstand⟩ hlook rfl
    · show size - (s.buffer ++ r.bytes s.window).length < size - s.buffer.length
      omega
    · rw [hproduced, Nat.add_assoc, ← hlen]
    · refine hordered.mono ?_
      show s.buffer.length ≤ (s.buffer ++ r.bytes s.window).length
      omega

theorem peek {size : Nat} {bytes : Bytes} (hs : s.Follows base position h)
    (hpeek : s.peek tap size f = (.ok bytes, s', f')) :
    s'.Follows base position ((peekPulls tap size s f).foldl History.add h) := by
  unfold Stage.peek at hpeek
  split at hpeek
  · simp at hpeek
  split at hpeek
  next hlook =>
    simp only [Prod.mk.injEq, Except.ok.injEq] at hpeek
    obtain ⟨-, rfl, rfl⟩ := hpeek
    exact hs.lookAhead hlook
  next => simp at hpeek

end Follows

/-! ## Runs -/

/-- Successful reads and peeks of a stage since it was set up or since the last successful seek: the
values that were in force then, the stage, how many bytes its reads have returned, and what the
plugin has set. Facts may be recorded for the stage at any time. -/
inductive Run : Landed → Stage ι ε → Nat → History → Prop
  | create {p : Plugin ι ε} {settings : Settings} {goals : List StreamType} {s : Stage ι ε}
    {f f' : Front ι ε} :
    create p settings goals f = (.ok s, f') →
      Run ∅ s 0 (History.empty.add ⟨firstAsked p settings goals f, 0⟩)
  | seek {tap : Tap ι ε} {offset : Int} {whence : Whence} {position : Nat} {s s' : Stage ι ε}
    {f f' : Front ι ε} :
    s.seek tap offset whence f = (.ok position, s', f') → Run s.desk.marks.landed s' 0 .empty
  | read {tap : Tap ι ε} {window : Window} {base : Landed} {s s' : Stage ι ε} {f f' : Front ι ε}
    {returned : Nat} {h : History} {reply : Reply} :
    Run base s returned h → s.read tap window f = (.ok reply, s', f') →
      Run base s' (returned + reply.count) ((readPulls tap window s f).foldl History.add h)
  | peek {tap : Tap ι ε} {size : Nat} {base : Landed} {s s' : Stage ι ε} {f f' : Front ι ε}
    {returned : Nat} {h : History} {bytes : Bytes} :
    Run base s returned h → s.peek tap size f = (.ok bytes, s', f') →
      Run base s' returned ((peekPulls tap size s f).foldl History.add h)
  | recordFact {base : Landed} {s : Stage ι ε} {returned : Nat} {h : History} (log : Facts.Log)
    (key : String) (value : Value) :
    Run base s returned h → Run base (s.recordFact log key value).1 returned h

variable {base : Landed} {returned : Nat} {h : History}

theorem Run.follows (run : Run base s returned h) : s.Follows base returned h := by
  induction run with
  | create hcreate =>
    have hmarks := create_marks hcreate
    obtain ⟨state, bench, outType, -, rfl, -⟩ := create_ok hcreate
    have hordered : Marks.empty.Ordered 0 := Marks.ordered_of_pending_eq_nil rfl
    have hstand : Marks.empty.Stand [] ∅ 0 := fun n key => rfl
    refine ⟨rfl, ?_, ?_⟩
    · rw [hmarks]
      exact hordered.foldl_place _
    · rw [hmarks]
      exact hstand.foldl_place hordered _
  | seek hseek =>
    obtain ⟨hbuffer, hpending, hlanded⟩ := seek_ok hseek
    refine ⟨?_, Marks.ordered_of_pending_eq_nil hpending, fun n key => ?_⟩
    · rw [hbuffer]
      rfl
    · rw [Marks.after_of_pending_eq_nil hpending, hlanded]
      rfl
  | read _ hread ih => exact ih.read hread
  | peek _ hpeek ih => exact ih.peek hpeek
  | recordFact log key value _ ih => exact ⟨ih.produced, ih.ordered, ih.stand⟩

/-- **Anchors.** After any reads and peeks, the reader of a stage sees for each key the value that
was set last at or before the position it has come to, or else the value that was in force from the
beginning. -/
theorem Run.marked_eq_visible (run : Run base s returned h) (key : String) :
    s.marked? key = visible h.data base returned key :=
  run.follows.stand.get?_eq run.follows.ordered key

theorem ok_of_toOption {α : Type} {r : Except ε α} {a : α} (h : r.toOption = some a) :
    r = .ok a := by
  cases r with
  | error e => cases h
  | ok b =>
    cases h
    rfl

/-- A plugin that numbers its reads, each of which brings two bytes. -/
def counting : Plugin Nat Unit where
  descriptor := { name := "counting" }
  init := do
    let _ ← Script.request (.setOutType .untyped)
    return .ok 0
  read n _ := do
    Script.request (.mark "read" (.bytes [n.toUInt8]))
    return (.ok (.ofBytes [0, 0]), n + 1)

/-- Looking ahead makes two reads; the number of the second is seen once the bytes of the first are
taken. -/
theorem Run.marked_counting :
    ∃ (s : Stage Nat Unit) (h : History), Run ∅ s 2 h ∧ h.data.map Datum.anchor = [0, 2] ∧
      s.marked? "read" = some (.bytes [1]) := by
  obtain ⟨s, f, hs⟩ :
      ∃ s f, Stage.create counting {} [] ⟨[], ⟨.empty, .empty⟩⟩ = (.ok s, f) := ⟨_, _, rfl⟩
  have hpeek : (s.peek .closed 3 f).1 = .ok [0, 0, 0] := by
    apply ok_of_toOption
    cases hs
    decide +kernel
  have hread : ((s.peek .closed 3 f).2.1.read .closed (.blank 2) (s.peek .closed 3 f).2.2).1 =
      .ok ⟨2, [0, 0]⟩ := by
    apply ok_of_toOption
    cases hs
    decide +kernel
  have run := ((Run.create hs).peek (Prod.ext hpeek rfl)).read (Prod.ext hread rfl)
  refine ⟨_, _, run, ?_, (Run.marked_eq_visible run "read").trans ?_⟩
  · cases hs
    decide +kernel
  · cases hs
    decide +kernel

end Stage

end MediaChain
