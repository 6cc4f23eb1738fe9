import MediaChain.Proofs.Stage.Requests

/-!
# Values that did not change

A stage leaves a number or a text out if it is the newest value of its key already (`Marks.put`).
Nobody can tell: had all of them been set (`Marks.set`), the reader would see the same values at any
time, and the newest ones would be the same (`Outlet.run_put_agrees`), though fewer marks are
pending. Whatever is done with a stage moves its outlet in the ways that this is about
(`Stage.Onward.marked?_eq`).
-/

namespace MediaChain

/-- Sets a value at a distance, even if it is the newest of its key. -/
def Marks.set (ms : Marks) (distance : Nat) (key : String) (value : Value) : Marks :=
  ms.push ⟨distance, some (key, value)⟩

/-- What lies ahead of a reader: how many bytes, and the marks on them. -/
structure Outlet where
  ahead : Nat
  marks : Marks

namespace Outlet

/-- What can happen to an outlet. Values and bars are set where the bytes end. -/
inductive Move where
  | set (key : String) (value : Value)
  | bar
  | produce (size : Nat)
  | land
  | take (size : Nat)
  | drop

def empty : Outlet := ⟨0, .empty⟩

/-- Makes a move; `write` is how values are set. -/
def step (write : Marks → Nat → String → Value → Marks) (o : Outlet) : Move → Outlet
  | .set key value => { o with marks := write o.marks o.ahead key value }
  | .bar => { o with marks := o.marks.bar o.ahead }
  | .produce size => { o with ahead := o.ahead + size }
  | .land => { o with marks := o.marks.land }
  | .take size => ⟨o.ahead - size, o.marks.advance size⟩
  | .drop => ⟨0, o.marks.clear⟩

/-- Makes moves, the first one first. -/
def run (write : Marks → Nat → String → Value → Marks) (o : Outlet) (moves : List Move) : Outlet :=
  moves.foldl (step write) o

/-! ## Outlets that look alike -/

/-- The values are the same wherever the reader comes to, and once everything ahead is dropped. -/
structure Alike (o o' : Outlet) : Prop where
  ahead : o.ahead = o'.ahead
  left : o.marks.Ordered o.ahead
  right : o'.marks.Ordered o'.ahead
  after : ∀ (n : Nat) (key : String), (o.marks.after n)[key]? = (o'.marks.after n)[key]?
  landed : ∀ key : String, o.marks.landed[key]? = o'.marks.landed[key]?

variable {o o' : Outlet} {moves : List Move}

namespace Alike

theorem empty : Outlet.empty.Alike Outlet.empty where
  ahead := rfl
  left := Marks.ordered_of_pending_eq_nil rfl
  right := Marks.ordered_of_pending_eq_nil rfl
  after _ _ := rfl
  landed _ := rfl

theorem get?_eq (h : o.Alike o') (key : String) : o.marks.get? key = o'.marks.get? key := by
  rw [h.left.get?_eq, h.right.get?_eq, h.after 0 key]

theorem latest?_eq (h : o.Alike o') (key : String) : o.marks.latest? key = o'.marks.latest? key := by
  rw [h.left.latest?_eq (Nat.le_refl _), h.right.latest?_eq (Nat.le_of_eq h.ahead.symm),
    h.after o.ahead key]

/-- A value that is left out would have had the same effect from the same position on. -/
theorem step (h : o.Alike o') (move : Move) : (o.step .put move).Alike (o'.step .set move) := by
  obtain ⟨hahead, hleft, hright, hafter, hlanded⟩ := h
  cases move with
  | set key value =>
    refine ⟨hahead, hleft.put key value, hright.push _, fun n key' => ?_, fun key' => ?_⟩
    · show ((o.marks.put o.ahead key value).after n)[key']? =
        ((o'.marks.push ⟨o'.ahead, some (key, value)⟩).after n)[key']?
      rw [hleft.after_put, Marks.after_push_value, hahead, hafter n key']
    · show (o.marks.put o.ahead key value).landed[key']? = o'.marks.landed[key']?
      rw [Marks.landed_put, hlanded key']
  | bar =>
    refine ⟨hahead, hleft.bar, hright.bar, fun n key => ?_, hlanded⟩
    show ((o.marks.bar o.ahead).after n)[key]? = ((o'.marks.bar o'.ahead).after n)[key]?
    rw [Marks.after_bar, Marks.after_bar, hafter n key]
  | produce size =>
    exact ⟨congrArg (· + size) hahead, hleft.mono (Nat.le_add_right _ _),
      hright.mono (Nat.le_add_right _ _), hafter, hlanded⟩
  | land =>
    refine ⟨hahead, hleft.land, hright.land, fun n key => ?_, fun key => ?_⟩
    · show (o.marks.land.after n)[key]? = (o'.marks.land.after n)[key]?
      rw [Marks.after_land, Marks.after_land, hafter n key]
    · -- landing brings into force what the reader saw before
      show o.marks.get? key = o'.marks.get? key
      rw [hleft.get?_eq, hright.get?_eq, hafter 0 key]
  | take size =>
    refine ⟨congrArg (· - size) hahead, hleft.advance size, hright.advance size,
      fun n key => ?_, hlanded⟩
    show ((o.marks.advance size).after n)[key]? = ((o'.marks.advance size).after n)[key]?
    rw [Marks.after_advance, Marks.after_advance, hafter (size + n) key]
  | drop =>
    exact ⟨rfl, Marks.ordered_of_pending_eq_nil rfl, Marks.ordered_of_pending_eq_nil rfl,
      fun _ => hlanded, hlanded⟩

theorem run (h : o.Alike o') (moves : List Move) : (o.run .put moves).Alike (o'.run .set moves) := by
  induction moves generalizing o o' with
  | nil => exact h
  | cons move moves ih => exact ih (h.step move)

end Alike

/-- **Unchanged values.** Whatever moves an outlet has made, the reader sees the same values and the
newest ones are the same, whether numbers and texts that were the newest already were left out or
not. -/
theorem run_put_agrees (moves : List Move) (key : String) :
    (empty.run .put moves).marks.get? key = (empty.run .set moves).marks.get? key ∧
      (empty.run .put moves).marks.latest? key = (empty.run .set moves).marks.latest? key := by
  have halike := Alike.empty.run moves
  exact ⟨halike.get?_eq key, halike.latest?_eq key⟩

/-- A title that is set twice is pending once, and is dropped with what lies ahead. -/
example :
    let moves : List Move := [.produce 4, .set "title" (.text "a"), .set "title" (.text "a"), .take 2]
    (empty.run .put moves).marks.pending.length = 1 ∧
      (empty.run .set moves).marks.pending.length = 2 ∧
      (empty.run .put (moves ++ [.drop])).marks.latest? "title" = none := by
  decide +kernel

/-! ## The outlet of a stage -/

/-- Some moves, by which what did not change is left out, lead from one outlet to another. -/
def Leads (o o' : Outlet) : Prop := ∃ moves, o' = o.run .put moves

namespace Leads

variable {o'' : Outlet}

theorem refl (o : Outlet) : o.Leads o := ⟨[], rfl⟩

theorem trans (h : o.Leads o') (h' : o'.Leads o'') : o.Leads o'' := by
  obtain ⟨moves, rfl⟩ := h
  obtain ⟨moves', rfl⟩ := h'
  exact ⟨moves ++ moves', (List.foldl_append ..).symm⟩

theorem step (o : Outlet) (move : Move) : o.Leads (o.step .put move) := ⟨[move], rfl⟩

theorem foldl_place {ε : Type} (ahead : Nat) (ms : Marks) (qs : List (Request ε)) :
    Leads ⟨ahead, ms⟩ ⟨ahead, qs.foldl (Request.place ahead) ms⟩ := by
  induction qs generalizing ms with
  | nil => exact refl _
  | cons q qs ih =>
    refine trans ?_ (ih _)
    cases q with
    | mark key value => exact step ⟨ahead, ms⟩ (.set key value)
    | barrier => exact step ⟨ahead, ms⟩ .bar
    | _ => exact refl _

end Leads

end Outlet

variable {ι ε : Type}

namespace Stage

open Outlet (Leads)

/-- What lies ahead of the reader of a stage. -/
def outlet (s : Stage ι ε) : Outlet := ⟨s.buffer.length, s.desk.marks⟩

variable {tap : Tap ι ε} {window : Window} {s s' : Stage ι ε} {f f' : Front ι ε}

theorem outlet_pull {result : Except StageError Reply}
    (hpull : s.pull tap window f = (result, s', f')) : s.outlet.Leads s'.outlet := by
  have hmarks := pull_marks tap window s f
  rw [hpull] at hmarks
  have houtlet : s'.outlet =
      ⟨s.buffer.length, (s.asked tap window f).foldl (Request.place s.buffer.length) s.desk.marks⟩ := by
    unfold outlet
    rw [pull_buffer hpull, hmarks]
  rw [houtlet]
  exact Leads.foldl_place _ _ _

theorem outlet_landIf (s : Stage ι ε) (fresh : Bool) : s.outlet.Leads (s.landIf fresh).outlet := by
  cases fresh with
  | true => exact Leads.step s.outlet .land
  | false => exact Leads.refl _

theorem outlet_append (s : Stage ι ε) (bytes scratch : Bytes) :
    s.outlet.Leads (outlet { s with scratch, buffer := s.buffer ++ bytes }) := by
  refine ⟨[.produce bytes.length], ?_⟩
  show Outlet.mk (s.buffer ++ bytes).length s.desk.marks = ⟨s.buffer.length + bytes.length, _⟩
  rw [List.length_append]
  rfl

theorem outlet_served (s : Stage ι ε) (size : Nat) : s.outlet.Leads (s.served size).outlet := by
  refine ⟨[.land, .take (s.buffer.take size).length], ?_⟩
  have hlength : (s.buffer.drop size).length = s.buffer.length - (s.buffer.take size).length := by
    rw [List.length_drop, List.length_take]
    omega
  show Outlet.mk (s.buffer.drop size).length _ = ⟨_, _⟩
  rw [hlength]
  rfl

theorem outlet_fill (tap : Tap ι ε) (fresh : Bool) (window : Window) (s : Stage ι ε)
    (f : Front ι ε) : s.outlet.Leads (fill tap fresh window s f).2.1.outlet := by
  fun_induction fill tap fresh window s f with
  | case1 => exact Leads.refl _
  | case2 fresh window s f _ e s' f' hpull => exact outlet_pull hpull
  | case3 fresh window s f _ reply s' f' hpull =>
    have hpulled := outlet_pull hpull
    exact hpulled
  | case4 fresh window s f _ reply s' f' hpull _ _ bytes marks landed _ ih =>
    exact ((outlet_pull hpull).trans (outlet_landIf s' fresh)).trans ih
  | case5 fresh window s f _ reply s' f' hpull _ _ bytes marks landed =>
    exact ((outlet_pull hpull).trans (outlet_landIf s' fresh)).trans
      (outlet_append landed bytes landed.scratch)

theorem outlet_read (tap : Tap ι ε) (window : Window) (s : Stage ι ε) (f : Front ι ε) :
    s.outlet.Leads (s.read tap window f).2.1.outlet := by
  cases herrored : s.errored with
  | true =>
    unfold Stage.read
    rw [if_pos herrored]
    exact Leads.refl _
  | false =>
    rw [read_eq tap window f herrored]
    split
    · exact outlet_served s _
    · rw [prepend_snd]
      exact (outlet_served s _).trans (outlet_fill tap _ _ _ f)

theorem outlet_lookAhead (tap : Tap ι ε) (size : Nat) (s : Stage ι ε) (f : Front ι ε) :
    s.outlet.Leads (lookAhead tap size s f).2.1.outlet := by
  fun_induction lookAhead tap size s f with
  | case1 => exact Leads.refl _
  | case2 s f _ e s' f' hpull => exact outlet_pull hpull
  | case3 s f _ reply s' f' hpull =>
    have hpulled := outlet_pull hpull
    exact hpulled
  | case4 s f _ reply s' f' hpull window scratched _ buffer ih =>
    have happend := outlet_append s' (window.bytes reply.count) scratched.scratch
    rw [pull_buffer hpull] at happend
    exact ((outlet_pull hpull).trans happend).trans ih

theorem outlet_peek (tap : Tap ι ε) (size : Nat) (s : Stage ι ε) (f : Front ι ε) :
    s.outlet.Leads (s.peek tap size f).2.1.outlet := by
  rw [peek_snd]
  split
  · exact Leads.refl _
  · exact outlet_lookAhead tap size s f

theorem outlet_seek (tap : Tap ι ε) (offset : Int) (whence : Whence) (s : Stage ι ε)
    (f : Front ι ε) : s.outlet.Leads (s.seek tap offset whence f).2.1.outlet := by
  unfold Stage.seek
  split
  · exact Leads.refl _
  split
  · exact Leads.refl _
  next e _ =>
    split
    · have hplaced : s.outlet.Leads ⟨s.buffer.length,
          ((e.plugin.seek e.state (s.seekOffset offset whence) whence).run
            (answer tap s.post s.buffer.length false)
            (s.seekBench f e offset whence)).2.desk.marks⟩ := by
        rw [run_marks]
        exact Leads.foldl_place _ _ _
      dsimp only
      split
      · exact hplaced.trans (Leads.step _ .drop)
      · exact hplaced
    · exact Leads.refl _

theorem outlet_create {p : Plugin ι ε} {settings : Settings} {goals : List StreamType}
    (h : create p settings goals f = (.ok s, f')) : Outlet.empty.Leads s.outlet := by
  have hmarks := create_marks h
  obtain ⟨state, bench, outType, -, rfl, -⟩ := create_ok h
  unfold outlet
  rw [hmarks]
  exact Leads.foldl_place 0 .empty _

theorem Onward.outlet {asked : List (Request ε)} (h : s.Onward asked s') :
    s.outlet.Leads s'.outlet := by
  induction h with
  | refl => exact Leads.refl _
  | recordFact log key value _ ih => exact ih
  | read tap window f _ ih => exact ih.trans (outlet_read tap window _ f)
  | peek tap size f _ ih => exact ih.trans (outlet_peek tap size _ f)
  | seek tap offset whence f _ ih => exact ih.trans (outlet_seek tap offset whence _ f)

/-- Whatever is done with a stage after it was set up, its outlet has made some moves, and the reader
sees what it would see if nothing had been left out in them. -/
theorem Onward.marked?_eq {p : Plugin ι ε} {settings : Settings} {goals : List StreamType}
    {asked : List (Request ε)} (hcreate : create p settings goals f = (.ok s, f'))
    (h : s.Onward asked s') :
    ∃ moves, s'.outlet = Outlet.empty.run .put moves ∧
      ∀ key, s'.marked? key = (Outlet.empty.run .set moves).marks.get? key := by
  obtain ⟨moves, hmoves⟩ := (outlet_create hcreate).trans h.outlet
  have halike := Outlet.Alike.empty.run moves
  rw [← hmoves] at halike
  exact ⟨moves, hmoves, halike.get?_eq⟩

end Stage

end MediaChain
