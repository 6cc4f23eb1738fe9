import MediaChain.Stage.Marks

/-!
# The order of marks

In a stage the marks lie in the order of their positions, and none lies behind the bytes that were
produced ahead (`Marks.Ordered`). Then landing leaves only marks at a distance, and the values that
the reader will see after more bytes (`Marks.after`) depend on landing and advancing in no other way
than the positions say.
-/

namespace MediaChain

namespace Marks

variable {ms : Marks} {bound : Nat}

/-- The marks lie in the order of their positions, none farther away than `bound`. -/
structure Ordered (ms : Marks) (bound : Nat) : Prop where
  sorted : ms.pending.Pairwise (·.distance ≤ ·.distance)
  within : ∀ m ∈ ms.pending, m.distance ≤ bound

theorem ordered_of_pending_eq_nil (h : ms.pending = []) : ms.Ordered bound := by
  constructor <;> simp [h]

/-! ## Setting marks -/

theorem Ordered.push (h : ms.Ordered bound) (datum : Option (String × Value)) :
    (ms.push ⟨bound, datum⟩).Ordered bound := by
  constructor
  · show (ms.pending ++ [_]).Pairwise _
    rw [List.pairwise_append]
    refine ⟨h.sorted, List.pairwise_singleton _ _, fun m hm m' hm' => ?_⟩
    rw [List.mem_singleton.mp hm']
    exact h.within m hm
  · intro m hm
    rcases List.mem_append.mp hm with hm | hm
    · exact h.within m hm
    · obtain rfl := List.mem_singleton.mp hm
      exact Nat.le_refl bound

theorem Ordered.put (h : ms.Ordered bound) (key : String) (value : Value) :
    (ms.put bound key value).Ordered bound := by
  unfold Marks.put
  split
  · exact h.push _
  · split
    · exact h
    · exact h.push _

theorem Ordered.bar (h : ms.Ordered bound) : (ms.bar bound).Ordered bound := h.push none

/-- What is set is ahead of the reader, and does not touch the values in force. -/
theorem landed_put (ms : Marks) (distance : Nat) (key : String) (value : Value) :
    (ms.put distance key value).landed = ms.landed := by
  unfold put
  split
  · rfl
  · split <;> rfl

theorem Ordered.mono (h : ms.Ordered bound) {bound' : Nat} (hle : bound ≤ bound') :
    ms.Ordered bound' :=
  ⟨h.sorted, fun m hm => Nat.le_trans (h.within m hm) hle⟩

/-! ## Landing and advancing -/

theorem Ordered.land (h : ms.Ordered bound) : ms.land.Ordered bound :=
  ⟨h.sorted.sublist (List.dropWhile_sublist _),
    fun m hm => h.within m ((List.dropWhile_sublist _).subset hm)⟩

theorem Ordered.advance (h : ms.Ordered bound) (n : Nat) : (ms.advance n).Ordered (bound - n) := by
  constructor
  · show (ms.pending.map _).Pairwise _
    rw [List.pairwise_map]
    exact h.sorted.imp fun hab => Nat.sub_le_sub_right hab n
  · intro m hm
    obtain ⟨m', hm', rfl⟩ := List.mem_map.mp hm
    exact Nat.sub_le_sub_right (h.within m' hm') n

theorem pos_of_mem_dropWhile {l : List Mark} (h : l.Pairwise (·.distance ≤ ·.distance)) :
    ∀ m ∈ l.dropWhile (·.distance = 0), 0 < m.distance := by
  induction l with
  | nil => simp
  | cons a l ih =>
    obtain ⟨ha, hl⟩ := List.pairwise_cons.mp h
    by_cases h0 : a.distance = 0
    · rw [List.dropWhile_cons_of_pos (by simpa using h0)]
      exact ih hl
    · rw [List.dropWhile_cons_of_neg (by simpa using h0)]
      intro m hm
      rcases List.mem_cons.mp hm with rfl | hm
      · omega
      · have := ha m hm
        omega

/-- Landing leaves only marks at a distance. -/
theorem Ordered.pos_of_mem_land (h : ms.Ordered bound) :
    ∀ m ∈ ms.land.pending, 0 < m.distance :=
  pos_of_mem_dropWhile h.sorted

/-- Where nothing was produced ahead all marks land. -/
theorem Ordered.land_pending_eq_nil (h : ms.Ordered 0) : ms.land.pending = [] := by
  refine List.eq_nil_iff_forall_not_mem.mpr fun m hm => ?_
  have := h.pos_of_mem_land m hm
  have := h.land.within m hm
  omega

/-- After landing, the mark in front is at a distance, and bytes lie before it. -/
theorem Ordered.next?_land (h : ms.Ordered bound) {n : Nat} (hn : ms.land.next? = some n) :
    0 < n ∧ n ≤ bound := by
  obtain ⟨m, hm, rfl⟩ := Option.map_eq_some_iff.mp hn
  have hm := List.mem_of_mem_head? hm
  exact ⟨h.pos_of_mem_land m hm, h.land.within m hm⟩

/-! ## The values to come -/

/-- The values in force once the reader has come `n` bytes farther. -/
def after (ms : Marks) (n : Nat) : Landed :=
  (ms.pending.filter (·.distance ≤ n)).foldl Mark.settle ms.landed

theorem after_of_pending_eq_nil (h : ms.pending = []) (n : Nat) : ms.after n = ms.landed := by
  simp [after, h]

/-- Whatever lands has been reached. -/
theorem after_land (ms : Marks) (n : Nat) : ms.land.after n = ms.after n := by
  have hfront : (ms.pending.takeWhile (·.distance = 0)).filter (·.distance ≤ n) =
      ms.pending.takeWhile (·.distance = 0) := by
    refine List.filter_eq_self.mpr fun m hm => ?_
    have hzero := List.all_eq_true.mp List.all_takeWhile m hm
    simp only [decide_eq_true_eq] at hzero ⊢
    omega
  have hsplit := List.takeWhile_append_dropWhile (p := (·.distance = 0)) (l := ms.pending)
  unfold after
  rw [← congrArg (List.filter _) hsplit, List.filter_append, hfront, List.foldl_append]
  rfl

theorem after_advance (ms : Marks) (k n : Nat) : (ms.advance k).after n = ms.after (k + n) := by
  have hfold : ∀ (l : List Mark) (landed : Landed),
      (l.map fun m => { m with distance := m.distance - k }).foldl Mark.settle landed =
        l.foldl Mark.settle landed := by
    intro l landed
    rw [List.foldl_map]
    rfl
  have hfilter : (fun m : Mark => decide (m.distance - k ≤ n)) =
      fun m => decide (m.distance ≤ k + n) := by
    funext m
    exact decide_eq_decide.mpr (by omega)
  unfold after advance
  rw [List.filter_map, hfold, ← hfilter]
  rfl

/-- The reader sees the values that are in force where it is. -/
theorem Ordered.get?_eq (h : ms.Ordered bound) (key : String) :
    ms.get? key = (ms.after 0)[key]? := by
  have hnone : ms.land.pending.filter (·.distance ≤ 0) = [] := by
    refine List.filter_eq_nil_iff.mpr fun m hm => ?_
    have := h.pos_of_mem_land m hm
    simp only [decide_eq_true_eq]
    omega
  unfold get?
  rw [← after_land, after, hnone]
  rfl

/-- The newest value of a key is the one in force once all marks have been reached. -/
theorem Ordered.latest?_eq (h : ms.Ordered bound) {n : Nat} (hn : bound ≤ n) (key : String) :
    ms.latest? key = (ms.after n)[key]? := by
  have hall : ms.pending.filter (·.distance ≤ n) = ms.pending := by
    refine List.filter_eq_self.mpr fun m hm => ?_
    have := h.within m hm
    simp only [decide_eq_true_eq]
    omega
  unfold latest? after
  rw [hall]

/-- A mark is in force from its position on. -/
theorem after_push (ms : Marks) (m : Mark) (n : Nat) :
    (ms.push m).after n = if m.distance ≤ n then m.settle (ms.after n) else ms.after n := by
  unfold after push
  rw [List.filter_append]
  by_cases h : m.distance ≤ n <;> simp [h]

theorem after_bar (ms : Marks) (distance n : Nat) : (ms.bar distance).after n = ms.after n := by
  unfold bar
  rw [after_push]
  split <;> rfl

/-- A value is in force from its position on. -/
theorem after_push_value (ms : Marks) (distance : Nat) (key : String) (value : Value) (n : Nat)
    (key' : String) :
    ((ms.push ⟨distance, some (key, value)⟩).after n)[key']? =
      if distance ≤ n ∧ key = key' then some value else (ms.after n)[key']? := by
  rw [after_push]
  by_cases hn : distance ≤ n
  · simp [hn, Mark.settle, Std.ExtTreeMap.getElem?_insert]
  · simp [hn]

/-- Setting a value brings it into force from its position on, even where it is left out because it
is the newest of its key already. -/
theorem Ordered.after_put (h : ms.Ordered bound) (key : String) (value : Value) (n : Nat)
    (key' : String) :
    ((ms.put bound key value).after n)[key']? =
      if bound ≤ n ∧ key = key' then some value else (ms.after n)[key']? := by
  unfold Marks.put
  split
  · exact ms.after_push_value bound key _ n key'
  · split
    next hlatest =>
      split
      next hcond =>
        obtain ⟨hn, rfl⟩ := hcond
        rw [← h.latest?_eq hn]
        exact hlatest
      next => rfl
    next => exact ms.after_push_value bound key value n key'

end Marks

end MediaChain
