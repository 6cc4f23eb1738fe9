import MediaChain.Proofs.Stage.Requests

/-!
# Where the values of a stage come from

The values that a stage has in force or pending all come from somewhere: what is known of where they
come from (`Marks.Stem`) is kept by all that is done with the marks. Followed through any calls,
successful or not, it says that a value was there before or was set by the plugin since
(`Stage.Onward.stem`). Followed through the successful calls of a stage, it says that the values in
force were there from the beginning or were set at or before the position that the reader has come to
(`Stage.Reached.grounded`).
-/

namespace MediaChain

variable {ι ε : Type}

namespace Marks

/-- For a reader at a position, what is known of values (`P`) is true of those in force, and of each
that is pending at the position of its mark. -/
structure Stem (ms : Marks) (P : Nat → String → Value → Prop) (position : Nat) : Prop where
  landed : ∀ (key : String) (value : Value), ms.landed[key]? = some value → P position key value
  pending : ∀ m ∈ ms.pending, ∀ key value, m.datum = some (key, value) →
    P (position + m.distance) key value

/-- What is in force once marks have landed was in force before or came with one of them. -/
theorem foldl_settle {P : String → Value → Prop} {marks : List Mark} {landed : Landed}
    (hlanded : ∀ (key : String) (value : Value), landed[key]? = some value → P key value)
    (hmarks : ∀ m ∈ marks, ∀ key value, m.datum = some (key, value) → P key value)
    (key : String) (value : Value)
    (hvalue : (marks.foldl Mark.settle landed)[key]? = some value) : P key value := by
  induction marks generalizing landed with
  | nil => exact hlanded key value hvalue
  | cons m marks ih =>
    refine ih (fun key' value' hvalue' => ?_)
      (fun m' hm' => hmarks m' (List.mem_cons_of_mem _ hm')) hvalue
    obtain ⟨distance, _ | ⟨key₀, value₀⟩⟩ := m
    · exact hlanded key' value' hvalue'
    · simp only [Mark.settle, Std.ExtTreeMap.getElem?_insert] at hvalue'
      split at hvalue'
      next hkey =>
        obtain rfl := Option.some.inj hvalue'
        obtain rfl : key₀ = key' := by simpa using hkey
        exact hmarks _ List.mem_cons_self _ _ rfl
      next => exact hlanded key' value' hvalue'

namespace Stem

variable {ms : Marks} {P Q : Nat → String → Value → Prop} {position ahead : Nat}

theorem empty : Marks.empty.Stem P position := by
  refine ⟨fun key value hvalue => ?_, fun m hm => ?_⟩
  · rw [Marks.empty, Std.ExtTreeMap.getElem?_empty] at hvalue
    cases hvalue
  · cases hm

theorem mono (h : ms.Stem P position) (hPQ : ∀ n key value, P n key value → Q n key value) :
    ms.Stem Q position :=
  ⟨fun key value hv => hPQ _ _ _ (h.landed key value hv),
    fun m hm key value hv => hPQ _ _ _ (h.pending m hm key value hv)⟩

theorem push (h : ms.Stem P position) (datum : Option (String × Value))
    (hdatum : ∀ key value, datum = some (key, value) → P (position + ahead) key value) :
    (ms.push ⟨ahead, datum⟩).Stem P position := by
  refine ⟨h.landed, fun m hm => ?_⟩
  rcases List.mem_append.mp hm with hm | hm
  · exact h.pending m hm
  · obtain rfl := List.mem_singleton.mp hm
    exact hdatum

/-- A request sets what it says. -/
theorem place (h : ms.Stem P position) (q : Request ε)
    (hq : ∀ key value, q = .mark key value → P (position + ahead) key value) :
    (q.place ahead ms).Stem P position := by
  cases q with
  | mark key value =>
    have hpush : (ms.push ⟨ahead, some (key, value)⟩).Stem P position := by
      refine h.push _ fun key' value' heq => ?_
      obtain ⟨rfl, rfl⟩ := Prod.mk.inj (Option.some.inj heq)
      exact hq key value rfl
    show (ms.put ahead key value).Stem P position
    unfold put
    split
    · exact hpush
    · split
      · exact h
      · exact hpush
  | barrier => exact h.push none nofun
  | _ => exact h

theorem foldl_place (h : ms.Stem P position) (qs : List (Request ε))
    (hqs : ∀ key value, .mark key value ∈ qs → P (position + ahead) key value) :
    (qs.foldl (Request.place ahead) ms).Stem P position := by
  induction qs generalizing ms with
  | nil => exact h
  | cons q qs ih =>
    refine ih (h.place q fun key value hq => hqs key value ?_) fun key value hmem =>
      hqs key value (List.mem_cons_of_mem _ hmem)
    exact hq ▸ List.mem_cons_self

/-- Those in front land where the reader is. -/
theorem land (h : ms.Stem P position) : ms.land.Stem P position := by
  refine ⟨foldl_settle h.landed fun m hm key value hdatum => ?_, fun m hm => ?_⟩
  · have hzero := List.all_eq_true.mp List.all_takeWhile m hm
    have hpending := h.pending m ((List.takeWhile_sublist _).subset hm) key value hdatum
    simp only [decide_eq_true_eq] at hzero
    rwa [hzero, Nat.add_zero] at hpending
  · exact h.pending m ((List.dropWhile_sublist _).subset hm)

theorem landIf (h : ms.Stem P position) (fresh : Bool) :
    (if fresh then ms.land else ms).Stem P position := by
  cases fresh with
  | true => exact h.land
  | false => exact h

/-- What is known at a position is known from there on. -/
theorem advance (h : ms.Stem P position)
    (hP : ∀ m n key value, m ≤ n → P m key value → P n key value) (k : Nat) :
    (ms.advance k).Stem P (position + k) := by
  refine ⟨fun key value hv => hP _ _ _ _ (Nat.le_add_right _ _) (h.landed key value hv), ?_⟩
  intro m hm key value hdatum
  obtain ⟨m', hm', rfl⟩ := List.mem_map.mp hm
  refine hP _ _ _ _ ?_ (h.pending m' hm' key value hdatum)
  show position + m'.distance ≤ position + k + (m'.distance - k)
  omega

theorem skip (h : ms.Stem P position)
    (hP : ∀ m n key value, m ≤ n → P m key value → P n key value) (hms : ms.pending = [])
    (k : Nat) : ms.Stem P (position + k) := by
  refine ⟨fun key value hv => hP _ _ _ _ (Nat.le_add_right _ _) (h.landed key value hv), ?_⟩
  rw [hms]
  nofun

/-- The reader sees nothing else. -/
theorem get? (h : ms.Stem P position) {key : String} {value : Value}
    (hvalue : ms.get? key = some value) : P position key value :=
  h.land.landed key value hvalue

/-- What is known of values wherever they are is kept if only such values are set. -/
theorem kept (P : String → Value → Prop) :
    Kept (ε := ε) (fun q => ∀ key value, q = .mark key value → P key value)
      (·.Stem (fun _ => P) 0) where
  place _ hq h := h.place _ hq
  land h := h.land
  advance n h := by
    have hadvance := h.advance (fun _ _ _ _ _ hP => hP) n
    exact ⟨hadvance.landed, hadvance.pending⟩
  clear h := ⟨h.landed, nofun⟩

end Stem

end Marks

/-- How many bytes the plugin has produced, and what it has set. -/
def Diary.history (d : Diary ι ε) : History := d.pulls.foldl History.add .empty

namespace Stage

variable {tap : Tap ι ε} {window : Window} {s s' : Stage ι ε} {f f' : Front ι ε} {reply : Reply}

/-- Whatever is done with a stage, what it has in force or pending was so before or was set since. -/
theorem Onward.stem {P : String → Value → Prop} {asked : List (Request ε)}
    (h : s.Onward asked s') (hs : s.desk.marks.Stem (fun _ => P) 0)
    (hasked : ∀ key value, .mark key value ∈ asked → P key value) :
    s'.desk.marks.Stem (fun _ => P) 0 := by
  refine h.keeps (Marks.Stem.kept P) hs fun q hq key value hmark => hasked key value ?_
  exact hmark ▸ hq

/-! ## Only what was reached is in force -/

/-- A value of a key was in force from the beginning, or was set at or before the position of a
reader. -/
def Met (data : List Datum) (base : Landed) (position : Nat) (key : String) (value : Value) : Prop :=
  base[key]? = some value ∨ ∃ x ∈ data, x.anchor ≤ position ∧ x.key = key ∧ x.value = value

theorem Met.mono {data data' : List Datum} {base : Landed} {m n : Nat} {key : String}
    {value : Value} (h : Met data base m key value) (hdata : data ⊆ data') (hmn : m ≤ n) :
    Met data' base n key value :=
  h.imp_right fun ⟨x, hx, hm, hxs⟩ => ⟨x, hdata hx, Nat.le_trans hm hmn, hxs⟩

theorem Met.later {data : List Datum} {base : Landed} (m n : Nat) (key : String) (value : Value)
    (hmn : m ≤ n) (h : Met data base m key value) : Met data base n key value :=
  h.mono (List.Subset.refl _) hmn

/-- A stage whose reader is at a position has produced what the reader took and what lies ahead of
it, and each of its values was set where it says. -/
structure Grounded (base : Landed) (s : Stage ι ε) (position : Nat) (h : History) : Prop where
  produced : h.produced = position + s.buffer.length
  stem : s.desk.marks.Stem (Met h.data base) position

namespace Grounded

variable {base : Landed} {position : Nat} {h : History}

/-- What is asked for is set where the bytes end that were produced before. -/
theorem place {ms : Marks} {ahead : Nat} (hms : ms.Stem (Met h.data base) position)
    (hproduced : h.produced = position + ahead) (pull : Pull ε) :
    (pull.asked.foldl (Request.place ahead) ms).Stem (Met (h.add pull).data base) position := by
  refine (hms.mono fun n key value hmet => ?_).foldl_place _ fun key value hmark => .inr ?_
  · exact hmet.mono (List.subset_append_left _ _) (Nat.le_refl _)
  · refine ⟨⟨h.produced, key, value⟩, List.mem_append_right _ ?_, Nat.le_of_eq hproduced, rfl, rfl⟩
    exact List.mem_filterMap.mpr ⟨_, hmark, rfl⟩

theorem pull (hs : s.Grounded base position h) (hpull : s.pull tap window f = (.ok reply, s', f')) :
    let h' := h.add ⟨s.asked tap window f, reply.count⟩
    h'.produced = position + s.buffer.length + reply.count ∧
      s'.buffer.length = s.buffer.length ∧ s'.desk.marks.Stem (Met h'.data base) position := by
  obtain ⟨e, desk, state, -, rfl, hmarks, -⟩ := pull_ok hpull
  refine ⟨congrArg (· + reply.count) hs.produced, rfl, ?_⟩
  rw [hmarks]
  exact place hs.stem hs.produced ⟨s.asked tap window f, reply.count⟩

theorem served (hs : s.Grounded base position h) (size : Nat) :
    (s.served size).Grounded base (position + (s.buffer.take size).length) h := by
  refine ⟨?_, hs.stem.land.advance Met.later _⟩
  rw [hs.produced]
  show position + s.buffer.length =
    position + (s.buffer.take size).length + (s.buffer.drop size).length
  rw [List.length_take, List.length_drop]
  omega

theorem fill {fresh : Bool} (hs : s.Grounded base position h)
    (hfill : Stage.fill tap fresh window s f = (.ok reply, s', f')) :
    s'.Grounded base (position + reply.count)
      ((fillPulls tap fresh window s f).foldl History.add h) := by
  refine fill_induct (P := fun fresh window s f reply s' => ∀ position h,
    s.Grounded base position h → s'.Grounded base (position + reply.count)
      ((fillPulls tap fresh window s f).foldl History.add h))
    ?full ?ended ?more ?aside hfill position h hs
  case full =>
    intro fresh window s f hw position h hs
    rw [fillPulls, if_pos hw]
    exact hs
  case ended =>
    intro fresh window s s₁ f f₁ r hw hpull hzero position h hs
    obtain ⟨hproduced, hlen, hstem⟩ := hs.pull hpull
    rw [fillPulls_of_pull fresh hw hpull, if_pos hzero]
    refine ⟨?_, hstem⟩
    show (h.add _).produced = position + 0 + s₁.buffer.length
    omega
  case more =>
    intro fresh window s s₁ s' f f₁ r r' hw hpull hzero hpending ih position h hs
    obtain ⟨hproduced, hlen, hstem⟩ := hs.pull hpull
    rw [fillPulls_of_pull fresh hw hpull, if_neg hzero, if_pos hpending, Reply.length_bytes,
      ← Nat.add_assoc]
    refine ih _ _ ⟨?_, (hstem.landIf fresh).skip Met.later hpending _⟩
    show (h.add _).produced = position + r.count + s₁.buffer.length
    omega
  case aside =>
    intro fresh window s s₁ f f₁ r hw hpull hzero hpending position h hs
    obtain ⟨hproduced, hlen, hstem⟩ := hs.pull hpull
    rw [fillPulls_of_pull fresh hw hpull, if_neg hzero, if_neg hpending]
    refine ⟨?_, hstem.landIf fresh⟩
    show (h.add _).produced = position + 0 + (s₁.buffer ++ r.bytes window).length
    rw [List.length_append, Reply.length_bytes]
    omega

theorem read (hs : s.Grounded base position h)
    (hread : s.read tap window f = (.ok reply, s', f')) :
    s'.Grounded base (position + reply.count) ((readPulls tap window s f).foldl History.add h) := by
  unfold readPulls
  rcases read_cases hread with ⟨hdone, rfl, rfl, -⟩ | ⟨r, hdone, hfill, rfl⟩
  · rw [if_pos hdone]
    exact hs.served _
  · rw [hdone, if_neg Bool.false_ne_true, ← Nat.add_assoc]
    exact (hs.served _).fill hfill

theorem lookAhead {size : Nat} (hs : s.Grounded base position h)
    (hlook : Stage.lookAhead tap size s f = (.ok (), s', f')) :
    s'.Grounded base position ((peekPulls tap size s f).foldl History.add h) := by
  refine lookAhead_induct (P := fun s f s' => ∀ h, s.Grounded base position h →
    s'.Grounded base position ((peekPulls tap size s f).foldl History.add h))
    ?enough ?ended ?more hlook h hs
  case enough =>
    intro s f henough h hs
    rw [peekPulls, if_pos henough]
    exact hs
  case ended =>
    intro s s₁ f f₁ r hmore hpull hzero h hs
    obtain ⟨hproduced, hlen, hstem⟩ := hs.pull hpull
    rw [peekPulls_of_pull hmore hpull, if_pos hzero]
    refine ⟨?_, hstem⟩
    show (h.add _).produced = position + s₁.buffer.length
    omega
  case more =>
    intro s s₁ s' f f₁ r hmore hpull hzero ih h hs
    obtain ⟨hproduced, -, hstem⟩ := hs.pull hpull
    rw [peekPulls_of_pull hmore hpull, if_neg hzero]
    refine ih _ ⟨?_, hstem⟩
    show (h.add _).produced = position + (s.buffer ++ r.bytes s.window).length
    rw [List.length_append, Reply.length_bytes]
    omega

end Grounded

variable {d : Diary ι ε}

/-- The values of a stage that is not errored were set where it says. -/
theorem Reached.grounded (h : Reached s d) (hok : s.errored = false) :
    s.Grounded d.base d.taken.length d.history := by
  refine h.induct (P := fun s d => s.Grounded d.base d.taken.length d.history)
    ?create ?recordFact ?read ?peek ?seek hok
  case create =>
    intro p settings goals s f f' hcreate
    have hmarks := create_marks hcreate
    obtain ⟨state, bench, outType, -, rfl, -⟩ := create_ok hcreate
    refine ⟨rfl, ?_⟩
    rw [hmarks]
    exact Grounded.place (h := .empty) .empty rfl ⟨firstAsked p settings goals f, 0⟩
  case recordFact => exact fun log key value ih => ⟨ih.produced, ih.stem⟩
  case read =>
    intro tap window s s' f f' d reply _ ih hread
    have hs' := ih.read hread
    unfold Diary.history at hs' ⊢
    rwa [Diary.read, List.foldl_append, List.length_append, Reply.length_bytes]
  case peek =>
    intro tap size s s' f f' d bytes _ ih hpeek
    have hs' := ih.lookAhead (peek_ok hpeek).1
    unfold Diary.history at hs' ⊢
    rwa [Diary.peek, List.foldl_append]
  case seek =>
    intro tap offset whence position s s' f f' _ hseek
    obtain ⟨hbuffer, hpending, -⟩ := seek_ok hseek
    refine ⟨?_, fun key value => .inl, fun m hm => ?_⟩
    · rw [hbuffer]
      rfl
    · rw [hpending] at hm
      cases hm

end Stage

end MediaChain
