import MediaChain.Facts.Ledger

/-!
# The order of facts

A snapshot holds the newest of its facts for each key and source (`Facts.snapshot_get?`). In a log
the stamps do not decrease, so the facts up to a token that were not reported yet are a segment
that begins where the reported ones end (`Facts.Log.Sound.between_horizon`). A log that was just
reset has what every single fact that is seeded keeps (`Ledger.reset_invariant`).
-/

namespace MediaChain

/-- An empty snapshot answers nothing. -/
theorem Snapshot.get?_of_isEmpty {s : Snapshot} (h : s.isEmpty = true) (key source : String) :
    s.get? key source = none := by
  unfold get? sources
  rw [Std.ExtTreeMap.isEmpty_iff.mp h, Std.ExtTreeMap.getElem?_empty]
  exact Std.ExtTreeMap.getElem?_empty

namespace Facts

/-! ## The newest fact -/

/-- The value of the newest of some facts about a key from a source. -/
def newest (facts : List Fact) (key source : String) : Option Value :=
  (facts.reverse.find? fun f => f.key = key ∧ f.source = source).map Fact.value

theorem newest_nil (key source : String) : newest [] key source = none := rfl

theorem newest_append (xs ys : List Fact) (key source : String) :
    newest (xs ++ ys) key source = (newest ys key source).or (newest xs key source) := by
  unfold newest
  rw [List.reverse_append, List.find?_append, Option.map_or]

theorem newest_cons (f : Fact) (fs : List Fact) (key source : String) :
    newest (f :: fs) key source = (newest fs key source).or
      (if f.key = key ∧ f.source = source then some f.value else none) := by
  rw [← List.singleton_append, newest_append]
  by_cases h : f.key = key ∧ f.source = source <;> simp [newest, h]

/-- A snapshot is filled with the newest facts first, so that it holds those. -/
theorem snapshot_get? (facts : List Fact) (key source : String) :
    (snapshot facts).get? key source = newest facts key source := by
  induction facts with
  | nil => simp [snapshot, newest_nil, Snapshot.get?, Snapshot.sources, Snapshot.empty]
  | cons f fs ih =>
    show ((snapshot fs).add f.key f.source f.value).get? key source = _
    rw [Snapshot.get?_add, newest_cons, ← ih]
    by_cases h : f.key = key ∧ f.source = source
    · obtain ⟨rfl, rfl⟩ := h
      cases (snapshot fs).get? f.key f.source <;> simp
    · rw [if_neg h, if_neg fun h' => h ⟨h'.1, h'.2.1⟩, Option.or_none]

/-! ## Stamps -/

/-- The stamps of a log do not decrease, none is larger than the last token, and at most the facts
that there are have been persisted and reported. -/
structure Log.Sound (log : Log) : Prop where
  sorted : log.facts.Pairwise (·.stamp ≤ ·.stamp)
  within : ∀ f ∈ log.facts, f.stamp ≤ log.lastToken
  persisted_le : log.persisted ≤ log.reacted
  reacted_le : log.reacted ≤ log.facts.length

namespace Log

variable {log : Log}

theorem sound_empty : empty.Sound := by
  constructor <;> simp [empty]

/-- Appending puts one fact behind the others, which bears the last token as its stamp, and changes
nothing else. -/
theorem append_eq (log : Log) (order : Nat) (source key : String) (value : Value)
    (lifetime : Lifetime) :
    ∃ f last, log.lastToken ≤ last ∧ f.stamp = last ∧
      (log.append order source key value lifetime).2 =
        { log with facts := log.facts ++ [f], lastToken := last } := by
  cases lifetime with
  | origin => exact ⟨_, _, Nat.le_refl _, rfl, rfl⟩
  | persistent => exact ⟨_, _, Nat.le_add_right _ 1, rfl, rfl⟩
  | volatile => exact ⟨_, _, Nat.le_add_right _ 1, rfl, rfl⟩

theorem Sound.append (h : log.Sound) (order : Nat) (source key : String) (value : Value)
    (lifetime : Lifetime) : (log.append order source key value lifetime).2.Sound := by
  obtain ⟨f, last, hlast, hstamp, heq⟩ := log.append_eq order source key value lifetime
  rw [heq]
  refine ⟨?_, ?_, h.persisted_le, ?_⟩
  · rw [List.pairwise_append]
    refine ⟨h.sorted, List.pairwise_singleton _ _, fun g hg g' hg' => ?_⟩
    rw [List.mem_singleton.mp hg', hstamp]
    exact Nat.le_trans (h.within g hg) hlast
  · intro g hg
    rcases List.mem_append.mp hg with hg | hg
    · exact Nat.le_trans (h.within g hg) hlast
    · exact Nat.le_of_eq (by rw [List.mem_singleton.mp hg, hstamp])
  · show log.reacted ≤ (log.facts ++ [f]).length
    rw [List.length_append]
    exact Nat.le_add_right_of_le h.reacted_le

/-! ## Horizons -/

theorem filter_eq_nil_of_not_le {facts : List Fact} {token : Token} {f : Fact}
    (h : (f :: facts).Pairwise (·.stamp ≤ ·.stamp)) (hf : ¬f.stamp ≤ token) :
    facts.filter (·.stamp ≤ token) = [] := by
  refine List.filter_eq_nil_iff.mpr fun g hg => ?_
  have hle : f.stamp ≤ g.stamp := (List.pairwise_cons.mp h).1 g hg
  exact fun hg' => hf (Nat.le_trans hle (of_decide_eq_true hg'))

/-- What lies between a position and the facts behind a token are the facts from the position on
that are not behind it. -/
theorem drop_take_takeWhile {facts : List Fact} (h : facts.Pairwise (·.stamp ≤ ·.stamp))
    (token : Token) (n : Nat) :
    (facts.take (max (facts.takeWhile (·.stamp ≤ token)).length n)).drop n =
      (facts.drop n).filter (·.stamp ≤ token) := by
  induction facts generalizing n with
  | nil => simp
  | cons f facts ih =>
    have htail := (List.pairwise_cons.mp h).2
    by_cases hf : f.stamp ≤ token
    · rw [List.takeWhile_cons_of_pos (by simpa using hf), List.length_cons]
      cases n with
      | zero =>
        have hzero := ih htail 0
        simp only [Nat.max_zero, List.drop_zero] at hzero ⊢
        rw [List.take_succ_cons, hzero, List.filter_cons_of_pos (by simpa using hf)]
      | succ n =>
        rw [Nat.succ_max_succ, List.take_succ_cons, List.drop_succ_cons, List.drop_succ_cons]
        exact ih htail n
    · -- all facts are behind the token
      have hnil : (f :: facts).filter (·.stamp ≤ token) = [] := by
        rw [List.filter_cons_of_neg (by simpa using hf), filter_eq_nil_of_not_le h hf]
      rw [List.takeWhile_cons_of_neg (by simpa using hf), List.length_nil, Nat.zero_max,
        List.drop_take, Nat.sub_self, List.take_zero]
      exact (List.eq_nil_of_sublist_nil (hnil ▸ (List.drop_sublist n _).filter _)).symm

/-- The facts of the log up to a token that were not reported yet. -/
def due (log : Log) (token : Token) : List Fact :=
  (log.facts.drop log.reacted).filter (·.stamp ≤ token)

/-- A reaction reports what is due. -/
theorem Sound.between_horizon (h : log.Sound) (token : Token) :
    log.between log.reacted (log.horizon token) = log.due token :=
  drop_take_takeWhile h.sorted token log.reacted

theorem Sound.horizon_le (h : log.Sound) (token : Token) :
    log.horizon token ≤ log.facts.length :=
  Nat.max_le.mpr ⟨(List.takeWhile_sublist _).length_le, h.reacted_le⟩

theorem reacted_le_horizon (log : Log) (token : Token) : log.reacted ≤ log.horizon token :=
  Nat.le_max_right _ _

/-- What is due follows upon what was reported. -/
theorem Sound.take_horizon (h : log.Sound) (token : Token) :
    log.facts.take (log.horizon token) = log.facts.take log.reacted ++ log.due token := by
  rw [← h.between_horizon, between]
  have hsplit := List.take_append_drop log.reacted (log.facts.take (log.horizon token))
  rw [List.take_take, Nat.min_eq_left (log.reacted_le_horizon token)] at hsplit
  exact hsplit.symm

end Log

end Facts

/-! ## Seeding -/

namespace Ledger

open Facts

variable {P : Log → Prop} {log : Log}

/-- What seeding a fact keeps, seeding the arguments of a url keeps. -/
theorem seedArgs_invariant (hseed : ∀ log key value, P log → P (log.seed key value))
    (url : String) (h : P log) : P (seedArgs log url) := by
  unfold seedArgs
  induction (Url.args? url).getD [] generalizing log with
  | nil => exact h
  | cons arg args ih => exact ih (hseed _ _ _ h)

theorem seedProperty_invariant (hseed : ∀ log key value, P log → P (log.seed key value))
    (key : String) (value : Value) (h : P log) : P (seedProperty log key value) := by
  unfold seedProperty
  split
  · exact h
  · split
    · split
      · exact hseed _ _ _ (seedArgs_invariant hseed _ h)
      · exact hseed _ _ _ h
    · exact hseed _ _ _ h

/-- What an empty log has and seeding a fact keeps, a log has when it was reset. -/
theorem reset_invariant (hseed : ∀ log key value, P log → P (log.seed key value)) (l : Ledger)
    (entry : EntryId) (properties : List (String × Value))
    (h : P { Log.empty with entry := some entry }) : P (l.reset entry properties).log := by
  have hid := hseed _ Property.idKey (.int (Int64.ofNat entry.toNat)) h
  unfold reset
  dsimp only
  generalize Log.seed _ _ _ = log at hid ⊢
  induction properties generalizing log with
  | nil => exact hid
  | cons property properties ih => exact ih _ (seedProperty_invariant hseed _ _ hid)

end Ledger

end MediaChain
