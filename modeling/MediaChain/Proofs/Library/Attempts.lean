import MediaChain.Proofs.Library.Session

/-!
# Work that is retried

Work is run in one session after the other until one commits. A run that fails leaves nothing behind
but what its rival has done meanwhile (`Library.attempt_of_fails`), and it uses up a refusal or a
rival. So the work is run once more than it failed, and only the run that commits has an effect
(`Library.exists_retried`).
-/

namespace MediaChain

namespace Library

variable {α : Type}

/-- Work that notes properties to be set, and does nothing else to its session. -/
def Work.Notes (work : Work α) : Prop :=
  ∀ store session, ∃ writes,
    (work store session).2 = { session with writes := session.writes ++ writes }

/-- A library after some runs that failed. Nothing but their rivals has changed its store. -/
def spent (lib : Library) (rivals : List (Store → Store)) (runs : Nat) : Library :=
  ⟨(rivals.take runs).foldl (fun store rival => rival store) lib.store, lib.refusals - runs⟩

/-- The run that comes after some runs that failed. -/
def attemptAfter (lib : Library) (rivals : List (Store → Store)) (work : Work α) (runs : Nat) :
    α × Bool × Library :=
  (lib.spent rivals runs).attempt ((rivals.drop runs).headD id) work

/-- Work that is retried fails some times and then commits. -/
structure Retried (lib : Library) (rivals : List (Store → Store)) (work : Work α)
    (conflicts : Nat) : Prop where
  fails : ∀ runs < conflicts, (lib.attemptAfter rivals work runs).2 =
    (false, lib.spent rivals (runs + 1))
  commits : (lib.attemptAfter rivals work conflicts).2.1 = true
  eq : lib.withSession rivals work =
    (((lib.attemptAfter rivals work conflicts).1, conflicts + 1),
      (lib.attemptAfter rivals work conflicts).2.2)

/-! ## One run -/

/-- The session that a library begins. -/
def opened (lib : Library) : Session := { lib.store.begin with refused := lib.refusals ≠ 0 }

theorem attempt_eq (rival : Store → Store) (work : Work α) (lib : Library) :
    lib.attempt rival work =
      ((work (rival lib.store) lib.opened).1,
        ((work (rival lib.store) lib.opened).2.commit (rival lib.store)).1,
        ⟨((work (rival lib.store) lib.opened).2.commit (rival lib.store)).2, lib.refusals - 1⟩) :=
  rfl

theorem attempt_of_fails {rival : Store → Store} {work : Work α} {lib : Library}
    (h : (lib.attempt rival work).2.1 = false) :
    (lib.attempt rival work).2.2 = ⟨rival lib.store, lib.refusals - 1⟩ := by
  rw [attempt_eq] at h ⊢
  exact congrArg (Library.mk · _) (Session.commit_eq_of_false h)

/-- A run that is neither refused nor has a rival commits. -/
theorem attempt_alone {work : Work α} (hwork : work.Notes) {lib : Library}
    (hrefusals : lib.refusals = 0) : (lib.attempt id work).2.1 = true := by
  obtain ⟨writes, hnoted⟩ := hwork lib.store lib.opened
  rw [attempt_eq]
  show ((work lib.store lib.opened).2.commit lib.store).1 = true
  rw [hnoted]
  rcases Session.commit_cases { lib.opened with writes := lib.opened.writes ++ writes } lib.store
    with ⟨-, hrefused | ⟨-, hgeneration⟩⟩ | ⟨heq, -⟩ | ⟨heq, -⟩
  · simp [opened, hrefusals] at hrefused
  · exact absurd rfl hgeneration
  · rw [heq]
  · rw [heq]

/-- The run that commits sets what it noted, and leaves all else as its rival did. -/
theorem property?_attempt {rival : Store → Store} {work : Work α} {lib : Library}
    (h : (lib.attempt rival work).2.1 = true) (entry : EntryId) (key : String) :
    (lib.attempt rival work).2.2.store.property? entry key =
      (lastWrite? (work (rival lib.store) lib.opened).2.writes entry key).or
        ((rival lib.store).property? entry key) := by
  rw [attempt_eq] at h ⊢
  exact Session.property?_commit h entry key

/-! ## All runs -/

/-- After a run has failed the work starts anew with the rivals that are left. -/
theorem spent_succ (lib : Library) (rivals : List (Store → Store)) (runs : Nat) :
    lib.spent rivals (runs + 1) =
      Library.spent ⟨rivals.headD id lib.store, lib.refusals - 1⟩ rivals.tail runs := by
  have hrefusals : lib.refusals - (runs + 1) = lib.refusals - 1 - runs := by omega
  unfold spent
  rw [hrefusals]
  cases rivals with
  | nil => simp
  | cons rival rivals => rfl

theorem attemptAfter_succ (lib : Library) (rivals : List (Store → Store)) (work : Work α)
    (runs : Nat) : lib.attemptAfter rivals work (runs + 1) =
      Library.attemptAfter ⟨rivals.headD id lib.store, lib.refusals - 1⟩ rivals.tail work runs := by
  unfold attemptAfter
  rw [spent_succ, List.drop_tail]

theorem retry_succ (work : Work α) (patience : Nat) (rivals : List (Store → Store))
    (lib : Library) :
    retry work (patience + 1) rivals lib =
      if (lib.attempt (rivals.headD id) work).2.1 = true then
        (((lib.attempt (rivals.headD id) work).1, 1), (lib.attempt (rivals.headD id) work).2.2)
      else
        (((retry work patience rivals.tail (lib.attempt (rivals.headD id) work).2.2).1.1,
          (retry work patience rivals.tail (lib.attempt (rivals.headD id) work).2.2).1.2 + 1),
          (retry work patience rivals.tail (lib.attempt (rivals.headD id) work).2.2).2) := by
  rw [retry]
  rcases lib.attempt (rivals.headD id) work with ⟨result, _ | _, lib'⟩ <;> rfl

/-- Work that has patience for all refusals and rivals commits in the end. -/
theorem exists_retry {work : Work α} (hwork : work.Notes) (patience : Nat)
    (rivals : List (Store → Store)) (lib : Library)
    (hpatience : lib.refusals + rivals.length ≤ patience) :
    ∃ conflicts, (∀ runs < conflicts, (lib.attemptAfter rivals work runs).2 =
        (false, lib.spent rivals (runs + 1))) ∧
      (lib.attemptAfter rivals work conflicts).2.1 = true ∧
      retry work patience rivals lib =
        (((lib.attemptAfter rivals work conflicts).1, conflicts + 1),
          (lib.attemptAfter rivals work conflicts).2.2) := by
  induction patience generalizing rivals lib with
  | zero =>
    obtain rfl : rivals = [] := List.length_eq_zero_iff.mp (by omega)
    have hrefusals : lib.refusals = 0 := Nat.eq_zero_of_add_eq_zero_right (Nat.le_zero.mp hpatience)
    exact ⟨0, nofun, attempt_alone hwork hrefusals, rfl⟩
  | succ patience ih =>
    rw [retry_succ]
    cases hcommitted : (lib.attempt (rivals.headD id) work).2.1 with
    | true =>
      have hfirst : lib.attemptAfter rivals work 0 = lib.attempt (rivals.headD id) work := rfl
      exact ⟨0, nofun, hfirst ▸ hcommitted, rfl⟩
    | false =>
      -- a run fails only for a refusal or a rival, of which fewer are left then
      have hleft : lib.refusals - 1 + rivals.tail.length ≤ patience := by
        have hsome : ¬(lib.refusals = 0 ∧ rivals = []) := by
          rintro ⟨hrefusals, rfl⟩
          rw [List.headD_nil, attempt_alone hwork hrefusals] at hcommitted
          cases hcommitted
        rw [← List.length_eq_zero_iff] at hsome
        rw [List.length_tail]
        omega
      have hspent := attempt_of_fails hcommitted
      obtain ⟨conflicts, hfails, hcommits, heq⟩ :=
        ih rivals.tail ⟨rivals.headD id lib.store, lib.refusals - 1⟩ hleft
      refine ⟨conflicts + 1, fun runs hruns => ?_, ?_, ?_⟩
      · cases runs with
        | zero => exact Prod.ext hcommitted (hspent.trans (lib.spent_succ rivals 0).symm)
        | succ runs =>
          rw [attemptAfter_succ, spent_succ]
          exact hfails runs (Nat.lt_of_succ_lt_succ hruns)
      · rw [attemptAfter_succ]
        exact hcommits
      · rw [if_neg Bool.false_ne_true, hspent, heq, attemptAfter_succ]

/-- Work that only notes what is to be set commits in the end. -/
theorem exists_retried {work : Work α} (hwork : work.Notes) (lib : Library)
    (rivals : List (Store → Store)) : ∃ conflicts, lib.Retried rivals work conflicts := by
  obtain ⟨conflicts, hfails, hcommits, heq⟩ :=
    exists_retry hwork (lib.refusals + rivals.length) rivals lib (Nat.le_refl _)
  exact ⟨conflicts, hfails, hcommits, heq⟩

/-- What a run finds is what the rivals up to its own have left. -/
theorem spent_store_succ (lib : Library) (rivals : List (Store → Store)) (runs : Nat) :
    (lib.spent rivals (runs + 1)).store =
      (rivals.drop runs).headD id (lib.spent rivals runs).store := by
  induction runs generalizing lib rivals with
  | zero => cases rivals <;> rfl
  | succ runs ih => rw [spent_succ, ih, ← List.drop_tail, spent_succ lib]

/-- Of all runs only the one that commits has an effect: it sets what it noted. -/
theorem Retried.property? {lib : Library} {rivals : List (Store → Store)} {work : Work α}
    {conflicts : Nat} (h : lib.Retried rivals work conflicts) (entry : EntryId) (key : String) :
    (lib.withSession rivals work).2.store.property? entry key =
      (lastWrite? (work (lib.spent rivals (conflicts + 1)).store
        (lib.spent rivals conflicts).opened).2.writes entry key).or
          ((lib.spent rivals (conflicts + 1)).store.property? entry key) := by
  rw [h.eq, spent_store_succ]
  exact property?_attempt h.commits entry key

end Library

end MediaChain
