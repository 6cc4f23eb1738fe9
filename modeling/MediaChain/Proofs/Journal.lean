import Mathlib.Data.List.Perm.Basic
import MediaChain.Journal

/-!
# Orderly journals

A stage that a plugin has set up is held until it is released. `Orderly` says how a journal is kept
then: an attempt to set up a stage gets a new number, only stages that are held are worked, and a
plugin that is owed a `destroy` is told when its stage is let go, which is not before later stages
of the same chain. So a stage that is owed a `destroy` is destroyed once it is not held any more,
and once only (`Orderly.destroyed_once`), from then on no plugin is called for it (`Orderly.quiet`),
and in each chain the later stages are destroyed first (`Orderly.later_first`).
-/

namespace MediaChain

variable {ε : Type}

/-- A stage that is held: its number, the name of its plugin, and whether that is owed a
`destroy`. -/
structure Ticket where
  id : Nat
  plugin : String
  owed : Bool

namespace Event

/-- What is written down while nothing is set up or released, and only stages with certain numbers
are worked. -/
def Among (I : Nat → Prop) : Event ε → Prop
  | .read _ id _ | .seek _ id _ _ | .browse _ id _ => I id
  | .note _ _ | .reaction _ _ => True
  | .init _ _ _ _ | .opened _ _ | .destroy _ _ => False

/-- Whether the stage with a number is destroyed. -/
def destroys (id : Nat) : Event ε → Bool
  | .destroy _ id' => id' = id
  | _ => false

/-- Whether a plugin is called for the stage with a number, or has set it up. -/
def concerns (id : Nat) : Event ε → Bool
  | .init _ id' _ _ | .opened id' _ | .read _ id' _ | .seek _ id' _ _ | .browse _ id' _
  | .destroy _ id' => id' = id
  | .note _ _ | .reaction _ _ => false

/-- The number that is given out. -/
def asked? : Event ε → Option Nat
  | .init _ id _ _ => some id
  | _ => none

/-- The number of the stage that was set up. -/
def opened? : Event ε → Option Nat
  | .opened id _ => some id
  | _ => none

variable {I : Nat → Prop} {e : Event ε} {id : Nat}

theorem opened?_eq_some : e.opened? = some id ↔ ∃ owed, e = .opened id owed := by
  cases e <;> simp [opened?]

theorem destroys_iff : e.destroys id = true ↔ ∃ p, e = .destroy p id := by
  cases e <;> simp [destroys]

theorem Among.of_concerns (h : e.Among I) (hid : e.concerns id = true) : I id := by
  cases e <;> simp_all [Among, concerns]

theorem Among.not_destroys (h : e.Among I) (id : Nat) : e.destroys id = false := by
  cases e <;> first | rfl | exact h.elim

theorem Among.mono {I' : Nat → Prop} (h : e.Among I) (hI : ∀ id, I id → I' id) : e.Among I' := by
  cases e <;> first | exact hI _ h | exact h

theorem Among.asked?_eq_none (h : e.Among I) : e.asked? = none := by
  cases e <;> first | rfl | exact h.elim

theorem Among.opened?_eq_none (h : e.Among I) : e.opened? = none := by
  cases e <;> first | rfl | exact h.elim

theorem Among.ne_destroy (h : e.Among I) (p : String) (id : Nat) : .destroy p id ≠ e := by
  rintro rfl
  exact h

theorem Among.ne_opened (h : e.Among I) (id : Nat) (owed : Bool) : .opened id owed ≠ e := by
  rintro rfl
  exact h

end Event

/-- A journal that was kept in order. The numbers below the length of `chains` were given out, for
the chains that are listed there, and the stages in `held` are held. -/
inductive Orderly : List (Event ε) → List Nat → List Ticket → Prop
  | empty : Orderly [] [] []
  | worked {J : List (Event ε)} {chains : List Nat} {held : List Ticket} {e : Event ε} :
    Orderly J chains held → e.Among (fun id => ∃ t ∈ held, t.id = id) →
      Orderly (J ++ [e]) chains held
  | asked {J : List (Event ε)} {chains : List Nat} {held : List Ticket} (plugin : String)
    (order : Nat) (token : Token) (chain : Nat) :
    Orderly J chains held →
      Orderly (J ++ [.init plugin chains.length order token]) (chains ++ [chain]) held
  | opened {J : List (Event ε)} {chains : List Nat} {held : List Ticket} {plugin : String}
    {id order : Nat} {token : Token} (owed : Bool) :
    Orderly J chains held → .init plugin id order token ∈ J → (∀ owed, .opened id owed ∉ J) →
      Orderly (J ++ [.opened id owed]) chains (⟨id, plugin, owed⟩ :: held)
  | destroyed {J : List (Event ε)} {chains : List Nat} {held : List Ticket} {t : Ticket} :
    Orderly J chains (t :: held) → t.owed = true →
      (∀ u ∈ held, chains[u.id]? = chains[t.id]? → u.id < t.id) →
        Orderly (J ++ [.destroy t.plugin t.id]) chains held
  | forgotten {J : List (Event ε)} {chains : List Nat} {held : List Ticket} {t : Ticket} :
    Orderly J chains (t :: held) → t.owed = false → Orderly J chains held
  | perm {J : List (Event ε)} {chains : List Nat} {held held' : List Ticket} :
    Orderly J chains held → held.Perm held' → Orderly J chains held'

/-- An entry of a journal stands before its last entry, or is that. -/
theorem split_concat {J past rest : List (Event ε)} {e e' : Event ε}
    (h : J ++ [e] = past ++ e' :: rest) :
    (∃ rest', J = past ++ e' :: rest') ∨ J = past ∧ e = e' := by
  rcases List.eq_nil_or_concat rest with rfl | ⟨rest', last, rfl⟩
  · obtain ⟨hpast, hlast⟩ := List.append_inj' h rfl
    exact .inr ⟨hpast, List.singleton_inj.mp hlast⟩
  · rw [List.concat_eq_append, ← List.cons_append, ← List.append_assoc] at h
    exact .inl ⟨rest', (List.append_inj' h rfl).1⟩

namespace Orderly

variable {J : List (Event ε)} {chains : List Nat} {held : List Ticket} {t : Ticket} {id : Nat}
  {plugin : String} {owed owed' : Bool}

/-! ## Stages that are held -/

/-- A stage that is held was set up. -/
theorem opened_of_held (h : Orderly J chains held) (ht : t ∈ held) :
    .opened t.id t.owed ∈ J ∧ ∃ order token, .init t.plugin t.id order token ∈ J := by
  induction h with
  | empty => exact absurd ht List.not_mem_nil
  | worked _ _ ih | asked _ _ _ _ _ ih =>
    obtain ⟨hopened, order, token, hinit⟩ := ih ht
    exact ⟨List.mem_append_left _ hopened, order, token, List.mem_append_left _ hinit⟩
  | opened _ _ hinit _ ih =>
    rcases List.mem_cons.mp ht with rfl | ht
    · exact ⟨List.mem_append_right _ (List.mem_singleton_self _), _, _,
        List.mem_append_left _ hinit⟩
    · obtain ⟨hopened, order, token, hinit⟩ := ih ht
      exact ⟨List.mem_append_left _ hopened, order, token, List.mem_append_left _ hinit⟩
  | destroyed _ _ _ ih =>
    obtain ⟨hopened, order, token, hinit⟩ := ih (List.mem_cons_of_mem _ ht)
    exact ⟨List.mem_append_left _ hopened, order, token, List.mem_append_left _ hinit⟩
  | forgotten _ _ ih => exact ih (List.mem_cons_of_mem _ ht)
  | perm _ hperm ih => exact ih (hperm.mem_iff.mpr ht)

theorem nodup (h : Orderly J chains held) : (held.map Ticket.id).Nodup := by
  induction h with
  | empty => exact List.nodup_nil
  | worked _ _ ih | asked _ _ _ _ _ ih => exact ih
  | opened _ h _ hfresh ih =>
    refine List.nodup_cons.mpr ⟨fun hmem => ?_, ih⟩
    obtain ⟨t, ht, rfl⟩ := List.mem_map.mp hmem
    exact hfresh t.owed (h.opened_of_held ht).1
  | destroyed _ _ _ ih | forgotten _ _ ih => exact (List.nodup_cons.mp ih).2
  | perm _ hperm ih => exact (hperm.map Ticket.id).nodup_iff.mp ih

/-- Nothing is written down of a number that was not given out yet. -/
theorem lt_of_concerns (h : Orderly J chains held) {e : Event ε} (he : e ∈ J)
    (hid : e.concerns id = true) : id < chains.length := by
  induction h generalizing e with
  | empty => exact absurd he List.not_mem_nil
  | worked h hamong ih =>
    rcases List.mem_append.mp he with he | he
    · exact ih he hid
    · rw [List.mem_singleton.mp he] at hid
      obtain ⟨t, ht, rfl⟩ := hamong.of_concerns hid
      exact ih (h.opened_of_held ht).1 (by simp [Event.concerns])
  | asked _ _ _ _ _ ih =>
    rw [List.length_append, List.length_singleton]
    rcases List.mem_append.mp he with he | he
    · exact Nat.lt_succ_of_lt (ih he hid)
    · rw [List.mem_singleton.mp he] at hid
      exact Nat.lt_succ_of_le (Nat.le_of_eq (of_decide_eq_true hid).symm)
  | opened _ _ hinit _ ih =>
    rcases List.mem_append.mp he with he | he
    · exact ih he hid
    · rw [List.mem_singleton.mp he] at hid
      exact ih hinit hid
  | destroyed h _ _ ih =>
    rcases List.mem_append.mp he with he | he
    · exact ih he hid
    · rw [List.mem_singleton.mp he] at hid
      exact ih (h.opened_of_held List.mem_cons_self).1 hid
  | forgotten _ _ ih => exact ih he hid
  | perm _ _ ih => exact ih he hid

/-- Numbers are given out one after the other. -/
theorem asked_range (h : Orderly J chains held) :
    J.filterMap Event.asked? = List.range chains.length := by
  induction h with
  | empty => rfl
  | worked _ hamong ih =>
    rw [List.filterMap_append, List.filterMap_cons_none hamong.asked?_eq_none, List.filterMap_nil,
      List.append_nil, ih]
  | asked _ _ _ _ _ ih =>
    rw [List.filterMap_append, ih, List.length_append, List.length_singleton, List.range_succ]
    rfl
  | opened _ _ _ _ ih | destroyed _ _ _ ih =>
    rw [List.filterMap_append, ih]
    exact List.append_nil _
  | forgotten _ _ ih | perm _ _ ih => exact ih

/-- No stage is set up twice. -/
theorem opened_nodup (h : Orderly J chains held) : (J.filterMap Event.opened?).Nodup := by
  induction h with
  | empty => exact .nil
  | worked _ hamong ih =>
    rwa [List.filterMap_append, List.filterMap_cons_none hamong.opened?_eq_none,
      List.filterMap_nil, List.append_nil]
  | asked _ _ _ _ _ ih | destroyed _ _ _ ih =>
    rw [List.filterMap_append]
    exact (List.append_nil _).symm ▸ ih
  | opened _ _ _ hfresh ih =>
    rw [List.filterMap_append]
    refine List.nodup_append.mpr ⟨ih, List.pairwise_singleton _ _, fun id' hmem id'' hid => ?_⟩
    obtain ⟨e, he, hsome⟩ := List.mem_filterMap.mp hmem
    obtain ⟨owed', rfl⟩ := Event.opened?_eq_some.mp hsome
    rintro rfl
    rw [List.mem_singleton.mp hid] at he
    exact hfresh owed' he
  | forgotten _ _ ih | perm _ _ ih => exact ih

theorem worked_all (h : Orderly J chains held) {es : List (Event ε)}
    (hes : ∀ e ∈ es, e.Among fun id => ∃ t ∈ held, t.id = id) : Orderly (J ++ es) chains held := by
  induction es generalizing J with
  | nil => rwa [List.append_nil]
  | cons e es ih =>
    obtain ⟨he, hes⟩ := List.forall_mem_cons.mp hes
    rw [List.append_cons]
    exact ih (h.worked he) hes

/-! ## Stages that are destroyed -/

/-- Only a stage whose plugin was asked for it, set it up and is owed a `destroy` is destroyed. -/
theorem opened_of_destroy (h : Orderly J chains held) (hmem : .destroy plugin id ∈ J) :
    .opened id true ∈ J ∧ ∃ order token, .init plugin id order token ∈ J := by
  have hgrow : ∀ {J' : List (Event ε)} {e : Event ε},
      (.opened id true ∈ J' ∧ ∃ order token, .init plugin id order token ∈ J') →
        .opened id true ∈ J' ++ [e] ∧ ∃ order token, .init plugin id order token ∈ J' ++ [e] := by
    rintro J' e ⟨hopened, order, token, hinit⟩
    exact ⟨List.mem_append_left _ hopened, order, token, List.mem_append_left _ hinit⟩
  induction h with
  | empty => exact absurd hmem List.not_mem_nil
  | worked _ hamong ih =>
    rcases List.mem_append.mp hmem with hmem | hmem
    · exact hgrow (ih hmem)
    · exact absurd (List.mem_singleton.mp hmem) (hamong.ne_destroy _ _)
  | asked _ _ _ _ _ ih | opened _ _ _ _ ih =>
    rcases List.mem_append.mp hmem with hmem | hmem
    · exact hgrow (ih hmem)
    · simp at hmem
  | @destroyed J _ _ t h howed _ ih =>
    rcases List.mem_append.mp hmem with hmem | hmem
    · exact hgrow (ih hmem)
    · obtain ⟨rfl, rfl⟩ := Event.destroy.inj (List.mem_singleton.mp hmem)
      have hheld := h.opened_of_held List.mem_cons_self
      rw [howed] at hheld
      exact hgrow hheld
  | forgotten _ _ ih | perm _ _ ih => exact ih hmem

/-- Whether a stage is owed a `destroy` is written down once for all. -/
theorem opened_unique (h : Orderly J chains held) (hmem : .opened id owed ∈ J)
    (hmem' : .opened id owed' ∈ J) : owed = owed' := by
  induction h with
  | empty => exact absurd hmem List.not_mem_nil
  | worked _ hamong ih =>
    rcases List.mem_append.mp hmem with hmem | hmem
    · rcases List.mem_append.mp hmem' with hmem' | hmem'
      · exact ih hmem hmem'
      · exact absurd (List.mem_singleton.mp hmem') (hamong.ne_opened _ _)
    · exact absurd (List.mem_singleton.mp hmem) (hamong.ne_opened _ _)
  | asked _ _ _ _ _ ih | destroyed _ _ _ ih => exact ih (by simpa using hmem) (by simpa using hmem')
  | opened _ _ _ hfresh ih =>
    rcases List.mem_append.mp hmem with hold | hnew
    · rcases List.mem_append.mp hmem' with hold' | hnew'
      · exact ih hold hold'
      · obtain ⟨rfl, -⟩ := Event.opened.inj (List.mem_singleton.mp hnew')
        exact absurd hold (hfresh _)
    · obtain ⟨rfl, rfl⟩ := Event.opened.inj (List.mem_singleton.mp hnew)
      rcases List.mem_append.mp hmem' with hold' | hnew'
      · exact absurd hold' (hfresh _)
      · exact (Event.opened.inj (List.mem_singleton.mp hnew')).2.symm
  | forgotten _ _ ih | perm _ _ ih => exact ih hmem hmem'

theorem not_destroyed_of_fresh (h : Orderly J chains held) (hfresh : ∀ owed, .opened id owed ∉ J)
    {e : Event ε} (he : e ∈ J) : e.destroys id = false := by
  rw [← Bool.not_eq_true, Event.destroys_iff]
  rintro ⟨p, rfl⟩
  exact hfresh true (h.opened_of_destroy he).1

/-- A stage that is held was not destroyed yet. -/
theorem not_destroyed_of_held (h : Orderly J chains held) (ht : t ∈ held) {e : Event ε}
    (he : e ∈ J) : e.destroys t.id = false := by
  induction h with
  | empty => exact absurd ht List.not_mem_nil
  | worked _ hamong ih =>
    rcases List.mem_append.mp he with he | he
    · exact ih ht he
    · rw [List.mem_singleton.mp he]
      exact hamong.not_destroys _
  | asked _ _ _ _ _ ih =>
    rcases List.mem_append.mp he with he | he
    · exact ih ht he
    · rw [List.mem_singleton.mp he]
      rfl
  | opened _ h _ hfresh ih =>
    rcases List.mem_append.mp he with he | he
    · rcases List.mem_cons.mp ht with rfl | ht
      · exact h.not_destroyed_of_fresh hfresh he
      · exact ih ht he
    · rw [List.mem_singleton.mp he]
      rfl
  | destroyed h _ _ ih =>
    rcases List.mem_append.mp he with he | he
    · exact ih (List.mem_cons_of_mem _ ht) he
    · rw [List.mem_singleton.mp he]
      have hne := (List.nodup_cons.mp h.nodup).1
      exact decide_eq_false fun heq => hne (heq ▸ List.mem_map_of_mem ht)
  | forgotten _ _ ih => exact ih (List.mem_cons_of_mem _ ht) he
  | perm _ hperm ih => exact ih (hperm.mem_iff.mpr ht) he

/-- A stage that is owed a `destroy` is held, or was destroyed once. -/
theorem destroyed_once (h : Orderly J chains held) (hmem : .opened id true ∈ J)
    (hheld : ∀ t ∈ held, t.id ≠ id) : J.countP (Event.destroys id) = 1 := by
  induction h with
  | empty => exact absurd hmem List.not_mem_nil
  | worked _ hamong ih =>
    rw [List.countP_append, List.countP_singleton, hamong.not_destroys]
    refine ih ?_ hheld
    rcases List.mem_append.mp hmem with hmem | hmem
    · exact hmem
    · exact absurd (List.mem_singleton.mp hmem) (hamong.ne_opened _ _)
  | asked _ _ _ _ _ ih =>
    rw [List.countP_append]
    exact ih (by simpa using hmem) hheld
  | opened _ _ _ _ ih =>
    obtain ⟨hne, hheld⟩ := List.forall_mem_cons.mp hheld
    rw [List.countP_append]
    refine ih ?_ hheld
    rcases List.mem_append.mp hmem with hmem | hmem
    · exact hmem
    · exact absurd (Event.opened.inj (List.mem_singleton.mp hmem)).1.symm hne
  | @destroyed J _ held t h _ _ ih =>
    rw [List.countP_append, List.countP_singleton]
    by_cases heq : t.id = id
    · subst heq
      have hzero : J.countP (Event.destroys t.id) = 0 := by
        rw [List.countP_eq_zero]
        exact fun e he => by simp [h.not_destroyed_of_held List.mem_cons_self he]
      simp [hzero, Event.destroys]
    · rw [ih (by simpa using hmem) (List.forall_mem_cons.mpr ⟨heq, hheld⟩)]
      simp [Event.destroys, heq]
  | @forgotten J _ held t h howed ih =>
    -- The stage that is let go without a word is not owed one, so it is another.
    refine ih hmem (List.forall_mem_cons.mpr ⟨?_, hheld⟩)
    rintro rfl
    have hopened := (h.opened_of_held List.mem_cons_self).1
    rw [howed] at hopened
    exact Bool.false_ne_true (h.opened_unique hopened hmem)
  | perm _ hperm ih => exact ih hmem fun t ht => hheld t (hperm.mem_iff.mp ht)

/-- Once a stage is destroyed nothing more is written down of it. -/
theorem quiet (h : Orderly J chains held) (id : Nat) :
    J.Pairwise fun e e' => e.destroys id = true → e'.concerns id = false := by
  have hlast : ∀ {J' : List (Event ε)} {e' : Event ε},
      (J'.Pairwise fun e e' => e.destroys id = true → e'.concerns id = false) →
        (∀ e ∈ J', e.destroys id = true → e'.concerns id = false) →
          (J' ++ [e']).Pairwise fun e e' => e.destroys id = true → e'.concerns id = false := by
    intro J' e' hpair hall
    refine List.pairwise_append.mpr ⟨hpair, List.pairwise_singleton _ _, fun e he e'' he'' => ?_⟩
    rw [List.mem_singleton.mp he'']
    exact hall e he
  induction h with
  | empty => exact .nil
  | worked h hamong ih =>
    refine hlast ih fun e he hdestroys => ?_
    rw [← Bool.not_eq_true]
    intro hconcerns
    obtain ⟨t, ht, rfl⟩ := hamong.of_concerns hconcerns
    rw [h.not_destroyed_of_held ht he] at hdestroys
    exact Bool.false_ne_true hdestroys
  | @asked J chains _ _ _ _ _ h ih =>
    refine hlast ih fun e he hdestroys => decide_eq_false ?_
    rintro rfl
    obtain ⟨p, rfl⟩ := Event.destroys_iff.mp hdestroys
    exact Nat.lt_irrefl _ (h.lt_of_concerns he hdestroys)
  | opened _ h _ hfresh ih =>
    refine hlast ih fun e he hdestroys => decide_eq_false ?_
    rintro rfl
    rw [h.not_destroyed_of_fresh hfresh he] at hdestroys
    exact Bool.false_ne_true hdestroys
  | destroyed h _ _ ih =>
    refine hlast ih fun e he hdestroys => decide_eq_false ?_
    rintro rfl
    rw [h.not_destroyed_of_held List.mem_cons_self he] at hdestroys
    exact Bool.false_ne_true hdestroys
  | forgotten _ _ ih | perm _ _ ih => exact ih

/-- When a stage is destroyed, so was each later one of the same chain that is owed it. -/
theorem later_first (h : Orderly J chains held) {past rest : List (Event ε)} {later : Nat}
    (hsplit : J = past ++ .destroy plugin id :: rest) (hlt : id < later)
    (hsame : chains[later]? = chains[id]?) (hopened : .opened later true ∈ past) :
    ∃ e ∈ past, e.destroys later = true := by
  induction h generalizing rest with
  | empty => simp at hsplit
  | worked _ hamong ih =>
    rcases split_concat hsplit with ⟨rest, rfl⟩ | ⟨-, rfl⟩
    · exact ih rfl hsame
    · exact hamong.elim
  | asked _ _ _ _ h ih =>
    rcases split_concat hsplit with ⟨rest, rfl⟩ | ⟨-, heq⟩
    · refine ih rfl ?_
      have hlater : later < _ :=
        h.lt_of_concerns (List.mem_append_left _ hopened) (by simp [Event.concerns])
      rwa [List.getElem?_append_left hlater, List.getElem?_append_left (Nat.lt_trans hlt hlater)]
        at hsame
    · exact nomatch heq
  | opened _ _ _ _ ih =>
    rcases split_concat hsplit with ⟨rest, rfl⟩ | ⟨-, heq⟩
    · exact ih rfl hsame
    · exact nomatch heq
  | @destroyed J _ held t h _ hlater ih =>
    rcases split_concat hsplit with ⟨rest, rfl⟩ | ⟨rfl, heq⟩
    · exact ih rfl hsame
    · obtain ⟨-, rfl⟩ := Event.destroy.inj heq
      -- A later stage that is still held would have to be let go first.
      have hnot : ∀ u ∈ t :: held, u.id ≠ later := by
        rintro u hu rfl
        rcases List.mem_cons.mp hu with rfl | hu
        · exact Nat.lt_irrefl _ hlt
        · exact Nat.lt_asymm hlt (hlater u hu hsame)
      have hpos : 0 < J.countP (Event.destroys later) := by
        rw [h.destroyed_once hopened hnot]
        exact Nat.one_pos
      exact List.countP_pos_iff.mp hpos
  | forgotten _ _ ih | perm _ _ ih => exact ih hsplit hsame

end Orderly

end MediaChain
