import MediaChain.Proofs.Chain.Layout

/-!
# The section of effects

An effect is put behind the stages of a chain exactly if its plugin is asked to set up a stage
there (`Builder.Asks`) and does so (`Builder.addEffect_iff`). Adding all effects looks at one number
after the other, up to the first without a name (`Builder.Walk`); it gets there although every
effect that is tried adds a value to the configuration, since none of these is at the path of an
effect. What stands behind the others then is what was admitted, in the order of the list
(`Builder.addEffects_section`).
-/

namespace MediaChain

variable {ι ε : Type}

/-- A plugin sets up a stage behind those in `f`, and declares what that stage produces. -/
def Plugin.SetsUp (p : Plugin ι ε) (settings : Settings) (goals : List StreamType)
    (f : Front ι ε) : Prop :=
  ∃ state outType, (Stage.firstRun p settings goals f).1 = .ok state ∧
    (Stage.firstRun p settings goals f).2.outType = some outType

theorem Stage.create_isOk_iff {p : Plugin ι ε} {settings : Settings} {goals : List StreamType}
    {f : Front ι ε} : (create p settings goals f).1.isOk = true ↔ p.SetsUp settings goals f := by
  unfold create
  dsimp only
  split
  next e he =>
    refine iff_of_false Bool.false_ne_true fun ⟨state, outType, hstate, _⟩ => ?_
    exact nomatch hstate.symm.trans he
  next state hstate =>
    split
    next hnone =>
      refine iff_of_false Bool.false_ne_true fun ⟨state, outType, _, houtType⟩ => ?_
      exact nomatch houtType.symm.trans hnone
    next outType houtType => exact iff_of_true rfl ⟨state, outType, hstate, houtType⟩

namespace Builder

variable {b : Builder ι ε} {goals : List StreamType} {name : String} {p : Plugin ι ε}
  {f : Front ι ε}

/-! ## One effect -/

/-- The plugin of this name is asked to set up a stage behind those in `f`: there is room for
another one, and it takes what the last of them produces. -/
structure Asks (b : Builder ι ε) (name : String) (p : Plugin ι ε) (f : Front ι ε) : Prop where
  found : b.registry.find? name = some p
  room : f.stages.length < b.settings.stageLimit
  behind : f.stages ≠ []
  takes : (p.claim (Chain.tailType f.stages)).isSome = true

/-- An effect finds a place behind the stages in `f`. -/
def Admits (b : Builder ι ε) (goals : List StreamType) (name : String) (f : Front ι ε) : Prop :=
  ∃ p, b.Asks name p f ∧ p.SetsUp b.settings goals f

theorem Asks.unique {p' : Plugin ι ε} (h : b.Asks name p f) (h' : b.Asks name p' f) : p' = p :=
  Option.some.inj (h'.found.symm.trans h.found)

theorem Asks.name_eq (h : b.Asks name p f) : p.name = name := by
  simpa using List.find?_some h.found

/-- An effect that is tried has its switch from then on, whether it can be added or not. -/
theorem addEffect_of_asks (goals : List StreamType) (h : b.Asks name p f) :
    b.addEffect goals name f =
      ((Stage.create p b.settings goals f).1.isOk,
        ⟨(Front.joined (Stage.create p b.settings goals f)).stages,
          (Stage.create p b.settings goals f).2.scene.switched name⟩) := by
  obtain ⟨hfound, hroom, hbehind, htakes⟩ := h
  have htaken : (f.stages = [] || (p.claim (Chain.tailType f.stages)).isNone) = false := by
    rw [Bool.or_eq_false_iff, decide_eq_false_iff_not, Option.isNone_eq_false_iff]
    exact ⟨hbehind, htakes⟩
  unfold addEffect
  rw [hfound]
  dsimp only
  rw [if_neg (Nat.not_le.mpr hroom), htaken, if_neg Bool.false_ne_true]
  rcases Stage.create p b.settings goals f with ⟨e | s, f'⟩ <;> rfl

/-- An effect that is not tried leaves everything as it is. -/
theorem addEffect_of_not_asks (goals : List StreamType) (h : ∀ p, ¬ b.Asks name p f) :
    b.addEffect goals name f = (false, f) := by
  unfold addEffect
  split
  · rfl
  next p hfound =>
    split
    · rfl
    next hroom =>
      split
      · rfl
      next htaken =>
        rw [Bool.or_eq_true, not_or, decide_eq_true_iff, Bool.not_eq_true,
          Option.isNone_eq_false_iff] at htaken
        exact absurd ⟨hfound, Nat.not_le.mp hroom, htaken.1, htaken.2⟩ (h p)

theorem asks_or_eq (b : Builder ι ε) (goals : List StreamType) (name : String) (f : Front ι ε) :
    (∃ p, b.Asks name p f) ∨ b.addEffect goals name f = (false, f) := by
  by_cases h : ∃ p, b.Asks name p f
  · exact .inl h
  · exact .inr (addEffect_of_not_asks goals (not_exists.mp h))

theorem addEffect_iff : (b.addEffect goals name f).1 = true ↔ b.Admits goals name f := by
  by_cases h : ∃ p, b.Asks name p f
  · obtain ⟨p, hp⟩ := h
    rw [addEffect_of_asks goals hp]
    refine Stage.create_isOk_iff.trans ⟨fun hsets => ⟨p, hp, hsets⟩, ?_⟩
    rintro ⟨p', hp', hsets⟩
    rwa [hp.unique hp'] at hsets
  · rw [not_exists] at h
    rw [addEffect_of_not_asks goals h]
    exact iff_of_false Bool.false_ne_true fun ⟨p, hp, _⟩ => h p hp

/-- An effect that finds a place is a stage of its name behind the others. -/
theorem Admits.stages (h : b.Admits goals name f) :
    ∃ s kept, (b.addEffect goals name f).2.stages = s :: kept ∧ s.name = name ∧
      List.Forall₂ Stage.Same f.stages kept := by
  obtain ⟨p, hp, hsets⟩ := h
  rw [← Stage.create_isOk_iff] at hsets
  rw [addEffect_of_asks goals hp]
  rcases hcreate : Stage.create p b.settings goals f with ⟨e | s, f'⟩
  · rw [hcreate] at hsets
    cases hsets
  · refine ⟨s, f'.stages, rfl, ?_, Stage.create_same hcreate⟩
    exact (congrArg Sketch.name (Stage.create_sketch hcreate)).trans hp.name_eq

/-- An effect that finds none adds no stage. -/
theorem addEffect_same_of_not_admits (h : ¬ b.Admits goals name f) :
    List.Forall₂ Stage.Same f.stages (b.addEffect goals name f).2.stages := by
  rcases b.asks_or_eq goals name f with ⟨p, hp⟩ | heq
  · have hfails : ¬ (Stage.create p b.settings goals f).1.isOk = true := by
      rw [Stage.create_isOk_iff]
      exact fun hsets => h ⟨p, hp, hsets⟩
    rw [addEffect_of_asks goals hp]
    rcases hcreate : Stage.create p b.settings goals f with ⟨e | s, f'⟩
    · show List.Forall₂ Stage.Same f.stages f'.stages
      exact Stage.create_same hcreate
    · rw [hcreate] at hfails
      exact absurd rfl hfails
  · rw [heq]
    exact Front.LeadsBy.same_stages f.stages

/-! ## All effects -/

/-- Looking at the list of effects from a number on, up to the first number without a name. For
every number on the way there is its name, and whether an effect was added for it. -/
inductive Walk (b : Builder ι ε) (goals : List StreamType) :
    Nat → Front ι ε → List (String × Bool) → Front ι ε → Prop
  | stop {index : Nat} {f : Front ι ε} :
    b.listed f.scene.backstage.config index = none → Walk b goals index f [] f
  | blank {index : Nat} {f f' : Front ι ε} {visits : List (String × Bool)} :
    b.listed f.scene.backstage.config index = some "" → Walk b goals (index + 1) f visits f' →
      Walk b goals index f (("", false) :: visits) f'
  | skip {index : Nat} {f f' : Front ι ε} {visits : List (String × Bool)} {name : String} :
    b.listed f.scene.backstage.config index = some name → name ≠ "" → ¬ b.Admits goals name f →
      Walk b goals (index + 1) (b.addEffect goals name f).2 visits f' →
        Walk b goals index f ((name, false) :: visits) f'
  | add {index : Nat} {f f' : Front ι ε} {visits : List (String × Bool)} {name : String} :
    b.listed f.scene.backstage.config index = some name → name ≠ "" → b.Admits goals name f →
      Walk b goals (index + 1) (b.addEffect goals name f).2 visits f' →
        Walk b goals index f ((name, true) :: visits) f'

namespace Walk

variable {index : Nat} {f' : Front ι ε} {visits : List (String × Bool)}

/-- A number that is not listed is come to after as many rounds as there are numbers before it. -/
theorem exists_of_gap (goals : List StreamType) {count index : Nat} {f : Front ι ε}
    (hlast : b.listed f.scene.backstage.config (index + count) = none) :
    ∃ visits f', b.Walk goals index f visits f' := by
  induction count generalizing index f with
  | zero => exact ⟨[], f, .stop hlast⟩
  | succ count ih =>
    rw [← Nat.add_assoc, Nat.add_right_comm] at hlast
    cases hname : b.listed f.scene.backstage.config index with
    | none => exact ⟨[], f, .stop hname⟩
    | some name =>
      have hnext : b.listed (b.addEffect goals name f).2.scene.backstage.config
          (index + 1 + count) = none := by rwa [addEffect_listed]
      by_cases hempty : name = ""
      · subst hempty
        obtain ⟨visits, f', hwalk⟩ := ih hlast
        exact ⟨_, f', .blank hname hwalk⟩
      · obtain ⟨visits, f', hwalk⟩ := ih hnext
        by_cases hadmits : b.Admits goals name f
        · exact ⟨_, f', .add hname hempty hadmits hwalk⟩
        · exact ⟨_, f', .skip hname hempty hadmits hwalk⟩

/-- Rounds for all numbers on the way are enough, and more change nothing. -/
theorem addEffectsFrom_eq {rounds : Nat} (h : b.Walk goals index f visits f')
    (hrounds : visits.length ≤ rounds) : b.addEffectsFrom goals rounds index f = f' := by
  induction h generalizing rounds with
  | stop hnone => exact addEffectsFrom_of_none hnone
  | blank hname _ ih =>
    obtain ⟨rounds, rfl⟩ := Nat.exists_eq_add_of_lt (Nat.lt_of_succ_le hrounds)
    rw [addEffectsFrom_of_some hname, if_pos rfl]
    rw [List.length_cons] at hrounds
    exact ih (by omega)
  | skip hname hne _ _ ih | add hname hne _ _ ih =>
    obtain ⟨rounds, rfl⟩ := Nat.exists_eq_add_of_lt (Nat.lt_of_succ_le hrounds)
    rw [addEffectsFrom_of_some hname, if_neg hne]
    rw [List.length_cons] at hrounds
    exact ih (by omega)

/-- A name in front of those that a configuration lists from the next number on. -/
theorem listed_cons {config config' : Config} {added : Bool}
    (hname : b.listed config index = some name) (hsame : b.listed config' = b.listed config)
    (h : ∀ i ≤ visits.length, b.listed config' (index + 1 + i) = visits[i]?.map Prod.fst) :
    ∀ i ≤ ((name, added) :: visits).length,
      b.listed config (index + i) = ((name, added) :: visits)[i]?.map Prod.fst := by
  intro i hi
  cases i with
  | zero => exact hname
  | succ i =>
    rw [Nat.add_comm i, ← Nat.add_assoc, ← hsame, h i (Nat.le_of_succ_le_succ hi), Nat.add_comm,
      List.getElem?_cons_succ]

/-- The names are those that were listed before anything was added. -/
theorem listed (h : b.Walk goals index f visits f') :
    ∀ i ≤ visits.length,
      b.listed f.scene.backstage.config (index + i) = visits[i]?.map Prod.fst := by
  induction h with
  | stop hnone =>
    intro i hi
    rw [Nat.le_zero.mp hi]
    exact hnone
  | blank hname _ ih => exact listed_cons hname rfl ih
  | skip hname _ _ _ ih | add hname _ _ _ ih =>
    exact listed_cons hname (addEffect_listed b goals _ _) ih

/-- Behind the stages that were there stand those of the effects that were added. -/
theorem stages (h : b.Walk goals index f visits f') :
    ∃ new kept, f'.stages = new ++ kept ∧ List.Forall₂ Stage.Same f.stages kept ∧
      new.reverse.map Stage.name = (visits.filter Prod.snd).map Prod.fst := by
  induction h with
  | stop => exact ⟨[], _, rfl, Front.LeadsBy.same_stages _, rfl⟩
  | blank _ _ ih => exact ih
  | skip _ _ hadmits _ ih =>
    obtain ⟨new, kept, heq, hkept, hnames⟩ := ih
    have hsame := addEffect_same_of_not_admits hadmits
    exact ⟨new, kept, heq, Front.LeadsBy.trans_stages hsame hkept, hnames⟩
  | add _ _ hadmits _ ih =>
    obtain ⟨new, kept, heq, hkept, hnames⟩ := ih
    obtain ⟨s, behind, hstages, hname, hsame⟩ := hadmits.stages
    rw [hstages] at hkept
    obtain ⟨s', behind', hs, hbehind, rfl⟩ := List.forall₂_cons_left_iff.mp hkept
    refine ⟨new ++ [s'], behind', ?_, Front.LeadsBy.trans_stages hsame hbehind, ?_⟩
    · rw [heq, List.append_assoc, List.singleton_append]
    · have hkeeps : s'.name = s.name := congrArg Post.name hs.post
      rw [List.reverse_concat, List.map_cons, hnames, hkeeps, hname, List.filter_cons_of_pos rfl,
        List.map_cons]

end Walk

/-- Adding all effects gets to the first number without a name. -/
theorem exists_walk (b : Builder ι ε) (goals : List StreamType) (f : Front ι ε) :
    ∃ visits, b.Walk goals 0 f visits (b.addEffects goals f) := by
  obtain ⟨last, hlast, -⟩ := b.exists_gap f.scene.backstage.config
  rw [← Nat.zero_add last] at hlast
  obtain ⟨visits, f', hwalk⟩ := Walk.exists_of_gap goals hlast
  have hlength : visits.length ≤ f.scene.backstage.config.values.size := by
    refine le_size_of_listed (b := b) fun i hi => ?_
    have hi' := hwalk.listed i hi.le
    rw [Nat.zero_add, List.getElem?_eq_getElem hi] at hi'
    rw [hi']
    exact Option.some_ne_none _
  have heq : b.addEffects goals f = f' := hwalk.addEffectsFrom_eq (by omega)
  exact ⟨visits, heq ▸ hwalk⟩

/-- Whatever the effects do, whether a chain can be built depends on its decoders alone. -/
theorem buildFrom_error_iff (b : Builder ι ε) (goals : List StreamType) (rehash : Bool)
    (now : Int64) (url : String) (ledger : Ledger) (w : World ε) (e : ChainError) :
    (b.buildFrom goals rehash now url ledger w).1 = .error e ↔
      (b.decode goals url (w.scene ledger)).1 = .error e := by
  unfold buildFrom
  rcases b.decode goals url (w.scene ledger) with ⟨e' | stages, scene⟩ <;> simp

/-- Adding effects looks at the numbers of the list in order, up to the first that had no name when
it began. It puts what is admitted on the way behind the stages that were there, which stay what
they are, and cannot make building a chain fail. -/
theorem addEffects_section (b : Builder ι ε) (goals : List StreamType) (f : Front ι ε) :
    ∃ visits,
      (∀ index ≤ visits.length,
        b.listed f.scene.backstage.config index = visits[index]?.map Prod.fst) ∧
      b.Walk goals 0 f visits (b.addEffects goals f) ∧
      (∀ rounds ≥ visits.length, b.addEffectsFrom goals rounds 0 f = b.addEffects goals f) ∧
      b.listed (b.addEffects goals f).scene.backstage.config =
        b.listed f.scene.backstage.config ∧
      (∃ new kept, (b.addEffects goals f).stages = new ++ kept ∧
        List.Forall₂ Stage.Same f.stages kept ∧
        new.reverse.map Stage.name = (visits.filter Prod.snd).map Prod.fst) ∧
      ∀ rehash now url ledger w e,
        (b.buildFrom goals rehash now url ledger w).1 = .error e ↔
          (b.decode goals url (w.scene ledger)).1 = .error e := by
  obtain ⟨visits, hwalk⟩ := b.exists_walk goals f
  refine ⟨visits, fun index hindex => ?_, hwalk, fun rounds => hwalk.addEffectsFrom_eq,
    b.addEffects_listed goals f, hwalk.stages, b.buildFrom_error_iff goals⟩
  rw [← hwalk.listed index hindex, Nat.zero_add]

end Builder

end MediaChain
