import MediaChain.Chain.Negotiation
import MediaChain.Proofs.Registry
import MediaChain.Proofs.Stage.Frame

/-!
# Which stages lead to a goal

Negotiation adds stages one at a time (`Builder.Grows`) until one produces a goal or none can be
added (`Builder.Stuck`), and it never runs out of rounds before that (`Builder.negotiate_cases`).
The stages it leaves stand for the url and for plugins with the best claims, and only the tail
produces a goal (`Builder.decode_searched`).
-/

namespace MediaChain

variable {ι ε : Type}

/-! ## Stages that were worked since -/

namespace Stage

variable {ss ss' : List (Stage ι ε)}

theorem outTypes_of_same (h : List.Forall₂ Same ss ss') :
    ss'.map Stage.outType = ss.map Stage.outType := by
  induction h with
  | nil => rfl
  | cons hs _ ih => rw [List.map_cons, List.map_cons, hs.outType, ih]

theorem tailType_of_same (h : List.Forall₂ Same ss ss') :
    Chain.tailType ss' = Chain.tailType ss := by
  unfold Chain.tailType
  rw [← List.head?_map, ← List.head?_map, outTypes_of_same h]

theorem Same.plugin {s s' : Stage ι ε} (h : s.Same s') {engine : Engine ι ε}
    (he : s.engine = some engine) :
    ∃ engine', s'.engine = some engine' ∧ engine'.plugin = engine.plugin := by
  have hmap := h.engine
  rw [he] at hmap
  obtain ⟨engine', he', hpair⟩ := Option.map_eq_some_iff.mp hmap
  exact ⟨engine', he', congrArg Prod.fst hpair⟩

/-- A stage cannot be set up if its plugin fails or declares no output type. -/
theorem create_error {p : Plugin ι ε} {settings : Settings} {goals : List StreamType}
    {f f' : Front ι ε} {e : StageError} (h : create p settings goals f = (.error e, f')) :
    (∃ source, (firstRun p settings goals f).1 = .error source ∧ e = .initFailed p.name source) ∨
      ∃ state, (firstRun p settings goals f).1 = .ok state ∧
        (firstRun p settings goals f).2.outType = none ∧ e = .outTypeUnset p.name := by
  rcases create_cases p settings goals f with
    ⟨source, hsource, heq⟩ | ⟨state, hstate, hnone, heq⟩ | ⟨state, outType, -, heq⟩
  all_goals
    rw [heq] at h
    simp only [Prod.mk.injEq, Except.error.injEq, reduceCtorEq, false_and] at h
  · exact .inl ⟨source, hsource, h.1.symm⟩
  · exact .inr ⟨state, hstate, hnone, h.1.symm⟩

end Stage

namespace Builder

variable {b : Builder ι ε} {goals : List StreamType} {url : String} {f f' : Front ι ε}
  {ss ss' : List (Stage ι ε)}

/-! ## Steps -/

/-- One more stage was set up, from the plugin with the best claim on what the tail produces. -/
inductive Grows (b : Builder ι ε) (goals : List StreamType) (f : Front ι ε) : Front ι ε → Prop
  | intro {p : Plugin ι ε} {s : Stage ι ε} {f' : Front ι ε} :
    f.stages.length < b.settings.stageLimit → b.registry.Best (Chain.tailType f.stages) p →
      Stage.create p b.settings goals f = (.ok s, f') →
        Grows b goals f ⟨s :: f'.stages, f'.scene⟩

/-- Stages were added one by one, none of which produces a goal. -/
abbrev Searched (b : Builder ι ε) (goals : List StreamType) : Front ι ε → Front ι ε → Prop :=
  Relation.ReflTransGen fun f f' =>
    b.Grows goals f f' ∧ reached goals (Chain.tailType f'.stages) = false

/-- Why no stage can be added to those that were set up for a url. -/
inductive Stuck (b : Builder ι ε) (goals : List StreamType) (url : String) (f : Front ι ε) :
    ChainError → Prop
  | tooLong : b.settings.stageLimit ≤ f.stages.length →
    Stuck b goals url f (.chainTooLong url b.settings.stageLimit)
  | unclaimed : f.stages.length < b.settings.stageLimit →
    b.registry.Unclaimed (Chain.tailType f.stages) →
      Stuck b goals url f (.noMatchingPlugin url (Chain.tailType f.stages).describe)
  | initFailed {p : Plugin ι ε} {e : PluginError} : f.stages.length < b.settings.stageLimit →
    b.registry.Best (Chain.tailType f.stages) p →
      (Stage.firstRun p b.settings goals f).1 = .error e →
        Stuck b goals url f (.stage (.initFailed p.name e))
  | outTypeUnset {p : Plugin ι ε} {state : ι} : f.stages.length < b.settings.stageLimit →
    b.registry.Best (Chain.tailType f.stages) p →
      (Stage.firstRun p b.settings goals f).1 = .ok state →
        (Stage.firstRun p b.settings goals f).2.outType = none →
          Stuck b goals url f (.stage (.outTypeUnset p.name))

theorem Grows.length (h : b.Grows goals f f') : f'.stages.length = f.stages.length + 1 := by
  obtain ⟨-, -, hcreate⟩ := h
  rw [List.length_cons, (Stage.create_same hcreate).length_eq]

theorem Grows.length_le (h : b.Grows goals f f') :
    f'.stages.length ≤ b.settings.stageLimit := by
  rw [h.length]
  obtain ⟨hlt, -, -⟩ := h
  exact hlt

/-! ## What the stages are -/

/-- Stages, tail first, of which the one in front stands for a url and each other one was set up
from the plugin with the best claim on what the one in front of it produces. -/
inductive Led (b : Builder ι ε) (goals : List StreamType) (url : String) :
    List (Stage ι ε) → Prop
  | url {s : Stage ι ε} : (Stage.ofUrl b.settings goals url).Same s → Led b goals url [s]
  | behind {s : Stage ι ε} {engine : Engine ι ε} {rest : List (Stage ι ε)} :
    Led b goals url rest → s.engine = some engine →
      b.registry.Best (Chain.tailType rest) engine.plugin → Led b goals url (s :: rest)

/-- Among stages, tail first, none but the one in front produces a goal. -/
def Unreached (goals : List StreamType) (stages : List (Stage ι ε)) : Prop :=
  ∀ type ∈ (stages.map Stage.outType).dropLast, reached goals type = false

theorem Led.same (h : b.Led goals url ss) (hsame : List.Forall₂ Stage.Same ss ss') :
    b.Led goals url ss' := by
  induction h generalizing ss' with
  | url hs =>
    obtain _ | ⟨hs', hnil⟩ := hsame
    cases hnil
    exact .url (hs.trans hs')
  | behind _ he hbest ih =>
    obtain _ | ⟨hs', hrest⟩ := hsame
    obtain ⟨engine', he', hplugin⟩ := hs'.plugin he
    refine .behind (ih hrest) he' ?_
    rw [Stage.tailType_of_same hrest, hplugin]
    exact hbest

theorem Led.length_pos (h : b.Led goals url ss) : 0 < ss.length := by
  cases h <;> exact Nat.succ_pos _

/-- The stages tell the url that they were set up for. -/
theorem Led.urlOf (h : b.Led goals url ss) : urlOf ss = url := by
  induction h with
  | url hs =>
    unfold Builder.urlOf
    rw [List.getLast?_singleton, Option.bind_some, hs.outType]
    simp [Stage.ofUrl, StreamType.ofUrl, StreamType.text?, StreamType.setText, Value.text?]
  | @behind s engine rest hled _ _ ih =>
    obtain ⟨s', rest', rfl⟩ := List.exists_cons_of_length_pos hled.length_pos
    rw [← ih]
    unfold Builder.urlOf
    rw [List.getLast?_cons_cons]

theorem Led.grows (h : b.Led goals url f.stages) (hgrows : b.Grows goals f f') :
    b.Led goals url f'.stages := by
  obtain ⟨-, hbest, hcreate⟩ := hgrows
  have hsame := Stage.create_same hcreate
  obtain ⟨state, bench, outType, -, hs, -⟩ := Stage.create_ok hcreate
  refine .behind (h.same hsame) (congrArg Stage.engine hs) ?_
  rw [Stage.tailType_of_same hsame]
  exact hbest

/-- A new tail leaves what the others produce. -/
theorem Grows.outTypes (h : b.Grows goals f f') :
    (f'.stages.map Stage.outType).tail = f.stages.map Stage.outType := by
  obtain ⟨-, -, hcreate⟩ := h
  exact Stage.outTypes_of_same (Stage.create_same hcreate)

theorem Unreached.grows (h : Unreached goals f.stages) (hpos : 0 < f.stages.length)
    (hgrows : b.Grows goals f f') (htail : reached goals (Chain.tailType f'.stages) = false) :
    Unreached goals f'.stages := by
  have htypes := hgrows.outTypes
  obtain ⟨s, rest, hlast⟩ := List.exists_cons_of_length_pos (l := f'.stages)
    (by rw [hgrows.length]; exact Nat.succ_pos _)
  rw [hlast] at htypes htail
  have hrest : rest.map Stage.outType = f.stages.map Stage.outType := htypes
  have hne : f.stages.map Stage.outType ≠ [] :=
    List.ne_nil_of_length_pos (by rwa [List.length_map])
  unfold Unreached
  rw [hlast, List.map_cons, hrest, List.dropLast_cons_of_ne_nil hne]
  intro type htype
  rcases List.mem_cons.mp htype with rfl | htype
  · exact htail
  · exact h type htype

/-! ## Searching -/

/-- Searching keeps the url in front and the best plugins behind it, passes no goal, and ends within
the limit. -/
theorem Searched.spec (h : b.Searched goals f f') (hled : b.Led goals url f.stages)
    (hopen : Unreached goals f.stages) :
    b.Led goals url f'.stages ∧ Unreached goals f'.stages ∧
      f'.stages.length ≤ max f.stages.length b.settings.stageLimit := by
  induction h with
  | refl => exact ⟨hled, hopen, Nat.le_max_left _ _⟩
  | tail _ hstep ih =>
    obtain ⟨hmid, hopen, -⟩ := ih
    obtain ⟨hgrows, htail⟩ := hstep
    exact ⟨hmid.grows hgrows, hopen.grows hmid.length_pos hgrows htail,
      Nat.le_trans hgrows.length_le (Nat.le_max_right _ _)⟩

/-- A next stage is set up unless there is a reason why none can be. -/
theorem next_cases (hled : b.Led goals url f.stages) :
    (∃ e f', b.next goals f = (.error e, f') ∧ b.Stuck goals url f e) ∨
      ∃ s f', b.next goals f = (.ok s, f') ∧ b.Grows goals f ⟨s :: f'.stages, f'.scene⟩ := by
  unfold next
  rw [hled.urlOf]
  split
  next hlong => exact .inl ⟨_, _, rfl, .tooLong hlong⟩
  next hshort =>
    have hlt := Nat.lt_of_not_le hshort
    dsimp only
    split
    next hnone => exact .inl ⟨_, _, rfl, .unclaimed hlt (Registry.best?_eq_none_iff.mp hnone)⟩
    next p hp =>
      have hbest := Registry.best?_eq_some_iff.mp hp
      rcases hcreate : Stage.create p b.settings goals f with ⟨e | s, f'⟩
      · refine .inl ⟨_, _, rfl, ?_⟩
        rcases Stage.create_error hcreate with ⟨source, hrun, rfl⟩ | ⟨state, hrun, hnone, rfl⟩
        · exact .initFailed hlt hbest hrun
        · exact .outTypeUnset hlt hbest hrun hnone
      · exact .inr ⟨s, f', rfl, .intro hlt hbest hcreate⟩

/-- Negotiation goes on until a goal is reached or no stage can be added, however many rounds it is
given beyond those that the limit leaves. -/
theorem negotiate_cases (rounds : Nat) (hled : b.Led goals url f.stages)
    (hrounds : b.settings.stageLimit ≤ rounds + f.stages.length) :
    ∃ f', b.Searched goals f f' ∧
      ((∃ e f'', b.negotiate goals rounds f = (.error e, f'') ∧ b.Stuck goals url f' e) ∨
        ∃ f'', b.negotiate goals rounds f = (.ok (), f'') ∧ b.Grows goals f' f'' ∧
          reached goals (Chain.tailType f''.stages) = true) := by
  induction rounds generalizing f with
  | zero =>
    refine ⟨f, .refl, .inl ⟨_, f, rfl, ?_⟩⟩
    rw [hled.urlOf]
    exact .tooLong (by omega)
  | succ rounds ih =>
    unfold negotiate
    rcases next_cases hled with ⟨e, f', hnext, hstuck⟩ | ⟨s, f', hnext, hgrows⟩
    · rw [hnext]
      exact ⟨f, .refl, .inl ⟨e, f', rfl, hstuck⟩⟩
    · rw [hnext]
      cases hreached : reached goals s.outType with
      | true =>
        exact ⟨f, .refl, .inr ⟨_, if_pos hreached, hgrows, hreached⟩⟩
      | false =>
        have hlength := hgrows.length
        obtain ⟨last, hsearched, hend⟩ := ih (hled.grows hgrows) (by omega)
        refine ⟨last, .head ⟨hgrows, hreached⟩ hsearched, ?_⟩
        dsimp only
        rw [hreached, if_neg Bool.false_ne_true]
        exact hend

/-! ## Decoding -/

/-- What is known of the samples is recorded as facts of the tail, one after the other. So what each
of them leaves in force holds in the end. -/
theorem recordFormat_invariant {P : Front ι ε → Prop}
    (hP : ∀ tail rest (scene : Scene ε) key value, P ⟨tail :: rest, scene⟩ →
      P ⟨(tail.recordFact scene.log key value).1 :: rest,
        { scene with log := (tail.recordFact scene.log key value).2 }⟩)
    {f : Front ι ε} (h : P f) : P (recordFormat f) := by
  obtain ⟨stages, scene⟩ := f
  cases stages with
  | nil => exact h
  | cons tail rest =>
    unfold recordFormat recordAll
    dsimp only
    generalize formatFacts tail.outType = facts
    induction facts generalizing tail scene with
    | nil => exact h
    | cons fact facts ih =>
      exact ih { scene with log := (tail.recordFact scene.log fact.1 fact.2).2 } _
        (hP tail rest scene fact.1 fact.2 h)

theorem recordFormat_leads (f : Front ι ε) : f.Leads (recordFormat f) := by
  refine recordFormat_invariant (P := f.Leads) (fun tail rest scene key value hf => ?_)
    ⟨Front.LeadsBy.same_stages _, .refl⟩
  obtain ⟨hstages, hsteps⟩ := hf
  refine ⟨Front.LeadsBy.trans_stages hstages (.cons ⟨rfl, rfl, rfl⟩
    (Front.LeadsBy.same_stages rest)), hsteps.tail (.fact scene tail.order tail.name key value)⟩

/-- What negotiation begins with: a stage for the url, and the facts that its arguments state. -/
def start (b : Builder ι ε) (goals : List StreamType) (url decoded : String) (scene : Scene ε) :
    Front ι ε :=
  ⟨[.ofUrl b.settings goals decoded], { scene with log := Ledger.seedArgs scene.log url }⟩

theorem decode_malformed (goals : List StreamType) (scene : Scene ε)
    (h : Url.decode? (Url.base url) = none) :
    b.decode goals url scene =
      (.error (.malformedUrl url), { scene with log := Ledger.seedArgs scene.log url }) := by
  unfold decode
  dsimp only
  rw [h]

theorem decode_eq {decoded : String} (goals : List StreamType) (scene : Scene ε)
    (h : Url.decode? (Url.base url) = some decoded) :
    b.decode goals url scene =
      match b.negotiate goals (b.settings.stageLimit + 1) (b.start goals url decoded scene) with
      | (.error e, f) => (.error e, abandon f)
      | (.ok (), f) => (.ok (recordFormat f).stages, (recordFormat f).scene) := by
  unfold decode
  dsimp only
  rw [h]
  rfl

/-- What comes out of decoding has been negotiated. -/
theorem decode_ok {scene scene' : Scene ε} {stages : List (Stage ι ε)}
    (h : b.decode goals url scene = (.ok stages, scene')) :
    ∃ decoded f, Url.decode? (Url.base url) = some decoded ∧
      b.negotiate goals (b.settings.stageLimit + 1) (b.start goals url decoded scene) =
        (.ok (), f) ∧ recordFormat f = ⟨stages, scene'⟩ := by
  cases hdecoded : Url.decode? (Url.base url) with
  | none =>
    rw [decode_malformed goals scene hdecoded] at h
    simp at h
  | some decoded =>
    rw [decode_eq goals scene hdecoded] at h
    split at h
    next => simp at h
    next f heq =>
      obtain ⟨rfl, rfl⟩ := h
      exact ⟨decoded, f, rfl, heq, rfl⟩

/-- A url whose part before the arguments can be decoded leads as far as the best plugins lead.
Stages are added as long as none of them produces a goal; if one cannot be added the reason is
given, and else the stages up to the first that produces a goal are what comes out. -/
theorem decode_searched (b : Builder ι ε) (goals : List StreamType) (url : String)
    (scene : Scene ε) :
    match Url.decode? (Url.base url) with
    | none => (b.decode goals url scene).1 = .error (.malformedUrl url)
    | some decoded =>
      ∃ f, b.Searched goals (b.start goals url decoded scene) f ∧ b.Led goals decoded f.stages ∧
        Unreached goals f.stages ∧ f.stages.length ≤ max 1 b.settings.stageLimit ∧
        ((∃ e, b.Stuck goals decoded f e ∧ (b.decode goals url scene).1 = .error e) ∨
          ∃ stages f', (b.decode goals url scene).1 = .ok stages ∧ b.Grows goals f f' ∧
            List.Forall₂ Stage.Same f'.stages stages ∧ b.Led goals decoded stages ∧
            2 ≤ stages.length ∧ stages.length ≤ b.settings.stageLimit ∧
            reached goals (Chain.tailType stages) = true ∧ Unreached goals stages.tail) := by
  cases hdecoded : Url.decode? (Url.base url) with
  | none => exact congrArg Prod.fst (decode_malformed goals scene hdecoded)
  | some decoded =>
    have hled : b.Led goals decoded (b.start goals url decoded scene).stages := .url (.refl _)
    obtain ⟨f, hsearched, hend⟩ := negotiate_cases (b.settings.stageLimit + 1) hled
      (Nat.le_add_right_of_le (Nat.le_succ _))
    obtain ⟨hf, hopen, hlength⟩ := hsearched.spec hled nofun
    refine ⟨f, hsearched, hf, hopen, hlength, ?_⟩
    rw [decode_eq goals scene hdecoded]
    rcases hend with ⟨e, f', hrun, hstuck⟩ | ⟨f', hrun, hgrows, hreached⟩
    · rw [hrun]
      exact .inl ⟨e, hstuck, rfl⟩
    · rw [hrun]
      have hsame := (recordFormat_leads f').stages
      refine .inr ⟨_, f', rfl, hgrows, hsame, (hf.grows hgrows).same hsame, ?_, ?_, ?_, ?_⟩
      · rw [← hsame.length_eq, hgrows.length]
        exact Nat.succ_le_succ hf.length_pos
      · rw [← hsame.length_eq]
        exact hgrows.length_le
      · rw [Stage.tailType_of_same hsame]
        exact hreached
      · unfold Unreached
        rw [List.map_tail, Stage.outTypes_of_same hsame, hgrows.outTypes]
        exact hopen

end Builder

end MediaChain
