import MediaChain.Proofs.Stage.Relay
import MediaChain.Stage.Life

/-!
# Stages that were just set up

What `Stage.create` leaves: an empty stage with the marks that setting it up asked for
(`Stage.create_ok`). If setting up asked for nothing that reaches the stages in front, these are as
they were, and the stage holds all that its plugin has to give (`Stage.stocked_of_create`). A
`Pipeline` is a feed with relays set up behind it; facts may have been recorded for each of them.
-/

namespace MediaChain

variable {ι ε : Type}

namespace Stage

variable {p : Plugin ι ε} {settings : Settings} {goals : List StreamType} {s : Stage ι ε}
  {f f' : Front ι ε}

/-! ## Setting up -/

/-- The place of a stage that is set up behind others. -/
def firstPost (p : Plugin ι ε) (settings : Settings) (goals : List StreamType) (f : Front ι ε) :
    Post :=
  .ofSettings settings goals p.name (nextOrder f.stages)

/-- What setting up a stage begins with. -/
def firstBench (p : Plugin ι ε) (f : Front ι ε) : Bench ι ε :=
  let id := f.scene.backstage.births
  let born := { f.scene.backstage with births := id + 1 }
  let f := { f with scene := { f.scene with backstage := born } }
  ⟨⟨nextToken f.stages, .empty, []⟩, none,
    f.record (.init p.name id (nextOrder f.stages) (nextToken f.stages))⟩

/-- The requests that a plugin makes when it sets up a stage. -/
def firstAsked (p : Plugin ι ε) (settings : Settings) (goals : List StreamType) (f : Front ι ε) :
    List (Request ε) :=
  p.init.trace (answer (.reaching f.stages.length) (firstPost p settings goals f) 0 true)
    (firstBench p f)

/-- How setting up a stage ends for its plugin. -/
def firstRun (p : Plugin ι ε) (settings : Settings) (goals : List StreamType) (f : Front ι ε) :
    Except PluginError ι × Bench ι ε :=
  p.init.run (answer (.reaching f.stages.length) (firstPost p settings goals f) 0 true)
    (firstBench p f)

theorem create_ok (h : create p settings goals f = (.ok s, f')) :
    ∃ state bench outType, firstRun p settings goals f = (.ok state, bench) ∧
      s = ⟨firstPost p settings goals f, bench.desk, some ⟨p, f.scene.backstage.births, state⟩,
        outType, [], [], false, false⟩ ∧
      f'.stages = bench.front.stages := by
  unfold create at h
  dsimp only at h
  split at h
  next => simp at h
  next state hstate =>
    split at h
    next => simp at h
    next outType _ =>
      simp only [Prod.mk.injEq, Except.ok.injEq] at h
      obtain ⟨rfl, rfl⟩ := h
      exact ⟨state, _, outType, Prod.ext hstate rfl, rfl, rfl⟩

/-- The marks of a new stage are those that setting it up asked for. -/
theorem create_marks (h : create p settings goals f = (.ok s, f')) :
    s.desk.marks = (firstAsked p settings goals f).foldl (Request.place 0) .empty := by
  obtain ⟨state, bench, outType, hrun, rfl, -⟩ := create_ok h
  have hmarks := run_marks (.reaching f.stages.length) (firstPost p settings goals f) 0 true
    p.init (firstBench p f)
  unfold firstRun at hrun
  rw [hrun] at hmarks
  exact hmarks

/-- Setting up with local requests leaves the stages in front and the configuration as they are. -/
theorem firstRun_local {P : ι → Prop} (hp : p.Begins P) (settings : Settings)
    (goals : List StreamType) (f : Front ι ε) :
    (∀ state, (firstRun p settings goals f).1 = .ok state → P state) ∧
      (firstRun p settings goals f).2.front.stages = f.stages ∧
      (firstRun p settings goals f).2.front.scene.backstage.config = f.scene.backstage.config := by
  refine hp.run _ (J := fun b : Bench ι ε => b.front.stages = f.stages ∧
    b.front.scene.backstage.config = f.scene.backstage.config) (fun q b hq hb => ?_) ⟨rfl, rfl⟩
  obtain ⟨hstages, hconfig⟩ := answer_local _ _ _ _ hq b
  exact ⟨hstages.trans hb.1, hconfig.trans hb.2⟩

/-- That holds even if setting up fails. -/
theorem create_front {P : ι → Prop} (hp : p.Begins P) (settings : Settings)
    (goals : List StreamType) (f : Front ι ε) :
    (create p settings goals f).2.stages = f.stages ∧
      (create p settings goals f).2.scene.backstage.config = f.scene.backstage.config := by
  obtain ⟨-, hstages, hconfig⟩ := firstRun_local hp settings goals f
  have hfarewell : ∀ (id : Nat) (b : Backstage ε), (farewell p id b).config = b.config := by
    intro id b
    unfold farewell
    split <;> rfl
  unfold create
  dsimp only
  split
  · exact ⟨hstages, hconfig⟩
  · split
    · exact ⟨hstages, (hfarewell _ _).trans hconfig⟩
    · exact ⟨hstages, hconfig⟩

/-- Nothing of a new stage was read yet, so what its plugin has to give is what it supplies. -/
theorem stocked_of_create {K : Plugin ι ε → ι → List (Stage ι ε) → Bytes → Prop} {P : ι → Prop}
    {rest : Bytes} (hp : p.Begins P) (hK : ∀ state, P state → K p state f.stages rest)
    (h : create p settings goals f = (.ok s, f')) : Stocked K (s :: f'.stages) rest := by
  obtain ⟨hstate, hstages, -⟩ := firstRun_local hp settings goals f
  obtain ⟨state, bench, outType, hrun, hs, hf'⟩ := create_ok h
  rw [hrun] at hstate hstages
  have hmarks : s.desk.marks.Ordered 0 := by
    rw [create_marks h]
    exact Marks.Ordered.foldl_place (Marks.ordered_of_pending_eq_nil rfl) _
  subst hs
  rw [hf', hstages]
  exact .intro ⟨⟨_, rfl, hK state (hstate state rfl)⟩, rfl, hmarks, fun hd => by simp at hd⟩

end Stage

/-! ## Pipelines -/

/-- Stages of which the one in front feeds some bytes and the others, tail first, relay under masks.
All of them are as they were set up, except that facts may have been recorded for a stage before the
next one was set up behind it. -/
inductive Pipeline (bytes : Bytes) : List UInt8 → List (Stage ι ε) → Prop
  | feed {p : Plugin ι ε} {settings : Settings} {goals : List StreamType} {s : Stage ι ε}
    {f f' : Front ι ε} {holds : ι → Bytes → Prop} :
    p.Feeds holds → p.Begins (holds · bytes) → Stage.create p settings goals f = (.ok s, f') →
      Pipeline bytes [] (s :: f'.stages)
  | relay {p : Plugin ι ε} {settings : Settings} {goals : List StreamType} {s : Stage ι ε}
    {f f' : Front ι ε} {mask : UInt8} {masks : List UInt8} {fit : ι → Prop} :
    Pipeline bytes masks f.stages → p.Relays mask fit → p.Begins fit →
      Stage.create p settings goals f = (.ok s, f') →
        Pipeline bytes (mask :: masks) (s :: f'.stages)
  | recordFact {masks : List UInt8} {s : Stage ι ε} {front : List (Stage ι ε)} (log : Facts.Log)
    (key : String) (value : Value) :
    Pipeline bytes masks (s :: front) →
      Pipeline bytes masks ((s.recordFact log key value).1 :: front)

/-- Bytes under several masks. -/
def maskAll (masks : List UInt8) (bytes : Bytes) : Bytes :=
  bytes.map (masks.foldl (· ^^^ ·) ·)

theorem maskAll_nil (bytes : Bytes) : maskAll [] bytes = bytes := List.map_id _

theorem foldl_xor (masks : List UInt8) (a b : UInt8) :
    masks.foldl (· ^^^ ·) (a ^^^ b) = masks.foldl (· ^^^ ·) a ^^^ b := by
  induction masks generalizing a with
  | nil => rfl
  | cons mask masks ih =>
    rw [List.foldl_cons, List.foldl_cons, UInt8.xor_assoc, UInt8.xor_comm b, ← UInt8.xor_assoc, ih]

theorem maskAll_cons (mask : UInt8) (masks : List UInt8) (bytes : Bytes) :
    maskAll (mask :: masks) bytes = (maskAll masks bytes).map (· ^^^ mask) := by
  unfold maskAll
  rw [List.map_map]
  exact List.map_congr_left fun b _ => foldl_xor masks b mask

/-- A pipeline supplies the bytes of its feed under all the masks. -/
theorem Pipeline.relayed {bytes : Bytes} {masks : List UInt8} {stages : List (Stage ι ε)}
    (h : Pipeline bytes masks stages) :
    ∃ n, Relayed (Stocked (Feeding n)) masks stages (maskAll masks bytes) := by
  induction h with
  | @feed p settings goals s f f' holds hp hinit hcreate =>
    refine ⟨f.stages.length, ?_⟩
    rw [maskAll_nil]
    exact Stage.stocked_of_create hinit (fun state hstate => ⟨rfl, holds, hp, hstate⟩) hcreate
  | relay _ hp hinit hcreate ih =>
    obtain ⟨n, hfront⟩ := ih
    refine ⟨n, ?_⟩
    rw [maskAll_cons]
    exact Stage.stocked_of_create hinit
      (fun state hstate => ⟨_, _, hp, hstate, hfront, rfl⟩) hcreate
  | recordFact log key value _ ih =>
    obtain ⟨n, hs⟩ := ih
    exact ⟨n, hs.recordFact log key value⟩

end MediaChain
