import MediaChain.Proofs.Stage.Relay

/-!
# Seeking

A plugin stands behind the bytes that its stage has produced ahead, so the stage corrects a seek
from here by their number. With that, seeking in stages is seeking in the bytes that their reader
takes, however many stages read ahead: `Seekable` says what one who seeks can rely on, and it holds
for a plugin that has the data itself (`serving_steering`) and for every relay that passes seeks on
(`Seekable.carrying`).
-/

namespace MediaChain

variable {ι ε α : Type} {n : Nat} {data rest : Bytes} {R : List (Stage ι ε) → Bytes → Prop}

/-! ## Positions -/

/-- The position that is asked for by one who stands at a position in data of some size. -/
def seekTarget (size : Nat) (position offset : Int) : Whence → Int
  | .start => offset
  | .here => position + offset
  | .finish => size + offset

/-- A position in data of some size, or its end. -/
def InData (size : Nat) (target : Int) : Prop := 0 ≤ target ∧ target ≤ size

instance (size : Nat) (target : Int) : Decidable (InData size target) :=
  inferInstanceAs (Decidable (_ ∧ _))

/-- The correction that a stage makes cancels against what it has produced ahead. -/
theorem seekTarget_seekOffset (s : Stage ι ε) (size : Nat) (rest : Bytes) (offset : Int)
    (whence : Whence) :
    seekTarget size (size - rest.length) (s.seekOffset offset whence) whence =
      seekTarget size (size - (s.buffer ++ rest).length) offset whence := by
  cases whence with
  | here =>
    simp only [seekTarget, Stage.seekOffset, List.length_append]
    omega
  | _ => rfl

/-! ## What a seek comes to -/

/-- Of the stages, no plugin is ahead of its reader. -/
def Rewound (stages : List (Stage ι ε)) : Prop :=
  ∀ s ∈ stages, s.engine.isSome = true →
    s.buffer = [] ∧ s.desk.marks.pending = [] ∧ s.done = false

/-- Of the stages, all that plugins drive have failed. -/
def Failed (stages : List (Stage ι ε)) : Prop :=
  ∀ s ∈ stages, s.engine.isSome = true → s.errored = true

/-- A seek for a position in some data gives that position and leaves what follows it to be read;
else it fails, and so do all stages. -/
structure Lands (data : Bytes) (R : List (Stage ι ε) → Bytes → Prop) (target : Int)
    (result : Except α Nat) (stages : List (Stage ι ε)) : Prop where
  inside : InData data.length target →
    result = .ok target.toNat ∧ R stages (data.drop target.toNat) ∧ Rewound stages
  outside : ¬InData data.length target → (∃ e, result = .error e) ∧ Failed stages

namespace Lands

variable {target : Int} {stages : List (Stage ι ε)}

theorem of_ok {p : Nat} (h : Lands data R target (.ok p : Except α Nat) stages) :
    InData data.length target ∧ (p : Int) = target ∧ R stages (data.drop p) ∧ Rewound stages := by
  by_cases hin : InData data.length target
  · obtain ⟨hp, hrest, hrewound⟩ := h.inside hin
    obtain rfl := Except.ok.inj hp
    exact ⟨hin, Int.toNat_of_nonneg hin.1, hrest, hrewound⟩
  · obtain ⟨⟨e, he⟩, -⟩ := h.outside hin
    cases he

theorem of_error {e : α} (h : Lands data R target (.error e) stages) : Failed stages := by
  by_cases hin : InData data.length target
  · obtain ⟨hp, -⟩ := h.inside hin
    cases hp
  · exact (h.outside hin).2

end Lands

/-- A reader of the first of `n + 1` stages can also seek in the data that they supply. -/
structure Seekable (n : Nat) (data : Bytes) (R : List (Stage ι ε) → Bytes → Prop) : Prop
    extends Supply n R where
  seek : ∀ {s front rest}, R (s :: front) rest → ∀ (scene : Scene ε) (offset : Int)
    (whence : Whence),
      Lands data R (seekTarget data.length (data.length - rest.length) offset whence)
        (s.seek (.reaching n) offset whence ⟨front, scene⟩).1
        ((s.seek (.reaching n) offset whence ⟨front, scene⟩).2.1 ::
          (s.seek (.reaching n) offset whence ⟨front, scene⟩).2.2.stages)

/-- A plugin that produces bytes of some data can seek in it. -/
structure Steering (n : Nat) (data : Bytes)
    (K : Plugin ι ε → ι → List (Stage ι ε) → Bytes → Prop) : Prop extends Producing n K where
  seeks : ∀ {p state front rest}, K p state front rest → p.capabilities.seek = true
  seek : ∀ {p state front rest}, K p state front rest → ∀ (offset : Int) (whence : Whence)
    (post : Post) (ahead : Nat) (b : Bench ι ε), b.front.stages = front →
      ∃ result state' b', (p.seek state offset whence).run
          (Stage.answer (.reaching n) post ahead false) b = ((result, state'), b') ∧
        Lands data (K p state') (seekTarget data.length (data.length - rest.length) offset whence)
          result b'.front.stages

/-! ## Stages -/

namespace Stage

variable {tap : Tap ι ε} {s : Stage ι ε} {f : Front ι ε} {e : Engine ι ε} {offset : Int}
  {whence : Whence} {state : ι} {b : Bench ι ε}

/-- What the callbacks that seek in a stage's plugin begin with. -/
def seekBench (s : Stage ι ε) (f : Front ι ε) (e : Engine ι ε) (offset : Int) (whence : Whence) :
    Bench ι ε :=
  ⟨s.desk, some s.outType, f.record (.seek s.name e.id (s.seekOffset offset whence) whence)⟩

/-- A seek does what the plugin does about it. -/
theorem seek_of_run (he : s.engine = some e) (herrored : s.errored = false)
    (hseeks : e.plugin.capabilities.seek = true) {result : Except PluginError Nat}
    (hrun : (e.plugin.seek e.state (s.seekOffset offset whence) whence).run
      (answer tap s.post s.buffer.length false) (s.seekBench f e offset whence) =
        ((result, state), b)) :
    s.seek tap offset whence f =
      match result with
      | .ok position =>
        (.ok position,
          { s with
            desk := { b.desk with marks := b.desk.marks.clear }
            engine := some { e with state }
            buffer := []
            done := false },
          b.front)
      | .error err =>
        (.error (.plugin s.name err),
          { s with desk := b.desk, engine := some { e with state }, errored := true },
          b.front) := by
  unfold seekBench at hrun
  unfold Stage.seek play
  rw [if_neg (by rw [herrored]; exact Bool.false_ne_true), he]
  dsimp only
  rw [if_pos hseeks, hrun]
  cases result <;> rfl

/-- A stage seeks in the bytes that its reader takes. -/
theorem Holds.seek {K : Plugin ι ε → ι → List (Stage ι ε) → Bytes → Prop}
    (hK : Steering n data K) (h : s.Holds K f.stages rest) (offset : Int) (whence : Whence) :
    Lands data (Stocked K)
      (seekTarget data.length (data.length - (s.buffer ++ rest).length) offset whence)
      (s.seek (.reaching n) offset whence f).1
      ((s.seek (.reaching n) offset whence f).2.1 ::
        (s.seek (.reaching n) offset whence f).2.2.stages) := by
  obtain ⟨e, he, hkeep⟩ := h.engine
  obtain ⟨result, state, b, hrun, hlands⟩ :=
    hK.seek hkeep (s.seekOffset offset whence) whence s.post s.buffer.length
      (s.seekBench f e offset whence) rfl
  rw [seekTarget_seekOffset] at hlands
  rw [seek_of_run he h.not_errored (hK.seeks hkeep) hrun]
  constructor
  · intro hin
    obtain ⟨rfl, hrest, hrewound⟩ := hlands.inside hin
    refine ⟨rfl, ?_, ?_⟩
    · exact .intro ⟨⟨_, rfl, hrest⟩, h.not_errored, Marks.ordered_of_pending_eq_nil rfl, nofun⟩
    · exact List.forall_mem_cons.mpr ⟨fun _ => ⟨rfl, rfl, rfl⟩, hrewound⟩
  · intro hout
    obtain ⟨⟨err, rfl⟩, hfailed⟩ := hlands.outside hout
    exact ⟨⟨_, rfl⟩, List.forall_mem_cons.mpr ⟨fun _ => rfl, hfailed⟩⟩

end Stage

theorem Steering.seekable {K : Plugin ι ε → ι → List (Stage ι ε) → Bytes → Prop}
    (hK : Steering n data K) : Seekable n data (Stocked K) := by
  refine ⟨hK.toProducing.supply, ?_⟩
  rintro s front _ ⟨h⟩ scene offset whence
  exact h.seek hK (f := ⟨front, scene⟩) offset whence

/-! ## Plugins -/

/-- A plugin that has some data itself: in a state in which it is located at a position, a read
gives the bytes from there on, and a seek for a position in the data locates it there; any other
seek fails. -/
structure Plugin.Serves (p : Plugin ι ε) (data : Bytes) (located : ι → Nat → Prop) : Prop where
  within : ∀ {state position}, located state position → position ≤ data.length
  feeds : p.Feeds fun state rest => ∃ position, located state position ∧ data.drop position = rest
  seeks : p.capabilities.seek = true
  seek : ∀ {state position}, located state position → ∀ (offset : Int) (whence : Whence),
    (p.seek state offset whence).Ends Request.IsLocal fun r =>
      if InData data.length (seekTarget data.length position offset whence) then
        r.1 = .ok (seekTarget data.length position offset whence).toNat ∧
          located r.2 (seekTarget data.length position offset whence).toNat
      else ∃ e, r.1 = .error e

/-- A plugin that seeks by the same seek in the stage in front. -/
structure Plugin.Refers (p : Plugin ι ε) (fit : ι → Prop) : Prop where
  seeks : p.capabilities.seek = true
  seek : ∀ {state}, fit state → ∀ (offset : Int) (whence : Whence),
    (p.seek state offset whence).Forwards (.seek offset whence) fun answer r =>
      match answer with
      | .ok position => r.1 = .ok position ∧ fit r.2
      | .error _ => ∃ e, r.1 = .error e

/-- A plugin serves what is left of some data, and no stage in front is driven. -/
def Serving (n : Nat) (data : Bytes) (p : Plugin ι ε) (state : ι) (front : List (Stage ι ε))
    (rest : Bytes) : Prop :=
  front.length = n ∧ (∀ s ∈ front, s.engine = none) ∧
    ∃ located position, p.Serves data located ∧ located state position ∧ data.drop position = rest

/-- A plugin relays, unchanged, what the stages in front have left to give, and refers to them when
it seeks. -/
def Carrying (R : List (Stage ι ε) → Bytes → Prop) (p : Plugin ι ε) (state : ι)
    (front : List (Stage ι ε)) (rest : Bytes) : Prop :=
  ∃ fit, p.Relays 0 fit ∧ p.Refers fit ∧ fit state ∧ R front rest

/-- A reader at a position has the rest of the data in front. -/
theorem length_sub_length_drop {position : Nat} (h : position ≤ data.length) :
    (data.length - (data.drop position).length : Int) = position := by
  rw [List.length_drop]
  omega

theorem serving_steering (n : Nat) (data : Bytes) :
    Steering n data (Serving (ι := ι) (ε := ε) n data) := by
  refine ⟨⟨?_, ?_⟩, ?_, ?_⟩
  · rintro p state front rest ⟨hlen, -⟩
    exact hlen
  · rintro p state front rest ⟨hlen, hfront, located, position, hp, hstate, hrest⟩ window hw post
      ahead b rfl
    have hfeeds := @hp.feeds
    obtain ⟨reply, state', b', hrun, htakes, ⟨position', hstate', hrest'⟩, hstages⟩ :=
      hfeeds.run ⟨position, hstate, hrest⟩ hw (.reaching n) post ahead b
    refine ⟨reply, state', b', hrun, htakes, ?_⟩
    rw [hstages]
    exact ⟨hlen, hfront, located, position', hp, hstate', hrest'⟩
  · rintro p state front rest ⟨-, -, located, position, hp, -⟩
    exact hp.seeks
  · rintro p state front _ ⟨hlen, hfront, located, position, hp, hstate, rfl⟩ offset whence post
      ahead b rfl
    obtain ⟨hresult, hstages⟩ :=
      (hp.seek hstate offset whence).run (Stage.answer (.reaching n) post ahead false)
        (J := fun b' => b'.front.stages = b.front.stages)
        (fun q b' hq hb' => (Stage.answer_local _ _ _ _ hq b').1.trans hb') rfl
    have hundriven : ∀ s ∈ b.front.stages, ¬s.engine.isSome = true := fun s hs => by
      rw [hfront s hs]
      exact Bool.false_ne_true
    refine ⟨_, _, _, rfl, ?_⟩
    rw [length_sub_length_drop (hp.within hstate), hstages]
    constructor
    · intro hin
      rw [if_pos hin] at hresult
      exact ⟨hresult.1, ⟨hlen, hfront, located, _, hp, hresult.2, rfl⟩,
        fun s hs hdriven => absurd hdriven (hundriven s hs)⟩
    · intro hout
      rw [if_neg hout] at hresult
      exact ⟨hresult, fun s hs hdriven => absurd hdriven (hundriven s hs)⟩

/-- A seek in the stages in front lands in what they supply. -/
theorem Seekable.bench_seek (hR : Seekable n data R) (post : Post) {b : Bench ι ε}
    (hb : R b.front.stages rest) (offset : Int) (whence : Whence) :
    Lands data R (seekTarget data.length (data.length - rest.length) offset whence)
      (b.seek (.reaching (n + 1)) post offset whence).1
      (b.seek (.reaching (n + 1)) post offset whence).2.front.stages := by
  obtain ⟨desk, outType, ⟨stages, scene⟩⟩ := b
  cases stages with
  | nil => exact absurd (hR.length hb) (Nat.succ_ne_zero n).symm
  | cons s front =>
    have hlands := hR.seek hb scene offset whence
    unfold Bench.seek Bench.reach
    dsimp only [Tap.reaching, Tap.through]
    cases hseek : s.seek (.reaching n) offset whence ⟨front, scene⟩ with
    | mk result sf =>
      rw [hseek] at hlands
      cases result <;> exact hlands

theorem Seekable.carrying (hR : Seekable n data R) : Steering (n + 1) data (Carrying R) := by
  refine ⟨⟨?_, ?_⟩, ?_, ?_⟩
  · rintro p state front rest ⟨fit, -, -, -, hfront⟩
    exact hR.length hfront
  · rintro p state front rest ⟨fit, hp, hrefers, hfit, hfront⟩ window hw post ahead b rfl
    obtain ⟨reply, state', b', hrun, htakes, hfit', hR'⟩ :=
      hR.toSupply.relay_run hp hfit hw post ahead hfront
    have hunmasked : rest.map (· ^^^ (0 : UInt8)) = rest := by simp
    rw [hunmasked] at htakes
    exact ⟨reply, state', b', hrun, htakes, fit, hp, hrefers, hfit', hR'⟩
  · rintro p state front rest ⟨fit, -, hrefers, -⟩
    exact hrefers.seeks
  · rintro p state front rest ⟨fit, hp, hrefers, hfit, hfront⟩ offset whence post ahead b rfl
    obtain ⟨answer, hresult, hlands⟩ :=
      (hrefers.seek hfit offset whence).run (Stage.answer (.reaching (n + 1)) post ahead false)
        (J := fun b => R b.front.stages rest)
        (K := fun answer b => Lands data R
          (seekTarget data.length (data.length - rest.length) offset whence) answer b.front.stages)
        (fun q b hq hb => by rwa [(Stage.answer_local _ _ _ _ hq b).1])
        (fun b hb => hR.bench_seek post hb offset whence)
        (fun answer q b hq hb => by rwa [(Stage.answer_local _ _ _ _ hq b).1]) hfront
    refine ⟨_, _, _, rfl, ?_⟩
    constructor
    · intro hin
      obtain ⟨rfl, hR', hrewound⟩ := hlands.inside hin
      exact ⟨hresult.1, ⟨fit, hp, hrefers, hresult.2, hR'⟩, hrewound⟩
    · intro hout
      obtain ⟨⟨err, rfl⟩, hfailed⟩ := hlands.outside hout
      exact ⟨hresult, hfailed⟩

/-! ## Stages in a row -/

/-- A stage that serves some data, and so many behind it that carry it. -/
def Carried (n : Nat) (data : Bytes) : Nat → List (Stage ι ε) → Bytes → Prop
  | 0 => Stocked (Serving n data)
  | count + 1 => Stocked (Carrying (Carried n data count))

theorem Carried.recordFact {count : Nat} {s : Stage ι ε} {front : List (Stage ι ε)}
    (h : Carried n data count (s :: front) rest) (log : Facts.Log) (key : String) (value : Value) :
    Carried n data count ((s.recordFact log key value).1 :: front) rest := by
  cases count with
  | zero => exact Stocked.recordFact h log key value
  | succ count => exact Stocked.recordFact h log key value

theorem carried_seekable (n : Nat) (data : Bytes) (count : Nat) :
    Seekable (n + count) data (Carried (ι := ι) (ε := ε) n data count) := by
  induction count with
  | zero => exact (serving_steering n data).seekable
  | succ count ih => exact ih.carrying.seekable

end MediaChain
