import MediaChain.Chain.Build
import MediaChain.Proofs.Chain.Calls
import MediaChain.Proofs.Chain.Effects

/-!
# Rebuilding the effects of a chain

A reader takes bytes from a chain while the configuration of its effects changes. What the effects
have produced ahead of the reader (`Chain.ahead`) is dropped with them, and that is all that a
rebuild takes from the stream (`Builder.rebuild_copied`). So the reader gets the whole stream if and
only if nothing was ahead of it whenever effects were replaced (`Player.taken_eq_iff`).
-/

namespace MediaChain

variable {ι ε : Type} {n : Nat} {R : List (Stage ι ε) → Bytes → Prop} {rest : Bytes}

/-! ## Dropping effects -/

/-- What the effects of a chain have produced ahead of the reader, tail first. -/
def Chain.ahead (c : Chain ι ε) : Bytes :=
  (c.stages.take (c.stages.length - c.decoderLength)).flatMap Stage.buffer

/-- What stages that copy supply is what they have ahead, and then what the stages in front of them
supply. -/
theorem relayed_drop {count : Nat} {stages : List (Stage ι ε)}
    (h : Relayed R (List.replicate count 0) stages rest) :
    ∃ rest', (stages.take count).flatMap Stage.buffer ++ rest' = rest ∧
      R (stages.drop count) rest' := by
  induction count generalizing stages rest with
  | zero => exact ⟨rest, rfl, h⟩
  | succ count ih =>
    rw [List.replicate_succ] at h
    obtain ⟨hs⟩ := h
    obtain ⟨e, -, hpassing⟩ := hs.engine
    obtain ⟨rest', htake, hdrop⟩ := ih hpassing.zero
    refine ⟨rest', ?_, hdrop⟩
    rw [List.take_succ_cons, List.flatMap_cons, List.append_assoc, htake]

theorem Copied.ahead (hR : Supply n R) {c : Chain ι ε} (h : Copied R c.stages rest)
    (hdecoder : c.decoderLength = n + 1) :
    ∃ rest', c.ahead ++ rest' = rest ∧
      R (c.stages.drop (c.stages.length - c.decoderLength)) rest' := by
  obtain ⟨count, hcount⟩ := h
  have hlen := (hR.relayed (List.replicate count 0)).length hcount
  rw [List.length_replicate] at hlen
  have heffects : c.stages.length - c.decoderLength = count := by omega
  unfold Chain.ahead
  rw [heffects]
  exact relayed_drop hcount

theorem Stage.releaseAll_config (stages : List (Stage ι ε)) (b : Backstage ε) :
    (Stage.releaseAll stages b).config = b.config := by
  have hrelease : ∀ (s : Stage ι ε) (b : Backstage ε), (s.release b).config = b.config := by
    intro s b
    unfold Stage.release
    split
    · unfold Stage.farewell
      split <;> rfl
    · rfl
  unfold Stage.releaseAll
  induction stages generalizing b with
  | nil => rfl
  | cons s stages ih => exact (ih (s.release b)).trans (hrelease s b)

namespace Builder

variable {b : Builder ι ε}

/-- A rebuild takes from the stream what the old effects have ahead of the reader, and nothing
else. -/
theorem rebuild_copied (hR : Supply n R) {c : Chain ι ε} (hdecoder : c.decoderLength = n + 1)
    (h : Copied R c.stages rest) (ledger : Ledger) {w : World ε}
    (hcopy : b.Copying w.backstage.config) :
    ∃ rest', c.ahead ++ rest' = rest ∧ Copied R (b.rebuild c ledger w).1.stages rest' ∧
      (b.rebuild c ledger w).1.decoderLength = n + 1 := by
  obtain ⟨rest', hahead, hfront⟩ := h.ahead hR hdecoder
  refine ⟨rest', hahead, ?_, hdecoder⟩
  refine addEffects_copied ?_ ⟨0, hfront⟩
  show b.Copying (Stage.releaseAll _ _).config
  rw [Stage.releaseAll_config]
  exact hcopy

end Builder

/-! ## Playing -/

/-- A chain that is read from, with the ledger of its facts and the world around it. -/
structure Player (ι ε : Type) where
  chain : Chain ι ε
  ledger : Ledger
  world : World ε

namespace Player

/-- What happens while a chain is played. -/
inductive Step
  | call (call : Chain.Call)
  | set (path value : String)
  | handle (change : Config.Change)

/-- What comes of it. -/
inductive Outcome
  | answered (x : Chain.Exchange)
  | configured
  /-- A change was handled, and with effects that were replaced some bytes were dropped. -/
  | handled (dropped : Bytes)

/-- The bytes that went from the stream to the reader. -/
def Outcome.taken : Outcome → Bytes
  | answered x => x.taken
  | _ => []

/-- The bytes that went from the stream and to nobody. -/
def Outcome.dropped : Outcome → Bytes
  | handled dropped => dropped
  | _ => []

/-- All bytes that went from the stream; they are of one kind. -/
def Outcome.gone (o : Outcome) : Bytes := o.taken ++ o.dropped

/-- A call did not fail. -/
def Outcome.ok : Outcome → Prop
  | answered x => ∃ bytes, x.2 = .ok bytes
  | _ => True

/-- A read that had room was told that there are no more bytes. -/
def Outcome.ends : Outcome → Prop
  | answered x => x.ends
  | _ => False

instance : DecidablePred Outcome.ends
  | .answered x => inferInstanceAs (Decidable x.ends)
  | .configured => isFalse id
  | .handled _ => isFalse id

def step (b : Builder ι ε) (p : Player ι ε) : Step → Outcome × Player ι ε
  | .call call =>
    let (answer, chain, scene) := p.chain.call (p.world.scene p.ledger) call
    let (ledger, world) := p.world.absorb p.ledger scene
    (.answered (call, answer), ⟨chain, ledger, world⟩)
  | .set path value =>
    let backstage := p.world.backstage
    let config := backstage.config.set path value
    (.configured, { p with world := { p.world with backstage := { backstage with config } } })
  | .handle change =>
    let (rebuilt, chain, ledger, world) := b.handleChange change p.chain p.ledger p.world
    (.handled (if rebuilt then p.chain.ahead else []), ⟨chain, ledger, world⟩)

def play (b : Builder ι ε) : List Step → Player ι ε → List Outcome
  | [], _ => []
  | step :: steps, p => (p.step b step).1 :: play b steps (p.step b step).2

/-- Whenever a change is handled, the effects that are configured then copy. -/
def Copies (b : Builder ι ε) : List Step → Player ι ε → Prop
  | [], _ => True
  | step :: steps, p =>
    (∀ change, step = .handle change → b.Copying p.world.backstage.config) ∧
      Copies b steps (p.step b step).2

/-- The chain copies what its decoders supply, and that are some bytes. -/
structure Holds (n : Nat) (R : List (Stage ι ε) → Bytes → Prop) (p : Player ι ε) (rest : Bytes) :
    Prop where
  decoder : p.chain.decoderLength = n + 1
  copied : Copied R p.chain.stages rest

variable {b : Builder ι ε} {p : Player ι ε}

/-- What one step takes from the stream is what is missing of it afterwards. Calls succeed, and are
told of the end only where it is. -/
theorem Holds.step (hR : Supply n R) (h : p.Holds n R rest) (step : Step)
    (hcopy : ∀ change, step = .handle change → b.Copying p.world.backstage.config) :
    ∃ rest', (p.step b step).1.gone ++ rest' = rest ∧ (p.step b step).2.Holds n R rest' ∧
      (p.step b step).1.ok ∧ ((p.step b step).1.ends → rest = []) := by
  cases step with
  | call call =>
    obtain ⟨count, hcount⟩ := h.copied
    obtain ⟨bytes, c', scene', rest', hcall, hcount', htaken, hends⟩ :=
      (hR.relayed _).call hcount (p.world.scene p.ledger) call
    have hdecoder := p.chain.call_decoderLength (p.world.scene p.ledger) call
    rw [hcall, h.decoder] at hdecoder
    unfold Player.step
    dsimp only
    rw [hcall]
    refine ⟨rest', ?_, ⟨hdecoder, count, hcount'⟩, ⟨bytes, rfl⟩, hends⟩
    show (Chain.Exchange.taken (call, .ok bytes) ++ []) ++ rest' = rest
    rw [List.append_nil, htaken]
  | set path value => exact ⟨rest, rfl, ⟨h.decoder, h.copied⟩, trivial, False.elim⟩
  | handle change =>
    by_cases hskip : (p.chain.rehash || !b.settings.affectsEffects change.path) = true
    · have hstep : p.step b (.handle change) = (.handled [], p) := by
        simp only [Player.step, Builder.handleChange, if_pos hskip]
        rfl
      rw [hstep]
      exact ⟨rest, rfl, h, trivial, False.elim⟩
    · have hstep : p.step b (.handle change) = (.handled p.chain.ahead,
          ⟨(b.rebuild p.chain p.ledger p.world).1, (b.rebuild p.chain p.ledger p.world).2.1,
            (b.rebuild p.chain p.ledger p.world).2.2⟩) := by
        simp only [Player.step, Builder.handleChange, if_neg hskip]
        rfl
      obtain ⟨rest', hahead, hcopied, hdecoder⟩ :=
        Builder.rebuild_copied hR h.decoder h.copied p.ledger (hcopy change rfl)
      rw [hstep]
      exact ⟨rest', hahead, ⟨hdecoder, hcopied⟩, trivial, False.elim⟩

/-- What goes from the stream in a run goes in order, and what is left is none at the end. -/
theorem Holds.play (hR : Supply n R) (h : p.Holds n R rest) {steps : List Step}
    (hcopy : Copies b steps p) :
    ∃ rest', (play b steps p).flatMap Outcome.gone ++ rest' = rest ∧
      (∀ o ∈ play b steps p, o.ok) ∧ ((∃ o ∈ play b steps p, o.ends) → rest' = []) := by
  induction steps generalizing p rest with
  | nil =>
    refine ⟨rest, rfl, fun o ho => absurd ho List.not_mem_nil, ?_⟩
    rintro ⟨o, ho, -⟩
    exact absurd ho List.not_mem_nil
  | cons step steps ih =>
    obtain ⟨rest₁, hgone, h₁, hok, hends⟩ := h.step hR step hcopy.1
    obtain ⟨rest', hgone', hok', hends'⟩ := ih h₁ hcopy.2
    refine ⟨rest', ?_, ?_, ?_⟩
    · rw [Player.play, List.flatMap_cons, List.append_assoc, hgone', hgone]
    · intro o ho
      rcases List.mem_cons.mp ho with rfl | ho
      · exact hok
      · exact hok' o ho
    · rintro ⟨o, ho, hend⟩
      rcases List.mem_cons.mp ho with rfl | ho
      · -- nothing was left for the call, nor is for the steps behind it
        rw [hends hend] at hgone
        rw [(List.append_eq_nil_iff.mp hgone).2] at hgone'
        exact (List.append_eq_nil_iff.mp hgone').2
      · exact hends' ⟨o, ho, hend⟩

theorem length_gone (outcomes : List Outcome) :
    (outcomes.flatMap Outcome.gone).length =
      (outcomes.flatMap Outcome.taken).length + (outcomes.flatMap Outcome.dropped).length := by
  induction outcomes with
  | nil => rfl
  | cons o outcomes ih =>
    simp only [List.flatMap_cons, List.length_append, Outcome.gone, ih]
    omega

/-- The reader gets all that goes from the stream if and only if nothing is dropped. -/
theorem taken_eq_gone_iff (outcomes : List Outcome) :
    outcomes.flatMap Outcome.taken = outcomes.flatMap Outcome.gone ↔
      ∀ o ∈ outcomes, o.dropped = [] := by
  rw [← List.flatMap_eq_nil_iff]
  constructor
  · intro h
    have hlen := length_gone outcomes
    rw [h] at hlen
    exact List.length_eq_zero_iff.mp (by omega)
  · intro h
    rw [List.flatMap_eq_nil_iff] at h
    refine congrArg List.flatten (List.map_congr_left fun o ho => ?_)
    rw [Outcome.gone, h o ho, List.append_nil]

/-- **What a reader gets across rebuilds.** From a chain whose effects copy what its decoders
supply, no call fails, whatever is read, looked at, configured and handled in between. What the
reader takes and what is dropped are the bytes of the stream in their order, each once; so once a
read is told of the end, the reader has the whole stream if and only if nothing was ahead in the
effects whenever they were replaced. -/
theorem taken_eq_iff (hR : Supply n R) {bytes : Bytes}
    (hdecoder : p.chain.decoderLength = n + 1) (hcopied : Copied R p.chain.stages bytes)
    {steps : List Step} (hcopy : Copies b steps p) :
    (∀ o ∈ play b steps p, o.ok) ∧ (play b steps p).flatMap Outcome.gone <+: bytes ∧
      ((∃ o ∈ play b steps p, o.ends) →
        ((play b steps p).flatMap Outcome.taken = bytes ↔
          ∀ o ∈ play b steps p, o.dropped = [])) := by
  obtain ⟨rest, hgone, hok, hended⟩ := Holds.play hR ⟨hdecoder, hcopied⟩ hcopy
  refine ⟨hok, ⟨rest, hgone⟩, fun h => ?_⟩
  rw [hended h, List.append_nil] at hgone
  rw [← taken_eq_gone_iff, hgone]

/-! ## A chain with an effect that copies -/

open Scripted

/-- The only effect there is copies. -/
def copier : Builder State Note := ⟨⟨[(paced (.relay 0) []).plugin]⟩, {}, false⟩

theorem copier_copying (config : Config) : copier.Copying config := by
  intro name plugin _ _ hfind
  have hp := paced_steady (.relay 0) []
  rw [List.mem_singleton.mp (List.mem_of_find?_eq_some hfind)]
  exact ⟨_, hp.relays rfl, hp.begins trivial⟩

theorem copier_copies (steps : List Step) (p : Player State Note) : Copies copier steps p := by
  induction steps generalizing p with
  | nil => exact trivial
  | cons step steps ih => exact ⟨fun _ _ => copier_copying _, ih _⟩

/-- A configuration that lists it. -/
def listing : Config := Config.empty.set "effect.order.0" "paced"

/-- A chain of a feed and that effect, as it was built. -/
def built (data : Bytes) : Player State Note :=
  let (result, f) := Stage.create (paced .feed data).plugin {} []
    ⟨[.ofUrl {} [] "mem:"], ⟨.empty, listing, #[], 0⟩⟩
  let decoders := match result with
    | .ok s => s :: f.stages
    | .error _ => f.stages
  let f := copier.addEffects [] { f with stages := decoders }
  { chain := ⟨f.stages, decoders.length, "mem:", none, [], false, ⟨0, ⟨"mem:", none, [], .untyped⟩⟩⟩
    ledger := .empty false
    world := { (World.empty : World Note) with backstage := f.scene.backstage } }

theorem built_holds (data : Bytes) : (built data).Holds 1 (Stocked (Feeding 1)) data := by
  have hp := paced_steady .feed data
  have hbegins : (paced .feed data).plugin.Begins fun s => data.drop s.position = data :=
    hp.begins rfl
  have hfront := (Stage.create_front hbegins {} []
    ⟨[.ofUrl {} [] "mem:"], ⟨.empty, listing, #[], 0⟩⟩).1
  obtain ⟨s, f, hs⟩ := create_paced .feed data
    ⟨[.ofUrl {} [] "mem:"], ⟨.empty, listing, #[], 0⟩⟩
  rw [hs] at hfront
  have hdecoders : Stocked (Feeding 1) (s :: f.stages) data :=
    Stage.stocked_of_create hbegins (fun state hstate =>
      ⟨rfl, fun s rest => data.drop s.position = rest, hp.feeds rfl, hstate⟩) hs
  unfold built
  rw [hs]
  refine ⟨congrArg (List.length · + 1) hfront, ?_⟩
  exact Builder.addEffects_copied (f := { f with stages := s :: f.stages }) (copier_copying _)
    ⟨0, hdecoders⟩

/-- A reader that takes what the effect produces loses nothing when it is replaced. -/
theorem taken_of_reading :
    (play copier [.call (.read (.blank 2)), .set "effect.order.0" "",
      .handle ⟨"effect.order.0", ""⟩, .call (.peek 2), .call (.read (.blank 9)),
      .call (.read (.blank 9)), .call (.read (.blank 9))] (built [1, 2, 3, 4, 5])).flatMap
        Outcome.taken = [1, 2, 3, 4, 5] := by
  have h := built_holds [1, 2, 3, 4, 5]
  obtain ⟨-, -, hended⟩ := taken_eq_iff (feeding_producing 1).supply h.decoder h.copied
    (copier_copies [.call (.read (.blank 2)), .set "effect.order.0" "",
      .handle ⟨"effect.order.0", ""⟩, .call (.peek 2), .call (.read (.blank 9)),
      .call (.read (.blank 9)), .call (.read (.blank 9))] _)
  exact (hended (by decide +kernel)).mpr (by decide +kernel)

/-- A reader that looks ahead loses what it has seen, and is told of the end without it. -/
theorem taken_of_looking :
    (built [1, 2, 3, 4, 5]).Holds 1 (Stocked (Feeding 1)) [1, 2, 3, 4, 5] ∧
      (built [1, 2, 3, 4, 5]).chain.rehash = false ∧
      (∀ steps, Copies copier steps (built [1, 2, 3, 4, 5])) ∧
      (∃ o ∈ play copier [.call (.read (.blank 1)), .call (.peek 2), .set "effect.order.0" "",
        .handle ⟨"effect.order.0", ""⟩, .call (.read (.blank 9)), .call (.read (.blank 9))]
          (built [1, 2, 3, 4, 5]), o.ends) ∧
      (play copier [.call (.read (.blank 1)), .call (.peek 2), .set "effect.order.0" "",
        .handle ⟨"effect.order.0", ""⟩, .call (.read (.blank 9)), .call (.read (.blank 9))]
          (built [1, 2, 3, 4, 5])).flatMap Outcome.taken = [1, 4, 5] :=
  ⟨built_holds _, rfl, fun steps => copier_copies steps _, by decide +kernel, by decide +kernel⟩

end Player

end MediaChain
