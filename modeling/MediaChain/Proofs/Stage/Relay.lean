import MediaChain.Proofs.Stage.Supply

/-!
# Feeds and relays

Two kinds of plugins that produce bytes: one that has bytes of its own (`Plugin.Feeds`), and one
that passes on what the stage in front supplies under a mask (`Plugin.Relays`). Between their reads
both may do anything that does not reach the stage in front: place marks and barriers, record facts,
look into the configuration. Stages of both kinds in a row supply what the first of them has, under
all the masks (`Supply.relayed`).
-/

namespace MediaChain

variable {ι ε : Type} {n : Nat} {R : List (Stage ι ε) → Bytes → Prop}

/-! ## The plugins -/

/-- In a state that holds some bytes, a read gives the next of them, and leaves a state that holds
the rest. It gives none only when none is left. -/
def Plugin.Feeds (p : Plugin ι ε) (holds : ι → Bytes → Prop) : Prop :=
  ∀ {state rest}, holds state rest → ∀ {window : Window}, 0 < window.size →
    (p.read state window).Ends Request.IsLocal fun r =>
      ∃ reply, r.1 = .ok reply ∧ reply.Takes window rest ∧ holds r.2 (rest.drop reply.count)

/-- In a fit state, a read asks the stage in front once, for at least one and no more bytes than
were asked for, gives as many as it got with `mask` over each, and leaves a fit state. -/
def Plugin.Relays (p : Plugin ι ε) (mask : UInt8) (fit : ι → Prop) : Prop :=
  ∀ {state}, fit state → ∀ {window : Window}, 0 < window.size →
    (p.read state window).Passes window.size fun w reply r => reply.count ≤ w.size →
      ∃ reply', r.1 = .ok reply' ∧ reply'.count = reply.count ∧
        reply'.bytes window = (reply.bytes w).map (· ^^^ mask) ∧ fit r.2

/-- Setting up asks for nothing that reaches the stage in front, and leaves a state with `P`. -/
def Plugin.Begins (p : Plugin ι ε) (P : ι → Prop) : Prop :=
  p.init.Ends Request.IsLocal fun r => ∀ state, r = .ok state → P state

/-! ## What they produce -/

/-- A plugin feeds the bytes that are left, whatever the `n` stages in front are. -/
def Feeding (n : Nat) (p : Plugin ι ε) (state : ι) (front : List (Stage ι ε)) (rest : Bytes) :
    Prop :=
  front.length = n ∧ ∃ holds, p.Feeds holds ∧ holds state rest

/-- A plugin relays, under a mask, bytes that the stages in front have left to give. -/
def Passing (R : List (Stage ι ε) → Bytes → Prop) (mask : UInt8) (p : Plugin ι ε) (state : ι)
    (front : List (Stage ι ε)) (rest : Bytes) : Prop :=
  ∃ fit input, p.Relays mask fit ∧ fit state ∧ R front input ∧ input.map (· ^^^ mask) = rest

variable {p : Plugin ι ε} {state : ι} {rest : Bytes} {window : Window}

/-- A read of a feed takes the next bytes, and leaves the stages in front alone. -/
theorem Plugin.Feeds.run {holds : ι → Bytes → Prop} (hp : p.Feeds holds) (h : holds state rest)
    (hw : 0 < window.size) (tap : Tap ι ε) (post : Post) (ahead : Nat) (b : Bench ι ε) :
    ∃ reply state' b', (p.read state window).run (Stage.answer tap post ahead false) b =
        ((.ok reply, state'), b') ∧
      reply.Takes window rest ∧ holds state' (rest.drop reply.count) ∧
      b'.front.stages = b.front.stages := by
  obtain ⟨⟨reply, hreply, htakes, hrest'⟩, hstages⟩ :=
    (hp h hw).run (Stage.answer tap post ahead false)
      (J := fun b' => b'.front.stages = b.front.stages)
      (fun q b' hq hb' => (Stage.answer_local _ _ _ _ hq b').1.trans hb') rfl
  exact ⟨reply, _, _, Prod.ext (Prod.ext hreply rfl) rfl, htakes, hrest', hstages⟩

theorem feeding_producing (n : Nat) : Producing n (Feeding (ι := ι) (ε := ε) n) := by
  constructor
  · rintro p state front rest ⟨hlen, -⟩
    exact hlen
  · rintro p state front rest ⟨hlen, holds, hp, hrest⟩ window hw post ahead b hb
    obtain ⟨reply, state', b', hrun, htakes, hrest', hstages⟩ :=
      hp.run hrest hw (.reaching n) post ahead b
    refine ⟨reply, state', b', hrun, htakes, ?_, holds, hp, hrest'⟩
    rw [hstages, hb, hlen]

/-- Reading from stages that supply bytes takes the next of them. -/
theorem Supply.bench_read (hR : Supply n R) (post : Post) {rest : Bytes} (window : Window)
    {b : Bench ι ε} (hb : R b.front.stages rest) :
    ∃ reply b', b.read (.reaching (n + 1)) post window = (.ok reply, b') ∧
      reply.Takes window rest ∧ R b'.front.stages (rest.drop reply.count) := by
  obtain ⟨desk, outType, ⟨stages, scene⟩⟩ := b
  cases stages with
  | nil => exact absurd (hR.length hb) (Nat.succ_ne_zero n).symm
  | cons s front =>
    obtain ⟨reply, s', f', hread, htakes, hR'⟩ := hR.read hb scene window
    refine ⟨reply, Bench.catchUp ⟨desk, outType, ⟨s' :: f'.stages, f'.scene⟩⟩, ?_, htakes, hR'⟩
    unfold Bench.read Bench.reach
    dsimp only [Tap.reaching, Tap.through]
    rw [hread]

/-- A read of a relay takes the next bytes of those in front under its mask. -/
theorem Supply.relay_run (hR : Supply n R) {mask : UInt8} {fit : ι → Prop}
    (hp : p.Relays mask fit) (hfit : fit state) (hw : 0 < window.size) (post : Post) (ahead : Nat)
    {b : Bench ι ε} {input : Bytes} (hfront : R b.front.stages input) :
    ∃ reply state' b', (p.read state window).run
        (Stage.answer (.reaching (n + 1)) post ahead false) b = ((.ok reply, state'), b') ∧
      reply.Takes window (input.map (· ^^^ mask)) ∧ fit state' ∧
      R b'.front.stages (input.drop reply.count) := by
  obtain ⟨w, reply, hpos, hle, hreply, htakes, hR'⟩ :=
    (hp hfit hw).run (Stage.answer (.reaching (n + 1)) post ahead false)
      (J := fun b => R b.front.stages input)
      (K := fun w reply b => reply.Takes w input ∧ R b.front.stages (input.drop reply.count))
      (fun q b hq hb => by rwa [(Stage.answer_local _ _ _ _ hq b).1])
      (fun w b _ _ hb => hR.bench_read post w hb)
      (fun w reply q b hq hb => by rwa [(Stage.answer_local _ _ _ _ hq b).1]) hfront
  obtain ⟨reply', hok, hcount, hbytes, hfit'⟩ := hreply htakes.fits
  refine ⟨reply', _, _, Prod.ext (Prod.ext hok rfl) rfl, ⟨?_, ?_, fun h0 => .inr ?_⟩, hfit', ?_⟩
  · rw [hcount]
    exact Nat.le_trans htakes.fits hle
  · rw [hbytes, hcount, htakes.bytes_eq, List.map_take]
  · rw [(htakes.ends (hcount ▸ h0)).resolve_left (Nat.ne_of_gt hpos), List.map_nil]
  · rw [hcount]
    exact hR'

theorem Supply.passing (hR : Supply n R) (mask : UInt8) : Producing (n + 1) (Passing R mask) := by
  constructor
  · rintro p state front rest ⟨fit, input, -, -, hfront, -⟩
    exact hR.length hfront
  · rintro p state front _ ⟨fit, input, hp, hfit, hfront, rfl⟩ window hw post ahead b rfl
    obtain ⟨reply, state', b', hrun, htakes, hfit', hR'⟩ :=
      hR.relay_run hp hfit hw post ahead hfront
    refine ⟨reply, state', b', hrun, htakes, fit, _, hp, hfit', hR', ?_⟩
    rw [List.map_drop]

/-! ## Stages in a row -/

/-- Behind stages with `R` stand stages that relay under masks, tail first. -/
def Relayed (R : List (Stage ι ε) → Bytes → Prop) : List UInt8 → List (Stage ι ε) → Bytes → Prop
  | [] => R
  | mask :: masks => Stocked (Passing (Relayed R masks) mask)

theorem Relayed.recordFact {K : Plugin ι ε → ι → List (Stage ι ε) → Bytes → Prop}
    {masks : List UInt8} {s : Stage ι ε} {front : List (Stage ι ε)} {rest : Bytes}
    (h : Relayed (Stocked K) masks (s :: front) rest) (log : Facts.Log) (key : String)
    (value : Value) :
    Relayed (Stocked K) masks ((s.recordFact log key value).1 :: front) rest := by
  cases masks with
  | nil => exact Stocked.recordFact h log key value
  | cons mask masks => exact Stocked.recordFact h log key value

theorem Supply.relayed (hR : Supply n R) (masks : List UInt8) :
    Supply (n + masks.length) (Relayed R masks) := by
  induction masks with
  | nil => exact hR
  | cons mask masks ih => exact (ih.passing mask).supply

end MediaChain
