import MediaChain.Chain.Basic
import MediaChain.Proofs.Chain.Goals
import MediaChain.Proofs.Plugin.Scripted
import MediaChain.Proofs.Stage.Life

/-!
# What a chain gives its reader

A reader reads from a chain and looks ahead, in any order. `Chain.transcript` lists its calls with
their answers. From a pipeline it takes the bytes of the source under all the masks
(`Chain.transcript_of_pipeline`). Chains are built as pipelines if the plugins that open urls feed
and the others relay (`Builder.Makes.pipeline`).
-/

namespace MediaChain

variable {ι ε : Type} {n : Nat} {R : List (Stage ι ε) → Bytes → Prop}

namespace Chain

/-! ## Calls -/

/-- What a reader does. -/
inductive Call
  | read (window : Window)
  | peek (size : Nat)

/-- Whether a call has room for bytes to take. -/
def Call.asks : Call → Bool
  | read window => 0 < window.size
  | peek _ => false

/-- Makes a call, and gives the bytes that it brings. -/
def call (c : Chain ι ε) (scene : Scene ε) :
    Call → Except StageError Bytes × Chain ι ε × Scene ε
  | .read window =>
    let (result, c, scene) := c.readInto scene window
    (result.map (·.bytes window), c, scene)
  | .peek size => c.peek scene size

/-- A call and its answer. -/
abbrev Exchange := Call × Except StageError Bytes

/-- Makes calls one after the other, whatever their answers. -/
def transcript : List Call → Chain ι ε → Scene ε → List Exchange
  | [], _, _ => []
  | call :: calls, c, scene =>
    let (answer, c, scene) := c.call scene call
    (call, answer) :: transcript calls c scene

/-- The bytes that were taken from the chain. -/
def Exchange.taken : Exchange → Bytes
  | (.read _, .ok bytes) => bytes
  | _ => []

/-- A read that had room was told that there are no more bytes. -/
def Exchange.ends : Exchange → Prop
  | (.read window, .ok []) => 0 < window.size
  | _ => False

instance : DecidablePred Exchange.ends
  | (.read window, .ok []) => inferInstanceAs (Decidable (0 < window.size))
  | (.read _, .ok (_ :: _)) => isFalse id
  | (.read _, .error _) => isFalse id
  | (.peek _, _) => isFalse id

/-- A read that is not told so takes a byte if it has room. -/
theorem Exchange.ends_or_le (call : Call) (bytes : Bytes) :
    Exchange.ends (call, .ok bytes) ∨
      (if call.asks then 1 else 0) ≤ (Exchange.taken (call, .ok bytes)).length := by
  cases call with
  | peek size => exact .inr (Nat.zero_le _)
  | read window =>
    cases bytes with
    | cons b bs =>
      refine .inr ?_
      show _ ≤ (b :: bs).length
      rw [List.length_cons]
      split <;> omega
    | nil =>
      by_cases hw : 0 < window.size
      · exact .inl hw
      · exact .inr (by simp [Call.asks, hw])

end Chain

/-- A call leaves the length of the decoder section as it is. -/
theorem Chain.call_decoderLength (c : Chain ι ε) (scene : Scene ε) (call : Chain.Call) :
    (c.call scene call).2.1.decoderLength = c.decoderLength := by
  obtain ⟨stages, decoderLength, url, entry, goals, rehash, bulletin⟩ := c
  cases call <;> cases stages <;> rfl

/-! ## Calls of a chain that supplies bytes -/

open Chain

theorem Supply.operate_read (hR : Supply n R) {c : Chain ι ε} {rest : Bytes} (h : R c.stages rest)
    (scene : Scene ε) (window : Window) :
    ∃ reply c' scene', c.readInto scene window = (.ok reply, c', scene') ∧
      reply.Takes window rest ∧ R c'.stages (rest.drop reply.count) := by
  obtain ⟨stages, decoderLength, url, entry, goals, rehash, bulletin⟩ := c
  cases stages with
  | nil => exact absurd (hR.length h) (Nat.succ_ne_zero n).symm
  | cons s front =>
    have hlen : front.length = n := Nat.succ.inj (hR.length h)
    subst hlen
    obtain ⟨reply, s', f', hread, htakes, hR'⟩ := hR.read h scene window
    refine ⟨reply, ⟨s' :: f'.stages, decoderLength, url, entry, goals, rehash, bulletin⟩, f'.scene,
      ?_, htakes, hR'⟩
    unfold readInto operate
    dsimp only
    rw [hread]

theorem Supply.operate_peek (hR : Supply n R) {c : Chain ι ε} {rest : Bytes} (h : R c.stages rest)
    (scene : Scene ε) (size : Nat) :
    ∃ bytes c' scene', c.peek scene size = (.ok bytes, c', scene') ∧ R c'.stages rest := by
  obtain ⟨stages, decoderLength, url, entry, goals, rehash, bulletin⟩ := c
  cases stages with
  | nil => exact absurd (hR.length h) (Nat.succ_ne_zero n).symm
  | cons s front =>
    have hlen : front.length = n := Nat.succ.inj (hR.length h)
    subst hlen
    obtain ⟨bytes, s', f', hpeek, hR'⟩ := hR.peek h scene size
    refine ⟨bytes, ⟨s' :: f'.stages, decoderLength, url, entry, goals, rehash, bulletin⟩, f'.scene,
      ?_, hR'⟩
    unfold Chain.peek operate
    dsimp only
    rw [hpeek]

/-- A call succeeds and takes the next bytes. If it is told that there are no more, none are
left. -/
theorem Supply.call (hR : Supply n R) {c : Chain ι ε} {rest : Bytes} (h : R c.stages rest)
    (scene : Scene ε) (call : Call) :
    ∃ bytes c' scene' rest', c.call scene call = (.ok bytes, c', scene') ∧ R c'.stages rest' ∧
      Exchange.taken (call, .ok bytes) ++ rest' = rest ∧
      (Exchange.ends (call, .ok bytes) → rest = []) := by
  cases call with
  | read window =>
    obtain ⟨reply, c', scene', hread, htakes, hR'⟩ := hR.operate_read h scene window
    refine ⟨reply.bytes window, c', scene', rest.drop reply.count, ?_, hR', ?_, ?_⟩
    · unfold Chain.call
      dsimp only
      rw [hread]
      rfl
    · show reply.bytes window ++ rest.drop reply.count = rest
      rw [htakes.bytes_eq, List.take_append_drop]
    · cases hbytes : reply.bytes window with
      | cons b bs => exact False.elim
      | nil =>
        intro hpos
        have hzero : reply.count = 0 := by rw [← reply.length_bytes window, hbytes, List.length_nil]
        exact (htakes.ends hzero).resolve_left (Nat.ne_of_gt hpos)
  | peek size =>
    obtain ⟨bytes, c', scene', hpeek, hR'⟩ := hR.operate_peek h scene size
    exact ⟨bytes, c', scene', rest, hpeek, hR', List.nil_append rest, False.elim⟩

/-- All calls succeed, what they take and what is left are the bytes there were, and each read that
has room takes one until one is told that there are no more. -/
theorem Supply.transcript (hR : Supply n R) {c : Chain ι ε} {rest : Bytes} (h : R c.stages rest)
    (scene : Scene ε) (calls : List Call) :
    ∃ rest', (∀ x ∈ transcript calls c scene, ∃ bytes, x.2 = .ok bytes) ∧
      (transcript calls c scene).flatMap Exchange.taken ++ rest' = rest ∧
      ((∃ x ∈ transcript calls c scene, x.ends) → rest' = []) ∧
      ((∃ x ∈ transcript calls c scene, x.ends) ∨
        calls.countP Call.asks ≤ ((transcript calls c scene).flatMap Exchange.taken).length) := by
  induction calls generalizing c scene rest with
  | nil =>
    refine ⟨rest, ?_, rfl, ?_, .inr (Nat.le_refl 0)⟩
    · intro x hx
      exact absurd hx List.not_mem_nil
    · rintro ⟨x, hx, -⟩
      exact absurd hx List.not_mem_nil
  | cons call calls ih =>
    obtain ⟨bytes, c', scene', rest₁, hcall, hR', htaken, hends⟩ := hR.call h scene call
    obtain ⟨rest', hok, htaken', hended, hcount⟩ := ih hR' scene'
    have hcons : Chain.transcript (call :: calls) c scene =
        (call, .ok bytes) :: Chain.transcript calls c' scene' := by
      rw [Chain.transcript, hcall]
    rw [hcons, List.flatMap_cons]
    simp only [List.mem_cons, or_and_right, exists_or, exists_eq_left]
    refine ⟨rest', ?_, ?_, ?_, ?_⟩
    · rintro x (rfl | hx)
      · exact ⟨bytes, rfl⟩
      · exact hok x hx
    · rw [List.append_assoc, htaken', htaken]
    · rintro (h' | h')
      · -- nothing was left for the call itself, nor is for those behind it
        rw [hends h'] at htaken
        rw [(List.append_eq_nil_iff.mp htaken).2] at htaken'
        exact (List.append_eq_nil_iff.mp htaken').2
      · exact hended h'
    · rcases Exchange.ends_or_le call bytes with h' | hle
      · exact .inl (.inl h')
      · rcases hcount with h' | hle'
        · exact .inl (.inr h')
        · refine .inr ?_
          rw [List.countP_cons, List.length_append]
          omega

namespace Chain

/-- Whatever calls a reader makes of a chain, they succeed, and the bytes that it takes are the
first of those that the chain delivers; they are all of them once a read that has room brings
nothing, and as many such reads as there are bytes bring that about. -/
def Delivers (c : Chain ι ε) (bytes : Bytes) : Prop :=
  ∀ (scene : Scene ε) (calls : List Call),
    (∀ x ∈ transcript calls c scene, ∃ bs, x.2 = .ok bs) ∧
      (transcript calls c scene).flatMap Exchange.taken <+: bytes ∧
      ((∃ x ∈ transcript calls c scene, x.ends) →
        (transcript calls c scene).flatMap Exchange.taken = bytes) ∧
      (bytes.length < calls.countP Call.asks → ∃ x ∈ transcript calls c scene, x.ends)

end Chain

theorem Supply.delivers (hR : Supply n R) {c : Chain ι ε} {rest : Bytes} (h : R c.stages rest) :
    c.Delivers rest := by
  intro scene calls
  obtain ⟨rest', hok, htaken, hended, hcount⟩ := hR.transcript h scene calls
  refine ⟨hok, ⟨rest', htaken⟩, fun h' => ?_, fun hlt => hcount.resolve_right fun hle => ?_⟩
  · rw [← htaken, hended h', List.append_nil]
  · have hlen := congrArg List.length htaken
    rw [List.length_append] at hlen
    omega

namespace Chain

/-- **Fidelity.** Whatever calls a reader makes of a pipeline, they succeed, and the bytes that it
takes are the first bytes of the source under all the masks; they are all of them once a read that
has room brings nothing, and as many such reads as there are bytes bring that about. -/
theorem transcript_of_pipeline {bytes : Bytes} {masks : List UInt8} {c : Chain ι ε}
    (h : Pipeline bytes masks c.stages) (scene : Scene ε) (calls : List Call) :
    (∀ x ∈ transcript calls c scene, ∃ bs, x.2 = .ok bs) ∧
      (transcript calls c scene).flatMap Exchange.taken <+: maskAll masks bytes ∧
      ((∃ x ∈ transcript calls c scene, x.ends) →
        (transcript calls c scene).flatMap Exchange.taken = maskAll masks bytes) ∧
      (bytes.length < calls.countP Call.asks → ∃ x ∈ transcript calls c scene, x.ends) := by
  obtain ⟨n, hstages⟩ := h.relayed
  have hlength : (maskAll masks bytes).length = bytes.length := List.length_map _
  rw [← hlength]
  exact ((feeding_producing n).supply.relayed masks).delivers hstages scene calls

end Chain

/-! ## Pipelines that builders set up -/

namespace Builder

variable {b : Builder ι ε} {goals : List StreamType} {l : Ledger} {c : Chain ι ε} {scene : Scene ε}
  {bytes : Bytes} {P : List (Stage ι ε) → Prop}

/-- The stage for a url alone, or stages with a property. -/
def Laid (P : List (Stage ι ε) → Prop) (stages : List (Stage ι ε)) : Prop :=
  (∃ s url, stages = [s] ∧ s.engine = none ∧ s.outType = .ofUrl url) ∨ P stages

/-- A property of stages that does not depend on what is recorded for the tail, and that every
plugin of a builder brings about behind a url and keeps up behind others. The plugins leave the
stages in front alone while they set up their own. -/
structure Lays (b : Builder ι ε) (goals : List StreamType) (P : List (Stage ι ε) → Prop) :
    Prop where
  create : ∀ {p f}, p ∈ b.registry.plugins → (p.claim (tailType f.stages)).isSome = true →
    Laid P f.stages → (∃ begun, p.Begins begun) ∧
      ∀ {s f'}, Stage.create p b.settings goals f = (.ok s, f') → P (s :: f'.stages)
  record : ∀ {tail rest} log key value, P (tail :: rest) →
    P ((tail.recordFact log key value).1 :: rest)

theorem Lays.keeps (hb : b.Lays goals P) : b.Keeps goals fun f => Laid P f.stages where
  create {p f} hp _ hclaim hf := by
    obtain ⟨⟨begun, hbegins⟩, hok⟩ := hb.create hp hclaim hf
    have hfront := (Stage.create_front hbegins b.settings goals f).1
    rcases hcreate : Stage.create p b.settings goals f with ⟨e | s, f'⟩
    · rw [hcreate] at hfront
      exact hfront.symm ▸ hf
    · exact .inr (hok hcreate)
  record {tail rest scene} key value hf := by
    rcases hf with ⟨s, url, hstages, hengine, htype⟩ | hf
    · obtain ⟨rfl, rfl⟩ := List.cons.inj hstages
      exact .inl ⟨_, url, rfl, hengine, htype⟩
    · exact .inr (hb.record scene.log key value hf)
  switch _ hf := hf

/-- All chains that such a builder has built have the property. -/
theorem Lays.stages (hb : b.Lays goals P) (h : b.Makes goals l c scene) : P c.stages := by
  obtain ⟨rehash, now, url, l', w, w', hbuild, -⟩ := h.buildFrom
  obtain ⟨_, hlaid, -⟩ := hb.keeps.buildFrom
    (fun decoded _ => .inl ⟨_, decoded, rfl, rfl, rfl⟩) hbuild
  obtain ⟨n, hdecodes⟩ := Decodes.of_buildFrom hbuild
  have htwo := Nat.le_trans hdecodes.two_le (Nat.le_trans hdecodes.le_decoder hdecodes.le_length)
  refine hlaid.resolve_left ?_
  rintro ⟨s, url, hstages, -⟩
  have hone : c.stages.length = 1 := congrArg List.length hstages
  omega

/-- The plugins that open urls feed some bytes, and those that take other streams relay them. -/
def Conducts (b : Builder ι ε) (bytes : Bytes) : Prop :=
  ∀ p ∈ b.registry.plugins,
    (∀ url, (p.claim (.ofUrl url)).isSome = true →
      ∃ holds, p.Feeds holds ∧ p.Begins (holds · bytes)) ∧
    ∀ type, (∀ url, type ≠ .ofUrl url) → (p.claim type).isSome = true →
      ∃ mask fit, p.Relays mask fit ∧ p.Begins fit

/-- What opens a url begins a pipeline, wherever it stands, and what else is set up continues it. -/
theorem Conducts.lays (hb : b.Conducts bytes) (goals : List StreamType) :
    b.Lays goals fun stages => ∃ masks, Pipeline bytes masks stages where
  create {p f} hp hclaim hf := by
    obtain ⟨hopens, hrelays⟩ := hb p hp
    by_cases hurl : ∃ url, tailType f.stages = .ofUrl url
    · obtain ⟨url, hurl⟩ := hurl
      obtain ⟨holds, hfeeds, hbegins⟩ := hopens url (hurl ▸ hclaim)
      exact ⟨⟨_, hbegins⟩, fun hcreate => ⟨_, .feed hfeeds hbegins hcreate⟩⟩
    · obtain ⟨mask, fit, hp, hbegins⟩ := hrelays _ (not_exists.mp hurl) hclaim
      rcases hf with ⟨s, url, hstages, -, htype⟩ | ⟨masks, hf⟩
      · exact absurd ⟨url, by rw [hstages]; exact htype⟩ hurl
      · exact ⟨⟨_, hbegins⟩, fun hcreate => ⟨_, .relay hf hp hbegins hcreate⟩⟩
  record log key value hf := by
    obtain ⟨masks, hf⟩ := hf
    exact ⟨masks, hf.recordFact log key value⟩

/-- Chains that are built of such plugins are pipelines. -/
theorem Makes.pipeline (h : b.Makes goals l c scene) (hb : b.Conducts bytes) :
    ∃ masks, Pipeline bytes masks c.stages :=
  (hb.lays goals).stages h

end Builder

/-! ## Pipelines of scripted plugins -/

open Scripted

theorem create_paced (mode : ReadMode) (data : Bytes) (f : Front State Note) :
    ∃ s f', Stage.create (paced mode data).plugin {} [] f = (.ok s, f') :=
  ⟨_, _, rfl⟩

/-- There are pipelines of all bytes under all masks. -/
theorem exists_pipeline (data : Bytes) (masks : List UInt8) :
    ∃ stages : List (Stage State Note), Pipeline data masks stages := by
  induction masks with
  | nil =>
    have hp := paced_steady .feed data
    obtain ⟨s, f', hs⟩ := create_paced .feed data ⟨[.ofUrl {} [] "mem:"], ⟨.empty, .empty⟩⟩
    exact ⟨_, .feed (hp.feeds rfl) (hp.begins (P := fun s => data.drop s.position = data) rfl) hs⟩
  | cons mask masks ih =>
    obtain ⟨stages, hstages⟩ := ih
    have hp := paced_steady (.relay mask) []
    obtain ⟨s, f', hs⟩ := create_paced (.relay mask) [] ⟨stages, ⟨.empty, .empty⟩⟩
    exact ⟨_, .relay hstages (hp.relays rfl) (hp.begins trivial) hs⟩

/-- Four reads with room, between which the reader looks ahead, end a stream of three bytes. -/
theorem Chain.transcript_of_paced :
    ∃ c : Chain State Note, Pipeline [1, 2, 3] [5, 9] c.stages ∧
      (Chain.transcript [.peek 2, .read (.blank 2), .read (.blank 2), .peek 9, .read (.blank 5),
        .read (.blank 1)] c ⟨.empty, .empty⟩).flatMap Chain.Exchange.taken = [13, 14, 15] := by
  obtain ⟨stages, h⟩ := exists_pipeline [1, 2, 3] [5, 9]
  obtain ⟨-, -, hall, hended⟩ := Chain.transcript_of_pipeline
    (c := ⟨stages, 0, "mem:", none, [], false, ⟨0, ⟨"mem:", none, [], .untyped⟩⟩⟩) h
    ⟨.empty, .empty⟩ [.peek 2, .read (.blank 2), .read (.blank 2), .peek 9, .read (.blank 5),
      .read (.blank 1)]
  exact ⟨_, h, (hall (hended (by decide))).trans (by decide)⟩

end MediaChain
