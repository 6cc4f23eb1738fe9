import MediaChain.Proofs.Chain.Career

/-!
# What a chain produces

Negotiation ends at a stage that produces a goal. The stages that are put behind it, at building and
at every rebuild, are asked what they take and not what they produce (`Chain.Extended`). So a chain
produces a goal unless one of them turns a goal into something else (`Chain.Served.outType`).
-/

namespace MediaChain

variable {ι ε : Type} {goals : List StreamType} {n : Nat}

namespace Chain

open Builder (reached)

variable {ss ss' : List (Stage ι ε)} {c : Chain ι ε}

/-! ## Stages behind the decoders -/

/-- Of some stages, tail first, the `n` in front produce a goal at their tail, and each other one
takes what the one in front of it produces. -/
inductive Extended (goals : List StreamType) (n : Nat) : List (Stage ι ε) → Prop
  | decoders {ss : List (Stage ι ε)} : ss.length = n → reached goals (tailType ss) = true →
    Extended goals n ss
  | behind {s : Stage ι ε} {engine : Engine ι ε} {rest : List (Stage ι ε)} :
    Extended goals n rest → s.engine = some engine →
      (engine.plugin.claim (tailType rest)).isSome = true → Extended goals n (s :: rest)

/-- One of the stages behind the `n` in front takes a goal and produces none. -/
def Strays (goals : List StreamType) (n : Nat) (ss : List (Stage ι ε)) : Prop :=
  ∃ s rest, s :: rest <:+ ss ∧ n ≤ rest.length ∧ reached goals (tailType rest) = true ∧
    reached goals s.outType = false

theorem Extended.le_length (h : Extended goals n ss) : n ≤ ss.length := by
  induction h with
  | decoders hlength _ => omega
  | behind _ _ _ ih => simp only [List.length_cons]; omega

theorem Extended.same (h : Extended goals n ss) (hsame : List.Forall₂ Stage.Same ss ss') :
    Extended goals n ss' := by
  induction h generalizing ss' with
  | decoders hlength hreached =>
    refine .decoders (hsame.length_eq ▸ hlength) ?_
    rw [Stage.tailType_of_same hsame]
    exact hreached
  | behind _ he hclaim ih =>
    obtain _ | ⟨hs, hrest⟩ := hsame
    obtain ⟨engine', he', hplugin⟩ := hs.plugin he
    refine .behind (ih hrest) he' ?_
    rw [Stage.tailType_of_same hrest, hplugin]
    exact hclaim

/-- Stages behind the decoders can be taken away. -/
theorem Extended.drop (h : Extended goals n ss) (count : Nat) (hle : n ≤ (ss.drop count).length) :
    Extended goals n (ss.drop count) := by
  induction count generalizing ss with
  | zero => exact h
  | succ count ih =>
    cases h with
    | decoders hlength hreached =>
      have hnil : ss.length = 0 := by
        simp only [List.length_drop] at hle
        omega
      rw [List.length_eq_zero_iff.mp hnil, List.drop_nil]
      exact .decoders (hlength ▸ hnil.symm) (List.length_eq_zero_iff.mp hnil ▸ hreached)
    | behind hrest _ _ => exact ih hrest hle

/-- The tail produces a goal unless a stage strayed from it. -/
theorem Extended.reached_or_strays (h : Extended goals n ss) :
    reached goals (tailType ss) = true ∨ Strays goals n ss := by
  induction h with
  | decoders _ hreached => exact .inl hreached
  | @behind s engine rest hrest _ _ ih =>
    rcases ih with hreached | ⟨s', rest', hsuffix, hle, hin, hout⟩
    · cases hs : reached goals s.outType with
      | true => exact .inl hs
      | false => exact .inr ⟨s, rest, List.suffix_rfl, hrest.le_length, hreached, hs⟩
    · exact .inr ⟨s', rest', hsuffix.trans (List.suffix_cons s rest), hle, hin, hout⟩

end Chain

namespace Builder

open Chain

variable {b : Builder ι ε} {f : Front ι ε}

/-- Whatever is set up takes what the tail produces. -/
theorem keeps_extended (b : Builder ι ε) (goals : List StreamType) (n : Nat) :
    b.Keeps goals fun f => Extended goals n f.stages := by
  refine .of_same (fun hsame h => h.same hsame) fun _ hclaim hcreate h => ?_
  obtain ⟨state, bench, outType, -, hs, -⟩ := Stage.create_ok hcreate
  exact h.behind (congrArg Stage.engine hs) hclaim

theorem keeps_length (b : Builder ι ε) (goals : List StreamType) (n : Nat) :
    b.Keeps goals fun f => n ≤ f.stages.length :=
  .of_same (P := fun ss => n ≤ ss.length) (fun hsame h => hsame.length_eq ▸ h)
    fun _ _ _ h => Nat.le_succ_of_le h

/-- An effect adds at most one stage. -/
theorem addEffect_length_le (b : Builder ι ε) (goals : List StreamType) (name : String)
    (f : Front ι ε) : (b.addEffect goals name f).2.stages.length ≤ f.stages.length + 1 := by
  rcases b.addEffect_cases goals name f with heq | ⟨p, -, -, -, ⟨s, f', hcreate, heq⟩ | heq⟩
  · rw [heq]
    exact Nat.le_succ _
  · have hlength := (Stage.create_same hcreate).length_eq
    rw [heq, List.length_cons]
    exact Nat.succ_le_succ (Nat.le_of_eq hlength.symm)
  · obtain ⟨e, f', hcreate, heq⟩ := heq
    rw [heq, (Stage.create_same hcreate).length_eq]
    exact Nat.le_succ _

/-- The stages that decode a url produce a goal. -/
theorem decode_reached {url : String} {scene scene' : Scene ε} {ss : List (Stage ι ε)}
    (h : b.decode goals url scene = (.ok ss, scene')) :
    reached goals (tailType ss) = true ∧ 2 ≤ ss.length := by
  obtain ⟨decoded, f, -, hnegotiate, hrecord⟩ := decode_ok h
  have hled : b.Led goals decoded (b.start goals url decoded scene).stages := .url (.refl _)
  obtain ⟨f₀, hsearched, hend⟩ := negotiate_cases (b.settings.stageLimit + 1) hled
    (Nat.le_add_right_of_le (Nat.le_succ _))
  have hpos := (hsearched.spec hled nofun).1.length_pos
  have hsame := (recordFormat_leads f).stages
  rw [hrecord] at hsame
  rcases hend with ⟨e, f', hrun, -⟩ | ⟨f', hrun, hgrows, hreached⟩
  · rw [hrun] at hnegotiate
    cases hnegotiate
  · rw [hrun] at hnegotiate
    cases hnegotiate
    rw [Stage.tailType_of_same hsame, ← hsame.length_eq, hgrows.length]
    exact ⟨hreached, by omega⟩

end Builder

/-! ## What becomes of a chain -/

namespace Chain

open Builder (reached)

variable {c : Chain ι ε}

/-- A chain that some builder has built for some goals, and that may have been used since and
rebuilt by any builders, upon any scenes. Its stages may have been worked in other ways, as long as
they stayed what they are. -/
def Served (goals : List StreamType) (c : Chain ι ε) : Prop :=
  ∃ scene, Career (fun c scene => ∃ (b : Builder ι ε) (l : Ledger), b.Makes goals l c scene)
    (fun _ => True)
    (fun c _ c' _ =>
      (∃ stages, c' = { c with stages }) ∧ List.Forall₂ Stage.Same c.stages c'.stages) c scene

/-- The stages that decode the stream are those that led to a goal, and at most one more. -/
structure Decodes (goals : List StreamType) (n : Nat) (c : Chain ι ε) : Prop where
  goals_eq : c.goals = goals
  two_le : 2 ≤ n
  le_decoder : n ≤ c.decoderLength
  decoder_le : c.decoderLength ≤ n + 1
  le_length : c.decoderLength ≤ c.stages.length
  extended : Extended goals n c.stages

theorem Decodes.of_buildFrom {b : Builder ι ε} {rehash : Bool} {now : Int64} {url : String}
    {l l' : Ledger} {w w' : World ε}
    (h : b.buildFrom goals rehash now url l w = (.ok c, l', w')) : ∃ n, Decodes goals n c := by
  unfold Builder.buildFrom at h
  split at h
  next => simp at h
  next ss scene hdecode =>
    obtain ⟨hreached, hlength⟩ := Builder.decode_reached hdecode
    simp only [Prod.mk.injEq, Except.ok.injEq] at h
    obtain ⟨rfl, -⟩ := h
    have hdecoders : Extended goals ss.length ss := .decoders rfl hreached
    have hmore := (b.keeps_length goals ss.length).addEffect b.settings.segmentPlugin
      (f := ⟨ss, scene⟩) (Nat.le_refl _)
    have hone := b.addEffect_length_le goals b.settings.segmentPlugin ⟨ss, scene⟩
    have hsegment := (b.keeps_extended goals ss.length).addEffect b.settings.segmentPlugin
      (f := ⟨ss, scene⟩) hdecoders
    refine ⟨ss.length, rfl, hlength, hmore, hone, ?_, ?_⟩
    · dsimp only [publish]
      split
      · exact Nat.le_refl _
      · exact (b.keeps_length goals _).addEffects (Nat.le_refl _)
    · dsimp only [publish]
      split
      · exact hsegment
      · exact (b.keeps_extended goals _).addEffects hsegment

theorem Decodes.same (h : Decodes goals n c) {stages : List (Stage ι ε)}
    (hsame : List.Forall₂ Stage.Same c.stages stages) : Decodes goals n { c with stages } :=
  ⟨h.goals_eq, h.two_le, h.le_decoder, h.decoder_le, hsame.length_eq ▸ h.le_length,
    h.extended.same hsame⟩

theorem Decodes.rebuild (h : Decodes goals n c) (b : Builder ι ε) (l : Ledger) (w : World ε) :
    Decodes goals n (b.rebuild c l w).1 := by
  obtain ⟨rfl, htwo, hle, hone, hlength, hextended⟩ := h
  have hdropped : (c.stages.drop (c.stages.length - c.decoderLength)).length = c.decoderLength := by
    rw [List.length_drop]
    omega
  have hkept := hextended.drop (c.stages.length - c.decoderLength) (by omega)
  exact ⟨rfl, htwo, hle, hone, (b.keeps_length c.goals _).rebuild (Nat.le_of_eq hdropped.symm),
    (b.keeps_extended c.goals n).rebuild hkept⟩

theorem Served.decodes (h : Served goals c) : ∃ n, Decodes goals n c := by
  obtain ⟨scene, h⟩ := h
  induction h with
  | first h =>
    obtain ⟨b, l, hmakes⟩ := h
    obtain ⟨rehash, now, url, l', w, w', hbuild, -⟩ := hmakes.buildFrom
    exact Decodes.of_buildFrom hbuild
  | @use c scene u _ ih =>
    obtain ⟨n, hn⟩ := ih
    obtain ⟨⟨stages, heq⟩, hleads⟩ := c.use_leads scene u
    have hsame := hleads.stages
    rw [heq] at hsame ⊢
    exact ⟨n, hn.same hsame⟩
  | @rebuild b c l w _ _ ih =>
    obtain ⟨n, hn⟩ := ih
    exact ⟨n, hn.rebuild b l w⟩
  | aside h _ ih =>
    obtain ⟨n, hn⟩ := ih
    obtain ⟨⟨stages, rfl⟩, hsame⟩ := h
    exact ⟨n, hn.same hsame⟩

/-- **What a chain produces.** Whatever effects are configured when a chain is built and whenever it
is rebuilt: the stages that negotiation set up produce a goal, at most one of the stages that decode
the stream is not of these, and each stage behind them takes what the one in front of it produces.
The chain itself produces a goal unless one of the stages behind them takes a goal and makes
something else of it. -/
theorem Served.outType (h : Served goals c) :
    ∃ n, 2 ≤ n ∧ n ≤ c.decoderLength ∧ c.decoderLength ≤ n + 1 ∧ Extended goals n c.stages ∧
      (reached goals c.outType = true ∨ Strays goals n c.stages) := by
  obtain ⟨n, hn⟩ := h.decodes
  exact ⟨n, hn.two_le, hn.le_decoder, hn.decoder_le, hn.extended, hn.extended.reached_or_strays⟩

/-! ## An effect that makes something else of a goal -/

/-- A plugin that makes streams of one media type from streams of another. -/
def converter (name input output : String) : Plugin Unit Unit where
  descriptor := { name, inputs := [⟨.ofMime input, 1⟩] }
  init := do
    let _ ← Script.request (.setOutType (.ofMime output))
    return .ok ()
  read _ _ := return (.ok (.ofBytes []), ())

/-- Urls are opened as samples, and there is an effect that encodes samples. -/
def studio : Builder Unit Unit :=
  ⟨⟨[converter "feed" StreamType.urlMime StreamType.pcmMime,
    converter "encode" StreamType.pcmMime "audio/ogg"]⟩, {}, false⟩

def samples : List StreamType := [.ofMime StreamType.pcmMime]

/-- What building a chain for samples comes to if the configuration lists this effect. -/
def equipped (effect : String) : Except ChainError (Chain Unit Unit) × Ledger × World Unit :=
  let config := Config.empty.register "effect.order.0" effect
  studio.buildFrom samples false 0 "memfile://song.raw" (.empty false)
    ⟨{ Backstage.empty with config }, .empty, ∅⟩

/-- The effect is put behind the stage that produces samples, and the chain produces none. -/
theorem equipped_outType :
    (equipped "encode").1.toOption.map
        (fun c => (c.decoderLength, c.stages.length, c.outType)) =
      some (2, 3, .ofMime "audio/ogg") ∧
      reached samples (.ofMime "audio/ogg") = false := by
  decide +kernel

/-- Of the stages of that chain it is the effect that strays. -/
theorem equipped_strays :
    ∃ c l w, equipped "encode" = (.ok c, l, w) ∧ Served samples c ∧
      reached samples c.outType = false ∧ Strays samples 2 c.stages := by
  have hok : (equipped "encode").1.toOption.map
      (fun c => (c.decoderLength, reached samples c.outType)) = some (2, false) := by
    decide +kernel
  rcases hrun : equipped "encode" with ⟨e | c, l, w⟩
  · rw [hrun] at hok
    cases hok
  · rw [hrun] at hok
    simp only [Except.toOption, Option.map_some, Option.some.injEq, Prod.mk.injEq] at hok
    obtain ⟨hdecoders, hout⟩ := hok
    have hserved : Served samples c := by
      unfold equipped at hrun
      exact ⟨_, .first ⟨_, _, .forUrl hrun⟩⟩
    obtain ⟨n, htwo, hle, -, -, hreached | hstrays⟩ := hserved.outType
    · rw [hreached] at hout
      cases hout
    · obtain rfl : n = 2 := by omega
      exact ⟨c, l, w, rfl, hserved, hout, hstrays⟩

end Chain

end MediaChain
