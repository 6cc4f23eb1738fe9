import MediaChain.Proofs.Chain.Calls

/-!
# Seeking in a chain

A chain of a stage that serves some data and of any number of stages that carry it is read from,
looked ahead in and sought in. However far its stages have read ahead, a seek is one in the data,
from the position of the reader (`Chain.Sought.seek_lands`). Plugins that serve and carry are built
into such chains (`Builder.Makes.course`).
-/

namespace MediaChain

variable {ι ε : Type} {n : Nat} {data rest : Bytes} {R : List (Stage ι ε) → Bytes → Prop}

/-- Stages, tail first, of which the one in front serves some data and the others carry it. All of
them are as they were set up, except that facts may have been recorded for a stage before the next
one was set up behind it. -/
inductive Course (data : Bytes) : List (Stage ι ε) → Prop
  | source {p : Plugin ι ε} {settings : Settings} {goals : List StreamType} {s : Stage ι ε}
    {f f' : Front ι ε} {located : ι → Nat → Prop} :
    (∀ s ∈ f.stages, s.engine = none) → p.Serves data located → p.Begins (located · 0) →
      Stage.create p settings goals f = (.ok s, f') → Course data (s :: f'.stages)
  | relay {p : Plugin ι ε} {settings : Settings} {goals : List StreamType} {s : Stage ι ε}
    {f f' : Front ι ε} {fit : ι → Prop} :
    Course data f.stages → p.Relays 0 fit → p.Refers fit → p.Begins fit →
      Stage.create p settings goals f = (.ok s, f') → Course data (s :: f'.stages)
  | recordFact {s : Stage ι ε} {front : List (Stage ι ε)} (log : Facts.Log) (key : String)
    (value : Value) :
    Course data (s :: front) → Course data ((s.recordFact log key value).1 :: front)

/-- Nothing of a new course was read yet. -/
theorem Course.carried {stages : List (Stage ι ε)} (h : Course data stages) :
    ∃ n count, Carried n data count stages data := by
  induction h with
  | @source p settings goals s f f' located hundriven hp hinit hcreate =>
    refine ⟨f.stages.length, 0, Stage.stocked_of_create hinit (fun state hstate => ?_) hcreate⟩
    exact ⟨rfl, hundriven, located, 0, hp, hstate, rfl⟩
  | relay _ hp hrefers hinit hcreate ih =>
    obtain ⟨n, count, hfront⟩ := ih
    refine ⟨n, count + 1, Stage.stocked_of_create hinit (fun state hstate => ?_) hcreate⟩
    exact ⟨_, hp, hrefers, hstate, hfront⟩
  | recordFact log key value _ ih =>
    obtain ⟨n, count, hs⟩ := ih
    exact ⟨n, count, hs.recordFact log key value⟩

namespace Builder

variable {b : Builder ι ε}

/-- The plugins that open urls serve some data, those that take other streams carry them, and none
gives out a url. -/
def Carries (b : Builder ι ε) (data : Bytes) : Prop :=
  ∀ p ∈ b.registry.plugins,
    (∀ url, (p.claim (.ofUrl url)).isSome = true →
      ∃ located, p.Serves data located ∧ p.Begins (located · 0)) ∧
    (∀ type, (∀ url, type ≠ .ofUrl url) → (p.claim type).isSome = true →
      ∃ fit, p.Relays 0 fit ∧ p.Refers fit ∧ p.Begins fit) ∧
    ∀ {settings goals f s f'}, Stage.create p settings goals f = (.ok s, f') →
      ∀ url, s.outType ≠ .ofUrl url

theorem Carries.lays (hb : b.Carries data) (goals : List StreamType) :
    b.Lays goals fun stages =>
      Course data stages ∧ ∀ url, Chain.tailType stages ≠ .ofUrl url where
  create {p f} hp hclaim hf := by
    obtain ⟨hopens, hcarries, hout⟩ := hb p hp
    rcases hf with ⟨s, url, hstages, hengine, htype⟩ | ⟨hf, hurl⟩
    · have htail : Chain.tailType f.stages = .ofUrl url := by
        rw [hstages]
        exact htype
      have hundriven : ∀ t ∈ f.stages, t.engine = none := fun t ht => by
        rw [hstages] at ht
        rw [List.mem_singleton.mp ht, hengine]
      obtain ⟨located, hserves, hbegins⟩ := hopens url (htail ▸ hclaim)
      exact ⟨⟨_, hbegins⟩, fun hcreate =>
        ⟨.source hundriven hserves hbegins hcreate, hout hcreate⟩⟩
    · obtain ⟨fit, hrelays, hrefers, hbegins⟩ := hcarries _ hurl hclaim
      exact ⟨⟨_, hbegins⟩, fun hcreate =>
        ⟨.relay hf hrelays hrefers hbegins hcreate, hout hcreate⟩⟩
  record log key value hf := ⟨hf.1.recordFact log key value, hf.2⟩

/-- Chains that are built of such plugins are courses. -/
theorem Makes.course {goals : List StreamType} {l : Ledger} {c : Chain ι ε} {scene : Scene ε}
    (h : b.Makes goals l c scene) (hb : b.Carries data) : Course data c.stages :=
  ((hb.lays goals).stages h).1

end Builder

/-- A seek in a chain is one in its tail. -/
theorem Seekable.chain_seek (hR : Seekable n data R) {c : Chain ι ε} (h : R c.stages rest)
    (scene : Scene ε) (offset : Int) (whence : Whence) :
    Lands data R (seekTarget data.length (data.length - rest.length) offset whence)
      (c.seek scene offset whence).1 (c.seek scene offset whence).2.1.stages := by
  obtain ⟨stages, decoderLength, url, entry, goals, rehash, bulletin⟩ := c
  cases stages with
  | nil => exact absurd (hR.length h) (Nat.succ_ne_zero n).symm
  | cons s front =>
    have hlen : front.length = n := Nat.succ.inj (hR.length h)
    subst hlen
    exact hR.seek h scene offset whence

namespace Chain

variable {c : Chain ι ε} {position : Nat}

/-- A chain that serves some data after reads, looks ahead and successful seeks, with the position
that they have led to. The scene may change in between. -/
inductive Sought (data : Bytes) : Chain ι ε → Nat → Prop
  | start {c : Chain ι ε} : Course data c.stages → Sought data c 0
  | call {c c' : Chain ι ε} {position : Nat} {scene scene' : Scene ε} {call : Call}
    {bytes : Bytes} :
    Sought data c position → c.call scene call = (.ok bytes, c', scene') →
      Sought data c' (position + (Exchange.taken (call, .ok bytes)).length)
  | seek {c c' : Chain ι ε} {position position' : Nat} {scene scene' : Scene ε} {offset : Int}
    {whence : Whence} :
    Sought data c position → c.seek scene offset whence = (.ok position', c', scene') →
      Sought data c' position'

/-- The stages have the data from that position on left to give. -/
theorem Sought.carried (h : Sought data c position) :
    position ≤ data.length ∧ ∃ n count, Carried n data count c.stages (data.drop position) := by
  induction h with
  | start hcourse => exact ⟨Nat.zero_le _, hcourse.carried⟩
  | @call c c' position scene scene' call bytes _ hcall ih =>
    obtain ⟨hle, n, count, hcarried⟩ := ih
    obtain ⟨bytes', c₁, scene₁, rest, hcall', hrest, htaken, -⟩ :=
      (carried_seekable n data count).toSupply.call hcarried scene call
    rw [hcall] at hcall'
    simp only [Prod.mk.injEq, Except.ok.injEq] at hcall'
    obtain ⟨rfl, rfl, rfl⟩ := hcall'
    have hlength := congrArg List.length htaken
    rw [List.length_append, List.length_drop] at hlength
    refine ⟨by omega, n, count, ?_⟩
    rw [← List.drop_drop, ← htaken, List.drop_left]
    exact hrest
  | @seek c c' position position' scene scene' offset whence _ hseek ih =>
    obtain ⟨hle, n, count, hcarried⟩ := ih
    have hlands := (carried_seekable n data count).chain_seek hcarried scene offset whence
    rw [hseek] at hlands
    obtain ⟨⟨-, hupper⟩, hposition, hrest, -⟩ := hlands.of_ok
    exact ⟨by omega, n, count, hrest⟩

/-- **Seeking.** However a reader has got to its position in the data, the chain delivers the data
from there on, and a seek is one in the data: it succeeds if and only if it asks for a position in
them or for their end. Then it gives that position, no stage that a plugin drives is ahead of its
reader, and the chain delivers the data from the new position on. If it fails, so have all stages
that plugins drive. -/
theorem Sought.seek_lands (h : Sought data c position) (scene : Scene ε) (offset : Int)
    (whence : Whence) {target : Int}
    (htarget : target = seekTarget data.length position offset whence) :
    position ≤ data.length ∧ c.Delivers (data.drop position) ∧
      ((∃ p, (c.seek scene offset whence).1 = .ok p) ↔ 0 ≤ target ∧ target ≤ data.length) ∧
      (∀ p c' scene', c.seek scene offset whence = (.ok p, c', scene') →
        (p : Int) = target ∧ Rewound c'.stages ∧ c'.Delivers (data.drop p)) ∧
      ∀ e c' scene', c.seek scene offset whence = (.error e, c', scene') → Failed c'.stages := by
  obtain ⟨hle, n, count, hcarried⟩ := h.carried
  have hR := carried_seekable (ι := ι) (ε := ε) n data count
  have hlands := hR.chain_seek hcarried scene offset whence
  rw [length_sub_length_drop hle, ← htarget] at hlands
  refine ⟨hle, hR.toSupply.delivers hcarried, ⟨?_, fun hin => ⟨_, (hlands.inside hin).1⟩⟩, ?_, ?_⟩
  · rintro ⟨p, hp⟩
    rw [hp] at hlands
    exact hlands.of_ok.1
  · intro p c' scene' hseek
    rw [hseek] at hlands
    obtain ⟨-, hp, hrest, hrewound⟩ := hlands.of_ok
    exact ⟨hp, hrewound, hR.toSupply.delivers hrest⟩
  · intro e c' scene' hseek
    rw [hseek] at hlands
    exact hlands.of_error

end Chain

/-! ## Courses of scripted plugins -/

open Scripted

/-- There are courses of all data through any number of stages that carry them. -/
theorem exists_course (data : Bytes) (count : Nat) :
    ∃ stages : List (Stage State Note), Course data stages ∧ count < stages.length := by
  induction count with
  | zero =>
    have hp := winding_steady .feed .feed data
    let f : Front State Note := ⟨[.ofUrl {} [] "mem:"], ⟨.empty, .empty⟩⟩
    obtain ⟨s, f', hs⟩ : ∃ s f',
        Stage.create (winding .feed .feed data).plugin {} [] f = (.ok s, f') := ⟨_, _, rfl⟩
    have hundriven : ∀ s ∈ f.stages, s.engine = none := fun s hs => by
      rw [List.mem_singleton.mp hs]
      rfl
    exact ⟨_, .source hundriven (hp.serves rfl rfl winding_seekCalls rfl)
      (hp.begins ⟨rfl, Nat.zero_le _⟩) hs, Nat.succ_pos _⟩
  | succ count ih =>
    obtain ⟨stages, hstages, hlength⟩ := ih
    have hp := winding_steady (.relay 0) .forward []
    have hbegins := hp.begins (P := fun _ => True) trivial
    let f : Front State Note := ⟨stages, ⟨.empty, .empty⟩⟩
    obtain ⟨s, f', hs⟩ : ∃ s f',
        Stage.create (winding (.relay 0) .forward []).plugin {} [] f = (.ok s, f') := ⟨_, _, rfl⟩
    have hfront : f'.stages = stages := by
      have h := (Stage.create_front hbegins {} [] f).1
      rwa [hs] at h
    refine ⟨_, .relay hstages (hp.relays rfl) (Steady.refers rfl winding_seekCalls rfl) hbegins hs,
      ?_⟩
    rw [List.length_cons, hfront]
    exact Nat.succ_lt_succ hlength

/-- Of four bytes that pass through five stages, a reader seeks the third one; it cannot seek three
further from there. -/
theorem Chain.seek_lands_winding :
    ∃ (c c' : Chain State Note) (scene scene' : Scene Note), 5 < c.stages.length ∧
      c.seek scene 2 .here = (.ok 2, c', scene') ∧ c'.Delivers [3, 4] ∧
      ∃ e c'' scene'', c'.seek scene' 3 .here = (.error e, c'', scene'') ∧ Failed c''.stages := by
  obtain ⟨stages, hcourse, hlength⟩ := exists_course [1, 2, 3, 4] 5
  let c : Chain State Note :=
    ⟨stages, 0, "mem:", none, [], false, ⟨0, ⟨"mem:", none, [], .untyped⟩⟩⟩
  have hstart : Sought [1, 2, 3, 4] c 0 := .start hcourse
  obtain ⟨-, -, hok, hlands, -⟩ := hstart.seek_lands ⟨.empty, .empty⟩ 2 .here rfl
  rcases hseek : c.seek ⟨.empty, .empty⟩ 2 .here with ⟨e | p, c', scene'⟩
  · obtain ⟨p, hp⟩ := hok.mpr (by decide)
    rw [hseek] at hp
    cases hp
  obtain ⟨hp, -, hdelivers⟩ := hlands p c' scene' hseek
  obtain rfl : p = 2 := Int.ofNat.inj hp
  obtain ⟨-, -, hok', -, hfailed⟩ := (hstart.seek hseek).seek_lands scene' 3 .here rfl
  rcases hseek' : c'.seek scene' 3 .here with ⟨e | p, c'', scene''⟩
  · exact ⟨c, c', _, scene', hlength, hseek, hdelivers, e, c'', scene'', hseek',
      hfailed _ _ _ hseek'⟩
  · exact absurd (hok'.mp ⟨p, by rw [hseek']⟩) (by decide)

end MediaChain
