import MediaChain.Proofs.Chain.Career
import MediaChain.Proofs.Stage.Failures

/-!
# Chains that fail

The tail of a chain is errored as soon as one of its plugin's callbacks has failed, and not before.
From then on every call is refused with the same error, and nothing changes any more, neither in the
chain nor in the scene it acts upon (`Chain.useAll_of_errored`). A seek that is not supported
changes nothing either. `Chain.Ran.errored` says so of chains that were used in any way.
-/

namespace MediaChain

variable {ι ε : Type}

namespace Chain

variable {c c' : Chain ι ε} {tail : Stage ι ε} {rest : List (Stage ι ε)} {os : List Outcome}

/-! ## Using a chain -/

/-- The outcomes of the callbacks of the tail's plugin while a chain is used. -/
def outcomes (c : Chain ι ε) (scene : Scene ε) (u : Use) : List Outcome :=
  match c.stages with
  | [] => []
  | tail :: rest =>
    match u with
    | .read window => tail.readOutcomes (.reaching rest.length) window ⟨rest, scene⟩
    | .peek size => tail.peekOutcomes (.reaching rest.length) size ⟨rest, scene⟩
    | .seek offset whence =>
      tail.seekOutcomes (.reaching rest.length) offset whence ⟨rest, scene⟩

/-- What has become of a chain that was used in some way, and the outcomes of the callbacks of its
tail's plugin meanwhile. Between two uses others may have acted upon the scene. -/
inductive Ran (c : Chain ι ε) : List Outcome → Chain ι ε → Prop
  | refl : Ran c [] c
  | use {os : List Outcome} {c' : Chain ι ε} (scene : Scene ε) (u : Use) : Ran c os c' →
    Ran c (os ++ c'.outcomes scene u) (c'.use scene u).2.1

/-- Uses a chain in several ways, one after the other, and gives the answers. -/
def useAll : List Use → Chain ι ε → Scene ε →
    List (Except StageError Unit) × Chain ι ε × Scene ε
  | [], c, scene => ([], c, scene)
  | u :: us, c, scene =>
    let (answer, c, scene) := c.use scene u
    let (answers, rest) := useAll us c scene
    (answer :: answers, rest)

/-- What is used is the tail. -/
theorem use_eq (hstages : c.stages = tail :: rest) (scene : Scene ε) (u : Use) :
    ∃ (answer : Except StageError Unit) (s : Stage ι ε) (f : Front ι ε),
      c.use scene u = (answer, { c with stages := s :: f.stages }, f.scene) ∧
        tail.After (c.outcomes scene u) s := by
  unfold use outcomes readInto peek seek operate
  rw [hstages]
  cases u with
  | read window => exact ⟨_, _, _, rfl, tail.read_after _ window _⟩
  | peek size => exact ⟨_, _, _, rfl, tail.peek_after _ size _⟩
  | seek offset whence => exact ⟨_, _, _, rfl, tail.seek_after _ offset whence _⟩

theorem Ran.after (h : Ran c os c') (hstages : c.stages = tail :: rest) :
    ∃ tail' rest', c'.stages = tail' :: rest' ∧ tail.After os tail' := by
  induction h with
  | refl => exact ⟨tail, rest, hstages, .quiet rfl rfl rfl⟩
  | @use os c' scene u _ ih =>
    obtain ⟨tail', rest', hstages', hafter⟩ := ih
    obtain ⟨answer, s, f, huse, huse'⟩ := use_eq hstages' scene u
    exact ⟨s, f.stages, by rw [huse], hafter.trans huse'⟩

/-! ## Refused calls -/

/-- If the tail refuses something and stays as it is, so does the chain. -/
theorem operate_refused {α : Type} {op : Tap ι ε → StageOp ι ε α} {scene : Scene ε}
    {e : StageError} (hstages : c.stages = tail :: rest)
    (hop : op (.reaching rest.length) tail ⟨rest, scene⟩ = (.error e, tail, ⟨rest, scene⟩)) :
    c.operate scene op = (.error e, c, scene) := by
  obtain ⟨stages, decoderLength, url, entry, goals, rehash, bulletin⟩ := c
  obtain rfl : stages = tail :: rest := hstages
  unfold operate
  dsimp only
  rw [hop]

theorem use_of_errored (hstages : c.stages = tail :: rest) (herrored : tail.errored = true)
    (scene : Scene ε) (u : Use) :
    c.use scene u = (.error (.errored tail.name), c, scene) := by
  unfold use readInto peek seek
  cases u with
  | read window =>
    dsimp only
    rw [operate_refused hstages (Stage.read_of_errored _ window _ herrored)]
    rfl
  | peek size =>
    dsimp only
    rw [operate_refused hstages (Stage.peek_of_errored _ size _ herrored)]
    rfl
  | seek offset whence =>
    dsimp only
    rw [operate_refused hstages (Stage.seek_of_errored _ offset whence _ herrored)]
    rfl

/-- Whatever is tried with an errored chain, nothing happens. -/
theorem useAll_of_errored (hstages : c.stages = tail :: rest) (herrored : tail.errored = true)
    (us : List Use) (scene : Scene ε) :
    useAll us c scene = (us.map fun _ => .error (.errored tail.name), c, scene) := by
  induction us with
  | nil => rfl
  | cons u us ih =>
    unfold useAll
    rw [use_of_errored hstages herrored]
    dsimp only
    rw [ih, List.map_cons]

theorem use_seek_unsupported (hstages : c.stages = tail :: rest) {scene : Scene ε} {offset : Int}
    {whence : Whence} {name : String}
    (h : (c.use scene (.seek offset whence)).1 = .error (.seekUnsupported name)) :
    c.outcomes scene (.seek offset whence) = [] ∧
      c.use scene (.seek offset whence) = (.error (.seekUnsupported name), c, scene) := by
  have hseek : (tail.seek (.reaching rest.length) offset whence ⟨rest, scene⟩).1 =
      .error (.seekUnsupported name) := by
    unfold use seek operate at h
    rw [hstages] at h
    dsimp only at h
    cases hresult : (tail.seek (.reaching rest.length) offset whence ⟨rest, scene⟩).1 with
    | ok position =>
      rw [hresult] at h
      cases h
    | error e =>
      rw [hresult] at h
      cases h
      rfl
  obtain ⟨hnone, heq⟩ := Stage.seek_unsupported hseek
  unfold outcomes use seek
  dsimp only
  rw [operate_refused hstages heq, hstages]
  exact ⟨hnone, rfl⟩

/-- **Failures of a chain.** However a chain was used, its tail is errored if it was before or if a
callback of its plugin has failed since, and not otherwise; that callback was then the last, and a
plugin that keeps an account of its callbacks has told of these and of no others. As soon as the
tail is errored, everything that is done with the chain is answered with the same error, and changes
nothing in the chain nor in its scene. Nor does a seek that the plugin does not support, of which
the plugin does not even hear. -/
theorem Ran.errored (h : Ran c os c') (hstages : c.stages = tail :: rest) :
    ∃ tail' rest', c'.stages = tail' :: rest' ∧ tail'.name = tail.name ∧
      (tail'.errored = true ↔ tail.errored = true ∨ ∃ o ∈ os, o.failed = true) ∧
      (∀ o ∈ os.dropLast, o.failed = false) ∧
      (∀ account told, tail.Recounts account told → tail'.Recounts account (told ++ os)) ∧
      (tail'.errored = true → ∀ us scene,
        useAll us c' scene = (us.map fun _ => .error (.errored tail.name), c', scene)) ∧
      ∀ scene offset whence name,
        (c'.use scene (.seek offset whence)).1 = .error (.seekUnsupported name) →
          c'.outcomes scene (.seek offset whence) = [] ∧
            c'.use scene (.seek offset whence) = (.error (.seekUnsupported name), c', scene) := by
  obtain ⟨tail', rest', hstages', hafter⟩ := h.after hstages
  have hname : tail'.name = tail.name := congrArg Post.name hafter.post
  refine ⟨tail', rest', hstages', hname, ?_, hafter.before, hafter.told,
    fun herrored us scene => ?_,
    fun scene offset whence name hrefused => use_seek_unsupported hstages' hrefused⟩
  · rw [hafter.errored, Bool.or_eq_true, List.any_eq_true]
  · rw [← hname]
    exact useAll_of_errored hstages' herrored us scene

/-! ## A plugin that fails -/

/-- A plugin that keeps an account of its callbacks, and can be read only once. -/
def fragile : Plugin (List Outcome) Unit where
  descriptor := { name := "fragile", capabilities := { seek := true } }
  init := return .ok []
  read told window :=
    let result := if told = [] then .ok (.ofBytes [7]) else .error (.io "disk")
    return (result, told ++ [.read window result])
  seek told offset whence := return (.ok 0, told ++ [.seek offset whence (.ok 0)])

theorem fragile_tells : fragile.Tells id :=
  ⟨fun _ _ => .done rfl, fun _ _ _ => .done rfl⟩

/-- A chain in which the tail has this plugin. -/
def brittle : Chain (List Outcome) Unit where
  stages :=
    [{ post := .ofSettings {} [] "fragile" 1, desk := ⟨Token.origin, .empty, []⟩,
       engine := some ⟨fragile, 0, []⟩, outType := .ofMime "fragile", buffer := [], scratch := [],
       done := false, errored := false },
      .ofUrl {} [] "memfile://song.raw"]
  decoderLength := 2
  url := "memfile://song.raw"
  entry := none
  goals := []
  rehash := true
  bulletin := ⟨0, ⟨"", none, [], .untyped⟩⟩

/-- It reads a byte, seeks back, and fails as soon as it looks ahead. -/
theorem brittle_errored :
    ∃ c tail rest, Ran brittle
        [.read (.blank 1) (.ok (.ofBytes [7])), .seek 0 .start (.ok 0),
          .read (.blank 4096) (.error (.io "disk"))] c ∧
      c.stages = tail :: rest ∧ tail.errored = true ∧
      tail.Recounts id [.read (.blank 1) (.ok (.ofBytes [7])), .seek 0 .start (.ok 0),
        .read (.blank 4096) (.error (.io "disk"))] ∧
      ∀ us scene, useAll us c scene = (us.map fun _ => .error (.errored "fragile"), c, scene) := by
  let scene : Scene Unit := ⟨.empty, .empty⟩
  have hran : Ran brittle _ _ :=
    .use scene (.peek 2) (.use scene (.seek 0 .start) (.use scene (.read (.blank 1)) .refl))
  have houtcomes : ([] ++ brittle.outcomes scene (.read (.blank 1)) ++
      (brittle.use scene (.read (.blank 1))).2.1.outcomes scene (.seek 0 .start)) ++
        ((brittle.use scene (.read (.blank 1))).2.1.use scene (.seek 0 .start)).2.1.outcomes scene
          (.peek 2) =
      [.read (.blank 1) (.ok (.ofBytes [7])), .seek 0 .start (.ok 0),
        .read (.blank 4096) (.error (.io "disk"))] := by
    decide +kernel
  rw [houtcomes] at hran
  obtain ⟨tail, rest, hstages, -, herrored, -, htold, hinert, -⟩ := Ran.errored hran rfl
  have hfailed : tail.errored = true :=
    herrored.mpr (.inr ⟨_, List.mem_of_getLast? rfl, rfl⟩)
  exact ⟨_, tail, rest, hran, hstages, hfailed, htold id [] ⟨_, rfl, fragile_tells, rfl⟩,
    hinert hfailed⟩

end Chain

end MediaChain
