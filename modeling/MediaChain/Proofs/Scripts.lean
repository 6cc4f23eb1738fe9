import MediaChain.Plugin.Script

/-!
# Runs of scripts

What holds of every run of a script. `Script.trace` lists the requests of a run, and
`Script.run_foldl` computes what the answers keep track of from that list. `Script.Ends`,
`Script.Passes` and `Script.Forwards` describe scripts by the requests they may make: `Ends` by the
requests alone, `Passes` those that read exactly once, `Forwards` those that make one given request.
-/

namespace MediaChain

variable {ε α β σ : Type}

/-- A request that does not reach the stage in front. -/
def Request.IsLocal : Request ε → Prop
  | .read _ | .peek _ | .seek _ _ | .readLine => False
  | _ => True

namespace Script

variable {answer : (q : Request ε) → σ → q.Answer × σ}

/-! ## The requests of a run -/

/-- The requests that a run makes, in order. -/
def trace (answer : (q : Request ε) → σ → q.Answer × σ) : Script ε α → σ → List (Request ε)
  | done _, _ => []
  | ask q next, s => q :: (next (answer q s).1).trace answer (answer q s).2

/-- A part of the state that each request changes in its own way is changed by a run as its
requests say, one after the other. -/
theorem run_foldl (part : σ → β) {step : β → Request ε → β}
    (h : ∀ q s, part (answer q s).2 = step (part s) q) (x : Script ε α) (s : σ) :
    part (x.run answer s).2 = (x.trace answer s).foldl step (part s) := by
  induction x generalizing s with
  | done a => rfl
  | ask q next ih =>
    show part ((next (answer q s).1).run answer (answer q s).2).2 = _
    rw [ih, h]
    rfl

/-- What every request that a run makes keeps, the run keeps. -/
theorem run_of_trace {ok : Request ε → Prop} {J : σ → Prop}
    (h : ∀ q s, ok q → J s → J (answer q s).2) (x : Script ε α) (s : σ)
    (hx : ∀ q ∈ x.trace answer s, ok q) (hs : J s) : J (x.run answer s).2 := by
  induction x generalizing s with
  | done a => exact hs
  | ask q next ih =>
    obtain ⟨hq, hnext⟩ := List.forall_mem_cons.mp hx
    exact ih _ _ hnext (h q s hq hs)

/-! ## Scripts by their requests -/

/-- A script makes only requests with `ok`, and every result it can have satisfies `P`. -/
inductive Ends (ok : Request ε → Prop) (P : α → Prop) : Script ε α → Prop
  | done {a : α} : P a → Ends ok P (.done a)
  | ask {q : Request ε} {next : q.Answer → Script ε α} :
    ok q → (∀ answer, Ends ok P (next answer)) → Ends ok P (.ask q next)

/-- What every such request keeps, the script keeps. -/
theorem Ends.run {ok : Request ε → Prop} {P : α → Prop} {x : Script ε α} (hx : x.Ends ok P)
    (answer : (q : Request ε) → σ → q.Answer × σ) {J : σ → Prop}
    (h : ∀ q s, ok q → J s → J (answer q s).2) {s : σ} (hs : J s) :
    P (x.run answer s).1 ∧ J (x.run answer s).2 := by
  induction hx generalizing s with
  | done ha => exact ⟨ha, hs⟩
  | ask hq _ ih => exact ih _ (h _ _ hq hs)

theorem Ends.bind {ok : Request ε → Prop} {P : α → Prop} {Q : β → Prop} {x : Script ε α}
    (hx : x.Ends ok P) {f : α → Script ε β} (hf : ∀ a, P a → (f a).Ends ok Q) :
    (x >>= f).Ends ok Q := by
  induction hx with
  | done ha => exact hf _ ha
  | ask hq _ ih => exact .ask hq ih

theorem Ends.mono {ok : Request ε → Prop} {P Q : α → Prop} {x : Script ε α} (hx : x.Ends ok P)
    (h : ∀ a, P a → Q a) : x.Ends ok Q := by
  induction hx with
  | done ha => exact .done (h _ ha)
  | ask hq _ ih => exact .ask hq ih

/-- A script reads from the stage in front exactly once, into a window `w` that holds at least one
and at most `size` bytes, and makes only local requests besides. If it gets a reply, its result
satisfies `P`. -/
inductive Passes (size : Nat) (P : Window → Reply → α → Prop) : Script ε α → Prop
  | ask {q : Request ε} {next : q.Answer → Script ε α} :
    q.IsLocal → (∀ answer, Passes size P (next answer)) → Passes size P (.ask q next)
  | read {w : Window} {next : Except StageError Reply → Script ε α} :
    0 < w.size → w.size ≤ size →
      (∀ reply, (next (.ok reply)).Ends Request.IsLocal (P w reply)) →
        Passes size P (.ask (.read w) next)

/-- Local requests keep `J` until the read is answered, and `K` from then on. -/
theorem Passes.run {size : Nat} {P : Window → Reply → α → Prop} {x : Script ε α}
    (hx : x.Passes size P) (answer : (q : Request ε) → σ → q.Answer × σ) {J : σ → Prop}
    {K : Window → Reply → σ → Prop}
    (hJ : ∀ q s, q.IsLocal → J s → J (answer q s).2)
    (hread : ∀ w s, 0 < w.size → w.size ≤ size → J s →
      ∃ reply s', answer (.read w) s = (.ok reply, s') ∧ K w reply s')
    (hK : ∀ w reply q s, q.IsLocal → K w reply s → K w reply (answer q s).2)
    {s : σ} (hs : J s) :
    ∃ w reply, 0 < w.size ∧ w.size ≤ size ∧ P w reply (x.run answer s).1 ∧
      K w reply (x.run answer s).2 := by
  induction hx generalizing s with
  | ask hq _ ih => exact ih _ (hJ _ _ hq hs)
  | @read w next hpos hle hnext =>
    obtain ⟨reply, s', hanswer, hs'⟩ := hread w s hpos hle hs
    obtain ⟨hP, hK'⟩ := (hnext reply).run answer (hK w reply) hs'
    have hrun : (Script.ask (.read w) next).run answer s = (next (.ok reply)).run answer s' := by
      rw [run_ask, hanswer]
    exact ⟨w, reply, hpos, hle, hrun ▸ hP, hrun ▸ hK'⟩

theorem Passes.of_ends_bind {size : Nat} {P : Window → Reply → β → Prop} {Q : α → Prop}
    {x : Script ε α} (hx : x.Ends Request.IsLocal Q) {f : α → Script ε β}
    (hf : ∀ a, Q a → (f a).Passes size P) : (x >>= f).Passes size P := by
  induction hx with
  | done ha => exact hf _ ha
  | ask hq _ ih => exact .ask hq ih

/-- A script makes one given request exactly once, and only local requests besides. Its result
satisfies `P` for the answer it gets. -/
inductive Forwards (q₀ : Request ε) (P : q₀.Answer → α → Prop) : Script ε α → Prop
  | ask {q : Request ε} {next : q.Answer → Script ε α} :
    q.IsLocal → (∀ answer, Forwards q₀ P (next answer)) → Forwards q₀ P (.ask q next)
  | forward {next : q₀.Answer → Script ε α} :
    (∀ answer, (next answer).Ends Request.IsLocal (P answer)) → Forwards q₀ P (.ask q₀ next)

/-- Local requests keep `J` until the request is answered, and `K` from then on. -/
theorem Forwards.run {q₀ : Request ε} {P : q₀.Answer → α → Prop} {x : Script ε α}
    (hx : x.Forwards q₀ P) (answer : (q : Request ε) → σ → q.Answer × σ) {J : σ → Prop}
    {K : q₀.Answer → σ → Prop} (hJ : ∀ q s, q.IsLocal → J s → J (answer q s).2)
    (hforward : ∀ s, J s → K (answer q₀ s).1 (answer q₀ s).2)
    (hK : ∀ a q s, q.IsLocal → K a s → K a (answer q s).2) {s : σ} (hs : J s) :
    ∃ a, P a (x.run answer s).1 ∧ K a (x.run answer s).2 := by
  induction hx generalizing s with
  | ask hq _ ih => exact ih _ (hJ _ _ hq hs)
  | forward hnext =>
    obtain ⟨hP, hK'⟩ := (hnext (answer q₀ s).1).run answer (hK _) (hforward s hs)
    exact ⟨_, hP, hK'⟩

theorem Forwards.of_ends_bind {q₀ : Request ε} {P : q₀.Answer → β → Prop} {Q : α → Prop}
    {x : Script ε α} (hx : x.Ends Request.IsLocal Q) {f : α → Script ε β}
    (hf : ∀ a, Q a → (f a).Forwards q₀ P) : (x >>= f).Forwards q₀ P := by
  induction hx with
  | done ha => exact hf _ ha
  | ask hq _ ih => exact .ask hq ih

end Script

end MediaChain
