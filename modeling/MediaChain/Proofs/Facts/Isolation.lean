import Mathlib.Data.List.Forall2
import MediaChain.Proofs.Facts.Log
import MediaChain.Stage.Life
import MediaChain.World

/-!
# What later stages can do to earlier ones

The stages of a chain share one log and one count of tokens, so that what a later stage records
changes the tokens of earlier stages and how far they see. It does not change what they see: the
writes of all stages behind an order can be left out, and every stage up to that order still reads
the same (`Ensemble.readings_withheld`). All that is asked of the stages is that their ledger was
not reset under them (`Ensemble.Issued`) and that their orders grow.
-/

namespace MediaChain

open Facts

variable {ι ε α : Type} {i order : Nat} {token token' : Token} {log log' : Log} {key : String}

/-! ## Outlooks -/

/-- A fact apart from when it was written. -/
def Fact.content (f : Fact) : Fact := { f with token := Token.origin, stamp := Token.origin }

/-- Whether a stage up to an order can ever see a fact. -/
def Fact.reaches (f : Fact) (i : Nat) : Bool := f.lifetime = .origin || f.order ≤ i

/-- Whether a fact is visible to a reader, if it is known whether it is within the horizon. -/
def Fact.shown (f : Fact) (within : Bool) (order : Nat) (source : String) : Bool :=
  match f.lifetime with
  | .origin => f.source = source || f.source = serverSource || source = serverSource
  | _ => within && f.order ≤ order

/-- What is visible to a reader is among what can ever reach its place. -/
theorem Fact.visible_eq_shown (f : Fact) (horder : order ≤ i) (source : String) :
    f.visible token order source =
      (f.reaches i && f.content.shown (f.token ≤ token) order source) := by
  obtain ⟨t, stamp, o, src, k, value, lifetime⟩ := f
  cases lifetime with
  | origin => rfl
  | _ =>
    simp only [Fact.visible, Fact.reaches, Fact.content, Fact.shown]
    by_cases ho : o ≤ order
    · simp [ho, Nat.le_trans ho horder]
    · simp [ho]

namespace Facts.Log

/-- The facts that can ever be seen by stages up to an order, without their tokens, and whether they
are within a horizon. -/
def outlook (log : Log) (i : Nat) (horizon : Token) : List (Fact × Bool) :=
  (log.facts.filter (·.reaches i)).map fun f => (f.content, decide (f.token ≤ horizon))

/-- What a stage finds depends on its outlook only. -/
theorem find?_eq_outlook (log : Log) (horder : order ≤ i) (source : String) :
    log.find? token order source key =
      ((log.outlook i token).reverse.find? fun p =>
        p.1.shown p.2 order source && p.1.key = key).map fun p => p.1.value := by
  unfold Log.find? outlook
  rw [← List.map_reverse, List.find?_map, Option.map_map, ← List.filter_reverse, List.find?_filter]
  congr 2
  funext f
  rw [f.visible_eq_shown horder, Bool.and_assoc, Bool.decide_and, Bool.decide_eq_true,
    Bool.decide_eq_true]
  rfl

theorem find?_congr (h : log.outlook i token = log'.outlook i token') (horder : order ≤ i)
    (source : String) : log.find? token order source key = log'.find? token' order source key := by
  rw [find?_eq_outlook log horder, find?_eq_outlook log' horder, h]

/-- A horizon that was raised to another one sees what either saw. -/
theorem outlook_max (log : Log) (i : Nat) (t u : Token) :
    log.outlook i (max t u) =
      List.zipWith (fun p q => (p.1, p.2 || q.2)) (log.outlook i t) (log.outlook i u) := by
  unfold outlook
  rw [List.zipWith_map, List.zipWith_self]
  refine List.map_congr_left fun f _ => ?_
  have hmax : f.token ≤ max t u ↔ f.token ≤ t ∨ f.token ≤ u := by grind
  simp only [hmax, Bool.decide_or]

/-- No token of a fact is larger than the last one that was issued. -/
def Bounded (log : Log) : Prop := ∀ f ∈ log.facts, f.token ≤ log.lastToken

/-- A horizon behind all facts sees all of them. -/
theorem Bounded.outlook (h : log.Bounded) (hle : log.lastToken ≤ token) (i : Nat) (u : Token) :
    log.outlook i token = (log.outlook i u).map fun p => (p.1, true) := by
  unfold Log.outlook
  rw [List.map_map]
  refine List.map_congr_left fun f hf => ?_
  have hf' : f.token ≤ token := Nat.le_trans (h f (List.mem_filter.mp hf).1) hle
  simp only [Function.comp_apply, hf', decide_true]

/-! ## Writing -/

/-- The log after a stage has recorded a fact. -/
abbrev recorded (log : Log) (order : Nat) (source key : String) (value : Value) : Log :=
  (log.append order source key value .persistent).2

variable {source : String} {value : Value}

theorem outlook_recorded (log : Log) (order : Nat) (source key : String) (value : Value) (i : Nat)
    (t : Token) :
    (log.recorded order source key value).outlook i t = log.outlook i t ++
      if order ≤ i then
        [(⟨Token.origin, Token.origin, order, source, key, value, .persistent⟩,
          decide (log.lastToken + 1 ≤ t))]
      else [] := by
  show ((log.facts ++ [_]).filter _).map _ = _
  rw [List.filter_append, List.map_append]
  congr 1
  by_cases h : order ≤ i <;> simp [Fact.reaches, Fact.content, h]

theorem outlook_origin (log : Log) (order : Nat) (source key : String) (value : Value) (i : Nat)
    (t : Token) :
    (log.append order source key value .origin).2.outlook i t = log.outlook i t ++
      [(⟨Token.origin, Token.origin, order, source, key, value, .origin⟩, true)] := by
  show ((log.facts ++ [_]).filter _).map _ = _
  rw [List.filter_append, List.map_append]
  rfl

theorem Bounded.append (h : log.Bounded) (order : Nat) (source key : String) (value : Value)
    (lifetime : Lifetime) : (log.append order source key value lifetime).2.Bounded := by
  intro f hf
  cases lifetime with
  | origin =>
    rcases List.mem_append.mp hf with hf | hf
    · exact h f hf
    · rw [List.mem_singleton.mp hf]
      exact Nat.zero_le _
  | _ =>
    rcases List.mem_append.mp hf with hf | hf
    · exact Nat.le_succ_of_le (h f hf)
    · rw [List.mem_singleton.mp hf]
      exact Nat.le_refl _

theorem bounded_reset (l : Ledger) (entry : EntryId) (properties : List (String × Value)) :
    (l.reset entry properties).log.Bounded :=
  Ledger.reset_invariant (P := Bounded) (fun _ _ _ h => h.append _ _ _ _ _) l entry properties
    fun _ hf => absurd hf List.not_mem_nil

end Facts.Log

/-! ## Stages that share a ledger -/

/-- Stages, tail first, whose facts go to one ledger, and the world around them. -/
structure Ensemble (ι ε : Type) where
  stages : List (Stage ι ε)
  ledger : Ledger
  world : World ε

namespace Ensemble

/-- What a stage up to some order was answered when it asked for a fact. -/
structure Reading where
  order : Nat
  key : String
  value : Option Value
deriving DecidableEq

/-- What is done with facts while a chain runs. Stages are meant by their places, counted from the
tail. -/
inductive Act
  /-- A fact is recorded on behalf of a stage. -/
  | record (place : Nat) (key : String) (value : Value)
  | recordInt (place : Nat) (key : String) (value : Int64)
  | recordText (place : Nat) (key value : String)
  /-- The host writes a fact of the origin. -/
  | origin (order : Nat) (source key : String) (value : Value)
  /-- A stage has read from the one in front. -/
  | pass (place : Nat)
  | react (token : Token)
  | known (place : Nat) (key : String)

/-- The place of the stage that acts. -/
def Act.place? : Act → Option Nat
  | record place _ _ | recordInt place _ _ | recordText place _ _ => some place
  | pass place | known place _ => some place
  | origin _ _ _ _ | react _ => none

/-- The place of the stage that writes. -/
def Act.writer? : Act → Option Nat
  | record place _ _ | recordInt place _ _ | recordText place _ _ => some place
  | _ => none

variable (e : Ensemble ι ε)

/-- Does something to the stage at a place, if there is one. -/
def work (place : Nat) (op : Stage ι ε → Front ι ε → α × Stage ι ε × Front ι ε) :
    Option α × Ensemble ι ε :=
  match e.stages.drop place with
  | [] => (none, e)
  | s :: rest =>
    let (result, s, f) := op s ⟨rest, e.world.scene e.ledger⟩
    let (ledger, world) := e.world.absorb e.ledger f.scene
    (some result, ⟨e.stages.take place ++ s :: f.stages, ledger, world⟩)

/-- Lets the plugin of a stage make one request; gives the order of the stage with the answer. -/
def ask (place : Nat) (q : Request ε) : Option (Nat × q.Answer) × Ensemble ι ε :=
  e.work place fun s f =>
    let (answer, s, f) := s.play (.reaching f.stages.length) f (Script.request q)
    ((s.order, answer), s, f)

/-- Acts, and gives what a stage was answered. -/
def step : Act → Option Reading × Ensemble ι ε
  | .record place key value =>
    (none, (e.work place fun s f =>
      let (s, log) := s.recordFact f.scene.log key value
      ((), s, { f with scene := { f.scene with log } })).2)
  | .recordInt place key value => (none, (e.ask place (.recordInt key value)).2)
  | .recordText place key value => (none, (e.ask place (.recordText key value)).2)
  | .origin order source key value =>
    let log := (e.ledger.log.append order source key value .origin).2
    (none, { e with ledger := { e.ledger with log } })
  | .pass place =>
    (none, (e.work place fun s f =>
      ((), { s with desk := (⟨s.desk, some s.outType, f⟩ : Bench ι ε).catchUp.desk }, f)).2)
  | .react token =>
    let (_, ledger, world) := e.world.react e.ledger token
    (none, { e with ledger, world })
  | .known place key =>
    let (answer, e) := e.ask place (.known key)
    (answer.map fun (order, value) => ⟨order, key, value⟩, e)

/-- Acts in order, and gives what stages were answered. -/
def run : List Act → Ensemble ι ε → List Reading × Ensemble ι ε
  | [], e => ([], e)
  | act :: acts, e =>
    let (reading, e) := e.step act
    let (readings, e) := run acts e
    (reading.toList ++ readings, e)

/-- The orders of the stages. -/
def orders : List Nat := e.stages.map Stage.order

theorem run_cons (act : Act) (acts : List Act) :
    (run (act :: acts) e).1 = (e.step act).1.toList ++ (run acts (e.step act).2).1 := rfl

/-- Whether an act is a write of a stage behind an order, if the stages have these orders. -/
def Act.isBehind (orders : List Nat) (i : Nat) (act : Act) : Bool :=
  match act.writer?.bind (orders[·]?) with
  | some order => i < order
  | none => false

/-- Only tokens that were issued are in use. A reset takes tokens back, so stages that have seen
facts from before the last one are excluded. Stages that have seen nothing yet are as they should be
(`Issued.reset`), and acts keep them so (`Issued.run`). -/
structure Issued : Prop where
  facts : e.ledger.log.Bounded
  stages : ∀ s ∈ e.stages, s.token ≤ e.ledger.log.lastToken

/-! ## Single acts -/

end Ensemble

namespace Stage

variable (tap : Tap ι ε) (s : Stage ι ε) (f : Front ι ε) (key : String)

/-- A stage that sees as far as a token, if it does not see farther. -/
def raised (s : Stage ι ε) (token : Token) : Stage ι ε :=
  { s with desk := { s.desk with token := max s.desk.token token } }

/-- There is nothing to see beyond the stage that has none in front. -/
theorem raised_nextToken_nil : s.raised (nextToken ([] : List (Stage ι ε))) = s := by
  unfold raised
  rw [nextToken, Token.origin, Nat.max_zero]

theorem play_known :
    s.play tap f (Script.request (.known key)) = (s.known? f.scene.log key, s, f) := rfl

theorem play_recordInt (value : Int64) :
    s.play tap f (Script.request (.recordInt key value)) =
      ((), s.raised (f.scene.log.lastToken + 1),
        ⟨f.stages, ⟨f.scene.log.recorded s.order s.name key (.int value), f.scene.backstage⟩⟩) :=
  rfl

/-- A text is recorded only if the stage does not see it already. -/
theorem play_recordText (value : String) :
    s.play tap f (Script.request (.recordText key value)) =
      if s.known? f.scene.log key = some (.text value) then ((), s, f)
      else ((), s.raised (f.scene.log.lastToken + 1),
        ⟨f.stages, ⟨f.scene.log.recorded s.order s.name key (.text value),
          f.scene.backstage⟩⟩) := by
  have hanswer : answer tap s.post s.buffer.length false (.recordText key value)
      ⟨s.desk, some s.outType, f⟩ =
        if s.known? f.scene.log key = some (.text value) then ((), ⟨s.desk, some s.outType, f⟩)
        else ((), (⟨s.desk, some s.outType, f⟩ : Bench ι ε).recordFact s.post key (.text value)) :=
    rfl
  unfold play Script.request
  rw [Script.run_ask, Script.run_done, hanswer]
  by_cases h : s.known? f.scene.log key = some (.text value)
  · rw [if_pos h, if_pos h]
  · rw [if_neg h, if_neg h]
    rfl

end Stage

namespace Ensemble

variable {e : Ensemble ι ε} {place : Nat} {s : Stage ι ε} {rest : List (Stage ι ε)}

/-- The stage at a place and the log become others. -/
def settle (e : Ensemble ι ε) (place : Nat) (s : Stage ι ε) (log : Log) : Ensemble ι ε :=
  ⟨e.stages.take place ++ s :: e.stages.drop (place + 1), { e.ledger with log }, e.world⟩

theorem drop_succ (h : e.stages.drop place = s :: rest) : e.stages.drop (place + 1) = rest := by
  rw [← List.drop_drop, h]
  rfl

theorem settle_self (h : e.stages.drop place = s :: rest) :
    e.settle place s e.ledger.log = e := by
  have hstages : e.stages.take place ++ s :: e.stages.drop (place + 1) = e.stages := by
    rw [drop_succ h, ← h, List.take_append_drop]
  unfold settle
  rw [hstages]

theorem work_eq (h : e.stages.drop place = s :: rest)
    {op : Stage ι ε → Front ι ε → α × Stage ι ε × Front ι ε} {a : α} {s' : Stage ι ε} {log : Log}
    (hop : op s ⟨rest, e.world.scene e.ledger⟩ = (a, s', ⟨rest, ⟨log, e.world.backstage⟩⟩)) :
    e.work place op = (some a, e.settle place s' log) := by
  unfold work settle
  rw [h, drop_succ h]
  dsimp only
  rw [hop]
  rfl

theorem ask_eq (h : e.stages.drop place = s :: rest) {q : Request ε} {answer : q.Answer}
    {s' : Stage ι ε} {log : Log}
    (hplay : s.play (.reaching rest.length) ⟨rest, e.world.scene e.ledger⟩ (Script.request q) =
      (answer, s', ⟨rest, ⟨log, e.world.backstage⟩⟩)) :
    e.ask place q = (some (s'.order, answer), e.settle place s' log) := by
  refine work_eq h ?_
  dsimp only
  rw [hplay]

theorem work_of_nil (h : e.stages.drop place = [])
    (op : Stage ι ε → Front ι ε → α × Stage ι ε × Front ι ε) : e.work place op = (none, e) := by
  unfold work
  rw [h]

theorem ask_of_nil (h : e.stages.drop place = []) (q : Request ε) : e.ask place q = (none, e) :=
  work_of_nil h _

/-- Nothing is done where there is no stage. -/
theorem step_of_nil (h : e.stages.drop place = []) {act : Act} (hact : act.place? = some place) :
    e.step act = (none, e) := by
  cases act with
  | record p key value =>
    obtain rfl : p = place := Option.some.inj hact
    show (none, (e.work p _).2) = _
    rw [work_of_nil h]
  | recordInt p key value =>
    obtain rfl : p = place := Option.some.inj hact
    show (none, (e.ask p _).2) = _
    rw [ask_of_nil h]
  | recordText p key value =>
    obtain rfl : p = place := Option.some.inj hact
    show (none, (e.ask p _).2) = _
    rw [ask_of_nil h]
  | pass p =>
    obtain rfl : p = place := Option.some.inj hact
    show (none, (e.work p _).2) = _
    rw [work_of_nil h]
  | known p key =>
    obtain rfl : p = place := Option.some.inj hact
    unfold step
    dsimp only
    rw [ask_of_nil h]
    rfl
  | origin order source key value => exact absurd hact nofun
  | react token => exact absurd hact nofun

/-- What becomes of the ensemble if a stage records a fact. -/
abbrev written (e : Ensemble ι ε) (place : Nat) (s : Stage ι ε) (key : String) (value : Value) :
    Ensemble ι ε :=
  e.settle place (s.raised (e.ledger.log.lastToken + 1))
    (e.ledger.log.recorded s.order s.name key value)

section

variable (h : e.stages.drop place = s :: rest) (key : String)
include h

theorem step_record (value : Value) :
    e.step (.record place key value) = (none, e.written place s key value) := by
  show (none, (e.work place _).2) = _
  rw [work_eq h rfl]
  rfl

theorem step_recordInt (value : Int64) :
    e.step (.recordInt place key value) = (none, e.written place s key (.int value)) := by
  show (none, (e.ask place _).2) = _
  rw [ask_eq h (s.play_recordInt _ _ key value)]
  rfl

theorem step_recordText (value : String) :
    e.step (.recordText place key value) =
      (none, if s.known? e.ledger.log key = some (.text value) then e
        else e.written place s key (.text value)) := by
  have hplay := s.play_recordText (.reaching rest.length) ⟨rest, e.world.scene e.ledger⟩ key value
  show (none, (e.ask place _).2) = _
  by_cases hknown : s.known? e.ledger.log key = some (.text value)
  · rw [if_pos hknown, ask_eq h (hplay.trans (if_pos hknown)), settle_self h]
  · rw [if_neg hknown, ask_eq h (hplay.trans (if_neg hknown))]
    rfl

/-- After a read a stage sees as far as the one in front of it. -/
theorem step_pass :
    e.step (.pass place) =
      (none, e.settle place (s.raised (Stage.nextToken rest)) e.ledger.log) := by
  show (none, (e.work place _).2) = _
  rw [work_eq h rfl]
  cases rest with
  | nil =>
    rw [s.raised_nextToken_nil]
    rfl
  | cons front rest => rfl

theorem step_known :
    e.step (.known place key) = (some ⟨s.order, key, s.known? e.ledger.log key⟩, e) := by
  show ((e.ask place (.known key)).1.map fun p => (⟨p.1, key, p.2⟩ : Reading),
    (e.ask place (.known key)).2) = _
  rw [ask_eq h (s.play_known _ _ key), settle_self h]
  rfl

end

theorem orders_settle (h : e.stages.drop place = s :: rest) {s' : Stage ι ε}
    (hpost : s'.post = s.post) (log : Log) : (e.settle place s' log).orders = e.orders := by
  have horder : s'.order = s.order := congrArg Post.order hpost
  have hself := congrArg orders (settle_self h)
  unfold orders settle at hself ⊢
  rw [List.map_append, List.map_cons] at hself ⊢
  rw [horder]
  exact hself

theorem orders_getElem? (h : e.stages.drop place = s :: rest) :
    e.orders[place]? = some s.order := by
  unfold orders
  rw [List.getElem?_map, ← List.head?_drop, h]
  rfl

theorem Act.isBehind_of_writer (h : e.stages.drop place = s :: rest) {act : Act}
    (hact : act.writer? = some place) : act.isBehind e.orders i = decide (i < s.order) := by
  unfold isBehind
  rw [hact, Option.bind_some, orders_getElem? h]

/-- A write behind an order comes from a stage behind it, and may be left out if it is of a text. -/
theorem step_of_isBehind {act : Act} (h : act.isBehind e.orders i = true) :
    ∃ place s rest, e.stages.drop place = s :: rest ∧ i < s.order ∧
      ∃ key value, e.step act = (none, e) ∨ e.step act = (none, e.written place s key value) := by
  have hplace : ∀ place, act.writer? = some place →
      ∃ s rest, e.stages.drop place = s :: rest ∧ i < s.order := by
    intro place hact
    cases hdrop : e.stages.drop place with
    | nil =>
      have hnone : e.orders[place]? = none := by
        unfold orders
        rw [List.getElem?_map, ← List.head?_drop, hdrop]
        rfl
      unfold Act.isBehind at h
      rw [hact, Option.bind_some, hnone] at h
      cases h
    | cons s rest =>
      rw [Act.isBehind_of_writer hdrop hact] at h
      exact ⟨s, rest, rfl, of_decide_eq_true h⟩
  cases act with
  | record place key value =>
    obtain ⟨s, rest, hdrop, horder⟩ := hplace place rfl
    exact ⟨place, s, rest, hdrop, horder, key, value, .inr (step_record hdrop key value)⟩
  | recordInt place key value =>
    obtain ⟨s, rest, hdrop, horder⟩ := hplace place rfl
    exact ⟨place, s, rest, hdrop, horder, key, .int value, .inr (step_recordInt hdrop key value)⟩
  | recordText place key value =>
    obtain ⟨s, rest, hdrop, horder⟩ := hplace place rfl
    refine ⟨place, s, rest, hdrop, horder, key, .text value, ?_⟩
    rw [step_recordText hdrop]
    split
    · exact .inl rfl
    · exact .inr rfl
  | _ => cases h

/-! ## Two runs -/

/-- One stage in two ensembles. If it stands up to an order it sees the same in both. -/
structure Level (i : Nat) (log log' : Log) (s s' : Stage ι ε) : Prop where
  post : s'.post = s.post
  outlook : s.order ≤ i → log.outlook i s.token = log'.outlook i s'.token
  issued : s.token ≤ log.lastToken
  issued' : s'.token ≤ log'.lastToken

/-- Two ensembles of the same stages with these orders, in which all stages up to an order see the
same. -/
structure Alike (orders : List Nat) (i : Nat) (e e' : Ensemble ι ε) : Prop where
  orders_eq : e.orders = orders
  sorted : orders.Pairwise (· ≥ ·)
  bounded : e.ledger.log.Bounded
  bounded' : e'.ledger.log.Bounded
  stages : List.Forall₂ (Level i e.ledger.log e'.ledger.log) e.stages e'.stages

namespace Level

variable {s s' u u' : Stage ι ε}

theorem order_eq (h : Level i log log' s s') : s'.order = s.order := congrArg Post.order h.post

theorem known? (h : Level i log log' s s') (horder : s.order ≤ i) (key : String) :
    s'.known? log' key = s.known? log key := by
  have hname : s'.name = s.name := congrArg Post.name h.post
  unfold Stage.known?
  rw [h.order_eq, hname]
  exact (Log.find?_congr (h.outlook horder) horder s.name).symm

/-- A stage up to the order writes in both. -/
theorem recorded (h : Level i log log' s s') (order : Nat) (source key : String) (value : Value) :
    Level i (log.recorded order source key value) (log'.recorded order source key value) s s' := by
  refine ⟨h.post, fun horder => ?_, Nat.le_succ_of_le h.issued, Nat.le_succ_of_le h.issued'⟩
  have hnew : decide (log.lastToken + 1 ≤ s.token) = false := by
    simpa using Nat.lt_succ_of_le h.issued
  have hnew' : decide (log'.lastToken + 1 ≤ s'.token) = false := by
    simpa using Nat.lt_succ_of_le h.issued'
  rw [Log.outlook_recorded, Log.outlook_recorded, h.outlook horder, hnew, hnew']

/-- A stage behind the order writes in one of them only. -/
theorem recorded_left (h : Level i log log' s s') (horder : i < order) (source key : String)
    (value : Value) : Level i (log.recorded order source key value) log' s s' := by
  refine ⟨h.post, fun hs => ?_, Nat.le_succ_of_le h.issued, h.issued'⟩
  rw [Log.outlook_recorded, if_neg (Nat.not_le.mpr horder), List.append_nil, h.outlook hs]

theorem origin (h : Level i log log' s s') (order : Nat) (source key : String) (value : Value) :
    Level i (log.append order source key value .origin).2
      (log'.append order source key value .origin).2 s s' := by
  refine ⟨h.post, fun hs => ?_, h.issued, h.issued'⟩
  rw [Log.outlook_origin, Log.outlook_origin, h.outlook hs]

/-- A stage that has written sees all facts. -/
theorem raised_last (h : Level i log log' s s') (hlog : log.Bounded) (hlog' : log'.Bounded) :
    Level i log log' (s.raised log.lastToken) (s'.raised log'.lastToken) := by
  refine ⟨h.post, fun hs => ?_, Nat.max_le.mpr ⟨h.issued, Nat.le_refl _⟩,
    Nat.max_le.mpr ⟨h.issued', Nat.le_refl _⟩⟩
  show log.outlook i (max s.token log.lastToken) = log'.outlook i (max s'.token log'.lastToken)
  rw [hlog.outlook (Nat.le_max_right _ _) i s.token,
    hlog'.outlook (Nat.le_max_right _ _) i s'.token, h.outlook hs]

/-- A stage that has read sees what it saw and what the stage in front of it sees. -/
theorem raised (h : Level i log log' s s') (hfront : Level i log log' u u')
    (horder : u.order ≤ s.order) : Level i log log' (s.raised u.token) (s'.raised u'.token) := by
  refine ⟨h.post, fun hs => ?_, Nat.max_le.mpr ⟨h.issued, hfront.issued⟩,
    Nat.max_le.mpr ⟨h.issued', hfront.issued'⟩⟩
  show log.outlook i (max s.token u.token) = log'.outlook i (max s'.token u'.token)
  rw [Log.outlook_max, Log.outlook_max, h.outlook hs, hfront.outlook (Nat.le_trans horder hs)]

/-- It does not matter what a stage behind the order sees. -/
theorem raised_left (h : Level i log log' s s') (horder : i < s.order)
    (hle : token ≤ log.lastToken) : Level i log log' (s.raised token) s' :=
  ⟨h.post, fun hs => absurd hs (Nat.not_le.mpr horder), Nat.max_le.mpr ⟨h.issued, hle⟩, h.issued'⟩

end Level

namespace Alike

variable {orders : List Nat} {e e' : Ensemble ι ε} {place : Nat} {s s' : Stage ι ε}
  {rest : List (Stage ι ε)}

/-- Where there is a stage in one there is one in the other. -/
theorem drop (h : Alike orders i e e') (place : Nat) :
    (e.stages.drop place = [] ∧ e'.stages.drop place = []) ∨
      ∃ s rest s' rest', e.stages.drop place = s :: rest ∧ e'.stages.drop place = s' :: rest' ∧
        Level i e.ledger.log e'.ledger.log s s' ∧
        List.Forall₂ (Level i e.ledger.log e'.ledger.log) rest rest' := by
  have hdrop := List.forall₂_drop place h.stages
  cases hs : e.stages.drop place with
  | nil =>
    rw [hs] at hdrop
    exact .inl ⟨rfl, List.forall₂_nil_left_iff.mp hdrop⟩
  | cons s rest =>
    rw [hs] at hdrop
    obtain ⟨s', rest', hlevel, hrest, heq⟩ := List.forall₂_cons_left_iff.mp hdrop
    exact .inr ⟨s, rest, s', rest', rfl, heq, hlevel, hrest⟩

theorem settle (h : Alike orders i e e') (hdrop : e.stages.drop place = s :: rest)
    {t t' : Stage ι ε} (hpost : t.post = s.post) (hlog : log.Bounded) (hlog' : log'.Bounded)
    (hlevel : ∀ u u' : Stage ι ε, Level i e.ledger.log e'.ledger.log u u' → Level i log log' u u')
    (ht : Level i log log' t t') :
    Alike orders i (e.settle place t log) (e'.settle place t' log') := by
  refine ⟨(orders_settle hdrop hpost log).trans h.orders_eq, h.sorted, hlog, hlog', ?_⟩
  · have hstages := h.stages.imp hlevel
    exact List.rel_append (List.forall₂_take place hstages)
      (.cons ht (List.forall₂_drop (place + 1) hstages))

/-- The same fact is recorded in both. -/
theorem written (h : Alike orders i e e') (hdrop : e.stages.drop place = s :: rest)
    (hs : Level i e.ledger.log e'.ledger.log s s') (key : String) (value : Value) :
    Alike orders i (e.written place s key value) (e'.written place s' key value) := by
  have hname : s'.name = s.name := congrArg Post.name hs.post
  have hbounded := h.bounded.append s.order s.name key value .persistent
  have hbounded' := h.bounded'.append s.order s.name key value .persistent
  unfold Ensemble.written
  rw [hs.order_eq, hname]
  exact h.settle hdrop rfl hbounded hbounded'
    (fun u u' hu => hu.recorded s.order s.name key value)
    ((hs.recorded s.order s.name key value).raised_last hbounded hbounded')

/-- An act comes to the same in both, as far as stages up to the order are concerned. -/
def Agrees (orders : List Nat) (i : Nat) (e e' : Ensemble ι ε) (act : Act) : Prop :=
  (e.step act).1.toList.filter (·.order ≤ i) = (e'.step act).1.toList.filter (·.order ≤ i) ∧
    Alike orders i (e.step act).2 (e'.step act).2

/-- An act at a place is looked at for the stage that is there. -/
theorem agrees_of_place (h : Alike orders i e e') {act : Act} (hact : act.place? = some place)
    (hstage : ∀ s rest s' rest', e.stages.drop place = s :: rest →
      e'.stages.drop place = s' :: rest' → Level i e.ledger.log e'.ledger.log s s' →
        List.Forall₂ (Level i e.ledger.log e'.ledger.log) rest rest' →
          Agrees orders i e e' act) : Agrees orders i e e' act := by
  rcases h.drop place with ⟨hnil, hnil'⟩ | ⟨s, rest, s', rest', hdrop, hdrop', hs, hrest⟩
  · unfold Agrees
    rw [step_of_nil hnil hact, step_of_nil hnil' hact]
    exact ⟨rfl, h⟩
  · exact hstage s rest s' rest' hdrop hdrop' hs hrest

theorem agrees_origin (h : Alike orders i e e') (order : Nat) (source key : String)
    (value : Value) : Agrees orders i e e' (.origin order source key value) :=
  ⟨rfl, h.orders_eq, h.sorted, h.bounded.append _ _ _ _ _, h.bounded'.append _ _ _ _ _,
    h.stages.imp fun _ _ hs => hs.origin order source key value⟩

/-- A reaction changes neither facts nor tokens. -/
theorem agrees_react (h : Alike orders i e e') (token : Token) :
    Agrees orders i e e' (.react token) :=
  ⟨rfl, h.orders_eq, h.sorted, h.bounded, h.bounded',
    h.stages.imp fun _ _ hs => ⟨hs.post, hs.outlook, hs.issued, hs.issued'⟩⟩

theorem agrees_pass (h : Alike orders i e e') (place : Nat) :
    Agrees orders i e e' (.pass place) := by
  refine h.agrees_of_place rfl fun s rest s' rest' hdrop hdrop' hs hrest => ?_
  unfold Agrees
  rw [step_pass hdrop, step_pass hdrop']
  refine ⟨rfl, h.settle hdrop rfl h.bounded h.bounded' (fun _ _ hu => hu) ?_⟩
  cases hrest with
  | nil =>
    rw [s.raised_nextToken_nil, s'.raised_nextToken_nil]
    exact hs
  | @cons u u' _ _ hu _ =>
    refine hs.raised hu ?_
    have hsorted := h.sorted
    rw [← h.orders_eq, Ensemble.orders] at hsorted
    replace hsorted := hsorted.sublist ((List.drop_sublist place e.stages).map Stage.order)
    rw [hdrop] at hsorted
    exact (List.pairwise_cons.mp hsorted).1 _ List.mem_cons_self

theorem agrees_known (h : Alike orders i e e') (place : Nat) (key : String) :
    Agrees orders i e e' (.known place key) := by
  refine h.agrees_of_place rfl fun s rest s' rest' hdrop hdrop' hs _ => ?_
  unfold Agrees
  rw [step_known hdrop, step_known hdrop', hs.order_eq]
  refine ⟨?_, h⟩
  by_cases horder : s.order ≤ i
  · rw [hs.known? horder]
  · simp [horder]

/-- Of the writes only one of a text depends on what the stage sees. -/
theorem agrees (h : Alike orders i e e') {act : Act} (hact : act.isBehind orders i = false) :
    Agrees orders i e e' act := by
  cases act with
  | origin order source key value => exact h.agrees_origin order source key value
  | react token => exact h.agrees_react token
  | pass place => exact h.agrees_pass place
  | known place key => exact h.agrees_known place key
  | record place key value =>
    refine h.agrees_of_place rfl fun s rest s' rest' hdrop hdrop' hs _ => ?_
    unfold Agrees
    rw [step_record hdrop, step_record hdrop']
    exact ⟨rfl, h.written hdrop hs key value⟩
  | recordInt place key value =>
    refine h.agrees_of_place rfl fun s rest s' rest' hdrop hdrop' hs _ => ?_
    unfold Agrees
    rw [step_recordInt hdrop, step_recordInt hdrop']
    exact ⟨rfl, h.written hdrop hs key (.int value)⟩
  | recordText place key value =>
    refine h.agrees_of_place rfl fun s rest s' rest' hdrop hdrop' hs _ => ?_
    rw [← h.orders_eq, Act.isBehind_of_writer hdrop rfl] at hact
    have horder : s.order ≤ i := Nat.le_of_not_lt (of_decide_eq_false hact)
    unfold Agrees
    rw [step_recordText hdrop, step_recordText hdrop', hs.known? horder]
    refine ⟨rfl, ?_⟩
    dsimp only
    split
    · exact h
    · exact h.written hdrop hs key (.text value)

/-- A write behind the order is not noticed. -/
theorem withhold (h : Alike orders i e e') {act : Act} (hact : act.isBehind orders i = true) :
    (e.step act).1 = none ∧ Alike orders i (e.step act).2 e' := by
  rw [← h.orders_eq] at hact
  obtain ⟨place, s, rest, hdrop, horder, key, value, hstep⟩ := step_of_isBehind hact
  rcases h.drop place with ⟨hnil, -⟩ | ⟨t, _, s', rest', hdrop₁, hdrop', hs, -⟩
  · rw [hdrop] at hnil
    cases hnil
  rw [hdrop] at hdrop₁
  obtain ⟨rfl, rfl⟩ := List.cons.inj hdrop₁
  have hwritten : Alike orders i (e.written place s key value) e' := by
    rw [← settle_self hdrop']
    refine h.settle hdrop rfl (h.bounded.append _ _ _ _ _) h.bounded'
      (fun u u' hu => hu.recorded_left horder s.name key value) ?_
    exact (hs.recorded_left horder s.name key value).raised_left horder (Nat.le_refl _)
  rcases hstep with hstep | hstep
  · rw [hstep]
    exact ⟨rfl, h⟩
  · rw [hstep]
    exact ⟨rfl, hwritten⟩

/-- A run notices nothing of what is withheld. -/
theorem run (h : Alike orders i e e') (acts : List Act) :
    (run acts e).1.filter (·.order ≤ i) =
      (Ensemble.run (acts.filter fun act => !act.isBehind orders i) e').1.filter (·.order ≤ i) := by
  induction acts generalizing e e' with
  | nil => rfl
  | cons act acts ih =>
    cases hact : act.isBehind orders i with
    | true =>
      obtain ⟨hnone, hstep⟩ := h.withhold hact
      rw [List.filter_cons_of_neg (by simp [hact]), ← ih hstep, run_cons, hnone]
      rfl
    | false =>
      obtain ⟨hreading, hstep⟩ := h.agrees hact
      rw [List.filter_cons_of_pos (by simp [hact]), run_cons, run_cons, List.filter_append,
        List.filter_append, hreading, ih hstep]

end Alike

theorem Issued.alike {e : Ensemble ι ε} (h : e.Issued) (horders : e.orders.Pairwise (· > ·))
    (i : Nat) : Alike e.orders i e e := by
  refine ⟨rfl, horders.imp Nat.le_of_lt, h.facts, h.facts, ?_⟩
  exact List.forall₂_same.mpr fun s hs => ⟨rfl, fun _ => rfl, h.stages s hs, h.stages s hs⟩

theorem Alike.issued {orders : List Nat} {e e' : Ensemble ι ε} (h : Alike orders i e e') :
    e.Issued := by
  refine ⟨h.bounded, fun s hs => ?_⟩
  obtain ⟨place, hlt, rfl⟩ := List.getElem_of_mem hs
  exact (h.stages.get hlt (h.stages.length_eq ▸ hlt)).issued

/-- Every act uses issued tokens only, and leaves the stages their orders. -/
theorem Issued.step {e : Ensemble ι ε} (h : e.Issued) (horders : e.orders.Pairwise (· > ·))
    (act : Act) : (e.step act).2.Issued ∧ (e.step act).2.orders = e.orders := by
  have halike := h.alike horders 0
  cases hact : act.isBehind e.orders 0 with
  | true =>
    have hstep := (halike.withhold hact).2
    exact ⟨hstep.issued, hstep.orders_eq⟩
  | false =>
    have hstep := (halike.agrees hact).2
    exact ⟨hstep.issued, hstep.orders_eq⟩

/-- So does every run. -/
theorem Issued.run {e : Ensemble ι ε} (h : e.Issued) (horders : e.orders.Pairwise (· > ·))
    (acts : List Act) : (run acts e).2.Issued ∧ (Ensemble.run acts e).2.orders = e.orders := by
  induction acts generalizing e with
  | nil => exact ⟨h, rfl⟩
  | cons act acts ih =>
    obtain ⟨hstep, hkept⟩ := h.step horders act
    obtain ⟨hrun, heq⟩ := ih hstep (hkept ▸ horders)
    exact ⟨hrun, heq.trans hkept⟩

/-- After a reset no token is issued, and stages that have seen nothing have none. -/
theorem Issued.reset (l : Ledger) (entry : EntryId) (properties : List (String × Value))
    {stages : List (Stage ι ε)} (h : ∀ s ∈ stages, s.token = Token.origin) (w : World ε) :
    Issued ⟨stages, l.reset entry properties, w⟩ :=
  ⟨Log.bounded_reset l entry properties, fun s hs => h s hs ▸ Nat.zero_le _⟩

/-- **Later stages do not change what earlier ones read.** If only issued tokens are in use and the
orders of the stages grow from the url on, then whatever is recorded, passed on, reacted to and
asked for: without the writes of the stages behind an order, every stage up to that order is
answered the same whenever it asks for a fact. -/
theorem readings_withheld {e : Ensemble ι ε} (h : e.Issued) (horders : e.orders.Pairwise (· > ·))
    (acts : List Act) (i : Nat) :
    (run (acts.filter fun act => !act.isBehind e.orders i) e).1.filter (·.order ≤ i) =
      (run acts e).1.filter (·.order ≤ i) :=
  ((h.alike horders i).run acts).symm

/-! ## A title that is overwritten -/

/-- The stage that stands for a url, a decoder and an effect, on a ledger that was just reset. -/
def trio : Ensemble Unit Unit where
  stages :=
    let url : Stage Unit Unit := .ofUrl {} [] "file:///a.mod"
    [{ url with post := .ofSettings {} [] "gain" 2 },
      { url with post := .ofSettings {} [] "mod" 1 }, url]
  ledger := (Ledger.empty false).reset 1 []
  world := .empty

/-- The effect records a title before the decoder does, and each asks for the title. -/
def titles : List Act :=
  [.recordText 0 "title" "late", .recordText 1 "title" "early", .react 2, .known 1 "title",
    .pass 0, .recordInt 0 "gain" 3, .known 0 "title"]

/-- What the decoder reads does not depend on the effect, though its horizon does. -/
theorem titles_withheld :
    (run (titles.filter fun act => !act.isBehind trio.orders 1) trio).1.filter (·.order ≤ 1) =
        [⟨1, "title", some (.text "early")⟩] ∧
      (run titles trio).2.stages.map Stage.token = [3, 2, 0] ∧
      (run (titles.filter fun act => !act.isBehind trio.orders 1) trio).2.stages.map Stage.token =
        [1, 1, 0] := by
  have hissued : trio.Issued := .reset _ _ _ (by decide) _
  have hread : (run titles trio).1.filter (·.order ≤ 1) = [⟨1, "title", some (.text "early")⟩] := by
    decide +kernel
  exact ⟨(readings_withheld hissued (by decide) titles 1).trans hread, by decide +kernel,
    by decide +kernel⟩

end Ensemble

end MediaChain
