import Mathlib.Data.List.Chain
import MediaChain.Config.Basic
import MediaChain.Proofs.Broadcast

/-!
# What subscribers are told

Values of a configuration are set and registered, and subscribers come, take what waits for them and
leave, in any order. A subscriber is told exactly the changes that were made since it came
(`Config.Audience.received?_run`). Of each path no two in a row have the same value, and the last is
what a lookup answers (`Config.Heard.run`). What the others do makes no difference, also if the
senders of those who left are struck out only later (`Config.Audience.received_changes`).
-/

namespace MediaChain

namespace Config

/-! ## Moves -/

/-- What is done with a configuration. Subscribers act under names, and a name stands for one
subscription at a time. -/
inductive Move
  | set (path value : String)
  | register (path default : String)
  | lookup (path : String)
  | subscribe (owner : String)
  | leave (owner : String)
  | take (owner : String)
deriving DecidableEq

/-- Whether a move is about a value. The others are about a subscriber. -/
def Move.onValues : Move → Bool
  | .set _ _ => true
  | .register _ _ => true
  | .lookup _ => true
  | _ => false

def step (c : Config) : Move → Config
  | .set path value => c.set path value
  | .register path default => c.register path default
  | .lookup _ => c
  | .subscribe owner => { c with changes := c.changes.subscribe owner }
  | .leave owner => { c with changes := c.changes.unsubscribe owner }
  | .take owner => { c with changes := c.changes.take owner }

def run (c : Config) (moves : List Move) : Config := moves.foldl step c

/-- The change that a move makes: a value is set, and a lookup of its path answers something else
than before. -/
def change (c : Config) : Move → List Change
  | .set path value =>
    if (c.set path value).lookup path = c.lookup path then [] else [⟨path, value⟩]
  | _ => []

/-- The changes that moves make, in order. -/
def news : Config → List Move → List Change
  | _, [] => []
  | c, move :: moves => c.change move ++ (c.step move).news moves

variable {c d : Config} {move : Move}

theorem change_set (c : Config) (path value : String) :
    c.change (.set path value) = if c.lookup path = some value then [] else [⟨path, value⟩] := by
  simp [change, lookup_set, eq_comm]

theorem change_of_not_onValues (c : Config) (h : move.onValues = false) : c.change move = [] := by
  cases move <;> first | rfl | cases h

theorem lookup_step_of_not_onValues (c : Config) (h : move.onValues = false) (path : String) :
    (c.step move).lookup path = c.lookup path := by
  cases move <;> first | rfl | cases h

/-! ## Values -/

/-- What a move does to the values and announces depends on the values only. -/
theorem step_congr (h : ∀ path, c.lookup path = d.lookup path) (move : Move) :
    c.change move = d.change move ∧
      ∀ path, (c.step move).lookup path = (d.step move).lookup path := by
  cases move with
  | set path value =>
    refine ⟨by rw [change_set, change_set, h], fun path' => ?_⟩
    show (c.set path value).lookup path' = (d.set path value).lookup path'
    rw [lookup_set, lookup_set, h]
  | register path default =>
    refine ⟨rfl, fun path' => ?_⟩
    show (c.register path default).lookup path' = (d.register path default).lookup path'
    rw [lookup_register, lookup_register, h, h]
  | lookup path => exact ⟨rfl, h⟩
  | subscribe owner => exact ⟨rfl, h⟩
  | leave owner => exact ⟨rfl, h⟩
  | take owner => exact ⟨rfl, h⟩

/-- Subscribers, and what they do, change neither the values nor the changes. -/
theorem run_onValues (moves : List Move) (h : ∀ path, c.lookup path = d.lookup path) :
    c.news moves = d.news (moves.filter Move.onValues) ∧
      ∀ path, (c.run moves).lookup path = (d.run (moves.filter Move.onValues)).lookup path := by
  induction moves generalizing c d with
  | nil => exact ⟨rfl, h⟩
  | cons move moves ih =>
    by_cases hmove : move.onValues = true
    · obtain ⟨hchange, hlookup⟩ := step_congr h move
      obtain ⟨hnews, hrun⟩ := ih hlookup
      rw [List.filter_cons_of_pos hmove]
      exact ⟨by rw [news, news, hchange, hnews], hrun⟩
    · have hmove' : move.onValues = false := by simpa using hmove
      obtain ⟨hnews, hrun⟩ := ih (c := c.step move) (d := d) fun path =>
        (lookup_step_of_not_onValues c hmove' path).trans (h path)
      rw [List.filter_cons_of_neg hmove]
      exact ⟨by rw [news, change_of_not_onValues c hmove', List.nil_append, hnews], hrun⟩

/-! ## What was heard of a path -/

/-- The changes of a path. -/
def about (path : String) (told : List Change) : List Change := told.filter (·.path = path)

/-- Of each path the last change that was told is what a lookup answers, and no two in a row had the
same value. -/
structure Heard (c : Config) (told : List Change) : Prop where
  last : ∀ path change, (about path told).getLast? = some change →
    c.lookup path = some change.value
  differ : ∀ path, (about path told).IsChain (·.value ≠ ·.value)

theorem heard_nil (c : Config) : Heard c [] :=
  ⟨fun _ _ h => absurd h (by simp [about]), fun _ => .nil⟩

variable {told : List Change}

theorem Heard.congr (h : Heard c told) (hlookup : ∀ path change,
    (about path told).getLast? = some change → d.lookup path = c.lookup path) : Heard d told :=
  ⟨fun path change hlast => (hlookup path change hlast).trans (h.last path change hlast), h.differ⟩

theorem about_concat (told : List Change) (path value path' : String) :
    about path' (told ++ [⟨path, value⟩]) =
      about path' told ++ if path = path' then [⟨path, value⟩] else [] := by
  by_cases h : path = path' <;> simp [about, h]

/-- A value that a lookup did not answer is told. -/
theorem Heard.concat (h : Heard c told) {path value : String} (hnew : c.lookup path ≠ some value) :
    Heard (c.set path value) (told ++ [⟨path, value⟩]) := by
  constructor
  · intro path' change hlast
    rw [about_concat] at hlast
    rw [lookup_set]
    by_cases hpath : path = path'
    · rw [if_pos hpath, List.getLast?_concat, Option.some_inj] at hlast
      rw [if_pos hpath, ← hlast]
    · rw [if_neg hpath, List.append_nil] at hlast
      rw [if_neg hpath, h.last path' change hlast]
  · intro path'
    rw [about_concat]
    by_cases hpath : path = path'
    · subst hpath
      rw [if_pos rfl]
      refine List.isChain_append.mpr ⟨h.differ path, .singleton _, fun x hx y hy heq => ?_⟩
      obtain rfl : y = ⟨path, value⟩ := by simpa using hy.symm
      -- a lookup answered the value that was told last, so that the new one is another
      rw [h.last path x hx, heq] at hnew
      exact hnew rfl
    · rw [if_neg hpath, List.append_nil]
      exact h.differ path'

theorem Heard.set (h : Heard c told) (path value : String) :
    Heard (c.set path value) (told ++ c.change (.set path value)) := by
  rw [change_set]
  split
  next hsame =>
    rw [List.append_nil, Config.set, if_pos hsame]
    exact h
  next hnew => exact h.concat hnew

theorem Heard.step (h : Heard c told) (move : Move) :
    Heard (c.step move) (told ++ c.change move) := by
  cases move with
  | set path value => exact h.set path value
  | register path default =>
    show Heard _ (told ++ [])
    rw [List.append_nil]
    refine h.congr fun path' change hlast => ?_
    -- a path that was heard of has a value, so that no default is put there
    show (c.register path default).lookup path' = _
    rw [lookup_register, if_neg]
    rintro ⟨rfl, hnone⟩
    rw [h.last path change hlast] at hnone
    exact Option.some_ne_none _ hnone
  | lookup path | subscribe owner | leave owner | take owner =>
    show Heard _ (told ++ [])
    rw [List.append_nil]
    exact h.congr fun _ _ _ => rfl

theorem Heard.run (h : Heard c told) (moves : List Move) :
    Heard (c.run moves) (told ++ c.news moves) := by
  induction moves generalizing c told with
  | nil =>
    rw [news, List.append_nil]
    exact h
  | cons move moves ih =>
    rw [news, ← List.append_assoc]
    exact ih (h.step move)

/-! ## What is sent -/

/-- What a move does with the broadcast of changes. -/
def acts (c : Config) : Move → List (Broadcast.Act Change)
  | .set path value => (c.change (.set path value)).map .send
  | .register _ _ => []
  | .lookup _ => []
  | .subscribe owner => [.subscribe owner]
  | .leave owner => [.unsubscribe owner]
  | .take owner => [.take owner]

/-- What moves do with it, in order. -/
def traffic : Config → List Move → List (Broadcast.Act Change)
  | _, [] => []
  | c, move :: moves => c.acts move ++ (c.step move).traffic moves

theorem changes_step (c : Config) (move : Move) :
    (c.step move).changes = c.changes.play (c.acts move) := by
  cases move with
  | set path value =>
    rw [acts, change_set, step, set]
    split <;> rfl
  | register path default => rfl
  | lookup path => rfl
  | subscribe owner => rfl
  | leave owner => rfl
  | take owner => rfl

theorem changes_run (c : Config) (moves : List Move) :
    (c.run moves).changes = c.changes.play (c.traffic moves) := by
  induction moves generalizing c with
  | nil => rfl
  | cons move moves ih =>
    show ((c.step move).run moves).changes = _
    rw [ih, changes_step, traffic, ← Broadcast.play_append]

/-- A roll of senders puts into the inboxes what the configuration does. -/
theorem roll_shows {roll : Broadcast.Roll Change} (h : roll.Shows c.changes) (moves : List Move) :
    (roll.play (c.traffic moves)).Shows (c.run moves).changes := by
  rw [changes_run]
  exact h.play _

/-! ## Subscribers -/

/-- A configuration, and what its subscribers have taken from their inboxes since they came. -/
structure Audience where
  config : Config
  taken : String → List Change

namespace Audience

/-- What a subscriber was told: what it has taken and what waits. -/
def received? (a : Audience) (owner : String) : Option (List Change) :=
  (a.config.changes.inbox? owner).map (a.taken owner ++ ·)

def step (a : Audience) (move : Move) : Audience :=
  ⟨a.config.step move,
    match move with
    | .subscribe owner => fun owner' => if owner = owner' then [] else a.taken owner'
    | .take owner => fun owner' =>
      if owner = owner' then (a.received? owner').getD [] else a.taken owner'
    | _ => a.taken⟩

def run (a : Audience) (moves : List Move) : Audience := moves.foldl step a

variable {a : Audience} {owner : String}

theorem config_run (a : Audience) (moves : List Move) :
    (a.run moves).config = a.config.run moves := by
  induction moves generalizing a with
  | nil => rfl
  | cons move moves ih => exact ih (a.step move)

theorem received?_subscribe (a : Audience) (owner : String) :
    (a.step (.subscribe owner)).received? owner = some [] := by
  simp [received?, step, Config.step]

theorem received?_step (h : move ≠ .subscribe owner) (h' : move ≠ .leave owner) :
    (a.step move).received? owner = (a.received? owner).map (· ++ a.config.change move) := by
  have hquiet : (a.received? owner).map (· ++ []) = a.received? owner := by simp
  cases move with
  | set path value =>
    have hinbox : (a.config.set path value).changes.inbox? owner =
        (a.config.changes.inbox? owner).map (· ++ a.config.change (.set path value)) := by
      rw [change_set, Config.set]
      split <;> simp
    simp [received?, step, Config.step, hinbox, Function.comp_def]
  | register path default => exact hquiet.symm
  | lookup path => exact hquiet.symm
  | subscribe owner' =>
    have howner : owner' ≠ owner := fun heq => h (heq ▸ rfl)
    refine Eq.trans ?_ hquiet.symm
    simp [received?, step, Config.step, howner]
  | leave owner' =>
    have howner : owner' ≠ owner := fun heq => h' (heq ▸ rfl)
    refine Eq.trans ?_ hquiet.symm
    simp [received?, step, Config.step, howner]
  | take owner' =>
    refine Eq.trans ?_ hquiet.symm
    by_cases howner : owner' = owner
    · subst howner
      -- what waited is taken now, and nothing waits
      cases hinbox : a.config.changes.inbox? owner' <;>
        simp [received?, step, Config.step, hinbox]
    · simp [received?, step, Config.step, howner]

/-- Whoever stays is told the changes that are made. -/
theorem received?_run (moves : List Move) (hagain : .subscribe owner ∉ moves)
    (hstays : .leave owner ∉ moves) {told : List Change} (h : a.received? owner = some told) :
    (a.run moves).received? owner = some (told ++ a.config.news moves) := by
  induction moves generalizing a told with
  | nil => rw [news, List.append_nil]; exact h
  | cons move moves ih =>
    simp only [List.mem_cons, not_or] at hagain hstays
    have hstep := received?_step (a := a) (Ne.symm hagain.1) (Ne.symm hstays.1)
    rw [h, Option.map_some] at hstep
    rw [news, ← List.append_assoc]
    exact ih hagain.2 hstays.2 hstep

/-- Whoever stays is told the same if there is nobody else. -/
theorem received?_onValues (moves : List Move) (hagain : .subscribe owner ∉ moves)
    (hstays : .leave owner ∉ moves) {told : List Change} (h : a.received? owner = some told) :
    (a.run (moves.filter Move.onValues)).received? owner = some (told ++ a.config.news moves) := by
  obtain ⟨hnews, -⟩ := run_onValues (c := a.config) moves fun _ => rfl
  rw [hnews]
  exact received?_run _ (fun hmem => hagain (List.mem_filter.mp hmem).1)
    (fun hmem => hstays (List.mem_filter.mp hmem).1) h

/-- **Each change once, in order.** Whatever was done before, a subscriber that stays is told the
changes that are made since it came, and nothing else. Of each path no two in a row have the same
value, and the last is what a lookup answers. It makes no difference whether others come, take what
waits for them or leave, nor whether the senders of those who left stay until a change cannot be
delivered to them. -/
theorem received_changes (a : Audience) (owner : String) (moves : List Move)
    (hagain : .subscribe owner ∉ moves) (hstays : .leave owner ∉ moves) :
    let start := a.step (.subscribe owner)
    let told := start.config.news moves
    (start.run moves).received? owner = some told ∧
      (∀ path, (about path told).IsChain (·.value ≠ ·.value)) ∧
      (∀ path change, (about path told).getLast? = some change →
        (start.run moves).config.lookup path = some change.value) ∧
      ((start.run (moves.filter Move.onValues)).received? owner = some told ∧
        ∀ path, (start.run (moves.filter Move.onValues)).config.lookup path =
          (start.run moves).config.lookup path) ∧
      ∀ roll : Broadcast.Roll Change, roll.Shows a.config.changes →
        (roll.play (a.config.traffic (.subscribe owner :: moves))).inbox? owner =
          (start.run moves).config.changes.inbox? owner := by
  intro start told
  have hstart : start.received? owner = some [] := received?_subscribe a owner
  have hheard := (heard_nil start.config).run moves
  rw [List.nil_append, ← config_run] at hheard
  refine ⟨received?_run moves hagain hstays hstart, hheard.differ, hheard.last,
    ⟨received?_onValues moves hagain hstays hstart, fun path => ?_⟩, fun roll hroll => ?_⟩
  · rw [config_run, config_run]
    exact ((run_onValues moves fun _ => rfl).2 path).symm
  · rw [config_run]
    exact roll_shows hroll (.subscribe owner :: moves) owner

/-- A value that is registered, set back and forth and set twice; one subscriber leaves. -/
theorem received_changes_switched :
    let moves : List Move := [.subscribe "log", .register "vis.enabled" "0",
      .set "vis.enabled" "0", .set "vis.enabled" "1", .leave "log", .set "vis.enabled" "1",
      .take "ui", .lookup "vis.enabled", .set "vis.enabled" "0", .set "effect.order.0" "gain"]
    let start := (Audience.step ⟨.empty, fun _ => []⟩ (.subscribe "ui"))
    .subscribe "ui" ∉ moves ∧ .leave "ui" ∉ moves ∧
      (start.run moves).received? "ui" =
        some [⟨"vis.enabled", "1"⟩, ⟨"vis.enabled", "0"⟩, ⟨"effect.order.0", "gain"⟩] ∧
      (start.run moves).config.lookup "vis.enabled" = some "0" := by
  intro moves start
  have hagain : .subscribe "ui" ∉ moves := by decide
  have hstays : .leave "ui" ∉ moves := by decide
  have hnews : start.config.news moves =
      [⟨"vis.enabled", "1"⟩, ⟨"vis.enabled", "0"⟩, ⟨"effect.order.0", "gain"⟩] := by decide
  obtain ⟨hreceived, -, hlast, -⟩ :=
    received_changes ⟨.empty, fun _ => []⟩ "ui" moves hagain hstays
  exact ⟨hagain, hstays, hnews ▸ hreceived,
    hlast "vis.enabled" ⟨"vis.enabled", "0"⟩ (by rw [hnews]; decide)⟩

end Audience

end Config

end MediaChain
