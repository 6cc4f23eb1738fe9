import MediaChain.Proofs.Facts.Log
import MediaChain.World

/-!
# Reactions

A ledger is written to and reacts, in any order and with any tokens, while others change the
library. Each reaction covers what is due to it, so that the facts which the reactions cover follow
upon each other from the beginning of the log on (`Ledger.play_covers`), and a subscriber who
applies what it is told learns the newest of them (`Ledger.play_heard`).
-/

namespace MediaChain

open Facts

variable {ε : Type}

/-! ## What observers are told -/

namespace Facts

/-- What a subscriber is told of a reaction if its hub observes it some times. -/
def Report.told (r : Report) (times : Nat) : List Announcement :=
  if r.changed.isEmpty then [] else List.replicate times ⟨r.token, r.changed⟩

theorem Report.told_zero (r : Report) : r.told 0 = [] := by
  unfold told
  split <;> rfl

theorem Report.told_add (r : Report) (m n : Nat) : r.told m ++ r.told n = r.told (m + n) := by
  unfold told
  split
  · rfl
  · rw [List.replicate_append_replicate]

theorem Hub.inbox?_observe (hub : Hub) (r : Report) (owner : String) :
    (hub.observe r).inbox? owner = (hub.inbox? owner).map (· ++ r.told 1) := by
  unfold Hub.observe Report.told
  split
  · simp
  · exact Broadcast.inbox?_send _ _ _

end Facts

namespace World

variable (w : World ε) (r : Report) (name owner : String)

theorem hub_setHub (name' : String) (hub : Hub) :
    (w.setHub name' hub).hub name = if name' = name then hub else w.hub name := by
  unfold setHub World.hub
  rw [Std.ExtTreeMap.getElem?_insert]
  by_cases h : name' = name <;> simp [h]

theorem inbox?_tell (observer : Observer) :
    ((w.tell r observer).hub name).inbox? owner =
      ((w.hub name).inbox? owner).map
        (· ++ r.told (if observer = .hub name then 1 else 0)) := by
  have hnone : ((w.hub name).inbox? owner).map (· ++ r.told 0) = (w.hub name).inbox? owner := by
    simp [r.told_zero]
  cases observer with
  | listener name' =>
    rw [if_neg (by simp), hnone]
    rfl
  | hub name' =>
    show ((w.setHub name' ((w.hub name').observe r)).hub name).inbox? owner = _
    rw [hub_setHub]
    by_cases h : name' = name
    · rw [if_pos h, if_pos (by rw [h]), h, Hub.inbox?_observe]
    · rw [if_neg h, if_neg (by simpa using h), hnone]

/-- A subscriber is told as often as its hub observes. -/
theorem inbox?_foldl_tell (observers : List Observer) :
    ((observers.foldl (tell r) w).hub name).inbox? owner =
      ((w.hub name).inbox? owner).map (· ++ r.told (observers.count (.hub name))) := by
  induction observers generalizing w with
  | nil => simp [r.told_zero]
  | cons observer observers ih =>
    rw [List.foldl_cons, ih, inbox?_tell, Option.map_map, List.count_cons]
    congr 1
    funext messages
    show messages ++ _ ++ _ = _
    rw [List.append_assoc, r.told_add, Nat.add_comm]
    by_cases h : observer = .hub name <;> simp [h]

end World

/-- The value of a key and source for someone who applies announcements to what was known before;
later ones override earlier ones. -/
def heard (key source : String) (before : Option Value) (announcements : List Announcement) :
    Option Value :=
  announcements.foldl (fun value a => (a.facts.get? key source).or value) before

/-- Being told twice is no more than being told once, and there is nothing to tell of nothing. -/
theorem heard_told (key source : String) (before : Option Value) (r : Report) {times : Nat}
    (h : 0 < times) :
    heard key source before (r.told times) = (r.changed.get? key source).or before := by
  unfold Report.told
  split
  next hempty => rw [Snapshot.get?_of_isEmpty hempty, Option.none_or, heard, List.foldl_nil]
  next =>
    induction times with
    | zero => exact absurd h (Nat.lt_irrefl 0)
    | succ times ih =>
      rw [List.replicate_succ', heard, List.foldl_append]
      show (r.changed.get? key source).or (heard key source before _) = _
      cases times with
      | zero => rfl
      | succ times => rw [ih (Nat.succ_pos times), ← Option.or_assoc, Option.or_self]

namespace Ledger

variable {l : Ledger} {w : World ε}

/-! ## One reaction -/

/-- A reaction reports what is due, and the facts up to its horizon are reported then. -/
theorem react_spec (h : l.log.Sound) (lib : Library) (token : Token) :
    (l.react lib token).1.changed = snapshot (l.log.due token) ∧
      (l.react lib token).2.1.log.facts = l.log.facts ∧
      (l.react lib token).2.1.log.reacted = l.log.horizon token ∧
      (l.react lib token).2.1.observers = l.observers ∧
      (l.react lib token).2.1.log.Sound := by
  have hpersisted : ∀ persisted : Bool,
      (if persisted then l.log.horizon token else l.log.persisted) ≤ l.log.horizon token := by
    intro persisted
    cases persisted with
    | true => exact Nat.le_refl _
    | false => exact Nat.le_trans h.persisted_le (l.log.reacted_le_horizon token)
  exact ⟨congrArg snapshot (h.between_horizon token), rfl, rfl, rfl, h.sorted, h.within,
    hpersisted _, h.horizon_le token⟩

/-! ## Runs -/

/-- What happens to a ledger between two resets. -/
inductive Move
  | set (order : Nat) (source key : String) (value : Value) (lifetime : Lifetime)
  | react (token : Token)
  /-- The library becomes another one; so the next commit may succeed or fail. -/
  | library (lib : Library)

/-- A reaction to a token: the facts there were, and what it reported. -/
structure Reaction where
  token : Token
  known : List Fact
  report : Report

/-- Makes moves, and gives the reactions. -/
def play : List Move → Ledger → World ε → List Reaction × Ledger × World ε
  | [], l, w => ([], l, w)
  | .set order source key value lifetime :: moves, l, w =>
    play moves { l with log := (l.log.append order source key value lifetime).2 } w
  | .library lib :: moves, l, w => play moves l { w with library := lib }
  | .react token :: moves, l, w =>
    let (report, l', w') := w.react l token
    let (reactions, result) := play moves l' w'
    (⟨token, l.log.facts, report⟩ :: reactions, result)

theorem play_react (moves : List Move) (l : Ledger) (w : World ε) (token : Token) :
    play (.react token :: moves) l w =
      (⟨token, l.log.facts, (l.react w.library token).1⟩ ::
          (play moves (l.react w.library token).2.1 (w.react l token).2.2).1,
        (play moves (l.react w.library token).2.1 (w.react l token).2.2).2) := rfl

/-- The facts that each reaction covers, if some of the oldest were covered before: those which were
not, and whose stamps are not behind its token. -/
def coverage : Nat → List Reaction → List (List Fact)
  | _, [] => []
  | covered, r :: reactions =>
    let due := (r.known.drop covered).filter (·.stamp ≤ r.token)
    due :: coverage (covered + due.length) reactions

theorem coverage_react (h : l.log.Sound) (lib : Library) (token : Token) (report : Report)
    (reactions : List Reaction) :
    coverage l.log.reacted (⟨token, l.log.facts, report⟩ :: reactions) =
      l.log.due token :: coverage (l.react lib token).2.1.log.reacted reactions := by
  obtain ⟨-, -, hreacted, -, -⟩ := react_spec h lib token
  have hlen := congrArg List.length (h.take_horizon token)
  rw [List.length_append, List.length_take_of_le (h.horizon_le token),
    List.length_take_of_le h.reacted_le] at hlen
  rw [hreacted, hlen]
  rfl

/-- What is covered follows upon what was covered before, and each reaction reports what it
covers. -/
theorem play_covers (moves : List Move) (h : l.log.Sound) (w : World ε) :
    l.log.facts.take l.log.reacted ++ (coverage l.log.reacted (play moves l w).1).flatten <+:
        (play moves l w).2.1.log.facts ∧
      (play moves l w).1.map (·.report.changed) =
        (coverage l.log.reacted (play moves l w).1).map snapshot := by
  induction moves generalizing l w with
  | nil =>
    refine ⟨?_, rfl⟩
    show l.log.facts.take _ ++ [] <+: _
    rw [List.append_nil]
    exact List.take_prefix _ _
  | cons move moves ih =>
    cases move with
    | set order source key value lifetime =>
      obtain ⟨f, last, -, -, heq⟩ := l.log.append_eq order source key value lifetime
      have hset := ih (l := { l with log := (l.log.append order source key value lifetime).2 })
        (h.append order source key value lifetime) w
      -- the new fact lies behind those that are covered
      have htake : (l.log.facts ++ [f]).take l.log.reacted = l.log.facts.take l.log.reacted :=
        List.take_append_of_le_length h.reacted_le
      rw [heq] at hset
      rw [← htake, play, heq]
      exact hset
    | library lib => exact ih h { w with library := lib }
    | react token =>
      obtain ⟨hchanged, hfacts, hreacted, -, hsound⟩ := react_spec h w.library token
      obtain ⟨hfirst, hreports⟩ := ih hsound (w.react l token).2.2
      rw [hfacts, hreacted, h.take_horizon, List.append_assoc, ← hreacted] at hfirst
      rw [play_react, coverage_react h w.library, List.map_cons, List.map_cons, hreports, hchanged]
      exact ⟨hfirst, rfl⟩

/-- A subscriber of a hub that observes the ledger learns the newest of the facts that are covered,
and keeps what it knew of the others. -/
theorem play_heard (moves : List Move) (h : l.log.Sound) {name owner : String}
    (hhub : .hub name ∈ l.observers) {before : List Announcement}
    (hinbox : (w.hub name).inbox? owner = some before) :
    ∃ news, ((play moves l w).2.2.hub name).inbox? owner = some (before ++ news) ∧
      ∀ key source value, heard key source value news =
        (newest (coverage l.log.reacted (play moves l w).1).flatten key source).or value := by
  induction moves generalizing l w before with
  | nil => exact ⟨[], by rw [List.append_nil]; exact hinbox, fun _ _ _ => rfl⟩
  | cons move moves ih =>
    cases move with
    | set order source key value lifetime =>
      obtain ⟨f, last, -, -, heq⟩ := l.log.append_eq order source key value lifetime
      have hset := ih (l := { l with log := (l.log.append order source key value lifetime).2 })
        (h.append order source key value lifetime) hhub hinbox
      rw [heq] at hset
      rw [play, heq]
      exact hset
    | library lib => exact ih (w := { w with library := lib }) h hhub hinbox
    | react token =>
      obtain ⟨hchanged, -, -, hobservers, hsound⟩ := react_spec h w.library token
      have hcount : 0 < (l.react w.library token).2.1.observers.count (.hub name) := by
        rw [hobservers]
        exact List.count_pos_iff.mpr hhub
      have hinbox' := World.inbox?_foldl_tell { w with library := (l.react w.library token).2.2 }
        (l.react w.library token).1 name owner (l.react w.library token).2.1.observers
      have htold : (({ w with library := (l.react w.library token).2.2 } : World ε).hub name).inbox?
          owner = some before := hinbox
      rw [htold, Option.map_some] at hinbox'
      obtain ⟨news, hnews, hheard⟩ := ih (w := (w.react l token).2.2) hsound (hobservers ▸ hhub)
        hinbox'
      rw [play_react, coverage_react h w.library]
      refine ⟨_, by rw [hnews, List.append_assoc], fun key source value => ?_⟩
      have hsplit : ∀ first : List Announcement, heard key source value (first ++ news) =
          heard key source (heard key source value first) news := fun _ => List.foldl_append
      rw [hsplit, hheard, heard_told _ _ _ _ hcount, hchanged, snapshot_get?, List.flatten_cons,
        newest_append, Option.or_assoc]

/-! ## Runs from the beginning -/

/-- A ledger that has not reacted yet: its log is new, or it was just reset. -/
inductive Begun : Ledger → Prop
  | new {l : Ledger} : l.log = .empty → Begun l
  | reset (l : Ledger) (entry : EntryId) (properties : List (String × Value)) :
    Begun (l.reset entry properties)

theorem Begun.sound (h : Begun l) : l.log.Sound ∧ l.log.reacted = 0 := by
  cases h with
  | new hlog =>
    rw [hlog]
    exact ⟨Log.sound_empty, rfl⟩
  | reset l entry properties =>
    have hempty : ({ Log.empty with entry := some entry } : Log).Sound :=
      ⟨List.Pairwise.nil, fun f hf => absurd hf List.not_mem_nil, Nat.le_refl 0, Nat.le_refl 0⟩
    -- seeding appends facts of the origin, and reports nothing
    exact reset_invariant (P := fun log => log.Sound ∧ log.reacted = 0)
      (fun _ _ _ h => ⟨h.1.append _ _ _ _ .origin, h.2⟩) l entry properties ⟨hempty, rfl⟩

/-- **Exactly once.** From a ledger that has not reacted, whatever is written, whatever tokens are
reacted to and whatever becomes of the library: each reaction reports the facts that are due to it,
together these are the first facts of the log, each once, and a subscriber that was there from the
beginning knows the newest of them for each key and source. -/
theorem play_reports (moves : List Move) {l : Ledger} (hl : Begun l) (w : World ε)
    {name owner : String} (hhub : .hub name ∈ l.observers)
    (hinbox : (w.hub name).inbox? owner = some []) :
    (coverage 0 (play moves l w).1).flatten <+: (play moves l w).2.1.log.facts ∧
      (play moves l w).1.map (·.report.changed) =
        (coverage 0 (play moves l w).1).map snapshot ∧
      ∃ news, ((play moves l w).2.2.hub name).inbox? owner = some news ∧
        ∀ key source, heard key source none news =
          newest (coverage 0 (play moves l w).1).flatten key source := by
  obtain ⟨hsound, hzero⟩ := hl.sound
  obtain ⟨hfirst, hreports⟩ := play_covers moves hsound w
  obtain ⟨news, hnews, hheard⟩ := play_heard moves hsound hhub hinbox
  rw [hzero] at hfirst hreports hheard
  refine ⟨hfirst, hreports, news, hnews, fun key source => ?_⟩
  rw [hheard, Option.or_none]

/-- A run in which a token goes backwards, a reaction reports nothing, and a fact is replaced. -/
theorem play_reports_replaced :
    ∃ news,
      ((play [.set 1 "tag" "title" (.text "old") .persistent, .react 1, .react 0,
          .set 1 "tag" "title" (.text "new") .persistent, .set 2 "gain" "title" (.int 1) .volatile,
          .react 2, .set 2 "gain" "title" (.int 2) .volatile]
        ((Ledger.empty true).observe (.hub "ui"))
        ((World.empty : World Unit).setHub "ui" (Broadcast.empty.subscribe "player"))).2.2.hub
          "ui").inbox? "player" = some news ∧
      heard "title" "tag" none news = some (.text "new") ∧
      heard "title" "gain" none news = none := by
  have hinbox : (((World.empty : World Unit).setHub "ui"
      (Broadcast.empty.subscribe "player")).hub "ui").inbox? "player" = some [] := by
    rw [World.hub_setHub, if_pos rfl]
    simp
  obtain ⟨-, -, news, hnews, hheard⟩ := play_reports
    [.set 1 "tag" "title" (.text "old") .persistent, .react 1, .react 0,
      .set 1 "tag" "title" (.text "new") .persistent, .set 2 "gain" "title" (.int 1) .volatile,
      .react 2, .set 2 "gain" "title" (.int 2) .volatile]
    (l := (Ledger.empty true).observe (.hub "ui")) (.new rfl) _ (List.mem_singleton_self _) hinbox
  exact ⟨news, hnews, (hheard _ _).trans (by decide), (hheard _ _).trans (by decide)⟩

end Ledger

end MediaChain
