import Mathlib.Data.List.Basic
import Mathlib.Data.List.Induction
import MediaChain.Proofs.Facts.Persistence
import MediaChain.Proofs.Facts.Reactions

/-!
# Facts that the library refused

The library may refuse what a reaction offers it. How far the reactions have come
(`Ledger.progress`) is known from their tokens and from which of them the library took: a reaction
offers the persistent facts behind those that were taken, so that each of them is taken once,
however often it was refused before (`Ledger.offers_until_taken`).
-/

namespace MediaChain

open Facts Library

variable {ε : Type}

namespace Facts

/-- Those facts that the library is to have. -/
def lasting (facts : List Fact) : List Fact := facts.filter (·.lifetime = .persistent)

theorem mem_lasting {facts : List Fact} {f : Fact} :
    f ∈ lasting facts ↔ f ∈ facts ∧ f.lifetime = .persistent := by
  simp [lasting]

/-- The facts up to a token are the oldest ones. -/
theorem Log.countP_eq_length_takeWhile {facts : List Fact}
    (h : facts.Pairwise (·.stamp ≤ ·.stamp)) (token : Token) :
    facts.countP (·.stamp ≤ token) = (facts.takeWhile (·.stamp ≤ token)).length := by
  induction facts with
  | nil => rfl
  | cons f facts ih =>
    by_cases hf : f.stamp ≤ token
    · rw [List.countP_cons_of_pos (by simpa using hf),
        List.takeWhile_cons_of_pos (by simpa using hf), List.length_cons,
        ih (List.pairwise_cons.mp h).2]
    · rw [List.countP_eq_length_filter, List.filter_cons_of_neg (by simpa using hf),
        filter_eq_nil_of_not_le h hf, List.takeWhile_cons_of_neg (by simpa using hf)]

end Facts

namespace Ledger

variable {l : Ledger} {w : World ε} {key source : String}

/-! ## How far reactions have come -/

/-- How many of the oldest facts reactions have covered, and how many were covered when the library
last took what it was offered. -/
structure Progress where
  covered : Nat
  saved : Nat

/-- How many of the oldest facts are covered once a reaction is over: all that are not behind its
token, and no fewer than before. -/
def Reaction.reach (r : Reaction) (covered : Nat) : Nat :=
  max (r.known.countP (·.stamp ≤ r.token)) covered

def Progress.next (p : Progress) (r : Reaction) : Progress :=
  ⟨r.reach p.covered, if r.report.persisted then r.reach p.covered else p.saved⟩

/-- How far reactions come if nothing was covered before. -/
def progress (reactions : List Reaction) : Progress := reactions.foldl Progress.next ⟨0, 0⟩

/-- The library took what one of some reactions offered, which covered the fact at a position. -/
def Taken (reactions : List Reaction) (n : Nat) : Prop :=
  ∃ before r after, reactions = before ++ r :: after ∧ r.report.persisted = true ∧
    n < r.reach (progress before).covered

/-- The value of a key and source for someone who applies what the library took to what was there
before; later facts override earlier ones. -/
def applied (key source : String) (before : Option Value) (reactions : List Reaction) :
    Option Value :=
  reactions.foldl (fun value r =>
    if r.report.persisted then (r.report.persistent.get? key source).or value else value) before

theorem progress_concat (reactions : List Reaction) (r : Reaction) :
    progress (reactions ++ [r]) = (progress reactions).next r := by
  unfold progress
  rw [List.foldl_append]
  rfl

theorem saved_le_covered (reactions : List Reaction) :
    (progress reactions).saved ≤ (progress reactions).covered := by
  induction reactions using List.reverseRecOn with
  | nil => exact Nat.le_refl 0
  | append_singleton reactions r ih =>
    rw [progress_concat]
    show (if r.report.persisted then _ else _) ≤ r.reach _
    split
    · exact Nat.le_refl _
    · exact Nat.le_trans ih (Nat.le_max_right _ _)

/-- The facts that were taken are the oldest ones. -/
theorem taken_iff (reactions : List Reaction) (n : Nat) :
    Taken reactions n ↔ n < (progress reactions).saved := by
  induction reactions using List.reverseRecOn with
  | nil => simp [Taken, progress]
  | append_singleton reactions r ih =>
    rw [progress_concat]
    show _ ↔ n < if r.report.persisted then _ else _
    constructor
    · rintro ⟨before, r', after, heq, htaken, hn⟩
      rcases List.eq_nil_or_concat' after with rfl | ⟨after, last, rfl⟩
      · obtain ⟨rfl, hlast⟩ := List.append_inj' heq rfl
        obtain rfl : r = r' := List.singleton_inj.mp hlast
        rw [if_pos htaken]
        exact hn
      · -- an earlier reaction was taken, and the last one reaches at least as far
        rw [← List.cons_append, ← List.append_assoc] at heq
        obtain ⟨rfl, -⟩ := List.append_inj' heq rfl
        have hsaved := ih.mp ⟨before, r', after, rfl, htaken, hn⟩
        split
        · have hle := saved_le_covered (before ++ r' :: after)
          exact Nat.lt_of_lt_of_le hsaved (Nat.le_trans hle (Nat.le_max_right _ _))
        · exact hsaved
    · intro hn
      split at hn
      next htaken => exact ⟨reactions, r, [], rfl, htaken, hn⟩
      next =>
        obtain ⟨before, r', after, rfl, htaken, hn'⟩ := ih.mpr hn
        exact ⟨before, r', after ++ [r], by simp, htaken, hn'⟩

/-! ## One reaction -/

/-- A reaction to a token, as it is remembered. -/
abbrev reaction (l : Ledger) (lib : Library) (token : Token) : Reaction :=
  ⟨token, l.log.facts, (l.react lib token).1⟩

theorem reaction_reach (h : l.log.Sound) (lib : Library) (token : Token) :
    (l.reaction lib token).reach l.log.reacted = l.log.horizon token := by
  show max (l.log.facts.countP _) _ = _
  rw [Log.countP_eq_length_takeWhile h.sorted]
  rfl

/-- A reaction moves on what is covered, and what is saved only if the library took the facts. -/
theorem next_reaction (h : l.log.Sound) (lib : Library) (token : Token) :
    Progress.next ⟨l.log.reacted, l.log.persisted⟩ (l.reaction lib token) =
      ⟨(l.react lib token).2.1.log.reacted, (l.react lib token).2.1.log.persisted⟩ := by
  unfold Progress.next
  rw [reaction_reach h]
  rfl

theorem lasting_take_horizon (h : l.log.Sound) (token : Token) :
    lasting (l.log.facts.take (l.log.horizon token)) =
      lasting (l.log.facts.take l.log.persisted) ++ l.log.unsaved token := by
  have hle := Nat.le_trans h.persisted_le (l.log.reacted_le_horizon token)
  have hsplit := List.take_append_drop l.log.persisted (l.log.facts.take (l.log.horizon token))
  rw [List.take_take, Nat.min_eq_left hle] at hsplit
  rw [← hsplit]
  exact List.filter_append _ _

/-- What was applied up to a reaction is the newest of what was saved, and so it is afterwards. -/
theorem applied_reaction (h : l.log.Sound) (lib : Library) (token : Token) :
    applied key source (newest (lasting (l.log.facts.take l.log.persisted)) key source)
        [l.reaction lib token] =
      newest (lasting ((l.react lib token).2.1.log.facts.take
        (l.react lib token).2.1.log.persisted)) key source := by
  show (if (l.react lib token).1.persisted then
      (Snapshot.get? (snapshot (l.log.unsaved token)) key source).or _ else _) =
    newest (lasting (l.log.facts.take
      (if (l.react lib token).1.persisted then l.log.horizon token else l.log.persisted)))
      key source
  split
  · rw [snapshot_get?, lasting_take_horizon h, newest_append]
  · rfl

/-- A library that refuses facts stays as it is. -/
theorem react_refused {lib : Library} {token : Token}
    (h : (l.react lib token).1.persisted = false) :
    (l.react lib token).2.2.store = lib.store := by
  have hpersist : (l.react lib token).2.2 = (l.persist lib (snapshot (l.log.unsaved token))).2 ∧
      (l.react lib token).1.persisted = (l.persist lib (snapshot (l.log.unsaved token))).1 :=
    ⟨rfl, rfl⟩
  rw [hpersist.2] at h
  rw [hpersist.1]
  unfold persist at h ⊢
  split at h
  · split at h
    next hstore =>
      rw [if_pos hstore]
      exact Session.commit_eq_of_false h
    next => cases h
  · cases h

/-! ## Runs -/

theorem applied_cons (before : Option Value) (r : Reaction) (reactions : List Reaction) :
    applied key source before (r :: reactions) =
      applied key source (applied key source before [r]) reactions := rfl

/-- The log knows how far the reactions of a run have come, and what was applied by then is the
newest of what was saved. -/
theorem play_progress (moves : List Move) (h : l.log.Sound) (w : World ε) :
    (play moves l w).2.1.log.Sound ∧
      (play moves l w).1.foldl Progress.next ⟨l.log.reacted, l.log.persisted⟩ =
        ⟨(play moves l w).2.1.log.reacted, (play moves l w).2.1.log.persisted⟩ ∧
      ∀ key source,
        applied key source (newest (lasting (l.log.facts.take l.log.persisted)) key source)
            (play moves l w).1 =
          newest (lasting ((play moves l w).2.1.log.facts.take
            (play moves l w).2.1.log.persisted)) key source := by
  induction moves generalizing l w with
  | nil => exact ⟨h, rfl, fun _ _ => rfl⟩
  | cons move moves ih =>
    cases move with
    | set order source key value lifetime =>
      obtain ⟨f, last, -, -, heq⟩ := l.log.append_eq order source key value lifetime
      have hset := ih (l := { l with log := (l.log.append order source key value lifetime).2 })
        (h.append order source key value lifetime) w
      have htake : (l.log.facts ++ [f]).take l.log.persisted =
          l.log.facts.take l.log.persisted :=
        List.take_append_of_le_length (Nat.le_trans h.persisted_le h.reacted_le)
      rw [heq] at hset
      rw [← htake, play, heq]
      exact hset
    | library lib => exact ih h { w with library := lib }
    | react token =>
      obtain ⟨-, -, -, -, hsound⟩ := react_spec h w.library token
      obtain ⟨hsound', hprogress, happlied⟩ := ih hsound (w.react l token).2.2
      rw [play_react]
      refine ⟨hsound', ?_, fun key source => ?_⟩
      · rw [List.foldl_cons, next_reaction h]
        exact hprogress
      · rw [applied_cons, applied_reaction h]
        exact happlied key source

/-- From the beginning of an entry on, the log knows how far the reactions have come, and what was
applied is the newest of what was saved. -/
theorem Begun.progress (hl : Begun l) (moves : List Move) (w : World ε) :
    (play moves l w).2.1.log.Sound ∧
      Ledger.progress (play moves l w).1 =
        ⟨(play moves l w).2.1.log.reacted, (play moves l w).2.1.log.persisted⟩ ∧
      ∀ key source, applied key source none (play moves l w).1 =
        newest (lasting ((play moves l w).2.1.log.facts.take
          (Ledger.progress (play moves l w).1).saved)) key source := by
  obtain ⟨hsound, hzero⟩ := hl.sound
  have hzero' : l.log.persisted = 0 := Nat.eq_zero_of_le_zero (hzero ▸ hsound.persisted_le)
  obtain ⟨hsound', hprogress, happlied⟩ := play_progress moves hsound w
  rw [hzero, hzero'] at hprogress
  have hprogress' : Ledger.progress (play moves l w).1 = _ := hprogress
  refine ⟨hsound', hprogress', fun key source => ?_⟩
  rw [hprogress', ← happlied, hzero']
  rfl

/-! ## What the writes alone decide -/

/-- A move of the ledger itself. -/
def Move.isOwn : Move → Bool
  | library _ => false
  | _ => true

/-- What a move appends to a log. -/
def Move.write (log : Log) : Move → Log
  | set order source key value lifetime => (log.append order source key value lifetime).2
  | _ => log

/-- The facts of a run are those that were set in it, whatever became of the library. -/
theorem play_facts (moves : List Move) (log : Log) (hfacts : l.log.facts = log.facts)
    (hlast : l.log.lastToken = log.lastToken) (w : World ε) :
    (play moves l w).2.1.log.facts = ((moves.filter Move.isOwn).foldl Move.write log).facts := by
  induction moves generalizing l w log with
  | nil => exact hfacts
  | cons move moves ih =>
    cases move with
    | set order source key value lifetime =>
      rw [List.filter_cons_of_pos rfl, List.foldl_cons]
      refine ih _ ?_ ?_ w
      · cases lifetime <;> simp [Move.write, Log.append, hfacts, hlast]
      · cases lifetime <;> simp [Move.write, Log.append, hlast]
    | library lib => exact ih log hfacts hlast { w with library := lib }
    | react token =>
      exact ih (l := (l.react w.library token).2.1) log hfacts hlast (w.react l token).2.2

/-! ## Until they are taken -/

/-- What some facts say of a key and source is said by one of them that is found in its place. -/
theorem newest_lasting_at {facts : List Fact} {value : Value} {first last : Nat}
    (h : newest (lasting ((facts.take last).drop first)) key source = some value) :
    ∃ m g, first ≤ m ∧ m < last ∧ facts[m]? = some g ∧ g.lifetime = .persistent ∧ g.key = key ∧
      g.source = source ∧ g.value = value := by
  obtain ⟨g, hg, hkey, hsource, hvalue⟩ := newest_eq_some h
  obtain ⟨hmem, hlasting⟩ := mem_lasting.mp hg
  obtain ⟨i, hi⟩ := List.mem_iff_getElem?.mp hmem
  rw [List.getElem?_drop, List.getElem?_take] at hi
  split at hi
  next hlt => exact ⟨first + i, g, Nat.le_add_right _ _, hlt, hi, hlasting, hkey, hsource, hvalue⟩
  next => cases hi

/-- A fact is offered, or a newer one of its key and source in its place. -/
theorem newest_lasting_of_mem {facts : List Fact} {f : Fact} {n first last : Nat}
    (hf : facts[n]? = some f) (hlasting : f.lifetime = .persistent) (hfirst : first ≤ n)
    (hlast : n < last) :
    ∃ m g, n ≤ m ∧ facts[m]? = some g ∧ g.lifetime = .persistent ∧ g.key = f.key ∧
      g.source = f.source ∧
      newest (lasting ((facts.take last).drop first)) f.key f.source = some g.value := by
  -- the facts from the position on are among those that are offered
  have hsplit : (facts.take last).drop first =
      (facts.take n).drop first ++ (facts.take last).drop n := by
    have happend := List.take_append_drop n (facts.take last)
    rw [List.take_take, Nat.min_eq_left (Nat.le_of_lt hlast)] at happend
    have hlen : first ≤ (facts.take n).length := by
      rw [List.length_take_of_le (Nat.le_of_lt (List.getElem?_eq_some_iff.mp hf).1)]
      exact hfirst
    rw [← happend, List.drop_append_of_le_length hlen]
    congr 2
    exact happend.symm
  have hmem : f ∈ lasting ((facts.take last).drop n) := by
    refine mem_lasting.mpr ⟨List.mem_iff_getElem?.mpr ⟨0, ?_⟩, hlasting⟩
    rw [List.getElem?_drop, List.getElem?_take, Nat.add_zero, if_pos hlast, hf]
  obtain ⟨value, hvalue⟩ := exists_newest hmem
  obtain ⟨m, g, hm, -, hg, hglasting, hkey, hsource, rfl⟩ := newest_lasting_at hvalue
  refine ⟨m, g, hm, hg, hglasting, hkey, hsource, ?_⟩
  rw [hsplit, lasting, List.filter_append, newest_append]
  show (newest (lasting _) _ _).or _ = _
  rw [hvalue, Option.some_or]

/-- A reaction offers the newest facts between those that were saved and those that it covers. -/
theorem reaction_offers (h : l.log.Sound) {p : Progress}
    (hp : p = ⟨l.log.reacted, l.log.persisted⟩) (lib : Library) (token : Token)
    (key source : String) :
    (l.react lib token).1.persistent.get? key source =
      newest (lasting ((l.log.facts.take ((l.reaction lib token).reach p.covered)).drop p.saved))
        key source := by
  rw [hp, reaction_reach h]
  exact snapshot_get? (l.log.unsaved token) key source

/-- **Offered until taken.** Whatever is written, whatever tokens are reacted to and whatever
becomes of the library: the next reaction offers, for each key and source, the newest persistent
fact between those that were covered when the library last took its facts and those that the
reaction covers. So a persistent fact is offered, or a newer one in its place, until the library
takes it, and nothing that was taken is offered again. If the library refuses it stays as it is.
What it took so far adds up to the newest persistent facts of all that were covered by then; so it
only matters what was written and what was covered when the library last took its facts, not what
it refused before. -/
theorem offers_until_taken {moves : List Move} {l : Ledger} (hl : Begun l) {w : World ε}
    {reactions : List Reaction} {l' : Ledger} {w' : World ε}
    (hplay : play moves l w = (reactions, l', w')) (token : Token) :
    (∀ key source, (l'.react w'.library token).1.persistent.get? key source =
      newest (lasting ((l'.log.facts.take
        ((l'.reaction w'.library token).reach (progress reactions).covered)).drop
          (progress reactions).saved)) key source) ∧
    (∀ n, Taken reactions n ↔ n < (progress reactions).saved) ∧
    (∀ n f, l'.log.facts[n]? = some f → f.lifetime = .persistent →
      n < (l'.reaction w'.library token).reach (progress reactions).covered →
        ¬Taken reactions n →
          ∃ m g, n ≤ m ∧ l'.log.facts[m]? = some g ∧ g.lifetime = .persistent ∧ g.key = f.key ∧
            g.source = f.source ∧
            (l'.react w'.library token).1.persistent.get? f.key f.source = some g.value) ∧
    (∀ key source value,
      (l'.react w'.library token).1.persistent.get? key source = some value →
        ∃ m g, ¬Taken reactions m ∧ l'.log.facts[m]? = some g ∧ g.lifetime = .persistent ∧
          g.key = key ∧ g.source = source ∧ g.value = value) ∧
    ((l'.react w'.library token).1.persisted = false →
      (l'.react w'.library token).2.2.store = w'.library.store) ∧
    (∀ key source, applied key source none reactions =
      newest (lasting (l'.log.facts.take (progress reactions).saved)) key source) ∧
    ∀ (moves₂ : List Move) (w₂ : World ε), moves₂.filter Move.isOwn = moves.filter Move.isOwn →
      (progress (play moves₂ l w₂).1).saved = (progress reactions).saved →
        ∀ key source, applied key source none (play moves₂ l w₂).1 =
          applied key source none reactions := by
  have hthis := hl.progress moves w
  rw [hplay] at hthis
  obtain ⟨hsound, hprogress, happlied⟩ := hthis
  have hoffers := reaction_offers hsound hprogress w'.library token
  refine ⟨hoffers, taken_iff reactions, ?_, ?_, react_refused, happlied, ?_⟩
  · intro n f hf hlasting hlt huntaken
    rw [taken_iff, Nat.not_lt] at huntaken
    rw [hoffers]
    exact newest_lasting_of_mem hf hlasting huntaken hlt
  · intro key source value hvalue
    rw [hoffers] at hvalue
    obtain ⟨m, g, hle, -, hg⟩ := newest_lasting_at hvalue
    exact ⟨m, g, by rwa [taken_iff, Nat.not_lt], hg⟩
  · intro moves₂ w₂ hmoves hsaved key source
    have hfacts := play_facts moves l.log rfl rfl w
    have hfacts₂ := play_facts moves₂ l.log rfl rfl w₂
    rw [hmoves, ← hfacts, hplay] at hfacts₂
    rw [(hl.progress moves₂ w₂).2.2, hsaved, hfacts₂, happlied]

/-! ## A title that is refused -/

/-- A ledger of an entry of the library. -/
def rack : Ledger := (Ledger.empty true).reset 1 []

/-- A title is written and refused, the tokens go backwards, and a newer title is taken. -/
def refusals : List Move :=
  [.set 1 "tag" "title" (.text "old") .persistent, .library ⟨.empty, 2⟩, .react 1, .react 0,
    .set 1 "tag" "title" (.text "new") .persistent, .set 2 "gain" "level" (.int 1) .volatile,
    .react 2, .set 2 "gain" "peak" (.int 2) .persistent]

/-- Of the refused title nothing is left to be offered once the newer one was taken; what was
written since is offered next. -/
theorem offers_until_taken_refusals :
    (play refusals rack (World.empty : World Unit)).1.map (·.report.persisted) =
        [false, false, true] ∧
      applied "title" "tag" none (play refusals rack (World.empty : World Unit)).1 =
        some (.text "new") ∧
      ((play refusals rack (World.empty : World Unit)).2.1.react .empty 4).1.persistent.toList =
        [("peak", "gain", .int 2)] := by
  obtain ⟨-, -, -, -, -, happlied, -⟩ := offers_until_taken (.reset _ _ _)
    (rfl : play refusals rack (World.empty : World Unit) = (_, _, _)) 4
  exact ⟨by decide, (happlied _ _).trans (by decide), by decide⟩

end Ledger

end MediaChain
