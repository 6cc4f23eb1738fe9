import MediaChain.Proofs.Facts.Reactions

/-!
# Tokens as horizons

Between two resets the tokens that are handed out grow, and facts of the origin get none
(`Ledger.written_sound`). Facts that are written later are behind every token that was handed out
before. So a reader at such a token is answered the same ever after, as long as no facts of the
origin are added (`Ledger.find?_play`).
-/

namespace MediaChain

open Facts

variable {ε : Type}

namespace Ledger

variable {l : Ledger} {log : Log} {token : Token} {source key : String} {value : Value}
  {lifetime : Lifetime}

/-! ## What writes are answered -/

/-- A write: the last token before it, the token that it was answered, and the last token then. -/
structure Written where
  lifetime : Lifetime
  before : Token
  token : Token
  head : Token
deriving DecidableEq, Repr

/-- The writes of a run, in order. -/
def written : List Move → Ledger → World ε → List Written
  | [], _, _ => []
  | .set order source key value lifetime :: moves, l, w =>
    let (token, log) := l.log.append order source key value lifetime
    ⟨lifetime, l.log.lastToken, token, log.lastToken⟩ :: written moves { l with log } w
  | .library lib :: moves, l, w => written moves l { w with library := lib }
  | .react token :: moves, l, w =>
    let (_, l, w) := w.react l token
    written moves l w

theorem written_set (order : Nat) (moves : List Move) (l : Ledger) (w : World ε) :
    written (.set order source key value lifetime :: moves) l w =
      ⟨lifetime, l.log.lastToken, (l.log.append order source key value lifetime).1,
          (l.log.append order source key value lifetime).2.lastToken⟩ ::
        written moves { l with log := (l.log.append order source key value lifetime).2 } w := rfl

/-- A fact of the origin gets no token, and any other fact the next one. -/
theorem append_token (log : Log) (order : Nat) (source key : String) (value : Value)
    (lifetime : Lifetime) :
    (lifetime = .origin ∧ (log.append order source key value lifetime).1 = Token.origin ∧
        (log.append order source key value lifetime).2.lastToken = log.lastToken) ∨
      (lifetime ≠ .origin ∧
        (log.append order source key value lifetime).1 = log.lastToken + 1 ∧
        (log.append order source key value lifetime).2.lastToken = log.lastToken + 1) := by
  cases lifetime with
  | origin => exact .inl ⟨rfl, rfl, rfl⟩
  | persistent => exact .inr ⟨nofun, rfl, rfl⟩
  | volatile => exact .inr ⟨nofun, rfl, rfl⟩

/-- A write of the origin is answered no token and leaves the last one; any other write is answered
the last one, which it has made larger. -/
structure Written.Sound (x : Written) : Prop where
  origin : x.lifetime = .origin → x.token = Token.origin ∧ x.head = x.before
  versioned : x.lifetime ≠ .origin → x.token = x.head ∧ x.before < x.head

theorem written_sound (moves : List Move) (l : Ledger) (w : World ε) :
    ∀ x ∈ written moves l w, x.Sound ∧ l.log.lastToken ≤ x.before := by
  induction moves generalizing l w with
  | nil => exact fun x hx => absurd hx List.not_mem_nil
  | cons move moves ih =>
    cases move with
    | set order source key value lifetime =>
      rw [written_set]
      rcases append_token l.log order source key value lifetime with
        ⟨horigin, htoken, hlast⟩ | ⟨hversioned, htoken, hlast⟩
      · refine List.forall_mem_cons.mpr ⟨⟨⟨fun _ => ⟨htoken, hlast⟩, absurd horigin⟩,
          Nat.le_refl _⟩, fun x hx => ?_⟩
        obtain ⟨hsound, hbefore⟩ := ih _ w x hx
        exact ⟨hsound, hlast ▸ hbefore⟩
      · have hlt : l.log.lastToken <
            (l.log.append order source key value lifetime).2.lastToken := by
          rw [hlast]
          exact Nat.lt_succ_self _
        refine List.forall_mem_cons.mpr ⟨⟨⟨fun h => absurd h hversioned,
          fun _ => ⟨htoken.trans hlast.symm, hlt⟩⟩, Nat.le_refl _⟩, fun x hx => ?_⟩
        obtain ⟨hsound, hbefore⟩ := ih _ w x hx
        exact ⟨hsound, Nat.le_trans (Nat.le_of_lt hlt) hbefore⟩
    | library lib => exact ih l { w with library := lib }
    | react token => exact ih (l.react w.library token).2.1 (w.react l token).2.2

/-- Every write that is not of the origin is answered a larger token than all writes before it. -/
theorem written_pairwise (moves : List Move) (l : Ledger) (w : World ε) :
    (written moves l w).Pairwise fun x y => y.lifetime ≠ .origin → x.token < y.token := by
  induction moves generalizing l w with
  | nil => exact List.Pairwise.nil
  | cons move moves ih =>
    cases move with
    | set order source key value lifetime =>
      rw [written_set]
      refine List.pairwise_cons.mpr ⟨fun y hy hversioned => ?_, ih _ w⟩
      obtain ⟨hsound, hbefore⟩ := written_sound moves _ w y hy
      obtain ⟨htoken, hlt⟩ := hsound.versioned hversioned
      have hle : (l.log.append order source key value lifetime).1 ≤
          (l.log.append order source key value lifetime).2.lastToken := by
        rcases append_token l.log order source key value lifetime with
          ⟨-, hnone, -⟩ | ⟨-, hnext, hlast⟩
        · rw [hnone]
          exact Nat.zero_le _
        · exact Nat.le_of_eq (hnext.trans hlast.symm)
      rw [htoken]
      exact Nat.lt_of_le_of_lt (Nat.le_trans hle hbefore) hlt
    | library lib => exact ih l { w with library := lib }
    | react token => exact ih (l.react w.library token).2.1 (w.react l token).2.2

/-! ## What readers are answered -/

/-- A move that adds no fact of the origin. -/
def Move.isVersioned : Move → Bool
  | set _ _ _ _ lifetime => lifetime ≠ .origin
  | _ => true

/-- A fact that is not of the origin is behind every token that was issued before it. -/
theorem find?_append (htoken : token ≤ log.lastToken) (hlifetime : lifetime ≠ .origin)
    (order order' : Nat) (source key source' key' : String) (value : Value) :
    (log.append order' source' key' value lifetime).2.find? token order source key =
      log.find? token order source key := by
  have hbehind : ¬log.lastToken + 1 ≤ token := Nat.not_le_of_lt (Nat.lt_succ_of_le htoken)
  cases lifetime with
  | origin => exact absurd rfl hlifetime
  | _ => simp [Log.append, Log.find?, Fact.visible, hbehind]

/-- Readers at a token that was issued notice nothing of later writes. -/
theorem find?_play (moves : List Move) (hmoves : ∀ move ∈ moves, move.isVersioned = true)
    (htoken : token ≤ l.log.lastToken) (w : World ε) (order : Nat) (source key : String) :
    (play moves l w).2.1.log.find? token order source key =
      l.log.find? token order source key := by
  induction moves generalizing l w with
  | nil => rfl
  | cons move moves ih =>
    obtain ⟨hmove, hrest⟩ := List.forall_mem_cons.mp hmoves
    cases move with
    | set order' source' key' value lifetime =>
      have hlifetime : lifetime ≠ .origin := of_decide_eq_true hmove
      have hlast : token ≤ (l.log.append order' source' key' value lifetime).2.lastToken := by
        rcases append_token l.log order' source' key' value lifetime with
          ⟨horigin, -, -⟩ | ⟨-, -, hnext⟩
        · exact absurd horigin hlifetime
        · rw [hnext]
          exact Nat.le_succ_of_le htoken
      have hlater := ih hrest
        (l := { l with log := (l.log.append order' source' key' value lifetime).2 }) hlast w
      exact hlater.trans (find?_append htoken hlifetime order order' source key source' key' value)
    | library lib => exact ih hrest htoken { w with library := lib }
    | react token' =>
      exact ih (l := (l.react w.library token').2.1) hrest htoken (w.react l token').2.2

/-- **Tokens grow, and what is seen at one is settled.** Whatever is written and reacted to: a write
of the origin is answered no token and leaves the last one as it is, and any other write is answered
the new last token, which is larger than all that writes before it were answered. After any such run
and at any token up to the last, readers of any order and source are answered the same before and
after further writes that are not of the origin and further reactions. -/
theorem tokens_grow_answers_stay (moves : List Move) (l : Ledger) (w : World ε) :
    (∀ x ∈ written moves l w,
      (x.lifetime = .origin → x.token = Token.origin ∧ x.head = x.before) ∧
        (x.lifetime ≠ .origin → x.token = x.head ∧ x.before < x.head)) ∧
    ((written moves l w).Pairwise fun x y => y.lifetime ≠ .origin → x.token < y.token) ∧
    ∀ more : List Move, (∀ move ∈ more, move.isVersioned = true) →
      ∀ token ≤ (play moves l w).2.1.log.lastToken, ∀ order source key,
        let log := (play moves l w).2.1.log
        let log' := (play more (play moves l w).2.1 (play moves l w).2.2).2.1.log
        log'.find? token order source key = log.find? token order source key ∧
          log'.int? token order source key = log.int? token order source key ∧
          log'.text? token order source key = log.text? token order source key ∧
          (log'.find? token order source key).isSome =
            (log.find? token order source key).isSome := by
  refine ⟨fun x hx => ?_, written_pairwise moves l w, ?_⟩
  · obtain ⟨⟨horigin, hversioned⟩, -⟩ := written_sound moves l w x hx
    exact ⟨horigin, hversioned⟩
  · intro more hmore token htoken order source key
    have hfind := find?_play more hmore htoken (play moves l w).2.2 order source key
    dsimp only
    unfold Log.int? Log.text?
    rw [hfind]
    exact ⟨rfl, rfl, rfl, rfl⟩

/-! ## A title that is replaced -/

/-- Facts of all lifetimes, with a reaction in between. -/
def drafts : List Move :=
  [.set 0 "server" "album" (.text "first") .origin, .set 1 "tag" "title" (.text "old") .persistent,
    .react 1, .set 2 "gain" "level" (.int 1) .volatile]

/-- A title that is replaced is still there for readers at the token of the first one. -/
theorem tokens_grow_answers_stay_title :
    (written drafts (.empty false) (World.empty : World Unit)).map (·.token) = [0, 1, 2] ∧
      (play [.set 1 "tag" "title" (.text "new") .persistent, .react 3]
          (play drafts (.empty false) (World.empty : World Unit)).2.1
          (play drafts (.empty false) (World.empty : World Unit)).2.2).2.1.log.text?
        1 1 "tag" "title" = some "old" := by
  obtain ⟨-, -, hstay⟩ := tokens_grow_answers_stay drafts (.empty false) (World.empty : World Unit)
  obtain ⟨-, -, htext, -⟩ := hstay
    [.set 1 "tag" "title" (.text "new") .persistent, .react 3] (by decide) 1 (by decide) 1 "tag"
    "title"
  exact ⟨by decide, htext.trans (by decide)⟩

end Ledger

end MediaChain
