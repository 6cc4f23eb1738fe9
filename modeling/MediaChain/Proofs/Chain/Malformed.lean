import MediaChain.Proofs.Chain.Entry

/-!
# Malformed urls

A chain cannot be built for a url whose part before the arguments does not decode
(`Builder.buildFrom_malformed_iff`). No plugin is asked then, and nothing is changed but the log, to
which the arguments have been added by that time. So the attempt leaves no trace just if the url has
no arguments, or has one that does not decode either (`Builder.buildFrom_malformed`).
-/

namespace MediaChain

open Facts Ledger

variable {ι ε : Type}

/-- Whoever looks into two logs finds the same. -/
structure Facts.Log.Alike (log log' : Log) : Prop where
  find? : ∀ token order source key,
    log'.find? token order source key = log.find? token order source key
  length : log'.facts.length = log.facts.length
  lastToken : log'.lastToken = log.lastToken

/-! ## Arguments in the log -/

namespace Ledger

theorem length_seedArgs (log : Log) (url : String) :
    (seedArgs log url).facts.length = log.facts.length + (Url.arguments url).length := by
  unfold seedArgs
  show ((Url.arguments url).foldl _ log).facts.length = _
  induction Url.arguments url generalizing log with
  | nil => rfl
  | cons arg args ih =>
    rw [List.foldl_cons, ih, List.length_cons]
    simp only [Log.seed, Log.append, List.length_append, List.length_singleton]
    omega

theorem lastToken_seedArgs (log : Log) (url : String) :
    (seedArgs log url).lastToken = log.lastToken :=
  seedArgs_invariant (P := fun log' => log'.lastToken = log.lastToken) (fun _ _ _ h => h) url rfl

/-- Arguments can be seen in the log, if only by their number. -/
theorem seedArgs_alike_iff {log : Log} {url : String} :
    log.Alike (seedArgs log url) ↔ Url.arguments url = [] := by
  constructor
  · intro h
    have hlength := h.length
    rw [length_seedArgs] at hlength
    exact List.length_eq_zero_iff.mp (by omega)
  · intro h
    refine ⟨fun token order source key => ?_, ?_, lastToken_seedArgs log url⟩
    · rw [find?_seedArgs, h]
      rfl
    · rw [length_seedArgs, h]
      rfl

end Ledger

/-! ## Building in vain -/

namespace Builder

variable {b : Builder ι ε} {goals : List StreamType} {rehash : Bool} {now : Int64}
  {url stated : String} {l l' : Ledger} {w w' : World ε}

theorem decode_malformed_iff (b : Builder ι ε) (goals : List StreamType) (scene : Scene ε) :
    (b.decode goals url scene).1 = .error (.malformedUrl stated) ↔
      stated = url ∧ Url.decode? (Url.base url) = none := by
  have hsearched := decode_searched b goals url scene
  cases hdecoded : Url.decode? (Url.base url) with
  | none =>
    rw [hdecoded] at hsearched
    rw [hsearched]
    simp [eq_comm]
  | some decoded =>
    rw [hdecoded] at hsearched
    obtain ⟨f, -, -, -, -, ⟨e, hstuck, he⟩ | ⟨stages, f', hok, -⟩⟩ := hsearched
    · rw [he]
      cases hstuck <;> simp
    · rw [hok]
      simp

theorem buildFrom_malformed_iff :
    (b.buildFrom goals rehash now url l w).1 = .error (.malformedUrl stated) ↔
      stated = url ∧ Url.decode? (Url.base url) = none := by
  rw [← decode_malformed_iff b goals (w.scene l)]
  unfold buildFrom
  rcases b.decode goals url (w.scene l) with ⟨e | stages, scene⟩
  · simp
  · simp

/-- **Malformed urls.** If a chain cannot be built because the url is malformed, this url is
reported, no plugin was asked, and the configuration and the library are as they were. Of the ledger
only the log differs: everybody sees what the last argument with a name says about it, and finds
what was there before about other keys. So nothing can be told from the log just if the url has no
arguments, or has one that cannot be decoded. -/
theorem buildFrom_malformed
    (h : b.buildFrom goals rehash now url l w = (.error (.malformedUrl stated), l', w')) :
    stated = url ∧ w' = w ∧ l' = { l with log := seedArgs l.log url } ∧
      l'.log.lastToken = l.log.lastToken ∧
      l'.log.facts.length = l.log.facts.length + (Url.arguments url).length ∧
      (∀ token order source key, l'.log.find? token order source key =
        ((lastArg? (Url.arguments url) key).map argValue).or
          (l.log.find? token order source key)) ∧
      (l.log.Alike l'.log ↔ Url.arguments url = []) := by
  obtain ⟨rfl, hdecoded⟩ := buildFrom_malformed_iff.mp (congrArg Prod.fst h)
  unfold buildFrom at h
  rw [decode_malformed goals _ hdecoded] at h
  obtain ⟨-, rfl, rfl⟩ := Prod.mk.inj h |>.imp_right Prod.mk.inj
  exact ⟨rfl, rfl, rfl, lastToken_seedArgs _ _, length_seedArgs _ _, find?_seedArgs _ _,
    seedArgs_alike_iff⟩

/-! ## Attempts that leave traces -/

/-- What trying to build a chain for a url comes to without plugins. -/
def attempted (url : String) : Except ChainError (Chain Unit Unit) × Ledger × World Unit :=
  (⟨⟨[]⟩, {}, false⟩ : Builder Unit Unit).buildFrom [] false 0 url (.empty false) .empty

/-- Nothing is left behind if neither part of the url decodes. -/
theorem attempted_of_broken :
    ∃ l w, attempted "bad%zz?title=%zz" = (.error (.malformedUrl "bad%zz?title=%zz"), l, w) ∧
      w = .empty ∧ Log.empty.Alike l.log := by
  have hmalformed : (attempted "bad%zz?title=%zz").1 =
      .error (.malformedUrl "bad%zz?title=%zz") :=
    buildFrom_malformed_iff.mpr ⟨rfl, by decide +kernel⟩
  have hrun : attempted "bad%zz?title=%zz" =
      (.error (.malformedUrl "bad%zz?title=%zz"), (attempted "bad%zz?title=%zz").2) :=
    Prod.ext hmalformed rfl
  obtain ⟨-, hworld, -, -, -, -, htraceless⟩ := buildFrom_malformed hrun
  exact ⟨_, _, hrun, hworld, htraceless.mpr (by decide +kernel)⟩

/-- The title is there although there is no chain. -/
theorem attempted_of_title :
    (attempted "bad%zz?title=x").1 = .error (.malformedUrl "bad%zz?title=x") ∧
      Log.empty.find? Token.origin 0 serverSource "title" = none ∧
      (attempted "bad%zz?title=x").2.1.log.find? Token.origin 0 serverSource "title" =
        some (.text "x") ∧
      ¬ Log.empty.Alike (attempted "bad%zz?title=x").2.1.log := by
  have htitle : (attempted "bad%zz?title=x").2.1.log.find? Token.origin 0 serverSource "title" =
      some (.text "x") := by
    decide +kernel
  refine ⟨buildFrom_malformed_iff.mpr ⟨rfl, by decide +kernel⟩, rfl, htitle, fun halike => ?_⟩
  have hnone := halike.find? Token.origin 0 serverSource "title"
  rw [htitle] at hnone
  cases hnone

end Builder

end MediaChain
