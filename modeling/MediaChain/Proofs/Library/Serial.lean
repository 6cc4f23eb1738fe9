import MediaChain.Proofs.Library.Session

/-!
# Sessions side by side

`Traffic` is a store with any number of open sessions. All of them read the store as it is at the
moment, and only a commit finds out whether the store has changed since its session began. As long
as it has not, a session has been answered as if it were alone (`Client.Sound`). So the sessions
that commit can be run one after the other, each as a whole at the time of its commit
(`Traffic.serializable`).
-/

namespace MediaChain

open Std

namespace Library

namespace Session

/-! ## A session alone -/

/-- What a session is asked to do before it ends. -/
inductive Call
  | get (entry : EntryId) (key : String)
  | list (entry : EntryId)
  | set (entry : EntryId) (key : String) (value : Value) (source : String)
deriving DecidableEq

/-- What it answers. -/
inductive Answer
  | value (value : Option Value)
  | properties (properties : List (String × Value))
  | noted
deriving DecidableEq

abbrev Exchange := Call × Answer

def perform (s : Session) (store : Store) : Call → Answer × Session
  | .get entry key => (.value (s.get? store entry key), s)
  | .list entry => (.properties (s.properties store entry), s)
  | .set entry key value source => (.noted, s.set entry key value source)

def performAll (store : Store) : List Call → Session → List Exchange × Session
  | [], s => ([], s)
  | call :: calls, s =>
    let (answer, s) := s.perform store call
    let (exchanges, s) := performAll store calls s
    ((call, answer) :: exchanges, s)

/-- The write that a call notes. -/
def Call.write? : Call → Option Write
  | set entry key value source => some ⟨entry, key, ⟨value, source⟩⟩
  | _ => none

/-- Whether a session was asked to write something. -/
def Wrote (exchanges : List Exchange) : Prop :=
  (exchanges.map Prod.fst).filterMap Call.write? ≠ []

instance (exchanges : List Exchange) : Decidable (Wrote exchanges) :=
  inferInstanceAs (Decidable (_ ≠ []))

variable (s : Session) (store : Store)

theorem performAll_cons (call : Call) (calls : List Call) :
    performAll store (call :: calls) s =
      ((call, (s.perform store call).1) :: (performAll store calls (s.perform store call).2).1,
        (performAll store calls (s.perform store call).2).2) := rfl

theorem perform_spec (call : Call) :
    (s.perform store call).2 = { s with writes := s.writes ++ call.write?.toList } := by
  cases call with
  | set entry key value source => rfl
  | _ => exact (congrArg (Session.mk _ _) (List.append_nil _)).symm

theorem performAll_append (calls : List Call) (call : Call) :
    performAll store (calls ++ [call]) s =
      ((performAll store calls s).1 ++
          [(call, ((performAll store calls s).2.perform store call).1)],
        ((performAll store calls s).2.perform store call).2) := by
  induction calls generalizing s with
  | nil => rfl
  | cons first calls ih =>
    rw [List.cons_append, performAll_cons, ih, performAll_cons, List.cons_append]

theorem performAll_writes (calls : List Call) :
    (performAll store calls s).2.writes = s.writes ++ calls.filterMap Call.write? := by
  induction calls generalizing s with
  | nil => exact (List.append_nil _).symm
  | cons call calls ih =>
    rw [performAll_cons, ih, perform_spec, List.append_assoc]
    cases hw : call.write? <;> simp [hw]

theorem performAll_refused (calls : List Call) :
    (performAll store calls s).2.refused = s.refused := by
  induction calls generalizing s with
  | nil => rfl
  | cons call calls ih =>
    rw [performAll_cons, ih, perform_spec]

end Session

open Session

/-- Runs a session from its beginning to its commit while nobody else is there. -/
def Store.runAlone (store : Store) (calls : List Call) : List Exchange × Bool × Store :=
  let (exchanges, s) := performAll store calls store.begin
  (exchanges, s.commit store)

theorem Store.runAlone_of_reading (store : Store) {calls : List Call}
    (h : calls.filterMap Call.write? = []) : (store.runAlone calls).2 = (true, store) := by
  have hwrites := performAll_writes store.begin store calls
  rw [h, List.append_nil] at hwrites
  show (performAll store calls store.begin).2.commit store = _
  rcases Session.commit_cases (performAll store calls store.begin).2 store with
    ⟨-, hrefused | ⟨hne, -⟩⟩ | ⟨heq, -⟩ | ⟨-, -, hne, -⟩
  · rw [performAll_refused] at hrefused
    exact absurd hrefused Bool.false_ne_true
  · exact absurd hwrites hne
  · exact heq
  · exact absurd hwrites hne

/-! ## Many sessions -/

/-- An open session, and what it was asked and answered since it began. -/
structure Client where
  session : Session
  exchanges : List Exchange
deriving DecidableEq

/-- A store, and the sessions that are open, by names that their owners gave them. -/
structure Traffic where
  store : Store
  clients : ExtTreeMap String Client

namespace Traffic

/-- What happens to a store and its sessions. A session that is begun under the name of an open one
takes its place. -/
inductive Act
  | begin (name : String)
  | call (name : String) (call : Call)
  | commit (name : String)
  | drop (name : String)
  | addEntry (url : String)
deriving DecidableEq

/-- What comes of an act beyond the sessions that are open. -/
inductive Outcome
  | quiet
  | created (url : String) (id : EntryId)
  | ended (exchanges : List Exchange) (committed : Bool)
deriving DecidableEq

def step (t : Traffic) : Act → Outcome × Traffic
  | .begin name => (.quiet, { t with clients := t.clients.insert name ⟨t.store.begin, []⟩ })
  | .call name call =>
    match t.clients[name]? with
    | none => (.quiet, t)
    | some ⟨session, exchanges⟩ =>
      let (answer, session) := session.perform t.store call
      let client := ⟨session, exchanges ++ [(call, answer)]⟩
      (.quiet, { t with clients := t.clients.insert name client })
  | .commit name =>
    match t.clients[name]? with
    | none => (.quiet, t)
    | some ⟨session, exchanges⟩ =>
      let (committed, store) := session.commit t.store
      (.ended exchanges committed, ⟨store, t.clients.erase name⟩)
  | .drop name => (.quiet, { t with clients := t.clients.erase name })
  | .addEntry url =>
    let (id, store) := t.store.addEntry url
    (.created url id, { t with store })

def play : List Act → Traffic → List Outcome × Traffic
  | [], t => ([], t)
  | act :: acts, t =>
    let (outcome, t) := t.step act
    let (outcomes, t) := play acts t
    (outcome :: outcomes, t)

namespace Outcome

/-- An entry was made, or a session committed. -/
def Succeeded : Outcome → Prop
  | quiet => False
  | created _ _ => True
  | ended _ committed => committed = true

/-- An entry was made, or a session committed that had written something. -/
def Changes : Outcome → Prop
  | quiet => False
  | created _ _ => True
  | ended exchanges committed => committed = true ∧ Wrote exchanges

instance : DecidablePred Changes
  | quiet => isFalse id
  | created _ _ => isTrue trivial
  | ended _ _ => inferInstanceAs (Decidable (_ ∧ _))

/-- Does again what succeeded, each session as a whole. -/
def replay (store : Store) : Outcome → Store
  | created url _ => (store.addEntry url).2
  | ended exchanges true => (store.runAlone (exchanges.map Prod.fst)).2.2
  | _ => store

end Outcome

end Traffic

/-! ## What an open session has seen -/

/-- A session whose writes are those that it was asked for, and which, as long as the store has not
changed since it began, was answered as if it had run alone just now. -/
structure Client.Sound (store : Store) (c : Client) : Prop where
  accepted : c.session.refused = false
  writes : c.session.writes = (c.exchanges.map Prod.fst).filterMap Call.write?
  generation_le : c.session.generation ≤ store.generation
  alone : c.session.generation = store.generation →
    performAll store (c.exchanges.map Prod.fst) store.begin = (c.exchanges, c.session)

namespace Client

variable {store store' : Store} {c : Client}

theorem sound_begin (store : Store) : Sound store ⟨store.begin, []⟩ :=
  ⟨rfl, rfl, Nat.le_refl _, fun _ => rfl⟩

theorem Sound.call (h : c.Sound store) (call : Call) :
    Sound store ⟨(c.session.perform store call).2,
      c.exchanges ++ [(call, (c.session.perform store call).1)]⟩ := by
  have hperform := perform_spec c.session store call
  constructor
  · rw [hperform]
    exact h.accepted
  · rw [hperform, List.map_append, List.filterMap_append, ← h.writes]
    cases hw : call.write? <;> simp [hw]
  · rw [hperform]
    exact h.generation_le
  · intro hgen
    have halone := h.alone (by rwa [hperform] at hgen)
    show performAll store ((c.exchanges ++ [(call, _)]).map Prod.fst) store.begin = _
    rw [List.map_append, List.map_singleton, performAll_append, halone]

/-- After a change nothing is claimed any more of what an older session has read. -/
theorem Sound.of_lt (h : c.Sound store) (hlt : store.generation < store'.generation) :
    c.Sound store' := by
  have hle := h.generation_le
  exact ⟨h.accepted, h.writes, by omega, fun hgen => by omega⟩

theorem Sound.wrote_iff (h : c.Sound store) : c.session.writes ≠ [] ↔ Wrote c.exchanges := by
  rw [h.writes]
  rfl

/-- A commit that is accepted does what the session does when it runs alone. -/
theorem Sound.commit_alone (h : c.Sound store) (hcommit : (c.session.commit store).1 = true) :
    (store.runAlone (c.exchanges.map Prod.fst)).2 = c.session.commit store ∧
      (Wrote c.exchanges → (store.runAlone (c.exchanges.map Prod.fst)).1 = c.exchanges) := by
  rcases c.session.commit_cases store with ⟨heq, -⟩ | ⟨heq, -, hnone⟩ | ⟨-, -, -, hgen⟩
  · rw [heq] at hcommit
    exact absurd hcommit Bool.false_ne_true
  · rw [heq, store.runAlone_of_reading (h.writes ▸ hnone)]
    exact ⟨rfl, fun hwrote => absurd hnone (h.wrote_iff.mpr hwrote)⟩
  · unfold Store.runAlone
    rw [h.alone hgen]
    exact ⟨rfl, fun _ => rfl⟩

/-- Of a session that wrote something, the commit is accepted if and only if the store has not
changed since it began. -/
theorem Sound.commit_iff (h : c.Sound store) (hwrote : Wrote c.exchanges) :
    (c.session.commit store).1 = true ↔ c.session.generation = store.generation := by
  have hwrites := h.wrote_iff.mpr hwrote
  rcases c.session.commit_cases store with ⟨heq, hcause⟩ | ⟨-, -, hnone⟩ | ⟨heq, -, -, hgen⟩
  · have hne : c.session.generation ≠ store.generation := by
      rcases hcause with hrefused | ⟨-, hne⟩
      · exact absurd (h.accepted.symm.trans hrefused) Bool.false_ne_true
      · exact hne
    simp [heq, hne]
  · exact absurd hnone hwrites
  · simp [heq, hgen]

end Client

namespace Traffic

variable {t : Traffic}

/-! ## Single acts -/

def Sound (t : Traffic) : Prop :=
  ∀ (name : String) (c : Client), t.clients[name]? = some c → c.Sound t.store

theorem sound_begun (store : Store) : Sound ⟨store, ∅⟩ := by
  intro name c hc
  simp at hc

theorem Sound.insert (h : t.Sound) (name : String) {c : Client} (hc : c.Sound t.store) :
    Sound { t with clients := t.clients.insert name c } := by
  intro name' c' hc'
  rw [ExtTreeMap.getElem?_insert] at hc'
  split at hc'
  · exact Option.some.inj hc' ▸ hc
  · exact h name' c' hc'

theorem Sound.erase (h : t.Sound) (name : String) :
    Sound { t with clients := t.clients.erase name } := by
  intro name' c' hc'
  rw [ExtTreeMap.getElem?_erase] at hc'
  split at hc'
  · simp at hc'
  · exact h name' c' hc'

theorem Sound.of_lt (h : t.Sound) (store : Store) (hlt : t.store.generation < store.generation) :
    Sound { t with store } :=
  fun name c hc => (h name c hc).of_lt hlt

theorem step_call {name : String} {c : Client} (hc : t.clients[name]? = some c) (call : Call) :
    t.step (.call name call) = (.quiet, { t with
      clients := t.clients.insert name ⟨(c.session.perform t.store call).2,
        c.exchanges ++ [(call, (c.session.perform t.store call).1)]⟩ }) := by
  unfold step
  dsimp only
  rw [hc]

theorem step_commit {name : String} {c : Client} (hc : t.clients[name]? = some c) :
    t.step (.commit name) = (.ended c.exchanges (c.session.commit t.store).1,
      ⟨(c.session.commit t.store).2, t.clients.erase name⟩) := by
  unfold step
  dsimp only
  rw [hc]

/-- A session that is not open is not asked anything. -/
theorem step_unknown {name : String} (hc : t.clients[name]? = none) {act : Act}
    (hact : act = .commit name ∨ ∃ call, act = .call name call) : t.step act = (.quiet, t) := by
  unfold step
  rcases hact with rfl | ⟨call, rfl⟩
  · dsimp only
    rw [hc]
  · dsimp only
    rw [hc]

theorem exists_client_of_ended {act : Act} {exchanges : List Exchange} {committed : Bool}
    (h : (t.step act).1 = .ended exchanges committed) :
    ∃ name c, act = .commit name ∧ t.clients[name]? = some c := by
  cases act with
  | begin name => exact absurd h (by simp [step])
  | drop name => exact absurd h (by simp [step])
  | addEntry url => exact absurd h (by simp [step])
  | call name call =>
    cases hc : t.clients[name]? with
    | none => exact absurd h (by rw [step_unknown hc (.inr ⟨call, rfl⟩)]; simp)
    | some c => exact absurd h (by rw [step_call hc]; simp)
  | commit name =>
    cases hc : t.clients[name]? with
    | none => exact absurd h (by rw [step_unknown hc (.inl rfl)]; simp)
    | some c => exact ⟨name, c, rfl, hc⟩

/-- What does not succeed leaves the store as it is. -/
theorem step_of_not_succeeded (t : Traffic) (act : Act) (h : ¬(t.step act).1.Succeeded) :
    (t.step act).2.store = t.store := by
  cases act with
  | begin name => rfl
  | drop name => rfl
  | addEntry url => exact absurd trivial h
  | call name call =>
    cases hc : t.clients[name]? with
    | none => rw [step_unknown hc (.inr ⟨call, rfl⟩)]
    | some c => rw [step_call hc]
  | commit name =>
    cases hc : t.clients[name]? with
    | none => rw [step_unknown hc (.inl rfl)]
    | some c =>
      rw [step_commit hc] at h ⊢
      rcases c.session.commit_cases t.store with ⟨heq, -⟩ | ⟨heq, -⟩ | ⟨heq, -⟩
      · rw [heq]
      · exact absurd (congrArg Prod.fst heq) h
      · exact absurd (congrArg Prod.fst heq) h

/-- An act keeps all that is known of open sessions, does to the store what its replay does, and
counts a change if it makes one. -/
theorem Sound.step (h : t.Sound) (act : Act) :
    (t.step act).2.Sound ∧ (t.step act).1.replay t.store = (t.step act).2.store ∧
      (t.step act).2.store.generation =
        t.store.generation + if (t.step act).1.Changes then 1 else 0 := by
  cases act with
  | begin name => exact ⟨h.insert name (Client.sound_begin t.store), rfl, rfl⟩
  | drop name => exact ⟨h.erase name, rfl, rfl⟩
  | addEntry url =>
    exact ⟨h.of_lt (t.store.addEntry url).2 (Nat.lt_succ_self _), rfl, rfl⟩
  | call name call =>
    cases hc : t.clients[name]? with
    | none =>
      rw [step_unknown hc (.inr ⟨call, rfl⟩)]
      exact ⟨h, rfl, rfl⟩
    | some c =>
      rw [step_call hc]
      exact ⟨h.insert name ((h name c hc).call call), rfl, rfl⟩
  | commit name =>
    cases hc : t.clients[name]? with
    | none =>
      rw [step_unknown hc (.inl rfl)]
      exact ⟨h, rfl, rfl⟩
    | some c =>
      have hclient := h name c hc
      have hreplay := hclient.commit_alone
      rw [step_commit hc]
      rcases c.session.commit_cases t.store with ⟨heq, -⟩ | ⟨heq, -, hnone⟩ | ⟨heq, -, hwrites, -⟩
      · rw [heq]
        exact ⟨h.erase name, rfl, by simp [Outcome.Changes]⟩
      · -- a session that only read
        rw [heq] at hreplay ⊢
        have hread : ¬Wrote c.exchanges := fun hwrote => hclient.wrote_iff.mpr hwrote hnone
        exact ⟨h.erase name, congrArg Prod.snd (hreplay rfl).1, by simp [Outcome.Changes, hread]⟩
      · rw [heq] at hreplay ⊢
        have hwrote : Wrote c.exchanges := hclient.wrote_iff.mp hwrites
        refine ⟨(h.erase name).of_lt (t.store.overwrite c.session.writes)
          (Nat.lt_succ_self _), congrArg Prod.snd (hreplay rfl).1, ?_⟩
        rw [if_pos ⟨rfl, hwrote⟩]
        rfl

/-! ## Runs -/

theorem play_cons (act : Act) (acts : List Act) (t : Traffic) :
    play (act :: acts) t =
      ((t.step act).1 :: (play acts (t.step act).2).1, (play acts (t.step act).2).2) := rfl

theorem Sound.play (h : t.Sound) (acts : List Act) :
    (play acts t).2.Sound ∧ (play acts t).1.foldl Outcome.replay t.store = (play acts t).2.store ∧
      (play acts t).2.store.generation =
        t.store.generation + (play acts t).1.countP (·.Changes) := by
  induction acts generalizing t with
  | nil => exact ⟨h, rfl, rfl⟩
  | cons act acts ih =>
    obtain ⟨hsound, hreplay, hgen⟩ := h.step act
    obtain ⟨hsound', hreplay', hgen'⟩ := ih hsound
    rw [play_cons]
    refine ⟨hsound', ?_, ?_⟩
    · rw [List.foldl_cons, hreplay]
      exact hreplay'
    · rw [hgen', hgen, List.countP_cons]
      simp only [decide_eq_true_eq]
      omega

/-- The outcomes before one of them are those of the acts before its own. -/
theorem play_eq_append {acts : List Act} {before after : List Outcome} {outcome : Outcome}
    (h : (play acts t).1 = before ++ outcome :: after) :
    ∃ acts₁ act, (play acts₁ t).1 = before ∧ ((play acts₁ t).2.step act).1 = outcome := by
  induction acts generalizing t before with
  | nil => simp [play] at h
  | cons act acts ih =>
    cases before with
    | nil =>
      rw [play_cons, List.nil_append] at h
      exact ⟨[], act, rfl, (List.cons.inj h).1⟩
    | cons first before =>
      rw [play_cons, List.cons_append] at h
      obtain ⟨hfirst, hrest⟩ := List.cons.inj h
      obtain ⟨acts₁, act₁, hbefore, houtcome⟩ := ih hrest
      refine ⟨act :: acts₁, act₁, ?_, houtcome⟩
      rw [play_cons, hbefore]
      exact congrArg (· :: before) hfirst

/-- Whether an act begins or ends the session of a name. -/
def Act.turns (name : String) : Act → Bool
  | begin name' | commit name' | drop name' => name' = name
  | _ => false

/-- What an act asks of the session of a name. -/
def Act.call? (name : String) : Act → Option Call
  | call name' asked => if name' = name then some asked else none
  | _ => none

/-- An act that neither ends a session nor begins it anew leaves its age, and asks it what it
says. -/
theorem step_client {act : Act} {name : String} (hturns : act.turns name = false) {c : Client}
    (hc : t.clients[name]? = some c) :
    ∃ c', (t.step act).2.clients[name]? = some c' ∧
      c'.session.generation = c.session.generation ∧
      c'.exchanges.map Prod.fst = c.exchanges.map Prod.fst ++ (act.call? name).toList := by
  cases act with
  | begin name' =>
    have hne : name' ≠ name := by simpa [Act.turns] using hturns
    refine ⟨c, ?_, rfl, (List.append_nil _).symm⟩
    show (t.clients.insert name' _)[name]? = _
    rw [ExtTreeMap.getElem?_insert, if_neg (by simpa using hne), hc]
  | drop name' =>
    have hne : name' ≠ name := by simpa [Act.turns] using hturns
    refine ⟨c, ?_, rfl, (List.append_nil _).symm⟩
    show (t.clients.erase name')[name]? = _
    rw [ExtTreeMap.getElem?_erase, if_neg (by simpa using hne), hc]
  | addEntry url => exact ⟨c, hc, rfl, (List.append_nil _).symm⟩
  | commit name' =>
    have hne : name' ≠ name := by simpa [Act.turns] using hturns
    refine ⟨c, ?_, rfl, (List.append_nil _).symm⟩
    cases hother : t.clients[name']? with
    | none => rw [step_unknown hother (.inl rfl), hc]
    | some other =>
      rw [step_commit hother, ExtTreeMap.getElem?_erase, if_neg (by simpa using hne), hc]
  | call name' call =>
    by_cases hname : name' = name
    · subst hname
      refine ⟨_, by rw [step_call hc, ExtTreeMap.getElem?_insert_self], ?_, ?_⟩
      · rw [perform_spec]
      · simp [Act.call?]
    · refine ⟨c, ?_, rfl, by simp [Act.call?, hname]⟩
      cases hother : t.clients[name']? with
      | none => rw [step_unknown hother (.inr ⟨call, rfl⟩), hc]
      | some other =>
        rw [step_call hother, ExtTreeMap.getElem?_insert, if_neg (by simpa using hname), hc]

/-- So it is with several acts. -/
theorem play_client (acts : List Act) {name : String}
    (hturns : ∀ act ∈ acts, act.turns name = false) {c : Client}
    (hc : t.clients[name]? = some c) :
    ∃ c', (play acts t).2.clients[name]? = some c' ∧
      c'.session.generation = c.session.generation ∧
      c'.exchanges.map Prod.fst = c.exchanges.map Prod.fst ++ acts.filterMap (Act.call? name) := by
  induction acts generalizing t c with
  | nil => exact ⟨c, hc, rfl, (List.append_nil _).symm⟩
  | cons act acts ih =>
    obtain ⟨c₁, hc₁, hgen₁, hcalls₁⟩ := step_client (hturns act List.mem_cons_self) hc
    obtain ⟨c', hc', hgen', hcalls'⟩ :=
      ih (fun act' h' => hturns act' (List.mem_cons_of_mem _ h')) hc₁
    refine ⟨c', hc', hgen'.trans hgen₁, ?_⟩
    rw [hcalls', hcalls₁, List.append_assoc]
    cases hcall : act.call? name <;> simp [hcall]

/-- The commit of a session that wrote something is refused if and only if the store has changed
since the session began. -/
theorem Sound.commit_of_begun (h : t.Sound) {name : String} {acts : List Act}
    (hturns : ∀ act ∈ acts, act.turns name = false)
    (hwrote : ∃ entry key value source, .call name (.set entry key value source) ∈ acts) :
    ∃ exchanges committed,
      ((Traffic.play acts (t.step (.begin name)).2).2.step (.commit name)).1 =
          .ended exchanges committed ∧
        (committed = false ↔
          ∃ outcome ∈ (Traffic.play acts (t.step (.begin name)).2).1, outcome.Changes) := by
  have hbegun := (h.step (.begin name)).1
  obtain ⟨hsound, -, hgen⟩ := hbegun.play acts
  obtain ⟨c, hc, hage, hcalls⟩ :=
    play_client acts hturns (t := (t.step (.begin name)).2) ExtTreeMap.getElem?_insert_self
  have hwrote : Wrote c.exchanges := by
    obtain ⟨entry, key, value, source, hmem⟩ := hwrote
    have hcall : Call.set entry key value source ∈ acts.filterMap (Act.call? name) :=
      List.mem_filterMap.mpr ⟨_, hmem, by simp [Act.call?]⟩
    unfold Wrote
    rw [hcalls]
    exact List.ne_nil_of_mem (List.mem_filterMap.mpr ⟨_, hcall, rfl⟩)
  refine ⟨c.exchanges, _, congrArg Prod.fst (step_commit hc), ?_⟩
  rw [← Bool.not_eq_true, (hsound name c hc).commit_iff hwrote, hage, hgen]
  show ¬t.store.generation = t.store.generation + _ ↔ _
  rw [Nat.left_eq_add, List.countP_eq_zero]
  simp

/-- **Sessions are serializable.** Whatever sessions begin, are asked and end while entries are made
and others are open: the store is the one that results from making the entries and running the
sessions that committed, each alone and as a whole when it commits. A session that wrote something
and committed was answered as it is in that run. Whatever comes next, it changes nothing unless it
succeeds. And if the next is a session that writes something, its commit is refused if and only if
in between an entry is made or another session commits that has written something. -/
theorem serializable (store : Store) (acts : List Act) :
    (play acts ⟨store, ∅⟩).1.foldl Outcome.replay store = (play acts ⟨store, ∅⟩).2.store ∧
    (∀ before exchanges after,
      (play acts ⟨store, ∅⟩).1 = before ++ .ended exchanges true :: after → Wrote exchanges →
        ((before.foldl Outcome.replay store).runAlone (exchanges.map Prod.fst)).1 = exchanges ∧
        ((before.foldl Outcome.replay store).runAlone (exchanges.map Prod.fst)).2.1 = true) ∧
    (∀ act, ¬((play acts ⟨store, ∅⟩).2.step act).1.Succeeded →
      ((play acts ⟨store, ∅⟩).2.step act).2.store = (play acts ⟨store, ∅⟩).2.store) ∧
    ∀ name between, (∀ act ∈ between, act.turns name = false) →
      (∃ entry key value source, .call name (.set entry key value source) ∈ between) →
        ∃ exchanges committed,
          ((play between ((play acts ⟨store, ∅⟩).2.step (.begin name)).2).2.step
            (.commit name)).1 = .ended exchanges committed ∧
          (committed = false ↔
            ∃ outcome ∈ (play between ((play acts ⟨store, ∅⟩).2.step (.begin name)).2).1,
              outcome.Changes) := by
  refine ⟨((sound_begun store).play acts).2.1, ?_, fun act => step_of_not_succeeded _ act,
    fun name between hturns => ((sound_begun store).play acts).1.commit_of_begun hturns⟩
  intro before exchanges after hsplit hwrote
  obtain ⟨acts₁, act, hbefore, houtcome⟩ := play_eq_append hsplit
  obtain ⟨hsound, hreplay, -⟩ := (sound_begun store).play acts₁
  rw [← hbefore, hreplay]
  -- the outcome is that of a commit, whose session is known to have been answered as if alone
  obtain ⟨name, c, rfl, hc⟩ := exists_client_of_ended houtcome
  rw [step_commit hc] at houtcome
  obtain ⟨rfl, hcommit⟩ := Outcome.ended.inj houtcome
  obtain ⟨hstore, hanswers⟩ := (hsound name c hc).commit_alone hcommit
  exact ⟨hanswers hwrote, (congrArg Prod.fst hstore).trans hcommit⟩

/-- Of two sessions that write one property the one that commits last is refused. -/
theorem serializable_of_rivals :
    ∃ exchanges,
      ((play [.call "x" (.get 1 "title"), .call "x" (.set 1 "title" (.text "a") "x"), .begin "y",
          .call "y" (.set 1 "title" (.text "b") "y"), .commit "y"]
        ((play [.addEntry "mem:"] ⟨.empty, ∅⟩).2.step (.begin "x")).2).2.step (.commit "x")).1 =
          .ended exchanges false := by
  obtain ⟨-, -, -, hcommit⟩ := serializable .empty [.addEntry "mem:"]
  obtain ⟨exchanges, committed, hended, hiff⟩ := hcommit "x"
    [.call "x" (.get 1 "title"), .call "x" (.set 1 "title" (.text "a") "x"), .begin "y",
      .call "y" (.set 1 "title" (.text "b") "y"), .commit "y"]
    (by decide) ⟨1, "title", .text "a", "x", by decide⟩
  obtain rfl : committed = false := hiff.mpr (by decide)
  exact ⟨exchanges, hended⟩

end Traffic

end Library

end MediaChain
