import MediaChain.Broadcast

/-!
# Senders

A `Broadcast.Roll` lists the senders of a broadcast in the order in which their inboxes were opened.
A sender stays on it after the owner has dropped the inbox, until a message cannot be delivered to
it. Whatever is done with both, every owner finds in the inbox what the broadcast puts there
(`Broadcast.Roll.Shows.play`).
-/

namespace MediaChain

namespace Broadcast

variable {μ : Type}

/-- What is done with a broadcast. -/
inductive Act (μ : Type)
  | subscribe (owner : String)
  | unsubscribe (owner : String)
  | send (message : μ)
  | take (owner : String)

def act (b : Broadcast μ) : Act μ → Broadcast μ
  | .subscribe owner => b.subscribe owner
  | .unsubscribe owner => b.unsubscribe owner
  | .send message => b.send message
  | .take owner => b.take owner

def play (b : Broadcast μ) (acts : List (Act μ)) : Broadcast μ := acts.foldl act b

theorem play_append (b : Broadcast μ) (acts acts' : List (Act μ)) :
    b.play (acts ++ acts') = (b.play acts).play acts' := List.foldl_append

/-- The senders, oldest first, each by the owner of its inbox and with what waits there, or with
`none` if the inbox was dropped. -/
structure Roll (μ : Type) where
  senders : List (String × Option (List μ))

namespace Roll

/-- What waits in an inbox; `none` if no sender leads to it. -/
def inbox? (r : Roll μ) (owner : String) : Option (List μ) :=
  r.senders.findSome? fun (owner', waiting?) => if owner' = owner then waiting? else none

/-- An owner drops the inbox. Its sender stays. -/
def leave (r : Roll μ) (owner : String) : Roll μ :=
  ⟨r.senders.map fun (owner', waiting?) =>
    (owner', if owner' = owner then none else waiting?)⟩

/-- Sends a message to one after the other, and strikes out those that lead to no inbox. -/
def send (r : Roll μ) (message : μ) : Roll μ :=
  ⟨r.senders.filterMap fun (owner, waiting?) =>
    waiting?.map fun waiting => (owner, some (waiting ++ [message]))⟩

def take (r : Roll μ) (owner : String) : Roll μ :=
  ⟨r.senders.map fun (owner', waiting?) =>
    (owner', if owner' = owner then waiting?.map fun _ => [] else waiting?)⟩

def act (r : Roll μ) : Act μ → Roll μ
  | .subscribe owner => ⟨(r.leave owner).senders ++ [(owner, some [])]⟩
  | .unsubscribe owner => r.leave owner
  | .send message => r.send message
  | .take owner => r.take owner

def play (r : Roll μ) (acts : List (Act μ)) : Roll μ := acts.foldl act r

section inboxes

variable (r : Roll μ) (owner owner' : String)

theorem inbox?_cons (waiting? : Option (List μ)) (senders : List (String × Option (List μ))) :
    (⟨(owner', waiting?) :: senders⟩ : Roll μ).inbox? owner =
      (if owner' = owner then waiting? else none).or ((⟨senders⟩ : Roll μ).inbox? owner) := by
  by_cases h : owner' = owner <;> cases waiting? <;> simp [inbox?, h]

theorem inbox?_leave :
    (r.leave owner).inbox? owner' = if owner = owner' then none else r.inbox? owner' := by
  obtain ⟨senders⟩ := r
  induction senders with
  | nil => simp [leave, inbox?]
  | cons sender senders ih =>
    rw [leave, List.map_cons, inbox?_cons, ← leave, ih, inbox?_cons]
    grind

theorem inbox?_send (message : μ) :
    (r.send message).inbox? owner = (r.inbox? owner).map (· ++ [message]) := by
  obtain ⟨senders⟩ := r
  induction senders with
  | nil => simp [send, inbox?]
  | cons sender senders ih =>
    obtain ⟨owner', waiting?⟩ := sender
    cases waiting? with
    | none =>
      -- the sender is struck out, and nothing was seen of it before
      rw [inbox?_cons, ite_self, Option.none_or, ← ih]
      rfl
    | some waiting =>
      show (⟨(owner', some (waiting ++ [message])) :: (send ⟨senders⟩ message).senders⟩ :
        Roll μ).inbox? owner = _
      rw [inbox?_cons, inbox?_cons, Option.map_or, ← ih]
      split <;> rfl

theorem inbox?_take :
    (r.take owner).inbox? owner' =
      if owner = owner' then (r.inbox? owner').map fun _ => [] else r.inbox? owner' := by
  obtain ⟨senders⟩ := r
  induction senders with
  | nil => simp [take, inbox?]
  | cons sender senders ih =>
    rw [take, List.map_cons, inbox?_cons, ← take, ih, inbox?_cons]
    grind

theorem inbox?_subscribe :
    (r.act (.subscribe owner)).inbox? owner' =
      if owner = owner' then some [] else r.inbox? owner' := by
  have hnew : (⟨[(owner, some [])]⟩ : Roll μ).inbox? owner' =
      if owner = owner' then some [] else none := by
    simp [inbox?]
  have happend : (r.act (.subscribe owner)).inbox? owner' =
      ((r.leave owner).inbox? owner').or ((⟨[(owner, some [])]⟩ : Roll μ).inbox? owner') :=
    List.findSome?_append
  rw [happend, inbox?_leave, hnew]
  split <;> simp

end inboxes

/-! ## The broadcast that a roll carries out -/

/-- Every owner finds in the inbox what the broadcast puts there. -/
def Shows (r : Roll μ) (b : Broadcast μ) : Prop := ∀ owner, r.inbox? owner = b.inbox? owner

variable {r : Roll μ} {b : Broadcast μ}

theorem Shows.act (h : r.Shows b) (a : Act μ) : (r.act a).Shows (b.act a) := by
  intro owner
  cases a with
  | subscribe owner' =>
    show _ = (b.subscribe owner').inbox? owner
    rw [inbox?_subscribe, Broadcast.inbox?_subscribe, h owner]
  | unsubscribe owner' =>
    show (r.leave owner').inbox? owner = (b.unsubscribe owner').inbox? owner
    rw [inbox?_leave, Broadcast.inbox?_unsubscribe, h owner]
  | send message =>
    show (r.send message).inbox? owner = (b.send message).inbox? owner
    rw [inbox?_send, Broadcast.inbox?_send, h owner]
  | take owner' =>
    show (r.take owner').inbox? owner = (b.take owner').inbox? owner
    rw [inbox?_take, Broadcast.inbox?_take, h owner]

theorem Shows.play (h : r.Shows b) (acts : List (Act μ)) : (r.play acts).Shows (b.play acts) := by
  induction acts generalizing r b with
  | nil => exact h
  | cons a acts ih => exact ih (h.act a)

end Roll

end Broadcast

end MediaChain
