import Std.Data.ExtTreeMap

/-!
# Broadcasts

Messages go to every inbox that is open when they are sent, in the order in which they are sent,
and wait there to be taken.
-/

namespace MediaChain

open Std

/-- The open inboxes, by the names of their owners, and what waits in them, oldest first. -/
structure Broadcast (μ : Type) where
  inboxes : ExtTreeMap String (List μ)

namespace Broadcast

variable {μ : Type}

def empty : Broadcast μ := ⟨∅⟩

/-- What waits in an inbox; `none` if it is not open. -/
def inbox? (b : Broadcast μ) (owner : String) : Option (List μ) := b.inboxes[owner]?

/-- Opens an empty inbox, in place of an older one of the same owner. -/
def subscribe (b : Broadcast μ) (owner : String) : Broadcast μ := ⟨b.inboxes.insert owner []⟩

def unsubscribe (b : Broadcast μ) (owner : String) : Broadcast μ := ⟨b.inboxes.erase owner⟩

/-- Puts a message into every open inbox. -/
def send (b : Broadcast μ) (message : μ) : Broadcast μ :=
  ⟨b.inboxes.map fun _ waiting => waiting ++ [message]⟩

/-- Empties an inbox. -/
def take (b : Broadcast μ) (owner : String) : Broadcast μ :=
  ⟨b.inboxes.modify owner fun _ => []⟩

@[simp]
theorem inbox?_empty (owner : String) : (empty : Broadcast μ).inbox? owner = none := by
  simp [empty, inbox?]

@[simp]
theorem inbox?_subscribe (b : Broadcast μ) (owner owner' : String) :
    (b.subscribe owner).inbox? owner' = if owner = owner' then some [] else b.inbox? owner' := by
  simp [subscribe, inbox?, ExtTreeMap.getElem?_insert]

@[simp]
theorem inbox?_unsubscribe (b : Broadcast μ) (owner owner' : String) :
    (b.unsubscribe owner).inbox? owner' = if owner = owner' then none else b.inbox? owner' := by
  simp [unsubscribe, inbox?, ExtTreeMap.getElem?_erase]

@[simp]
theorem inbox?_send (b : Broadcast μ) (message : μ) (owner : String) :
    (b.send message).inbox? owner = (b.inbox? owner).map (· ++ [message]) := by
  simp [send, inbox?]

@[simp]
theorem inbox?_take (b : Broadcast μ) (owner owner' : String) :
    (b.take owner).inbox? owner' =
      if owner = owner' then (b.inbox? owner').map fun _ => [] else b.inbox? owner' := by
  by_cases h : owner = owner' <;> simp [take, inbox?, ExtTreeMap.getElem?_modify, h]

end Broadcast

end MediaChain
