import Mathlib.Data.List.Basic

/-!
# Bounded channels

A channel with one sender and one receiver. A send that finds no room waits; one that finds the receiver gone fails.
Beside its buffer a channel keeps what was sent through it and what was received, as a ledger.

* `Channel.send`, `Channel.receive`, `Channel.hangUp` : what the two sides do;
* `Channel.Fair` : first in, first out, within the capacity, with its lemma for each operation;
* `Channel.UpToDate` : a receiver that takes each message as it comes.
-/

structure Channel (α : Type*) where
  capacity : Nat
  buffer : List α
  receiverOpen : Bool
  sent : List α
  received : List α

namespace Channel
variable {α : Type*}

def empty (capacity : Nat) : Channel α := ⟨capacity, [], true, [], []⟩

/-- There is room for a message and someone to take it. -/
def CanSend (ch : Channel α) : Prop := ch.receiverOpen = true ∧ ch.buffer.length < ch.capacity

instance (ch : Channel α) : Decidable ch.CanSend := inferInstanceAs (Decidable (_ ∧ _))

/-- The receiver is there but the buffer is full. -/
def Full (ch : Channel α) : Prop := ch.receiverOpen = true ∧ ch.capacity ≤ ch.buffer.length

instance (ch : Channel α) : Decidable ch.Full := inferInstanceAs (Decidable (_ ∧ _))

def send (ch : Channel α) (message : α) : Channel α :=
  { ch with buffer := ch.buffer ++ [message], sent := ch.sent ++ [message] }

/-- The receiver takes the oldest message, if there is one. -/
def receive (ch : Channel α) : Channel α :=
  match ch.buffer with
  | [] => ch
  | message :: rest => { ch with buffer := rest, received := ch.received ++ [message] }

/-- The receiver leaves, and what it has not taken is gone. -/
def hangUp (ch : Channel α) : Channel α := { ch with buffer := [], receiverOpen := false }

/-- **First in, first out.** What was received is the beginning of what was sent; while the receiver is there, what is
buffered is all the rest; and the buffer is within the capacity. -/
structure Fair (ch : Channel α) : Prop where
  received_prefix : ch.received <+: ch.sent
  nothing_lost : ch.receiverOpen = true → ch.received ++ ch.buffer = ch.sent
  bounded : ch.buffer.length ≤ ch.capacity

theorem fair_empty (capacity : Nat) : (empty capacity : Channel α).Fair :=
  ⟨List.prefix_rfl, fun _ => rfl, Nat.zero_le _⟩

variable {ch : Channel α}

theorem Fair.send (h : ch.Fair) (hroom : ch.CanSend) (message : α) : (ch.send message).Fair where
  received_prefix := h.received_prefix.trans (List.prefix_append _ _)
  nothing_lost hopen := by
    show ch.received ++ (ch.buffer ++ [message]) = ch.sent ++ [message]
    rw [← List.append_assoc, h.nothing_lost hopen]
  bounded := by
    show (ch.buffer ++ [message]).length ≤ ch.capacity
    rw [List.length_append, List.length_singleton]
    exact hroom.2

theorem Fair.receive (h : ch.Fair) (hopen : ch.receiverOpen = true) : ch.receive.Fair := by
  unfold Channel.receive
  cases hbuffer : ch.buffer with
  | nil => exact h
  | cons message rest =>
    have hsent := h.nothing_lost hopen
    have hbounded := h.bounded
    rw [hbuffer] at hsent hbounded
    rw [List.append_cons] at hsent
    exact ⟨⟨rest, hsent⟩, fun _ => hsent, Nat.le_of_succ_le hbounded⟩

theorem Fair.hangUp (h : ch.Fair) : ch.hangUp.Fair := ⟨h.received_prefix, nofun, Nat.zero_le _⟩

@[simp] theorem sent_send (message : α) : (ch.send message).sent = ch.sent ++ [message] := rfl
@[simp] theorem sent_hangUp : ch.hangUp.sent = ch.sent := rfl

@[simp] theorem sent_receive : ch.receive.sent = ch.sent := by
  unfold receive
  split <;> rfl

@[simp] theorem capacity_receive : ch.receive.capacity = ch.capacity := by
  unfold receive
  split <;> rfl

/-- The receiver is there and has taken all that was sent. -/
structure UpToDate (ch : Channel α) (messages : List α) : Prop where
  there : ch.receiverOpen = true
  room : 0 < ch.capacity
  empty : ch.buffer = []
  received_eq : ch.received = messages

theorem upToDate_empty {capacity : Nat} (h : 0 < capacity) : (empty capacity : Channel α).UpToDate [] :=
  ⟨rfl, h, rfl, rfl⟩

variable {messages : List α}

theorem UpToDate.canSend (h : ch.UpToDate messages) : ch.CanSend := by
  refine ⟨h.there, ?_⟩
  rw [h.empty]
  exact h.room

theorem UpToDate.receive_eq (h : ch.UpToDate messages) : ch.receive = ch := by
  unfold receive
  rw [h.empty]

theorem UpToDate.deliver (h : ch.UpToDate messages) (message : α) :
    (ch.send message).receive.UpToDate (messages ++ [message]) := by
  have hbuffer : (ch.send message).buffer = [message] := by
    show ch.buffer ++ [message] = [message]
    rw [h.empty, List.nil_append]
  unfold receive
  rw [hbuffer]
  refine ⟨h.there, h.room, rfl, ?_⟩
  show ch.received ++ [message] = messages ++ [message]
  rw [h.received_eq]

end Channel
