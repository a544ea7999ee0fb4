import Mathlib.Data.List.Basic
import Mathlib.Data.Nat.Notation

/-!
# Bounded channels

A queue of bounded size between senders and a receiver. The channel carries what was ever sent into
it and received from it, so that no channel can lose, double or reorder anything.
-/

namespace BoundedChannels
variable {α : Type} {cap : ℕ}

structure Channel (α : Type) (cap : ℕ) where
  sent : List α
  received : List α
  queue : List α
  whole : received ++ queue = sent
  bounded : queue.length ≤ cap

namespace Channel

def empty : Channel α cap := ⟨[], [], [], rfl, Nat.zero_le cap⟩

/-- `none` where the channel is full. -/
def send (ch : Channel α cap) (a : α) : Option (Channel α cap) :=
  if h : ch.queue.length < cap then
    some ⟨ch.sent ++ [a], ch.received, ch.queue ++ [a], by rw [← ch.whole, List.append_assoc],
      by rwa [List.length_append]⟩
  else none

/-- `none` where nothing is waiting. -/
def recv (ch : Channel α cap) : Option (α × Channel α cap) :=
  match h : ch.queue with
  | [] => none
  | a :: rest =>
    some (a, ⟨ch.sent, ch.received ++ [a], rest, by rw [← ch.whole, h, List.append_assoc]; rfl,
      by have := ch.bounded; rw [h, List.length_cons] at this; omega⟩)

variable {ch ch' : Channel α cap} {a : α}

theorem send_eq_none : ch.send a = none ↔ ch.queue.length = cap := by
  have hle := ch.bounded
  unfold send
  split
  · simp only [reduceCtorEq, false_iff]
    omega
  · simp only [true_iff]
    omega

theorem recv_eq_none : ch.recv = none ↔ ch.queue = [] := by
  unfold recv
  split
  · rename_i h
    simp only [h]
  · rename_i h
    simp only [h, reduceCtorEq]

structure Sends (ch : Channel α cap) (a : α) (ch' : Channel α cap) : Prop where
  sent : ch'.sent = ch.sent ++ [a]
  received : ch'.received = ch.received
  queue : ch'.queue = ch.queue ++ [a]

theorem send_some (h : ch.send a = some ch') : Sends ch a ch' := by
  unfold send at h
  split at h
  · obtain rfl := Option.some.inj h
    exact ⟨rfl, rfl, rfl⟩
  · cases h

structure Receives (ch : Channel α cap) (a : α) (ch' : Channel α cap) : Prop where
  sent : ch'.sent = ch.sent
  received : ch'.received = ch.received ++ [a]
  queue : ch.queue = a :: ch'.queue

theorem recv_some (h : ch.recv = some (a, ch')) : Receives ch a ch' := by
  unfold recv at h
  split at h
  · cases h
  · rename_i b rest hq
    obtain ⟨rfl, rfl⟩ := Prod.mk.inj (Option.some.inj h)
    exact ⟨rfl, rfl, hq⟩

theorem received_prefix (ch : Channel α cap) : ch.received <+: ch.sent := ⟨ch.queue, ch.whole⟩

theorem Sends.grows (h : Sends ch a ch') : ch.sent <+: ch'.sent := ⟨[a], h.sent.symm⟩

theorem Receives.grows (h : Receives ch a ch') : ch.received <+: ch'.received :=
  ⟨[a], h.received.symm⟩

end Channel

end BoundedChannels
