import Mathlib.Data.List.Basic
import SshCommander.RustText

/-!
# Requests and replies on one channel

A client sends request lines and takes replies in the order in which the server sends them. A
reply is marked with the number of the request that it answers, and the channel keeps for which
request it was taken. A method of the client is a program of requests and replies.
-/

namespace SshCommander.ControlChannel
open RustText

structure Reply where
  request : ℕ
  code : ℕ
  deriving DecidableEq, Repr

/-- A reply that was taken for the request with the given number. -/
structure Read where
  request : ℕ
  reply : Reply
  deriving DecidableEq, Repr

structure Channel where
  /-- How many requests were sent. -/
  sent : ℕ
  unread : List Reply
  /-- The replies taken, the last one first. -/
  reads : List Read
  deriving DecidableEq, Repr

/-- The codes of the replies to the request with the given number. -/
abbrev Server := ℕ → Text → List ℕ

namespace Channel

def new : Channel := ⟨0, [], []⟩

def send (server : Server) (ch : Channel) (line : Text) : Channel :=
  { ch with sent := ch.sent + 1
            unread := ch.unread ++ (server ch.sent line).map (⟨ch.sent, ·⟩) }

/-- The next reply, which is taken for the request sent last. There is none when the server sends
no more before the connection ends. -/
def receive (ch : Channel) : Channel × Option Reply :=
  match ch.unread with
  | [] => (ch, none)
  | reply :: rest =>
    ({ ch with unread := rest, reads := ⟨ch.sent - 1, reply⟩ :: ch.reads }, some reply)

theorem receive_cons {ch : Channel} {reply : Reply} {rest : List Reply}
    (h : ch.unread = reply :: rest) : ch.receive =
      ({ ch with unread := rest, reads := ⟨ch.sent - 1, reply⟩ :: ch.reads }, some reply) := by
  simp only [receive, h]

def AllOwn (ch : Channel) : Prop := ∀ r ∈ ch.reads, r.reply.request = r.request

instance (ch : Channel) : Decidable ch.AllOwn := inferInstanceAs (Decidable (∀ r ∈ ch.reads, _))

/-- Nothing is left to read. -/
structure InStep (ch : Channel) : Prop where
  own : ch.AllOwn
  unread : ch.unread = []

/-- One reply to the last request is left to read. -/
structure Owed (ch : Channel) : Prop where
  own : ch.AllOwn
  unread : ∃ reply, ch.unread = [reply] ∧ reply.request + 1 = ch.sent

/-- A reply to the last request is taken for it. -/
theorem AllOwn.receive {ch : Channel} (h : ch.AllOwn) {reply : Reply} {rest : List Reply}
    (hunread : ch.unread = reply :: rest) (hreply : reply.request + 1 = ch.sent) :
    ch.receive.1.AllOwn := by
  rw [receive_cons hunread]
  intro r hr
  rcases List.mem_cons.mp hr with rfl | hr
  · exact Nat.eq_sub_of_add_eq hreply
  · exact h r hr

end Channel

inductive Talk (α : Type) where
  | done (a : α)
  | request (line : Text) (next : Talk α)
  | reply (next : Option Reply → Talk α)

namespace Talk

variable {α β : Type}

def run (server : Server) : Talk α → Channel → Channel × α
  | .done a, ch => (ch, a)
  | .request line next, ch => next.run server (ch.send server line)
  | .reply next, ch => (next ch.receive.2).run server ch.receive.1

def bind : Talk α → (α → Talk β) → Talk β
  | .done a, f => f a
  | .request line next, f => .request line (next.bind f)
  | .reply next, f => .reply fun r => (next r).bind f

def Asks (t : Talk α) : Prop := ∃ line next, t = .request line (.reply next)

variable {server : Server} {ch : Channel}

theorem run_reply {next : Option Reply → Talk α} {reply : Reply} {rest : List Reply}
    (h : ch.unread = reply :: rest) :
    (Talk.reply next).run server ch = (next (some reply)).run server ch.receive.1 := by
  have hreceive : ch.receive.2 = some reply := by rw [Channel.receive_cons h]
  rw [run, hreceive]

theorem run_bind (t : Talk α) (f : α → Talk β) (ch : Channel) :
    (t.bind f).run server ch = (f (t.run server ch).2).run server (t.run server ch).1 := by
  induction t generalizing ch with
  | done a => rfl
  | request line next ih => exact ih _
  | reply next ih => exact ih _ _

theorem reads_receive : ch.reads <:+ ch.receive.1.reads := by
  unfold Channel.receive
  split
  · exact List.suffix_rfl
  · exact List.suffix_cons _ _

/-- What was taken stays on record. -/
theorem reads_run (t : Talk α) (ch : Channel) : ch.reads <:+ (t.run server ch).1.reads := by
  induction t generalizing ch with
  | done a => exact List.suffix_rfl
  | request line next ih => exact ih (ch.send server line)
  | reply next ih => exact reads_receive.trans (ih _ _)

theorem allOwn_of_suffix {ch ch' : Channel} (h : ch.reads <:+ ch'.reads) (hown : ch'.AllOwn) :
    ch.AllOwn := fun r hr => hown r (h.subset hr)

/-- A program that asks takes a reply that was left over for the one to its own request. -/
theorem not_allOwn_of_owed {t : Talk α} (ht : t.Asks) (h : ch.Owed) :
    ¬(t.run server ch).1.AllOwn := by
  obtain ⟨line, next, rfl⟩ := ht
  obtain ⟨reply, hunread, hsent⟩ := h.unread
  intro hown
  have hreceived : (ch.send server line).receive.1.AllOwn :=
    allOwn_of_suffix (reads_run (next (ch.send server line).receive.2) _) hown
  have htaken : ⟨ch.sent, reply⟩ ∈ (ch.send server line).receive.1.reads := by
    simp [Channel.receive, Channel.send, hunread]
  have heq : reply.request = ch.sent := hreceived _ htaken
  omega

end Talk

end SshCommander.ControlChannel
