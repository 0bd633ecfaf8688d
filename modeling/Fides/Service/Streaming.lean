import Fides.Concurrency.Channel
import Fides.Service.Ledger

/-! # The stream of a listing

`get_entries` answers with the receiving end of a channel.  The entries that it has read are
sent by a task of its own, which goes on after the response; the client takes them out or hangs
up.  The channel, with the stream around its receiving end, is not part of the repository: it is
a parameter, and the client does what it likes.
-/

namespace Fides.Service

open Concurrency

/-- What the client has seen of the end of the stream. -/
inductive Client where
  | listening
  | ended
  | gone
  deriving DecidableEq, Repr

structure Stream (channel : Channel ProtoEntry) where
  /-- What the task has still to send; none once it is over. -/
  task : Option (List ProtoEntry)
  state : channel.State
  received : List ProtoEntry
  client : Client

inductive Turn where
  /-- The task goes on by one round of its loop, or by what comes after it. -/
  | task
  /-- The client asks for the next entry. -/
  | receive
  /-- The client drops the stream. -/
  | hangUp
  deriving DecidableEq, Repr

namespace Stream

variable {channel : Channel ProtoEntry}

/-- `for entry in entries { if sender.send(..).await.is_err() { break; } }`, and the sender is
    dropped with the task. -/
def sendEntries (s : Stream channel) : Option (Stream channel) :=
  match s.task with
  | none => none
  | some [] => some { s with task := none, state := channel.close s.state }
  | some (entry :: entries) =>
      match channel.send s.state entry with
      | none => none
      | some (true, state) => some { s with task := some entries, state := state }
      | some (false, state) => some { s with task := none, state := channel.close state }

/-- The client asks its end of the channel for the next entry. -/
def takeNext (s : Stream channel) : Option (Stream channel) :=
  match channel.receive s.state with
  | none => none
  | some (some entry, state) => some { s with state := state, received := s.received ++ [entry] }
  | some (none, state) => some { s with state := state, client := .ended }

/-- Where nothing can happen in a turn, it is not taken. -/
def step (s : Stream channel) : Turn → Option (Stream channel)
  | .task => s.sendEntries
  | .receive => if s.client = .listening then s.takeNext else none
  | .hangUp =>
      if s.client = .listening then some { s with state := channel.hangUp s.state, client := .gone }
      else none

def run (s : Stream channel) : List Turn → Option (Stream channel)
  | [] => some s
  | turn :: turns => (s.step turn).bind (run · turns)

/-- The task is over, and so is the stream for the client. -/
def finished (s : Stream channel) : Bool := s.task.isNone && decide (s.client ≠ .listening)

end Stream

/-- `mpsc::channel(32)`. -/
def streamCapacity : Nat := 32

/-- The stream that `get_entries` answers with, and its task. -/
def entriesStream (channel : Channel ProtoEntry) : Response → Option (Stream channel)
  | .entries entries => some ⟨some entries, channel.new, [], .listening⟩
  | _ => none

end Fides.Service
