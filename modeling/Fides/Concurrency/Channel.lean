import Mathlib.Data.List.Basic

/-! # Channels

A channel is known by its operations only.  What a bounded one has to do with them is said
by a function from its states to the elements that are on their way, with one law for each
case of an operation.
-/

namespace Concurrency

/-- The operations of a channel from one sender to one receiver.  An operation that has to wait
    gives no result. -/
structure Channel (α : Type) where
  State : Type
  new : State
  /-- The result is whether the element was taken. -/
  send : State → α → Option (Bool × State)
  /-- The sender is dropped. -/
  close : State → State
  /-- The result is the next element, or that there will be none. -/
  receive : State → Option (Option α × State)
  /-- The receiver is dropped. -/
  hangUp : State → State

namespace Channel

/-- The elements that were sent and not received yet, and which ends are dropped. -/
structure View (α : Type) where
  held : List α
  closed : Bool
  deserted : Bool
  deriving DecidableEq, Repr

/-- The channel takes up to `capacity` elements and gives them out in their order. -/
structure Bounded {α : Type} (channel : Channel α) (capacity : Nat) where
  view : channel.State → View α
  new : view channel.new = ⟨[], false, false⟩
  /-- Without a receiver nothing is taken. -/
  send_deserted : ∀ s item, (view s).deserted = true →
    ∃ s', channel.send s item = some (false, s') ∧ view s' = view s
  send_room : ∀ s item, (view s).deserted = false → (view s).held.length < capacity →
    ∃ s', channel.send s item = some (true, s') ∧
      view s' = { view s with held := (view s).held ++ [item] }
  send_full : ∀ s item, (view s).deserted = false → capacity ≤ (view s).held.length →
    channel.send s item = none
  close : ∀ s, view (channel.close s) = { view s with closed := true }
  receive_held : ∀ s item rest, (view s).held = item :: rest →
    ∃ s', channel.receive s = some (some item, s') ∧ view s' = { view s with held := rest }
  /-- The end comes after everything that was sent. -/
  receive_closed : ∀ s, (view s).held = [] → (view s).closed = true →
    ∃ s', channel.receive s = some (none, s') ∧ view s' = view s
  receive_empty : ∀ s, (view s).held = [] → (view s).closed = false → channel.receive s = none
  /-- What becomes of the elements is left open. -/
  hangUp : ∀ s, ∃ left, view (channel.hangUp s) = ⟨left, (view s).closed, true⟩

namespace Bounded

variable {α : Type} {channel : Channel α} {capacity : Nat} (bounded : channel.Bounded capacity)
  {s s' : channel.State}

/-- Everything that sending can come to. -/
theorem send_cases {item : α} {taken : Bool} (sent : channel.send s item = some (taken, s')) :
    (taken = true ∧ (bounded.view s).deserted = false ∧
      bounded.view s' = { bounded.view s with held := (bounded.view s).held ++ [item] }) ∨
    (taken = false ∧ (bounded.view s).deserted = true ∧ bounded.view s' = bounded.view s) := by
  cases deserted : (bounded.view s).deserted with
  | true =>
    obtain ⟨s₁, refused, same⟩ := bounded.send_deserted s item deserted
    cases refused.symm.trans sent
    exact .inr ⟨rfl, rfl, same⟩
  | false =>
    by_cases room : (bounded.view s).held.length < capacity
    · obtain ⟨s₁, put, grown⟩ := bounded.send_room s item deserted room
      cases put.symm.trans sent
      exact .inl ⟨rfl, rfl, grown⟩
    · cases (bounded.send_full s item deserted (Nat.le_of_not_lt room)).symm.trans sent

/-- Everything that receiving can come to. -/
theorem receive_cases {got : Option α} (received : channel.receive s = some (got, s')) :
    (∃ item rest, got = some item ∧ (bounded.view s).held = item :: rest ∧
      bounded.view s' = { bounded.view s with held := rest }) ∨
    (got = none ∧ (bounded.view s).held = [] ∧ (bounded.view s).closed = true ∧
      bounded.view s' = bounded.view s) := by
  cases held : (bounded.view s).held with
  | cons item rest =>
    obtain ⟨s₁, next, left⟩ := bounded.receive_held s item rest held
    cases next.symm.trans received
    exact .inl ⟨item, rest, rfl, rfl, left⟩
  | nil =>
    cases closed : (bounded.view s).closed with
    | true =>
      obtain ⟨s₁, last, same⟩ := bounded.receive_closed s held closed
      cases last.symm.trans received
      exact .inr ⟨rfl, rfl, rfl, same⟩
    | false => cases (bounded.receive_empty s held closed).symm.trans received

end Bounded

/-- A queue is such a channel. -/
def queue (α : Type) (capacity : Nat) : Channel α where
  State := View α
  new := ⟨[], false, false⟩
  send s item :=
    if s.deserted then some (false, s)
    else if s.held.length < capacity then some (true, { s with held := s.held ++ [item] })
    else none
  close s := { s with closed := true }
  receive s :=
    match s.held with
    | item :: rest => some (some item, { s with held := rest })
    | [] => if s.closed then some (none, s) else none
  hangUp s := { s with held := [], deserted := true }

def queueBounded (α : Type) (capacity : Nat) : (queue α capacity).Bounded capacity where
  view s := s
  new := rfl
  send_deserted s item deserted := ⟨s, if_pos deserted, rfl⟩
  send_room s item present room :=
    ⟨_, (if_neg (ne_true_of_eq_false present)).trans (if_pos room), rfl⟩
  send_full s item present full :=
    (if_neg (ne_true_of_eq_false present)).trans (if_neg (Nat.not_lt.mpr full))
  close s := rfl
  receive_held := by
    rintro ⟨held, closed, deserted⟩ item rest rfl
    exact ⟨_, rfl, rfl⟩
  receive_closed := by
    rintro ⟨held, closed, deserted⟩ rfl rfl
    exact ⟨_, rfl, rfl⟩
  receive_empty := by
    rintro ⟨held, closed, deserted⟩ rfl rfl
    rfl
  hangUp s := ⟨[], rfl⟩

end Channel
end Concurrency
