import Mathlib.Tactic

/-! # Programs that make calls

A program is the tree of what it can do next: return, fail, or make one call
and go on with the answer.  The calls are the only points at which the rest of
the world is seen or changed, so they are also the only points at which
programs running side by side can interleave.
-/

namespace Concurrency

/-- The calls programs can make, and the type of the answer to each. -/
structure Interface where
  Call : Type
  Result : Call → Type

inductive Prog (I : Interface) (ε α : Type) where
  | done (outcome : Except ε α) : Prog I ε α
  | call (c : I.Call) (rest : I.Result c → Prog I ε α) : Prog I ε α

namespace Prog

variable {I : Interface} {ε α β : Type}

/-- Run on with the value of a program; a failure skips the rest. -/
def bind : Prog I ε α → (α → Prog I ε β) → Prog I ε β
  | .done (.ok value), next => next value
  | .done (.error e), _ => .done (.error e)
  | .call c rest, next => .call c fun answer => (rest answer).bind next

def fail (e : ε) : Prog I ε α := .done (.error e)

instance : Monad (Prog I ε) where
  pure value := .done (.ok value)
  bind := bind

private theorem bind_done (p : Prog I ε α) : p.bind (fun value => .done (.ok value)) = p := by
  induction p with
  | done outcome => cases outcome <;> rfl
  | call c rest ih => exact congrArg (call c) (funext ih)

private theorem bind_bind {γ : Type} (p : Prog I ε α) (f : α → Prog I ε β) (g : β → Prog I ε γ) :
    (p.bind f).bind g = p.bind fun value => (f value).bind g := by
  induction p with
  | done outcome => cases outcome <;> rfl
  | call c rest ih => exact congrArg (call c) (funext ih)

instance : LawfulMonad (Prog I ε) :=
  LawfulMonad.mk' _ bind_done (fun _ _ => rfl) bind_bind

/-- Run `cleanup` when the program fails, then fail the same way. -/
def onError : Prog I ε α → Prog I ε Unit → Prog I ε α
  | .done (.ok value), _ => .done (.ok value)
  | .done (.error e), cleanup => cleanup.bind fun _ => .done (.error e)
  | .call c rest, cleanup => .call c fun answer => (rest answer).onError cleanup

/-- Some answers to its calls lead the program to the outcome. -/
inductive Ends : Prog I ε α → Except ε α → Prop where
  | done (outcome : Except ε α) : Ends (.done outcome) outcome
  | call {c rest outcome} (answer : I.Result c) : Ends (rest answer) outcome →
      Ends (.call c rest) outcome

theorem Ends.of_done {outcome outcome' : Except ε α}
    (ends : Ends (.done outcome : Prog I ε α) outcome') : outcome' = outcome := by
  cases ends
  rfl

theorem Ends.bind {p : Prog I ε α} {next : α → Prog I ε β} {value : α} {outcome : Except ε β}
    (first : Ends p (.ok value)) (last : Ends (next value) outcome) : Ends (p >>= next) outcome := by
  induction p with
  | done result =>
    cases first
    exact last
  | call c rest ih =>
    cases first with
    | call answer first => exact .call answer (ih answer first)

/-- A program that goes on after another ends with the failure of the first one, or
    after its value. -/
theorem Ends.of_bind {p : Prog I ε α} {next : α → Prog I ε β} {outcome : Except ε β}
    (ends : Ends (p >>= next) outcome) :
    (∃ e, Ends p (.error e) ∧ outcome = .error e) ∨
      ∃ value, Ends p (.ok value) ∧ Ends (next value) outcome := by
  induction p with
  | done result =>
    cases result with
    | error e => exact .inl ⟨e, .done _, ends.of_done⟩
    | ok value => exact .inr ⟨value, .done _, ends⟩
  | call c rest ih =>
    cases ends with
    | call answer ends =>
      rcases ih answer ends with ⟨e, failed, same⟩ | ⟨value, first, last⟩
      · exact .inl ⟨e, .call answer failed, same⟩
      · exact .inr ⟨value, .call answer first, last⟩

/-- Every call that the program can make is of this kind. -/
def Makes (kind : I.Call → Prop) : Prog I ε α → Prop
  | .done _ => True
  | .call c rest => kind c ∧ ∀ answer, (rest answer).Makes kind

section Makes

variable {kind kind' : I.Call → Prop} {p : Prog I ε α}

theorem Makes.mono (makes : p.Makes kind) (wider : ∀ c, kind c → kind' c) : p.Makes kind' := by
  induction p with
  | done outcome => trivial
  | call c rest ih => exact ⟨wider c makes.1, fun answer => ih answer (makes.2 answer)⟩

theorem Makes.bind {next : α → Prog I ε β} (first : p.Makes kind)
    (last : ∀ value, (next value).Makes kind) : (p >>= next).Makes kind := by
  induction p with
  | done outcome =>
    cases outcome with
    | error e => trivial
    | ok value => exact last value
  | call c rest ih => exact ⟨first.1, fun answer => ih answer (first.2 answer)⟩

theorem Makes.onError {cleanup : Prog I ε Unit} (body : p.Makes kind) (cleaned : cleanup.Makes kind) :
    (p.onError cleanup).Makes kind := by
  induction p with
  | done outcome =>
    cases outcome with
    | error e => exact cleaned.bind fun _ => trivial
    | ok value => trivial
  | call c rest ih => exact ⟨body.1, fun answer => ih answer (body.2 answer)⟩

end Makes

end Prog
end Concurrency
