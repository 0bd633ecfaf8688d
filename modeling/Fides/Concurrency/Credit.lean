import Fides.Concurrency.Interleaving

/-! # How many calls programs make

A program starts with credit for a number of calls.  Every call takes one of them, and its
answer may add to them: who is given a list to go through may make a call for each of its
elements.  A program that never runs out of credit makes no more calls than it had credit
for, whatever other programs do in between.
-/

namespace Concurrency

variable {I : Interface} {ε α β : Type}

namespace Prog

/-- With credit for this many calls the program comes to its end.  It has `spare` of it left then,
    and `more` of its value on top if it ends with one. -/
def Spends (gain : (c : I.Call) → I.Result c → Nat) (spare : Nat) (more : α → Nat) :
    Prog I ε α → Nat → Prop
  | .done (.ok value), credit => spare + more value ≤ credit
  | .done (.error _), credit => spare ≤ credit
  | .call _ _, 0 => False
  | .call c rest, credit + 1 => ∀ answer, (rest answer).Spends gain spare more (credit + gain c answer)

namespace Spends

variable {gain : (c : I.Call) → I.Result c → Nat} {spare spare' credit credit' : Nat}
  {more : α → Nat} {more' : β → Nat} {p : Prog I ε α}

theorem mono (spends : p.Spends gain spare more credit) (le : credit ≤ credit') :
    p.Spends gain spare more credit' := by
  induction p generalizing credit credit' with
  | done outcome => cases outcome <;> exact Nat.le_trans spends le
  | call c rest ih =>
    cases credit with
    | zero => cases spends
    | succ credit =>
      obtain ⟨credit', rfl⟩ : ∃ n, credit' = n + 1 := ⟨credit' - 1, by omega⟩
      exact fun answer => ih answer (spends answer) (by omega)

theorem bind {next : α → Prog I ε β} (first : p.Spends gain spare more credit)
    (last : ∀ value, (next value).Spends gain spare' more' (spare + more value))
    (le : spare' ≤ spare) : (p >>= next).Spends gain spare' more' credit := by
  induction p generalizing credit with
  | done outcome =>
    cases outcome with
    | error e => exact Nat.le_trans le first
    | ok value => exact (last value).mono first
  | call c rest ih =>
    cases credit with
    | zero => cases first
    | succ credit => exact fun answer => ih answer (first answer)

/-- A call, and a program that goes on with what is made of its answer. -/
theorem call_bind {c : I.Call} {rest : I.Result c → Prog I ε α} {next : α → Prog I ε β} (credit : Nat)
    (read : ∀ answer n, credit ≤ n → (rest answer).Spends gain credit (fun _ => 0) n)
    (last : ∀ value, (next value).Spends gain spare' more' credit) (le : spare' ≤ credit) :
    (Prog.call c rest >>= next).Spends gain spare' more' (credit + 1) := by
  have first : (Prog.call c rest).Spends gain credit (fun _ => 0) (credit + 1) := fun answer =>
    read answer _ (Nat.le_add_right credit _)
  exact first.bind last le

theorem onError {cleanup : Prog I ε Unit} (body : p.Spends gain spare more credit)
    (cleaned : cleanup.Spends gain spare' (fun _ => 0) spare) (le : spare' ≤ spare) :
    (p.onError cleanup).Spends gain spare' more credit := by
  induction p generalizing credit with
  | done outcome =>
    cases outcome with
    | ok value =>
      change spare + more value ≤ credit at body
      change spare' + more value ≤ credit
      omega
    | error e => exact (cleaned.mono body).bind (fun _ => Nat.le_refl _) (Nat.le_refl _)
  | call c rest ih =>
    cases credit with
    | zero => cases body
    | succ credit => exact fun answer => ih answer (body answer)

end Spends
end Prog

section Runs

variable {S : System I}

/-- A thread makes a call. -/
def Transition.calls (moved : Transition S) : Bool :=
  match moved.event with
  | .call _ _ => true
  | _ => false

variable (gain : S.Local → (c : I.Call) → I.Result c → Nat) (made allowed : S.Local → Nat)

/-- What the thread has done and may still do is within what it is allowed. -/
def Thread.InCredit (thread : Thread S) : Prop :=
  ∃ credit, (∀ p, thread.prog = some p → p.Spends (gain thread.own) 0 (fun _ => 0) credit) ∧
    made thread.own + credit ≤ allowed thread.own

namespace Config

variable {cfg next : Config S} {trace : List (Transition S)}

/-- Threads that arrive with enough credit never make more calls than they are allowed. -/
theorem inCredit_steps
    (arrives : ∀ r, made (S.arrive r) = 0 ∧
      (S.handler r).Spends (gain (S.arrive r)) 0 (fun _ => 0) (allowed (S.arrive r)))
    (lost : ∀ l, made (S.lost l) = made l ∧ allowed (S.lost l) = allowed l)
    (calls : ∀ {choice c s l answer s' l'}, S.exec choice c s l = some (answer, s', l') →
      gain l' = gain l ∧ made l' = made l + 1 ∧ allowed l' = allowed l + gain l c answer)
    (start : ∀ (i : Nat) thread, cfg.threads[i]? = some thread → thread.InCredit gain made allowed)
    (run : Steps cfg trace next) :
    ∀ (i : Nat) thread, next.threads[i]? = some thread → thread.InCredit gain made allowed := by
  induction run with
  | refl => exact start
  | snoc run stepped ih =>
    refine each_step ih stepped (fun r => ?_) (fun prog own within => ?_) ?_
    · obtain ⟨none, spends⟩ := arrives r
      refine ⟨_, fun p same => ?_, by rw [none, Nat.zero_add]⟩
      cases same
      exact spends
    · obtain ⟨credit, -, bound⟩ := within
      obtain ⟨same, kept⟩ := lost own
      refine ⟨0, fun p running => (nomatch running), ?_⟩
      change made (S.lost own) + 0 ≤ allowed (S.lost own)
      change made own + credit ≤ allowed own at bound
      omega
    · intro choice c rest own answer s s' own' within ran
      obtain ⟨credit, spends, bound⟩ := within
      obtain ⟨kept, counted, grown⟩ := calls ran
      have spends := spends _ rfl
      cases credit with
      | zero => cases spends
      | succ credit =>
        refine ⟨credit + gain own c answer, fun p same => ?_, ?_⟩
        · cases same
          change (rest answer).Spends (gain own') _ _ _
          rw [kept]
          exact spends answer
        · change made own' + _ ≤ allowed own'
          change made own + _ ≤ allowed own at bound
          omega

/-- The calls of a run are those that its threads have made. -/
theorem calls_eq_total
    (arrives : ∀ r, made (S.arrive r) = 0) (lost : ∀ l, made (S.lost l) = made l)
    (calls : ∀ {choice c s l answer s' l'}, S.exec choice c s l = some (answer, s', l') →
      made l' = made l + 1) (run : Steps cfg trace next) :
    cfg.total (fun l => (made l : Int)) + trace.countP Transition.calls =
      next.total fun l => (made l : Int) := by
  induction run with
  | refl => simp
  | @snoc trace before event after run stepped ih =>
    rw [List.countP_append, List.countP_singleton]
    rcases total_step (f := fun l => (made l : Int)) stepped (fun r => by simp [arrives r])
      (fun l => by simp [lost l]) with
      ⟨other, same⟩ | ⟨i, choice, c, rest, own, answer, shared, own', rfl, -, ran, same⟩
    · have quiet : Transition.calls ⟨before, event, after⟩ = false := by
        cases event with
        | call i choice => exact absurd rfl (other i choice)
        | request | drop | crash => rfl
      rw [quiet, same, ← ih]
      simp
    · have one : Transition.calls ⟨before, .call i choice, after⟩ = true := rfl
      have counted := calls ran
      rw [one, same, ← ih, counted, if_pos rfl]
      push_cast
      omega

end Config
end Runs
end Concurrency
