import Fides.Concurrency.Alone

/-! # Programs as functions

When every call is answered by a function of some state, a program is a function
of that state as well.  A program that runs alone, under an environment that
leaves no choice, does what this function says; and where requests come one at a
time, each of them ends as its function says in what the ones before it have left.
-/

namespace Concurrency

variable {I : Interface} {ε α β σ : Type}

namespace Prog

/-- The outcome of a program and the state it leaves, with the answers from a function. -/
def eval (answer : (c : I.Call) → σ → I.Result c × σ) : Prog I ε α → σ → Except ε α × σ
  | .done outcome, s => (outcome, s)
  | .call c rest, s => (rest (answer c s).1).eval answer (answer c s).2

variable {answer : (c : I.Call) → σ → I.Result c × σ} {p : Prog I ε α} {next : α → Prog I ε β}
  {s s' : σ}

theorem eval_bind (p : Prog I ε α) (next : α → Prog I ε β) (s : σ) :
    (p >>= next).eval answer s = match p.eval answer s with
      | (.ok value, s') => (next value).eval answer s'
      | (.error e, s') => (.error e, s') := by
  induction p generalizing s with
  | done outcome => cases outcome <;> rfl
  | call c rest ih => exact ih _ _

theorem eval_bind_ok {value : α} (first : p.eval answer s = (.ok value, s')) :
    (p >>= next).eval answer s = (next value).eval answer s' := by
  rw [eval_bind, first]

theorem eval_bind_error {e : ε} (failed : p.eval answer s = (.error e, s')) :
    (p >>= next).eval answer s = (.error e, s') := by
  rw [eval_bind, failed]

theorem eval_onError (p : Prog I ε α) (cleanup : Prog I ε Unit) (s : σ) :
    (p.onError cleanup).eval answer s = match p.eval answer s with
      | (.ok value, s') => (.ok value, s')
      | (.error e, s') => (cleanup >>= fun _ => .done (.error e)).eval answer s' := by
  induction p generalizing s with
  | done outcome => cases outcome <;> rfl
  | call c rest ih => exact ih _ _

end Prog

/-- Where calls are answered by a function of what can be read off the states, programs run
    alone as this function says. -/
theorem System.runs_of_eval {S : System I} (choice : S.Choice)
    (answer : (c : I.Call) → σ → I.Result c × σ) (read : S.Shared → S.Local → σ)
    (answers : ∀ c s l, ∃ s' l', S.exec choice c s l = some ((answer c (read s l)).1, s', l') ∧
      read s' l' = (answer c (read s l)).2)
    (p : Prog I S.Error α) (s : S.Shared) (l : S.Local) :
    ∃ s' l', S.Runs (· = choice) p s l (p.eval answer (read s l)).1 s' l' ∧
      read s' l' = (p.eval answer (read s l)).2 := by
  induction p generalizing s l with
  | done outcome => exact ⟨s, l, .done _ _ _, rfl⟩
  | call c rest ih =>
    obtain ⟨s₁, l₁, executed, same⟩ := answers c s l
    obtain ⟨s', l', ran, left⟩ := ih (answer c (read s l)).1 s₁ l₁
    rw [same] at ran left
    exact ⟨s', l', .call rfl executed ran, left⟩

section Histories

variable {S : System I}

/-- Requests that end one after the other, each as it may in the state that the ones before it
    have left. -/
inductive History (may : S.Request → S.Shared → Except S.Error S.Response → S.Shared → Prop)
    (s : S.Shared) : List S.Request → List (Except S.Error S.Response) → S.Shared → Prop where
  | nil : History may s [] [] s
  | snoc {requests outcomes s₁ r outcome s₂} : History may s requests outcomes s₁ →
      may r s₁ outcome s₂ → History may s (requests ++ [r]) (outcomes ++ [outcome]) s₂

/-- The requests of a schedule, in the order in which they come. -/
def requestsOf : List (Event S) → List S.Request
  | [] => []
  | .request r :: events => r :: requestsOf events
  | .call _ _ :: events | .drop _ :: events | .crash :: events => requestsOf events

/-- Nothing but requests, and calls that are all decided in the same way. -/
def Event.Plain (choice : S.Choice) : Event S → Prop
  | .request _ => True
  | .call _ other => other = choice
  | .drop _ | .crash => False

/-- How a thread has ended by itself. -/
def Thread.outcome (thread : Thread S) : Option (Except S.Error S.Response) :=
  match thread.prog with
  | some (.done outcome) => some outcome
  | _ => none

/-- The answers that were given to the threads from the `n`th on. -/
def Config.answers (cfg : Config S) (n : Nat) : List (Option (Except S.Error S.Response)) :=
  (cfg.threads.drop n).map Thread.outcome

/-- From the start the requests were served one at a time.  What the last one still has
    to do, it will do as its function says. -/
inductive Follows (answer : (c : I.Call) → σ → I.Result c × σ) (read : S.Shared → S.Local → σ)
    (shown : σ → S.Shared)
    (may : S.Request → S.Shared → Except S.Error S.Response → S.Shared → Prop)
    (start : Config S) : List S.Request → Config S → Prop where
  | start : Follows answer read shown may start [] start
  | serving {requests outcomes r s s₁} {front : List (Thread S)} {p : Prog I S.Error S.Response}
      {l : S.Local} :
      (∀ thread ∈ front, thread.finished = true) → start.threads.length ≤ front.length →
      (front.drop start.threads.length).map Thread.outcome = outcomes.map some →
      History may start.shared requests outcomes s₁ →
      may r s₁ (p.eval answer (read s l)).1 (shown (p.eval answer (read s l)).2) →
      Follows answer read shown may start (requests ++ [r]) ⟨s, front ++ [⟨some p, l⟩]⟩

variable {choice : S.Choice} {answer : (c : I.Call) → σ → I.Result c × σ}
  {read : S.Shared → S.Local → σ} {shown : σ → S.Shared}
  {may : S.Request → S.Shared → Except S.Error S.Response → S.Shared → Prop}
  {start cfg next : Config S} {requests : List S.Request}

/-- Where no request is open, the history is complete. -/
theorem Follows.ended (shows : ∀ s l, shown (read s l) = s)
    (follows : Follows answer read shown may start requests cfg) (quiet : cfg.quiet = true) :
    ∃ outcomes, cfg.answers start.threads.length = outcomes.map some ∧
      History may start.shared requests outcomes cfg.shared ∧
      start.threads.length ≤ cfg.threads.length := by
  cases follows with
  | start => exact ⟨[], by simp [Config.answers], .nil, le_refl _⟩
  | @serving requests outcomes r s s₁ front p l _ long earlier history allowed =>
    have last := List.all_eq_true.mp quiet ⟨some p, l⟩ (List.mem_append_right _ List.mem_cons_self)
    cases p with
    | call c rest => cases last
    | done outcome =>
      have told : may r s₁ outcome s := shows s l ▸ allowed
      refine ⟨outcomes ++ [outcome], ?_, history.snoc told, ?_⟩
      · rw [Config.answers, List.drop_append_of_le_length long, List.map_append, earlier]
        simp [Thread.outcome]
      · rw [List.length_append]
        omega

/-- One more step of a run that serves one request at a time. -/
theorem Follows.step (shows : ∀ s l, shown (read s l) = s)
    (answers : ∀ c s l, ∃ s' l', S.exec choice c s l = some ((answer c (read s l)).1, s', l') ∧
      read s' l' = (answer c (read s l)).2)
    (follows : Follows answer read shown may start requests cfg)
    (started : start.quiet = true)
    (sound : ∀ r, may r cfg.shared ((S.handler r).eval answer (read cfg.shared (S.arrive r))).1
      (shown ((S.handler r).eval answer (read cfg.shared (S.arrive r))).2))
    {event : Event S} (stepped : cfg.step event = some next) (plain : event.Plain choice)
    (one : serial ⟨cfg, event, next⟩ = true) :
    Follows answer read shown may start (requests ++ requestsOf [event]) next := by
  rcases Config.step_cases stepped with ⟨r, rfl, rfl⟩ |
    ⟨i, _, c, rest, own, answer', shared, own', rfl, found, -, ran, rfl⟩ | ⟨_, _, _, _, rfl, -⟩ |
    ⟨rfl, -⟩
  · have quiet : cfg.quiet = true := one
    obtain ⟨outcomes, told, history, long⟩ := follows.ended shows quiet
    exact .serving (List.all_eq_true.mp quiet) long told history (sound r)
  · cases plain
    rw [requestsOf, requestsOf, List.append_nil]
    cases follows with
    | start =>
      have finished := List.all_eq_true.mp started _ (List.mem_of_getElem? found)
      cases finished
    | @serving requests outcomes r s s₁ front p l done long earlier history allowed =>
      rcases Config.getElem?_append_cases found with old | ⟨rfl, last⟩
      · have finished := done _ (List.mem_of_getElem? old)
        cases finished
      · cases last
        obtain ⟨s', l', executed, after⟩ := answers c s own
        rw [executed] at ran
        cases ran
        rw [List.set_append_right _ _ (le_refl _), Nat.sub_self, List.set_cons_zero]
        refine .serving done long earlier history ?_
        rw [after]
        exact allowed
  · cases plain
  · cases plain

end Histories

end Concurrency
