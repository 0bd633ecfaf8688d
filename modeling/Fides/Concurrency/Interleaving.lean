import Fides.Concurrency.Program

/-! # Programs running side by side

A `System` says what a call does to the state all threads share and to the
caller's own state, when it has to wait for another thread, which program each
request is served by, and what survives a crash.  A configuration is the shared
state with the threads started so far; one event moves it one step: a request
arrives, a thread makes its next call, a thread is dropped before its next call,
or the process crashes and restarts.
-/

namespace Concurrency

structure System (I : Interface) where
  Shared : Type
  Local : Type
  Request : Type
  Error : Type
  Response : Type
  /-- What the environment decides about a call, for instance that it fails. -/
  Choice : Type
  /-- The answer to a call and the states after it; `none` where the choice does
      not apply to the call. -/
  exec : Choice → (c : I.Call) → Shared → Local → Option (I.Result c × Shared × Local)
  /-- The call of a thread must wait for a thread whose own state is the last one. -/
  waits : I.Call → Shared → Local → Local → Bool
  handler : Request → Prog I Error Response
  arrive : Request → Local
  /-- The shared state after a crash and a restart. -/
  restart : Shared → Shared
  /-- What is left of the own state of a thread that was ended from outside. -/
  lost : Local → Local

variable {I : Interface} {S : System I}

/-- Whatever the shared state is at each of its calls, the program ends so. -/
def System.Ensures (S : System I) {α : Type} (Q : Except S.Error α → S.Local → Prop) :
    Prog I S.Error α → S.Local → Prop
  | .done outcome, l => Q outcome l
  | .call c rest, l => ∀ choice s answer s' l', S.exec choice c s l = some (answer, s', l') →
      S.Ensures Q (rest answer) l'

namespace System.Ensures

variable {α β : Type} {Q Q' : Except S.Error α → S.Local → Prop} {p : Prog I S.Error α} {l : S.Local}

theorem of_forall (all : ∀ outcome l, Q outcome l) : S.Ensures Q p l := by
  induction p generalizing l with
  | done outcome => exact all outcome l
  | call c rest ih => exact fun _ _ answer _ _ _ => ih answer

theorem mono (weaker : ∀ outcome l, Q outcome l → Q' outcome l) (ensured : S.Ensures Q p l) :
    S.Ensures Q' p l := by
  induction p generalizing l with
  | done outcome => exact weaker outcome l ensured
  | call c rest ih =>
    exact fun choice s answer s' l' ran => ih answer (ensured choice s answer s' l' ran)

theorem and (first : S.Ensures Q p l) (second : S.Ensures Q' p l) :
    S.Ensures (fun outcome l => Q outcome l ∧ Q' outcome l) p l := by
  induction p generalizing l with
  | done outcome => exact ⟨first, second⟩
  | call c rest ih =>
    exact fun choice s answer s' l' ran =>
      ih answer (first choice s answer s' l' ran) (second choice s answer s' l' ran)

theorem bind {next : α → Prog I S.Error β} {Q' : Except S.Error β → S.Local → Prop}
    (first : S.Ensures Q p l) (failed : ∀ e l, Q (.error e) l → Q' (.error e) l)
    (last : ∀ value l, Q (.ok value) l → S.Ensures Q' (next value) l) :
    S.Ensures Q' (p >>= next) l := by
  induction p generalizing l with
  | done outcome =>
    cases outcome with
    | error e => exact failed e l first
    | ok value => exact last value l first
  | call c rest ih =>
    exact fun choice s answer s' l' ran => ih answer (first choice s answer s' l' ran)

theorem onError {cleanup : Prog I S.Error Unit} (body : S.Ensures Q p l)
    (succeeded : ∀ value l, Q (.ok value) l → Q' (.ok value) l)
    (cleaned : ∀ e l, Q (.error e) l → S.Ensures Q' (cleanup >>= fun _ => .done (.error e)) l) :
    S.Ensures Q' (p.onError cleanup) l := by
  induction p generalizing l with
  | done outcome =>
    cases outcome with
    | error e => exact cleaned e l body
    | ok value => exact succeeded value l body
  | call c rest ih =>
    exact fun choice s answer s' l' ran => ih answer (body choice s answer s' l' ran)

end System.Ensures

/-- A thread has a program left to run, unless it was ended from outside. -/
structure Thread (S : System I) where
  prog : Option (Prog I S.Error S.Response)
  own : S.Local

/-- The thread makes no more calls. -/
def Thread.finished (thread : Thread S) : Bool :=
  match thread.prog with
  | some (.call _ _) => false
  | _ => true

structure Config (S : System I) where
  shared : S.Shared
  threads : List (Thread S)

inductive Event (S : System I) where
  | request (r : S.Request)
  | call (i : Nat) (choice : S.Choice)
  | drop (i : Nat)
  | crash

namespace Config

/-- Some thread other than `i` makes the call wait. -/
def blocked (cfg : Config S) (i : Nat) (c : I.Call) (own : S.Local) : Bool :=
  cfg.threads.zipIdx.any fun (other, j) => i != j && S.waits c cfg.shared own other.own

/-- The configuration after one event; `none` when the event cannot happen. -/
def step (cfg : Config S) : Event S → Option (Config S)
  | .request r =>
      some ⟨cfg.shared, cfg.threads ++ [⟨some (S.handler r), S.arrive r⟩]⟩
  | .call i choice =>
      match cfg.threads[i]? with
      | some ⟨some (.call c rest), own⟩ =>
          if cfg.blocked i c own then none
          else match S.exec choice c cfg.shared own with
            | some (answer, shared, own) =>
                some ⟨shared, cfg.threads.set i ⟨some (rest answer), own⟩⟩
            | none => none
      | _ => none
  | .drop i =>
      match cfg.threads[i]? with
      | some ⟨some (.call _ _), own⟩ => some ⟨cfg.shared, cfg.threads.set i ⟨none, S.lost own⟩⟩
      | _ => none
  | .crash =>
      some ⟨S.restart cfg.shared, cfg.threads.map fun thread => ⟨none, S.lost thread.own⟩⟩

/-- Thread `i` is at a call that has to wait for thread `j`. -/
def WaitsFor (cfg : Config S) (i j : Nat) : Prop :=
  i ≠ j ∧ ∃ c rest own other, cfg.threads[i]? = some ⟨some (.call c rest), own⟩ ∧
    cfg.threads[j]? = some other ∧ S.waits c cfg.shared own other.own = true

end Config

/-- One step of a run, with the configurations around it. -/
structure Transition (S : System I) where
  before : Config S
  event : Event S
  after : Config S

/-- Run a schedule from left to right, as long as its transitions pass a check. -/
def Config.play (check : Transition S → Bool) (cfg : Config S) :
    List (Event S) → Option (Config S)
  | [] => some cfg
  | event :: events => match cfg.step event with
      | some next => if check ⟨cfg, event, next⟩ then next.play check events else none
      | none => none

/-- The transitions of a run, first one first. -/
inductive Steps (start : Config S) : List (Transition S) → Config S → Prop where
  | refl : Steps start [] start
  | snoc {trace cfg event next} : Steps start trace cfg → cfg.step event = some next →
      Steps start (trace ++ [⟨cfg, event, next⟩]) next

namespace Steps

variable {start cfg next : Config S} {trace later : List (Transition S)}

theorem append (first : Steps start trace cfg) (last : Steps cfg later next) :
    Steps start (trace ++ later) next := by
  induction last with
  | refl => simpa using first
  | snoc _ moved ih => rw [← List.append_assoc]; exact .snoc ih moved

/-- A schedule that plays is a run, and its transitions have passed the check. -/
theorem of_play {check : Transition S → Bool} {events : List (Event S)}
    (played : start.play check events = some next) :
    ∃ trace, Steps start trace next ∧ ∀ moved ∈ trace, check moved = true := by
  induction events generalizing start with
  | nil =>
      cases played
      exact ⟨[], .refl, by simp⟩
  | cons event events ih =>
      simp only [Config.play] at played
      split at played
      · rename_i middle moved
        split at played
        · rename_i passed
          obtain ⟨trace, rest, all⟩ := ih played
          have first : Steps start [⟨start, event, middle⟩] middle := .snoc (.refl) moved
          exact ⟨_, append first rest, by simpa using ⟨passed, all⟩⟩
        · cases played
      · cases played

/-- A run cut at one of its transitions. -/
theorem cut {moved : Transition S} (run : Steps start (trace ++ moved :: later) cfg) :
    Steps start trace moved.before ∧ moved.before.step moved.event = some moved.after ∧
      Steps moved.after later cfg := by
  generalize all : trace ++ moved :: later = whole at run
  induction run generalizing later with
  | refl => simp at all
  | @snoc whole cfg event next run stepped ih =>
      rcases List.eq_nil_or_concat later with rfl | ⟨rest, last, rfl⟩
      · obtain ⟨rfl, same⟩ := List.append_inj' all rfl
        cases same
        exact ⟨run, stepped, .refl⟩
      · rw [List.concat_eq_append] at all ⊢
        rw [← List.cons_append, ← List.append_assoc] at all
        obtain ⟨shorter, same⟩ := List.append_inj' all rfl
        cases same
        obtain ⟨first, took, between⟩ := ih shorter
        exact ⟨first, took, .snoc between stepped⟩

theorem split {moved : Transition S} (run : Steps start trace cfg) (member : moved ∈ trace) :
    ∃ earlier later, trace = earlier ++ moved :: later ∧ Steps start earlier moved.before ∧
      moved.before.step moved.event = some moved.after ∧ Steps moved.after later cfg := by
  obtain ⟨earlier, later, rfl⟩ := List.append_of_mem member
  exact ⟨earlier, later, rfl, run.cut⟩

/-- What holds at the start and is kept by every transition that the run may
    take holds where the run ends. -/
theorem invariant {P : Config S → Prop} {allowed : Transition S → Prop}
    (keeps : ∀ before event after, P before → before.step event = some after →
      allowed ⟨before, event, after⟩ → P after)
    (initially : P start) (run : Steps start trace cfg) (kept : ∀ moved ∈ trace, allowed moved) :
    P cfg := by
  induction run with
  | refl => exact initially
  | @snoc trace cfg event next _ stepped ih =>
      apply keeps cfg event next ?_ stepped (kept _ (by simp))
      exact ih fun moved member => kept moved (List.mem_append_left _ member)

/-- A condition on transitions is exact for `P` if, as long as it has been met, the
    next transition that the run may take meets it just when it leads to `P`. -/
theorem forall_after_iff {J P : Config S → Prop} {allowed condition : Transition S → Prop}
    (exact_step : ∀ before event after, J before → before.step event = some after →
      allowed ⟨before, event, after⟩ →
      (P after ↔ condition ⟨before, event, after⟩) ∧ (condition ⟨before, event, after⟩ → J after))
    (initially : J start) (run : Steps start trace cfg) (kept : ∀ moved ∈ trace, allowed moved) :
    (∀ moved ∈ trace, P moved.after) ↔ ∀ moved ∈ trace, condition moved := by
  induction run with
  | refl => simp
  | @snoc trace cfg event next before stepped ih =>
      have earlier : ∀ moved ∈ trace, allowed moved := fun moved member =>
        kept moved (List.mem_append_left _ member)
      simp only [List.mem_append, List.mem_singleton, or_imp, forall_and, forall_eq, ih earlier]
      refine and_congr_right fun met => ?_
      have both : ∀ moved ∈ trace, allowed moved ∧ condition moved := fun moved member =>
        ⟨earlier moved member, met moved member⟩
      have now : J cfg := before.invariant (fun before event after holds stepped permitted =>
        (exact_step before event after holds stepped permitted.1).2 permitted.2) initially both
      exact (exact_step cfg event next now stepped (kept _ (by simp))).1

end Steps

namespace Config

variable {cfg next : Config S}

theorem not_blocked {i : Nat} {c : I.Call} {own : S.Local} (free : cfg.blocked i c own = false)
    {j : Nat} {other : Thread S} (different : i ≠ j) (there : cfg.threads[j]? = some other) :
    S.waits c cfg.shared own other.own = false := by
  by_contra waiting
  have member : (other, j) ∈ cfg.threads.zipIdx := by
    rw [List.mem_zipIdx_iff_getElem?]
    exact there
  have : cfg.blocked i c own = true := by
    refine List.any_eq_true.mpr ⟨(other, j), member, ?_⟩
    simpa [different] using waiting
  simp [this] at free

/-- Everything a step can be. -/
theorem step_cases {event : Event S} (stepped : cfg.step event = some next) :
    (∃ r, event = .request r ∧
      next = ⟨cfg.shared, cfg.threads ++ [⟨some (S.handler r), S.arrive r⟩]⟩) ∨
    (∃ i choice c rest own answer shared own', event = .call i choice ∧
      cfg.threads[i]? = some ⟨some (.call c rest), own⟩ ∧ cfg.blocked i c own = false ∧
      S.exec choice c cfg.shared own = some (answer, shared, own') ∧
      next = ⟨shared, cfg.threads.set i ⟨some (rest answer), own'⟩⟩) ∨
    (∃ i c rest own, event = .drop i ∧ cfg.threads[i]? = some ⟨some (.call c rest), own⟩ ∧
      next = ⟨cfg.shared, cfg.threads.set i ⟨none, S.lost own⟩⟩) ∨
    (event = .crash ∧
      next = ⟨S.restart cfg.shared, cfg.threads.map fun thread => ⟨none, S.lost thread.own⟩⟩) := by
  cases event with
  | request r =>
      simp only [step, Option.some.injEq] at stepped
      exact .inl ⟨r, rfl, stepped.symm⟩
  | crash =>
      simp only [step, Option.some.injEq] at stepped
      exact .inr (.inr (.inr ⟨rfl, stepped.symm⟩))
  | drop i =>
      simp only [step] at stepped
      split at stepped
      · rename_i c rest own found
        cases stepped
        exact .inr (.inr (.inl ⟨i, c, rest, own, rfl, found, rfl⟩))
      · cases stepped
  | call i choice =>
      simp only [step] at stepped
      split at stepped
      · rename_i c rest own found
        split at stepped
        · cases stepped
        · rename_i free
          split at stepped
          · rename_i answer shared own' ran
            cases stepped
            exact .inr (.inl ⟨i, choice, c, rest, own, answer, shared, own', rfl, found,
              by simpa using free, ran, rfl⟩)
          · cases stepped
      · cases stepped

theorem step_call {i : Nat} {choice : S.Choice} (stepped : cfg.step (.call i choice) = some next) :
    ∃ c rest own answer shared own', cfg.threads[i]? = some ⟨some (.call c rest), own⟩ ∧
      S.exec choice c cfg.shared own = some (answer, shared, own') ∧
      next = ⟨shared, cfg.threads.set i ⟨some (rest answer), own'⟩⟩ := by
  rcases step_cases stepped with
    ⟨r, other, -⟩ | ⟨j, _, c, rest, own, answer, shared, own', same, found, -, ran, moved⟩ |
    ⟨j, c, rest, own, other, -⟩ | ⟨other, -⟩
  · cases other
  · cases same
    exact ⟨c, rest, own, answer, shared, own', found, ran, moved⟩
  · cases other
  · cases other

/-- The threads of a list after one of them was replaced. -/
theorem getElem?_set_cases {threads : List (Thread S)} {i j : Nat} {new thread : Thread S}
    (found : (threads.set i new)[j]? = some thread) :
    i = j ∧ thread = new ∨ i ≠ j ∧ threads[j]? = some thread := by
  rw [List.getElem?_set] at found
  split at found
  · rename_i same
    split at found
    · cases found
      exact .inl ⟨same, rfl⟩
    · cases found
  · exact .inr ⟨‹_›, found⟩

/-- The threads of a list after one has arrived. -/
theorem getElem?_append_cases {threads : List (Thread S)} {j : Nat} {new thread : Thread S}
    (found : (threads ++ [new])[j]? = some thread) :
    threads[j]? = some thread ∨ j = threads.length ∧ thread = new := by
  rw [List.getElem?_append] at found
  split at found
  · exact .inl found
  · rw [List.getElem?_singleton] at found
    split at found
    · cases found
      exact .inr ⟨by omega, rfl⟩
    · cases found

/-- What holds of every thread keeps holding when it does for new threads, for
    ended ones, and for all threads around a call. -/
theorem all_step {T : S.Shared → S.Local → Prop} {event : Event S}
    (all : ∀ (i : Nat) thread, cfg.threads[i]? = some thread → T cfg.shared thread.own)
    (stepped : cfg.step event = some next) (arrive : ∀ r, T cfg.shared (S.arrive r))
    (lost : ∀ l, T cfg.shared l → T cfg.shared (S.lost l))
    (restart : ∀ l, T cfg.shared l → T (S.restart cfg.shared) (S.lost l))
    (call : ∀ i choice c rest own answer shared own', event = .call i choice →
      cfg.threads[i]? = some ⟨some (.call c rest), own⟩ →
      S.exec choice c cfg.shared own = some (answer, shared, own') → next.shared = shared →
      T shared own' ∧ ∀ j other, i ≠ j → cfg.threads[j]? = some other →
        T cfg.shared other.own → T shared other.own) :
    ∀ (i : Nat) thread, next.threads[i]? = some thread → T next.shared thread.own := by
  intro j thread there
  rcases step_cases stepped with
    ⟨r, -, rfl⟩ | ⟨i, choice, c, rest, own, answer, shared, own', same, found, -, ran, rfl⟩ |
    ⟨i, c, rest, own, -, found, rfl⟩ | ⟨-, rfl⟩
  · rcases getElem?_append_cases there with old | ⟨-, rfl⟩
    · exact all j thread old
    · exact arrive r
  · obtain ⟨mine, others⟩ := call i choice c rest own answer shared own' same found ran rfl
    rcases getElem?_set_cases there with ⟨rfl, rfl⟩ | ⟨different, old⟩
    · exact mine
    · exact others j thread different old (all j thread old)
  · rcases getElem?_set_cases there with ⟨rfl, rfl⟩ | ⟨different, old⟩
    · exact lost own (all i _ found)
    · exact all j thread old
  · simp only [List.getElem?_map, Option.map_eq_some_iff] at there
    obtain ⟨old, before, rfl⟩ := there
    exact restart old.own (all j old before)

/-- What holds of the threads that arrive, and is kept by their own calls and by their
    end from outside, holds of all threads. -/
theorem each_step {T : Thread S → Prop} {event : Event S}
    (all : ∀ (i : Nat) thread, cfg.threads[i]? = some thread → T thread)
    (stepped : cfg.step event = some next) (arrive : ∀ r, T ⟨some (S.handler r), S.arrive r⟩)
    (lost : ∀ prog own, T ⟨prog, own⟩ → T ⟨none, S.lost own⟩)
    (call : ∀ {choice c rest own answer s s' own'}, T ⟨some (.call c rest), own⟩ →
      S.exec choice c s own = some (answer, s', own') → T ⟨some (rest answer), own'⟩) :
    ∀ (i : Nat) thread, next.threads[i]? = some thread → T thread := by
  intro j thread there
  rcases step_cases stepped with
    ⟨r, -, rfl⟩ | ⟨i, choice, c, rest, own, answer, shared, own', -, found, -, ran, rfl⟩ |
    ⟨i, c, rest, own, -, found, rfl⟩ | ⟨-, rfl⟩
  · rcases getElem?_append_cases there with old | ⟨-, rfl⟩
    · exact all j thread old
    · exact arrive r
  · rcases getElem?_set_cases there with ⟨rfl, rfl⟩ | ⟨-, old⟩
    · exact call (all i _ found) ran
    · exact all j thread old
  · rcases getElem?_set_cases there with ⟨rfl, rfl⟩ | ⟨-, old⟩
    · exact lost _ own (all i _ found)
    · exact all j thread old
  · simp only [List.getElem?_map, Option.map_eq_some_iff] at there
    obtain ⟨old, before, rfl⟩ := there
    exact lost old.prog old.own (all j old before)

/-- What programs end with when they have the states of others at every call, they end
    with in every run. -/
theorem ensured_step {Q : Except S.Error S.Response → S.Local → Prop} {R : S.Local → Prop}
    (handlers : ∀ r, S.Ensures Q (S.handler r) (S.arrive r)) (lost : ∀ l, R (S.lost l))
    (all : ∀ (i : Nat) thread, cfg.threads[i]? = some thread →
      thread.prog.elim (R thread.own) fun p => S.Ensures Q p thread.own)
    {event : Event S} (stepped : cfg.step event = some next) :
    ∀ (i : Nat) thread, next.threads[i]? = some thread →
      thread.prog.elim (R thread.own) fun p => S.Ensures Q p thread.own :=
  each_step all stepped handlers (fun _ own _ => lost own)
    fun ensured ran => ensured _ _ _ _ _ ran

/-- A thread that is there stays there, and its own state goes on from what it was. -/
theorem thread_steps {R : S.Local → S.Local → Prop} {trace : List (Transition S)} {i : Nat}
    {thread : Thread S} (refl : ∀ l, R l l) (trans : ∀ {a b c}, R a b → R b c → R a c)
    (call : ∀ {choice c s l answer s' l'}, S.exec choice c s l = some (answer, s', l') → R l l')
    (lost : ∀ l, R l (S.lost l)) (run : Steps cfg trace next)
    (there : cfg.threads[i]? = some thread) :
    ∃ thread', next.threads[i]? = some thread' ∧ R thread.own thread'.own := by
  induction run with
  | refl => exact ⟨thread, there, refl _⟩
  | @snoc trace middle event next _ stepped ih =>
    obtain ⟨old, found, onward⟩ := ih
    rcases step_cases stepped with
      ⟨r, -, rfl⟩ | ⟨j, choice, c, rest, own, answer, shared, own', -, moves, -, ran, rfl⟩ |
      ⟨j, c, rest, own, -, moves, rfl⟩ | ⟨-, rfl⟩
    · exact ⟨old, List.getElem?_append_left (List.getElem?_eq_some_iff.mp found).1 ▸ found, onward⟩
    · by_cases same : j = i
      · subst same
        cases found.symm.trans moves
        exact ⟨_, List.getElem?_set_self (List.getElem?_eq_some_iff.mp found).1,
          trans onward (call ran)⟩
      · exact ⟨old, (List.getElem?_set_ne same).trans found, onward⟩
    · by_cases same : j = i
      · subst same
        cases found.symm.trans moves
        exact ⟨_, List.getElem?_set_self (List.getElem?_eq_some_iff.mp found).1,
          trans onward (lost _)⟩
      · exact ⟨old, (List.getElem?_set_ne same).trans found, onward⟩
    · exact ⟨⟨none, S.lost old.own⟩, by simp [found], trans onward (lost _)⟩

/-- A measure of own states, summed over all threads. -/
def total (cfg : Config S) (f : S.Local → Int) : Int :=
  (cfg.threads.map fun thread => f thread.own).sum

theorem total_eq_countP (cfg : Config S) (p : S.Local → Bool) :
    (cfg.total fun l => if p l then 1 else 0) = cfg.threads.countP fun thread => p thread.own := by
  unfold total
  induction cfg.threads with
  | nil => rfl
  | cons thread threads ih =>
      rw [List.map_cons, List.sum_cons, ih, List.countP_cons]
      by_cases counted : p thread.own <;> simp [counted, add_comm]

private theorem sum_set {threads : List (Thread S)} {i : Nat} {old : Thread S}
    (found : threads[i]? = some old) (new : Thread S) (f : S.Local → Int) :
    ((threads.set i new).map fun thread => f thread.own).sum =
      (threads.map fun thread => f thread.own).sum - f old.own + f new.own := by
  induction threads generalizing i with
  | nil => cases found
  | cons thread threads ih =>
      cases i with
      | zero =>
          cases found
          simp only [List.set_cons_zero, List.map_cons, List.sum_cons]
          ring
      | succ i =>
          simp only [List.set_cons_succ, List.map_cons, List.sum_cons, ih found]
          ring

/-- Only a call changes a total that new threads do not add to. -/
theorem total_step {f : S.Local → Int} {event : Event S} (stepped : cfg.step event = some next)
    (arrive : ∀ r, f (S.arrive r) = 0) (lost : ∀ l, f (S.lost l) = f l) :
    (∀ i choice, event ≠ .call i choice) ∧ next.total f = cfg.total f ∨
      ∃ i choice c rest own answer shared own', event = .call i choice ∧
        cfg.threads[i]? = some ⟨some (.call c rest), own⟩ ∧
        S.exec choice c cfg.shared own = some (answer, shared, own') ∧
        next.total f = cfg.total f - f own + f own' := by
  rcases step_cases stepped with
    ⟨r, rfl, rfl⟩ | ⟨i, choice, c, rest, own, answer, shared, own', same, found, -, ran, rfl⟩ |
    ⟨i, c, rest, own, rfl, found, rfl⟩ | ⟨rfl, rfl⟩
  · exact .inl ⟨nofun, by simp [total, arrive]⟩
  · exact .inr ⟨i, choice, c, rest, own, answer, shared, own', same, found, ran,
      sum_set found _ f⟩
  · refine .inl ⟨nofun, ?_⟩
    rw [total, sum_set found _ f, lost, total]
    ring
  · exact .inl ⟨nofun, by simp [total, lost, Function.comp_def]⟩

/-- A measure of the shared state stays the total of the threads if every call moves
    both by the same. -/
theorem total_eq_step {f : S.Local → Int} {g : S.Shared → Int} {event : Event S}
    (holds : cfg.total f = g cfg.shared) (stepped : cfg.step event = some next)
    (alive : event ≠ .crash) (arrive : ∀ r, f (S.arrive r) = 0) (lost : ∀ l, f (S.lost l) = f l)
    (call : ∀ i choice c rest own answer shared own', event = .call i choice →
      cfg.threads[i]? = some ⟨some (.call c rest), own⟩ →
      S.exec choice c cfg.shared own = some (answer, shared, own') →
      f own' - f own = g shared - g cfg.shared) : next.total f = g next.shared := by
  rcases step_cases stepped with
    ⟨r, rfl, rfl⟩ | ⟨i, choice, c, rest, own, answer, shared, own', same, found, -, ran, rfl⟩ |
    ⟨i, c, rest, own, rfl, found, rfl⟩ | ⟨rfl, rfl⟩
  · simpa [total, arrive] using holds
  · have moved := call i choice c rest own answer shared own' same found ran
    have changed := sum_set found ⟨some (rest answer), own'⟩ f
    simp only [total] at holds changed ⊢
    omega
  · have changed := sum_set found ⟨none, S.lost own⟩ f
    simp only [total, lost] at holds changed ⊢
    omega
  · exact absurd rfl alive

theorem total_add (f g : S.Local → Int) :
    cfg.total (fun l => f l + g l) = cfg.total f + cfg.total g := List.sum_map_add

theorem total_congr {f g : S.Local → Int}
    (same : ∀ thread ∈ cfg.threads, f thread.own = g thread.own) : cfg.total f = cfg.total g :=
  congrArg List.sum (List.map_congr_left same)

theorem total_eq_zero {f : S.Local → Int} (nothing : ∀ thread ∈ cfg.threads, f thread.own = 0) :
    cfg.total f = 0 := by
  rw [total_congr (g := fun _ => 0) nothing, total]
  simp

theorem le_total {f : S.Local → Int} (nonneg : ∀ l, 0 ≤ f l) {i : Nat} {a : Thread S}
    (found : cfg.threads[i]? = some a) : f a.own ≤ cfg.total f := by
  refine List.single_le_sum ?_ _ (List.mem_map.mpr ⟨a, List.mem_of_getElem? found, rfl⟩)
  intro value listed
  obtain ⟨thread, -, rfl⟩ := List.mem_map.mp listed
  exact nonneg thread.own

/-- Two threads have at most the total together. -/
theorem add_le_total {f : S.Local → Int} (nonneg : ∀ l, 0 ≤ f l) {i j : Nat} {a b : Thread S}
    (different : i ≠ j) (foundA : cfg.threads[i]? = some a) (foundB : cfg.threads[j]? = some b) :
    f a.own + f b.own ≤ cfg.total f := by
  obtain ⟨bound, rfl⟩ := List.getElem?_eq_some_iff.mp foundA
  have others : b ∈ cfg.threads.eraseIdx i :=
    List.mem_eraseIdx_iff_getElem?.mpr ⟨j, different.symm, foundB⟩
  have le : f b.own ≤ ((cfg.threads.eraseIdx i).map fun thread => f thread.own).sum := by
    refine List.single_le_sum ?_ _ (List.mem_map.mpr ⟨b, others, rfl⟩)
    intro value listed
    obtain ⟨thread, -, rfl⟩ := List.mem_map.mp listed
    exact nonneg thread.own
  have split := ((List.getElem_cons_eraseIdx_perm bound).map fun thread => f thread.own).sum_eq
  rw [List.map_cons, List.sum_cons] at split
  rw [total, ← split]
  omega

/-- A total that is not zero has a thread that adds to it. -/
theorem exists_of_total {f : S.Local → Int} (nonzero : cfg.total f ≠ 0) :
    ∃ (i : Nat) (thread : Thread S), cfg.threads[i]? = some thread ∧ f thread.own ≠ 0 := by
  by_contra none
  apply nonzero
  apply List.sum_eq_zero
  intro value listed
  obtain ⟨thread, member, rfl⟩ := List.mem_map.mp listed
  obtain ⟨i, found⟩ := List.mem_iff_getElem?.mp member
  by_contra here
  exact none ⟨i, thread, found, here⟩

end Config

/-- Only threads that are there have made calls. -/
theorem Steps.lt_length {start cfg : Config S} {trace : List (Transition S)}
    (run : Steps start trace cfg) {moved : Transition S} (member : moved ∈ trace) {i : Nat}
    {choice : S.Choice} (called : moved.event = .call i choice) : i < cfg.threads.length := by
  induction run with
  | refl => cases member
  | @snoc trace cfg event next _ stepped ih =>
      have grows : cfg.threads.length ≤ next.threads.length := by
        rcases Config.step_cases stepped with
          ⟨r, -, rfl⟩ | ⟨j, _, c, rest, own, _, _, _, -, -, -, -, rfl⟩ |
          ⟨j, c, rest, own, -, -, rfl⟩ | ⟨-, rfl⟩ <;> simp
      rcases List.mem_append.mp member with old | last
      · exact (ih old).trans_le grows
      · cases List.mem_singleton.mp last
        refine lt_of_lt_of_le ?_ grows
        change event = .call i choice at called
        rcases Config.step_cases stepped with
          ⟨r, rfl, -⟩ | ⟨j, _, c, rest, own, _, _, _, rfl, found, -⟩ |
          ⟨j, c, rest, own, rfl, -⟩ | ⟨rfl, -⟩ <;> cases called
        exact (List.getElem?_eq_some_iff.mp found).1

end Concurrency
