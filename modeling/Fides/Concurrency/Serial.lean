import Fides.Concurrency.RelyGuarantee

/-! # One request at a time

In a serial run a request arrives only when no thread has calls left to make, and
crashes may come at any time.  What is to be shown of such a run is what holds of
the shared state between requests, and what holds of it together with the own
state of the one thread that is running.  Threads may be dropped where this leaves
the shared state as it has to be between requests.
-/

namespace Concurrency

variable {I : Interface} {S : System I}

/-- All requests have been served, or were ended from outside. -/
def Config.quiet (cfg : Config S) : Bool := cfg.threads.all Thread.finished

def serial (moved : Transition S) : Bool :=
  match moved.event with
  | .request _ => moved.before.quiet
  | .drop _ => false
  | .call _ _ | .crash => true

/-- Requests come one at a time, and only threads whose own state allows it are dropped. -/
def serialBut (may : S.Local → Bool) (moved : Transition S) : Bool :=
  match moved.event with
  | .request _ => moved.before.quiet
  | .drop i => (moved.before.threads[i]?).all fun thread => may thread.own
  | .call _ _ | .crash => true

theorem serialBut_of_serial (may : S.Local → Bool) {moved : Transition S}
    (one : serial moved = true) : serialBut may moved = true := by
  unfold serial at one
  unfold serialBut
  split at one <;> simp_all

/-- How a request ends that is served while there are no others. -/
def Config.serve (cfg : Config S) (r : S.Request) (choices : List S.Choice) :
    Option (Except S.Error S.Response) :=
  match cfg.play serial (.request r :: choices.map (.call cfg.threads.length)) with
  | some next => match next.threads[cfg.threads.length]? with
      | some ⟨some (.done outcome), _⟩ => some outcome
      | _ => none
  | none => none

/-- A request that is served by one call. -/
theorem Config.serve_one {cfg : Config S} {r : S.Request} {choice : S.Choice} {c : I.Call} {rest}
    {answer shared own outcome} (quiet : cfg.quiet = true) (program : S.handler r = .call c rest)
    (free : ∀ other, S.waits c cfg.shared (S.arrive r) other = false)
    (ran : S.exec choice c cfg.shared (S.arrive r) = some (answer, shared, own))
    (done : rest answer = .done outcome) : cfg.serve r [choice] = some outcome := by
  have unblocked : ∀ threads : List (Thread S),
      Config.blocked ⟨cfg.shared, threads⟩ cfg.threads.length c (S.arrive r) = false := by
    simp [blocked, free]
  simp [serve, play, step, serial, quiet, program, unblocked, ran, done]

/-- The schedule by which a request is served while there are no others. -/
def Config.serving (cfg : Config S) (r : S.Request) (choices : List S.Choice) : List (Event S) :=
  .request r :: choices.map (.call cfg.threads.length)

theorem Config.exists_of_serve {cfg : Config S} {r : S.Request} {choices : List S.Choice} {outcome}
    (served : cfg.serve r choices = some outcome) :
    ∃ next own, cfg.play serial (cfg.serving r choices) = some next ∧
      next.threads[cfg.threads.length]? = some ⟨some (.done outcome), own⟩ := by
  unfold serve at served
  split at served
  · rename_i next played
    split at served
    · rename_i own ended
      cases served
      exact ⟨next, own, played, ended⟩
    · cases served
  · cases served

/-- A program alone with the shared state, as long as it makes only calls that it may. -/
def System.solo (S : System I) (may : I.Call → Bool) : Prog I S.Error S.Response →
    List S.Choice → S.Shared → S.Local → Option (Except S.Error S.Response × S.Shared × S.Local)
  | .done outcome, [], s, l => some (outcome, s, l)
  | .call c rest, choice :: choices, s, l =>
      if may c then match S.exec choice c s l with
        | some (answer, s, l) => S.solo may (rest answer) choices s l
        | none => none
      else none
  | _, _, _, _ => none

section Solo

variable {cfg next : Config S} {outcome : Except S.Error S.Response} {own own' : S.Local}

private theorem solo_of_calls {i : Nat} {prog : Prog I S.Error S.Response}
    {choices : List S.Choice} (found : cfg.threads[i]? = some ⟨some prog, own⟩)
    (played : cfg.play serial (choices.map (.call i)) = some next)
    (ended : next.threads[i]? = some ⟨some (.done outcome), own'⟩) :
    S.solo (fun _ => true) prog choices cfg.shared own = some (outcome, next.shared, own') := by
  induction choices generalizing cfg prog own with
  | nil =>
      cases played
      rw [found] at ended
      cases ended
      rfl
  | cons choice choices ih =>
      simp only [List.map_cons, Config.play] at played
      split at played
      · rename_i middle stepped
        rcases Config.step_cases stepped with
          ⟨r, same, -⟩ | ⟨j, _, c, rest, _, answer, shared, own₁, same, there, -, ran, rfl⟩ |
          ⟨j, _, _, _, same, -⟩ | ⟨same, -⟩ <;> cases same
        rw [found] at there
        cases there
        have bound := (List.getElem?_eq_some_iff.mp found).1
        have later := ih (List.getElem?_set_self bound) (by simpa [serial] using played)
        simpa [System.solo, ran] using later
      · cases played

/-- A request that was served while there were no others ran alone. -/
theorem Config.solo_of_play {r : S.Request} {choices : List S.Choice}
    (played : cfg.play serial (cfg.serving r choices) = some next)
    (ended : next.threads[cfg.threads.length]? = some ⟨some (.done outcome), own⟩) :
    S.solo (fun _ => true) (S.handler r) choices cfg.shared (S.arrive r) =
      some (outcome, next.shared, own) := by
  let arrived : Config S := ⟨cfg.shared, cfg.threads ++ [⟨some (S.handler r), S.arrive r⟩]⟩
  have found : arrived.threads[cfg.threads.length]? = some ⟨some (S.handler r), S.arrive r⟩ :=
    List.getElem?_concat_length
  simp only [serving, play, step] at played
  split at played
  · have ran := solo_of_calls found played ended
    exact ran
  · cases played

/-- What each allowed call of a program keeps holds where the program has ended. -/
theorem Discipline.solo_rule {D : Discipline S} {P : S.Shared → S.Local → Prop}
    {may : I.Call → Bool} {prog : Prog I S.Error S.Response} {choices : List S.Choice}
    {s s' : S.Shared}
    (keeps : ∀ {choice c s l r s' l'}, D.inv s → D.pre c s l → P s l →
      S.exec choice c s l = some (r, s', l') → P s' l')
    (invariant : D.inv s) (owns : D.own s own) (safe : D.wp (fun r _ l => D.post r l) prog s own)
    (holds : P s own) (ran : S.solo may prog choices s own = some (outcome, s', own')) :
    D.inv s' ∧ D.post outcome own' ∧ P s' own' := by
  induction choices generalizing prog s own with
  | nil =>
      cases prog <;> cases ran
      exact ⟨invariant, safe, holds⟩
  | cons choice choices ih =>
      cases prog with
      | done => cases ran
      | call c rest =>
          simp only [System.solo] at ran
          split at ran
          · split at ran
            · rename_i executed
              obtain ⟨allowed, remaining⟩ := safe s invariant (D.rely_refl _ _)
              exact ih (D.exec_inv invariant owns allowed executed)
                (D.exec_own invariant owns allowed executed) (remaining _ _ _ _ executed)
                (keeps invariant allowed holds executed) ran
            · cases ran
          · cases ran

end Solo

/-- What holds between requests, and while one is served. -/
structure Turns (D : Discipline S) where
  idle : S.Shared → Prop
  busy : S.Shared → S.Local → Prop
  arrive : ∀ {s} r, idle s → busy s (S.arrive r)
  exec : ∀ {choice c s l r s' l'}, D.inv s → D.pre c s l → busy s l →
    S.exec choice c s l = some (r, s', l') → busy s' l'
  finish : ∀ {outcome s l}, D.post outcome l → busy s l → idle s
  restart : ∀ {s}, D.inv s → idle (S.restart s)

namespace Turns

variable {D : Discipline S} (T : Turns D) {cfg next : Config S}

/-- At most one thread is running. -/
inductive Holds (cfg : Config S) : Prop where
  | quiet : cfg.quiet = true → T.idle cfg.shared → Holds cfg
  | running {i : Nat} {c rest own} : cfg.threads[i]? = some ⟨some (.call c rest), own⟩ →
      (∀ (j : Nat) thread, i ≠ j → cfg.threads[j]? = some thread → thread.finished = true) →
      T.busy cfg.shared own → Holds cfg

variable {T}

theorem Holds.idle (holds : T.Holds cfg) (quiet : cfg.quiet = true) : T.idle cfg.shared := by
  cases holds with
  | quiet _ idle => exact idle
  | running found =>
      have finished := List.all_eq_true.mp quiet _ (List.mem_of_getElem? found)
      cases finished

theorem Holds.alone {i : Nat} {c rest own} (holds : T.Holds cfg)
    (found : cfg.threads[i]? = some ⟨some (.call c rest), own⟩) :
    T.busy cfg.shared own ∧
      ∀ (j : Nat) thread, i ≠ j → cfg.threads[j]? = some thread → thread.finished = true := by
  cases holds with
  | quiet quiet =>
      have finished := List.all_eq_true.mp quiet _ (List.mem_of_getElem? found)
      cases finished
  | @running j _ _ own' there others busy =>
      by_cases same : j = i
      · subst same
        rw [there] at found
        cases found
        exact ⟨busy, others⟩
      · have finished := others i _ same found
        cases finished

/-- Where a thread has got to that runs alone. -/
private theorem Holds.of_thread {i : Nat} {prog own} (safe : D.Safe cfg)
    (found : cfg.threads[i]? = some ⟨some prog, own⟩)
    (others : ∀ (j : Nat) thread, i ≠ j → cfg.threads[j]? = some thread → thread.finished = true)
    (busy : T.busy cfg.shared own) : T.Holds cfg := by
  cases prog with
  | call c rest => exact .running found others busy
  | done outcome =>
      refine .quiet (List.all_eq_true.mpr fun thread member => ?_) (T.finish (safe.post found) busy)
      obtain ⟨j, there⟩ := List.mem_iff_getElem?.mp member
      by_cases same : i = j
      · subst same
        rw [found] at there
        cases there
        rfl
      · exact others j thread same there

/-- All other threads are finished, and so is the one that was dropped. -/
private theorem quiet_of_dropped {i : Nat} {own : S.Local}
    (others : ∀ (j : Nat) thread, i ≠ j → cfg.threads[j]? = some thread → thread.finished = true) :
    Config.quiet ⟨cfg.shared, cfg.threads.set i ⟨none, S.lost own⟩⟩ = true := by
  refine List.all_eq_true.mpr fun thread member => ?_
  obtain ⟨j, there⟩ := List.mem_iff_getElem?.mp member
  rcases Config.getElem?_set_cases there with ⟨-, rfl⟩ | ⟨different, old⟩
  · rfl
  · exact others j thread different old

theorem Holds.step_but (may : S.Local → Bool) {event : Event S}
    (quits : ∀ {s l}, may l = true → T.busy s l → T.idle s) (checked : D.Checked)
    (safe : D.Safe cfg) (holds : T.Holds cfg) (stepped : cfg.step event = some next)
    (one : serialBut may ⟨cfg, event, next⟩ = true) : T.Holds next := by
  have later := safe.step checked stepped
  rcases Config.step_cases stepped with
    ⟨r, rfl, rfl⟩ | ⟨i, choice, c, rest, own, answer, shared, own', -, found, -, ran, rfl⟩ |
    ⟨i, c, rest, own, rfl, found, rfl⟩ | ⟨-, rfl⟩
  · refine .of_thread later List.getElem?_concat_length ?_ (T.arrive r (holds.idle one))
    intro j thread different there
    rcases Config.getElem?_append_cases there with old | ⟨same, -⟩
    · exact List.all_eq_true.mp one thread (List.mem_of_getElem? old)
    · exact absurd same.symm different
  · obtain ⟨busy, others⟩ := holds.alone found
    have bound := (List.getElem?_eq_some_iff.mp found).1
    refine .of_thread (i := i) later (List.getElem?_set_self bound) ?_
      (T.exec safe.inv (safe.pre found) busy ran)
    intro j thread different there
    rcases Config.getElem?_set_cases there with ⟨same, -⟩ | ⟨-, old⟩
    · exact absurd same different
    · exact others j thread different old
  · obtain ⟨busy, others⟩ := holds.alone found
    have allowed : may own = true := by simpa [serialBut, found] using one
    exact .quiet (quiet_of_dropped others) (quits allowed busy)
  · refine .quiet ?_ (T.restart safe.inv)
    simp [Config.quiet, Thread.finished]

theorem Holds.step {event : Event S} (checked : D.Checked) (safe : D.Safe cfg)
    (holds : T.Holds cfg) (stepped : cfg.step event = some next)
    (one : serial ⟨cfg, event, next⟩ = true) : T.Holds next :=
  holds.step_but (fun _ => false) nofun checked safe stepped (serialBut_of_serial _ one)

theorem Holds.steps_but (may : S.Local → Bool) {trace : List (Transition S)}
    (quits : ∀ {s l}, may l = true → T.busy s l → T.idle s) (checked : D.Checked)
    (safe : D.Safe cfg) (holds : T.Holds cfg) (run : Steps cfg trace next)
    (one : ∀ moved ∈ trace, serialBut may moved = true) : T.Holds next := by
  have both : D.Safe next ∧ T.Holds next := by
    refine run.invariant (P := fun cfg => D.Safe cfg ∧ T.Holds cfg) ?_ ⟨safe, holds⟩ one
    rintro before event after ⟨safe, holds⟩ stepped alone
    exact ⟨safe.step checked stepped, holds.step_but may quits checked safe stepped alone⟩
  exact both.2

theorem Holds.steps {trace : List (Transition S)} (checked : D.Checked) (safe : D.Safe cfg)
    (holds : T.Holds cfg) (run : Steps cfg trace next)
    (one : ∀ moved ∈ trace, serial moved = true) : T.Holds next :=
  holds.steps_but (fun _ => false) nofun checked safe run
    fun moved member => serialBut_of_serial _ (one moved member)

end Turns
end Concurrency
