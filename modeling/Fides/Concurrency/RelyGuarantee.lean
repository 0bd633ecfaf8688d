import Fides.Concurrency.Interleaving

/-! # Reasoning about one program in the presence of the others

`wp` reads a program as its weakest precondition under interference: before
every call the shared state may have moved by any step the thread relies on, and
the call must be allowed there.  A discipline says which calls are allowed, and
that every allowed call keeps the invariant and moves the shared state only as
the other threads rely on.  The programs of a system are checked one at a time;
`Safe` then holds in every configuration of every run, whatever the schedule.
-/

namespace Concurrency

structure Discipline {I : Interface} (S : System I) where
  inv : S.Shared → Prop
  /-- What each allowed call keeps true of its thread. -/
  own : S.Shared → S.Local → Prop
  /-- What holds between the own states of any two threads. -/
  compat : S.Local → S.Local → Prop
  /-- How other threads may move the shared state under a thread. -/
  rely : S.Local → S.Shared → S.Shared → Prop
  /-- When a thread may make a call. -/
  pre : I.Call → S.Shared → S.Local → Prop
  post : Except S.Error S.Response → S.Local → Prop
  rely_refl : ∀ l s, rely l s s
  rely_trans : ∀ {l s t u}, rely l s t → rely l t u → rely l s u
  rely_own : ∀ {l s t}, rely l s t → own s l → own t l
  compat_symm : ∀ {l o}, compat l o → compat o l
  exec_inv : ∀ {choice c s l r s' l'}, inv s → own s l → pre c s l →
    S.exec choice c s l = some (r, s', l') → inv s'
  exec_own : ∀ {choice c s l r s' l'}, inv s → own s l → pre c s l →
    S.exec choice c s l = some (r, s', l') → own s' l'
  exec_rely : ∀ {choice c s l r s' l' o}, inv s → own s l → pre c s l → compat l o →
    S.exec choice c s l = some (r, s', l') → rely o s s'
  exec_compat : ∀ {choice c s l r s' l' o}, own s o → compat l o → S.waits c s l o = false →
    S.exec choice c s l = some (r, s', l') → compat l' o
  arrive_own : ∀ s r, own s (S.arrive r)
  arrive_compat : ∀ r o, compat (S.arrive r) o
  restart_inv : ∀ {s}, inv s → inv (S.restart s)
  lost_own : ∀ s l, own s (S.lost l)
  lost_compat : ∀ l o, compat (S.lost l) o

variable {I : Interface} {S : System I} {ε α β : Type}

namespace Discipline

variable (D : Discipline S)

def wp (Q : Except ε α → S.Shared → S.Local → Prop) : Prog I ε α → S.Shared → S.Local → Prop
  | .done outcome, s, l => Q outcome s l
  | .call c rest, s, l => ∀ t, D.inv t → D.rely l s t → D.pre c t l ∧
      ∀ choice answer t' l', S.exec choice c t l = some (answer, t', l') →
        wp Q (rest answer) t' l'

variable {D} {Q : Except ε α → S.Shared → S.Local → Prop} {s t : S.Shared} {l : S.Local}

/-- A precondition survives interference when the postcondition does. -/
theorem wp_stable {p : Prog I ε α} (stable : ∀ r s t, Q r s l → D.rely l s t → Q r t l)
    (holds : D.wp Q p s l) (moved : D.rely l s t) : D.wp Q p t l := by
  cases p with
  | done outcome => exact stable outcome s t holds moved
  | call c rest =>
      intro u invariant later
      exact holds u invariant (D.rely_trans moved later)

theorem wp_mono {Q' : Except ε α → S.Shared → S.Local → Prop} {p : Prog I ε α}
    (weaker : ∀ r s l, Q r s l → Q' r s l) (holds : D.wp Q p s l) : D.wp Q' p s l := by
  induction p generalizing s l with
  | done outcome => exact weaker outcome s l holds
  | call c rest ih =>
      intro t invariant moved
      obtain ⟨allowed, ran⟩ := holds t invariant moved
      refine ⟨allowed, fun choice answer t' l' executed => ?_⟩
      exact ih answer (ran choice answer t' l' executed)

theorem wp_onError {p : Prog I ε α} {cleanup : Prog I ε Unit}
    (holds : D.wp (fun r s l => match r with
      | .ok value => Q (.ok value) s l
      | .error e => D.wp Q (cleanup.bind fun _ => .done (.error e)) s l) p s l) :
    D.wp Q (p.onError cleanup) s l := by
  induction p generalizing s l with
  | done outcome => cases outcome <;> exact holds
  | call c rest ih =>
      intro t invariant moved
      obtain ⟨allowed, ran⟩ := holds t invariant moved
      refine ⟨allowed, fun choice answer t' l' executed => ?_⟩
      exact ih answer (ran choice answer t' l' executed)

variable (D)

def ThreadSafe (s : S.Shared) (thread : Thread S) : Prop :=
  D.own s thread.own ∧
    ∀ p, thread.prog = some p → D.wp (fun r _ l => D.post r l) p s thread.own

/-- The discipline holds between calls. -/
structure Safe (cfg : Config S) : Prop where
  inv : D.inv cfg.shared
  threads : ∀ (i : Nat) thread, cfg.threads[i]? = some thread → D.ThreadSafe cfg.shared thread
  apart : ∀ (i j : Nat) a b, i ≠ j → cfg.threads[i]? = some a → cfg.threads[j]? = some b →
    D.compat a.own b.own

/-- Every program that can arrive is checked against the discipline. -/
def Checked : Prop :=
  ∀ r s, D.inv s → D.wp (fun r _ l => D.post r l) (S.handler r) s (S.arrive r)

variable {D} {cfg next : Config S}

/-- A thread that is about to make a call is allowed to. -/
theorem Safe.pre {i : Nat} {c : I.Call} {rest} {own : S.Local} (safe : D.Safe cfg)
    (found : cfg.threads[i]? = some ⟨some (.call c rest), own⟩) : D.pre c cfg.shared own :=
  ((safe.threads i _ found).2 _ rfl cfg.shared safe.inv (D.rely_refl _ _)).1

/-- A thread that has finished has kept its promise. -/
theorem Safe.post {i : Nat} {outcome} {own : S.Local} (safe : D.Safe cfg)
    (found : cfg.threads[i]? = some ⟨some (.done outcome), own⟩) : D.post outcome own :=
  (safe.threads i _ found).2 _ rfl

/-- What a thread may rely on keeps holding of it if its own calls keep it. -/
theorem Safe.all_step {T : S.Shared → S.Local → Prop} {event : Event S} (safe : D.Safe cfg)
    (all : ∀ (i : Nat) thread, cfg.threads[i]? = some thread → T cfg.shared thread.own)
    (stepped : cfg.step event = some next) (arrive : ∀ r, T cfg.shared (S.arrive r))
    (lost : ∀ l, T cfg.shared l → T cfg.shared (S.lost l))
    (restart : ∀ l, T cfg.shared l → T (S.restart cfg.shared) (S.lost l))
    (stable : ∀ s l, D.rely l cfg.shared s → T cfg.shared l → T s l)
    (call : ∀ i choice c rest own answer shared own', event = .call i choice →
      cfg.threads[i]? = some ⟨some (.call c rest), own⟩ → T cfg.shared own →
      S.exec choice c cfg.shared own = some (answer, shared, own') → next.shared = shared →
      T shared own') :
    ∀ (i : Nat) thread, next.threads[i]? = some thread → T next.shared thread.own := by
  refine Config.all_step all stepped arrive lost restart ?_
  intro i choice c rest own answer shared own' same found ran now
  refine ⟨call i choice c rest own answer shared own' same found (all i _ found) ran now, ?_⟩
  intro j other different there holds
  exact stable shared other.own (D.exec_rely safe.inv (safe.threads i _ found).1 (safe.pre found)
    (safe.apart i j _ _ different found there) ran) holds

private theorem Safe.request (checked : D.Checked) (safe : D.Safe cfg) (r : S.Request) :
    D.Safe ⟨cfg.shared, cfg.threads ++ [⟨some (S.handler r), S.arrive r⟩]⟩ := by
  refine ⟨safe.inv, ?_, ?_⟩
  · intro i thread found
    rcases Config.getElem?_append_cases found with old | ⟨-, rfl⟩
    · exact safe.threads i thread old
    · refine ⟨D.arrive_own _ _, fun p same => ?_⟩
      cases same
      exact checked r cfg.shared safe.inv
  · intro i j a b different foundA foundB
    rcases Config.getElem?_append_cases foundA with oldA | ⟨rfl, rfl⟩ <;>
      rcases Config.getElem?_append_cases foundB with oldB | ⟨rfl, rfl⟩
    · exact safe.apart i j a b different oldA oldB
    · exact D.compat_symm (D.arrive_compat _ _)
    · exact D.arrive_compat _ _
    · exact absurd rfl different

/-- Replacing one thread keeps the discipline when the others are not disturbed. -/
private theorem Safe.replace {i : Nat} {old new : Thread S} {shared : S.Shared}
    (safe : D.Safe cfg) (found : cfg.threads[i]? = some old) (invariant : D.inv shared)
    (checked : D.ThreadSafe shared new)
    (relied : ∀ j (other : Thread S), i ≠ j → cfg.threads[j]? = some other →
      D.compat old.own other.own → D.rely other.own cfg.shared shared)
    (apart : ∀ j (other : Thread S), i ≠ j → cfg.threads[j]? = some other →
      D.compat old.own other.own → D.compat new.own other.own) :
    D.Safe ⟨shared, cfg.threads.set i new⟩ := by
  refine ⟨invariant, ?_, ?_⟩
  · intro j thread there
    rcases Config.getElem?_set_cases there with ⟨rfl, rfl⟩ | ⟨different, kept⟩
    · exact checked
    · have moved := relied j thread different kept (safe.apart i j _ _ different found kept)
      obtain ⟨own, runs⟩ := safe.threads j thread kept
      refine ⟨D.rely_own moved own, fun p same => ?_⟩
      exact wp_stable (fun _ _ _ holds _ => holds) (runs p same) moved
  · intro j k a b different foundA foundB
    have moves : ∀ j other, i ≠ j → cfg.threads[j]? = some other →
        D.compat new.own other.own := fun j other apart' there =>
      apart j other apart' there (safe.apart i j _ _ apart' found there)
    rcases Config.getElem?_set_cases foundA with ⟨rfl, rfl⟩ | ⟨differentA, oldA⟩ <;>
      rcases Config.getElem?_set_cases foundB with ⟨rfl, rfl⟩ | ⟨differentB, oldB⟩
    · exact absurd rfl different
    · exact moves k b differentB oldB
    · exact D.compat_symm (moves j a differentA oldA)
    · exact safe.apart j k a b different oldA oldB

private theorem Safe.calls {i : Nat} {choice : S.Choice} {c : I.Call} {rest}
    {own own' : S.Local} {answer} {shared : S.Shared} (safe : D.Safe cfg)
    (found : cfg.threads[i]? = some ⟨some (.call c rest), own⟩)
    (free : cfg.blocked i c own = false)
    (ran : S.exec choice c cfg.shared own = some (answer, shared, own')) :
    D.Safe ⟨shared, cfg.threads.set i ⟨some (rest answer), own'⟩⟩ := by
  obtain ⟨mine, runs⟩ := safe.threads i _ found
  obtain ⟨allowed, remaining⟩ := runs _ rfl cfg.shared safe.inv (D.rely_refl _ _)
  apply safe.replace found (D.exec_inv safe.inv mine allowed ran)
  · refine ⟨D.exec_own safe.inv mine allowed ran, fun p same => ?_⟩
    cases same
    exact remaining choice answer shared own' ran
  · intro j other _ _ compat
    exact D.exec_rely safe.inv mine allowed compat ran
  · intro j other different there compat
    exact D.exec_compat (safe.threads j other there).1 compat
      (Config.not_blocked free different there) ran

private theorem Safe.drop {i : Nat} {old : Thread S} (safe : D.Safe cfg)
    (found : cfg.threads[i]? = some old) :
    D.Safe ⟨cfg.shared, cfg.threads.set i ⟨none, S.lost old.own⟩⟩ := by
  apply safe.replace found safe.inv
  · exact ⟨D.lost_own _ _, fun p same => by cases same⟩
  · exact fun _ _ _ _ _ => D.rely_refl _ _
  · exact fun _ _ _ _ _ => D.lost_compat _ _

private theorem Safe.crash (safe : D.Safe cfg) :
    D.Safe ⟨S.restart cfg.shared, cfg.threads.map fun thread => ⟨none, S.lost thread.own⟩⟩ := by
  refine ⟨D.restart_inv safe.inv, ?_, ?_⟩
  · intro i thread found
    simp only [List.getElem?_map, Option.map_eq_some_iff] at found
    obtain ⟨old, -, rfl⟩ := found
    exact ⟨D.lost_own _ _, fun p same => by cases same⟩
  · intro i j a b _ foundA _
    simp only [List.getElem?_map, Option.map_eq_some_iff] at foundA
    obtain ⟨old, -, rfl⟩ := foundA
    exact D.lost_compat _ _

theorem Safe.step (checked : D.Checked) (safe : D.Safe cfg) {event : Event S}
    (stepped : cfg.step event = some next) : D.Safe next := by
  rcases Config.step_cases stepped with
    ⟨r, -, rfl⟩ | ⟨i, choice, c, rest, own, answer, shared, own', -, found, free, ran, rfl⟩ |
    ⟨i, c, rest, own, -, found, rfl⟩ | ⟨-, rfl⟩
  · exact safe.request checked r
  · exact safe.calls found free ran
  · exact safe.drop found
  · exact safe.crash

/-- Soundness: the discipline holds in every configuration of every run. -/
theorem Safe.steps (checked : D.Checked) (safe : D.Safe cfg) {trace : List (Transition S)}
    (run : Steps cfg trace next) : D.Safe next := by
  induction run with
  | refl => exact safe
  | snoc _ stepped ih => exact ih.step checked stepped

end Discipline
end Concurrency
