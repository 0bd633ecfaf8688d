import Fides.Concurrency.Serial
import Mathlib.Data.Fintype.Card
import Mathlib.Logic.Hydra
import Mathlib.Order.WellFounded

/-! # All threads come to an end

A call leaves a smaller program behind, so threads that nobody adds to can only make
finitely many calls together.  If threads do not wait for each other in a circle, nor
for a thread that has ended, then one of them can make its next call as long as some
thread is open.  Together, whatever happens in between, all threads end.

Which calls a thread makes, and what it knows by then, is followed call by call.
-/

namespace Concurrency

section Inevitable

variable {α : Type}

/-- However one goes on from here, there is a step that one can take until the goal is
    reached, and one cannot go on for ever. -/
inductive Inevitably (can may : α → α → Prop) (goal : α → Prop) : α → Prop where
  | reached {a} : goal a → Inevitably can may goal a
  | onward {a} : (∃ b, can a b) → (∀ b, may a b → Inevitably can may goal b) →
      Inevitably can may goal a

theorem Inevitably.of_wellFounded {can may : α → α → Prop} {goal legal : α → Prop}
    (finite : WellFounded fun after before => may before after)
    (keeps : ∀ a b, legal a → may a b → legal b)
    (progress : ∀ a, legal a → ¬ goal a → ∃ b, can a b) {a : α} (start : legal a) :
    Inevitably can may goal a := by
  induction a using finite.induction with
  | _ a ih =>
    by_cases arrived : goal a
    · exact .reached arrived
    · exact .onward (progress a start arrived) fun b moved => ih b moved (keeps a b start moved)

end Inevitable

variable {I : Interface} {S : System I}

/-- What is left of a program after its first call. -/
inductive Prog.Left {ε α : Type} : Prog I ε α → Prog I ε α → Prop where
  | call {c : I.Call} {rest : I.Result c → Prog I ε α} (answer : I.Result c) :
      Left (rest answer) (.call c rest)

theorem Prog.left_wellFounded {ε α : Type} :
    WellFounded (Prog.Left : Prog I ε α → Prog I ε α → Prop) := by
  constructor
  intro p
  induction p with
  | done outcome => exact ⟨_, fun _ left => nomatch left⟩
  | call c rest ih =>
    refine ⟨_, fun q left => ?_⟩
    cases left with
    | call answer => exact ih answer

namespace Config

variable {cfg next : Config S}

/-- A thread makes its next call, with the given choice. -/
def Calls (choice : S.Choice) (before after : Config S) : Prop :=
  ∃ i, before.step (.call i choice) = some after

/-- A thread makes its next call, or is ended from outside. -/
def Moves (before after : Config S) : Prop :=
  (∃ choice, before.Calls choice after) ∨ ∃ i, before.step (.drop i) = some after

/-- The programs that threads still have to run. -/
def programs (threads : List (Thread S)) : Multiset (Prog I S.Error S.Response) :=
  Multiset.ofList (threads.filterMap Thread.prog)

private theorem programs_cons (thread : Thread S) (threads : List (Thread S)) :
    programs (thread :: threads) = Multiset.ofList thread.prog.toList + programs threads := by
  rw [programs, List.filterMap_cons]
  cases thread.prog <;> rfl

private theorem programs_set {threads : List (Thread S)} {i : Nat}
    {p : Prog I S.Error S.Response} {own : S.Local}
    (found : threads[i]? = some ⟨some p, own⟩) (new : Thread S) :
    programs (threads.set i new) + {p} = programs threads + Multiset.ofList new.prog.toList := by
  induction threads generalizing i with
  | nil => cases found
  | cons thread threads ih =>
    cases i with
    | zero =>
      cases found
      rw [List.set_cons_zero, programs_cons, programs_cons]
      change _ + _ + {p} = ({p} + programs threads) + _
      abel
    | succ i =>
      rw [List.set_cons_succ, programs_cons, programs_cons, add_assoc, ih found, add_assoc]

/-- Threads that nobody adds to cannot go on for ever. -/
theorem moves_wellFounded :
    WellFounded fun after before : Config S => before.Moves after := by
  refine Subrelation.wf ?_
    (InvImage.wf (fun cfg : Config S => programs cfg.threads) Prog.left_wellFounded.cutExpand)
  rintro after before (⟨choice, i, stepped⟩ | ⟨i, stepped⟩)
  · rcases step_cases stepped with ⟨_, same, _⟩ |
      ⟨j, _, c, rest, own, answer, shared, own', same, found, -, -, rfl⟩ | ⟨_, _, _, _, same, _⟩ |
      ⟨same, _⟩ <;> cases same
    refine ⟨{rest answer}, .call c rest, ?_, programs_set found _⟩
    intro left member
    rw [Multiset.mem_singleton.mp member]
    exact .call answer
  · rcases step_cases stepped with ⟨_, same, _⟩ | ⟨_, _, _, _, _, _, _, _, same, _⟩ |
      ⟨j, c, rest, own, same, found, rfl⟩ | ⟨same, _⟩ <;> cases same
    refine ⟨0, .call c rest, ?_, programs_set found _⟩
    intro left member
    cases Multiset.notMem_zero _ member

/-- As long as some thread is open, one of the open threads does not have to wait. -/
theorem exists_unblocked (acyclic : ∀ i, ¬ Relation.TransGen cfg.WaitsFor i i)
    (released : ∀ c own thread, thread ∈ cfg.threads → thread.finished = true →
      S.waits c cfg.shared own thread.own = false)
    (busy : ¬ cfg.quiet = true) :
    ∃ i c rest own, cfg.threads[i]? = some ⟨some (.call c rest), own⟩ ∧
      cfg.blocked i c own = false := by
  let waited : Fin cfg.threads.length → Fin cfg.threads.length → Prop :=
    fun j i => Relation.TransGen cfg.WaitsFor i j
  have : IsTrans _ waited := ⟨fun _ _ _ first second => second.trans first⟩
  have : Std.Irrefl waited := ⟨fun i => acyclic i⟩
  have finite := Finite.wellFounded_of_trans_of_irrefl waited
  have open_thread : ∃ thread ∈ cfg.threads, thread.finished = false := by
    simpa [Config.quiet] using busy
  have some_open : {i : Fin cfg.threads.length | cfg.threads[i].finished = false}.Nonempty := by
    obtain ⟨thread, member, opened⟩ := open_thread
    obtain ⟨i, within, rfl⟩ := List.mem_iff_getElem.mp member
    exact ⟨⟨i, within⟩, opened⟩
  -- an open thread that is last in the order of waiting
  obtain ⟨i, opened, last⟩ := finite.has_min _ some_open
  obtain ⟨c, rest, own, found⟩ : ∃ c rest own,
      cfg.threads[(i : Nat)]? = some ⟨some (.call c rest), own⟩ := by
    have there : cfg.threads[(i : Nat)]? = some cfg.threads[i] := List.getElem?_eq_getElem i.isLt
    have unfinished : cfg.threads[i].finished = false := opened
    rw [there]
    generalize cfg.threads[i] = thread at unfinished
    rcases thread with ⟨_ | outcome | ⟨c, rest⟩, own⟩
    · cases unfinished
    · cases unfinished
    · exact ⟨c, rest, own, rfl⟩
  refine ⟨i, c, rest, own, found, ?_⟩
  by_contra blocked
  rw [Bool.not_eq_false, Config.blocked, List.any_eq_true] at blocked
  obtain ⟨⟨other, j⟩, member, conflict⟩ := blocked
  rw [Bool.and_eq_true, bne_iff_ne] at conflict
  have there := List.mk_mem_zipIdx_iff_getElem?.mp member
  obtain ⟨within, same⟩ := List.getElem?_eq_some_iff.mp there
  have busier : other.finished = false := by
    by_contra ended
    have free := released c own other (List.mem_of_getElem? there) (by simpa using ended)
    rw [free] at conflict
    cases conflict.2
  refine last ⟨j, within⟩ (by simpa [same] using busier) (.single ?_)
  exact ⟨conflict.1, c, rest, own, other, found, there, conflict.2⟩

/-- All threads end, whatever is answered to them and in whatever order they are served. -/
theorem inevitably_quiet {P : Config S → Prop} (choice : S.Choice)
    (answers : ∀ c s l, (S.exec choice c s l).isSome)
    (keeps : ∀ {before event after}, P before → before.step event = some after → P after)
    (acyclic : ∀ cfg, P cfg → ∀ i, ¬ Relation.TransGen cfg.WaitsFor i i)
    (released : ∀ cfg, P cfg → ∀ c own thread, thread ∈ cfg.threads → thread.finished = true →
      S.waits c cfg.shared own thread.own = false)
    (legal : P cfg) : Inevitably (Calls choice) Moves (fun cfg => cfg.quiet = true) cfg := by
  apply Inevitably.of_wellFounded moves_wellFounded _ _ legal
  · rintro before after holds (⟨other, i, stepped⟩ | ⟨i, stepped⟩)
    · exact keeps holds stepped
    · exact keeps holds stepped
  · intro cfg holds busy
    obtain ⟨i, c, rest, own, found, free⟩ :=
      exists_unblocked (acyclic cfg holds) (released cfg holds) busy
    obtain ⟨⟨answer, shared, own'⟩, ran⟩ := Option.isSome_iff_exists.mp (answers c cfg.shared own)
    refine ⟨⟨shared, cfg.threads.set i ⟨some (rest answer), own'⟩⟩, i, ?_⟩
    simp [step, found, free, ran]

end Config

section Heeding

/-- Whatever the shared state is at each of its calls, the program makes a call only where it
    may. -/
def System.Heeds (S : System I) {α : Type} (may : I.Call → S.Local → Prop) :
    Prog I S.Error α → S.Local → Prop
  | .done _, _ => True
  | .call c rest, l => may c l ∧ ∀ choice s answer s' l', S.exec choice c s l = some (answer, s', l') →
      S.Heeds may (rest answer) l'

namespace System.Heeds

variable {α : Type} {may : I.Call → S.Local → Prop} {p : Prog I S.Error α} {l : S.Local}

theorem onError {cleanup : Prog I S.Error Unit} (body : S.Heeds may p l)
    (cleaned : ∀ e l, S.Heeds may (cleanup >>= fun _ => (.done (.error e) : Prog I S.Error α)) l) :
    S.Heeds may (p.onError cleanup) l := by
  induction p generalizing l with
  | done outcome =>
    cases outcome with
    | error e => exact cleaned e l
    | ok value => trivial
  | call c rest ih =>
    refine ⟨body.1, fun choice s answer s' l' ran => ?_⟩
    exact ih answer (body.2 choice s answer s' l' ran)

/-- Who has a licence that is never taken away may make all calls. -/
theorem of_licence {licence : S.Local → Prop} (grants : ∀ c l, licence l → may c l)
    (stays : ∀ choice c s l answer s' l', S.exec choice c s l = some (answer, s', l') →
      licence l → licence l')
    (licensed : licence l) : S.Heeds may p l := by
  induction p generalizing l with
  | done outcome => trivial
  | call c rest ih =>
    refine ⟨grants c l licensed, fun choice s answer s' l' ran => ?_⟩
    exact ih answer (stays choice c s l answer s' l' ran licensed)

/-- A program that makes only calls that everyone may make. -/
theorem of_makes {kind : I.Call → Prop} (free : ∀ c l, kind c → may c l) (makes : p.Makes kind) :
    S.Heeds may p l := by
  induction p generalizing l with
  | done outcome => trivial
  | call c rest ih => exact ⟨free c l makes.1, fun _ _ answer _ _ _ => ih answer (makes.2 answer)⟩

end System.Heeds

/-- What programs heed, the threads of every run heed. -/
theorem Config.heeding_step {may : I.Call → S.Local → Prop} {cfg next : Config S}
    (handlers : ∀ r, S.Heeds may (S.handler r) (S.arrive r))
    (all : ∀ (i : Nat) thread, cfg.threads[i]? = some thread →
      ∀ p, thread.prog = some p → S.Heeds may p thread.own)
    {event : Event S} (stepped : cfg.step event = some next) :
    ∀ (i : Nat) thread, next.threads[i]? = some thread →
      ∀ p, thread.prog = some p → S.Heeds may p thread.own := by
  refine each_step all stepped ?_ ?_ ?_
  · rintro r p ⟨⟩
    exact handlers r
  · rintro prog own - p ⟨⟩
  · rintro choice c rest own answer s s' own' heeds ran p ⟨⟩
    exact (heeds _ rfl).2 _ _ _ _ _ ran

end Heeding

end Concurrency
