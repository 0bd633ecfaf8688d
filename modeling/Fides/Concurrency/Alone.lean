import Fides.Concurrency.Serial

/-! # Programs that run alone

What a program does to the states while no other thread moves.  A request whose
program ends so is served so while there are no others, provided that nobody makes
it wait.
-/

namespace Concurrency

variable {I : Interface} {S : System I}

/-- Alone from the first two states, the program can end with the outcome in the last two,
    if the environment decides about its calls only as it may. -/
inductive System.Runs (S : System I) (may : S.Choice → Prop) {α : Type} :
    Prog I S.Error α → S.Shared → S.Local → Except S.Error α → S.Shared → S.Local → Prop where
  | done (outcome s l) : S.Runs may (.done outcome) s l outcome s l
  | call {choice c rest s l answer s₁ l₁ outcome s' l'} : may choice →
      S.exec choice c s l = some (answer, s₁, l₁) → S.Runs may (rest answer) s₁ l₁ outcome s' l' →
      S.Runs may (.call c rest) s l outcome s' l'

namespace System.Runs

variable {may : S.Choice → Prop} {α : Type} {p : Prog I S.Error α} {s s' : S.Shared}
  {l l' : S.Local}

theorem of_done {outcome outcome' : Except S.Error α}
    (ran : S.Runs may (.done outcome) s l outcome' s' l') :
    outcome' = outcome ∧ s' = s ∧ l' = l := by
  cases ran
  exact ⟨rfl, rfl, rfl⟩

/-- What every call keeps of the thread's own state, the program keeps. -/
theorem keeps {T : S.Local → Prop} {outcome : Except S.Error α}
    (calls : ∀ choice c s l answer s' l', S.exec choice c s l = some (answer, s', l') → T l → T l')
    (ran : S.Runs may p s l outcome s' l') (start : T l) : T l' := by
  induction ran with
  | done => exact start
  | call _ executed _ ih => exact ih (calls _ _ _ _ _ _ _ executed start)

/-- Where the environment has no choice, there is only one end. -/
theorem unique {choice : S.Choice} {outcome outcome' : Except S.Error α} {s'' : S.Shared}
    {l'' : S.Local} (ran : S.Runs (· = choice) p s l outcome s' l')
    (again : S.Runs (· = choice) p s l outcome' s'' l'') :
    outcome' = outcome ∧ s'' = s' ∧ l'' = l' := by
  induction p generalizing s l with
  | done result =>
    cases ran
    exact again.of_done
  | call c rest ih =>
    cases ran with
    | call same executed ran =>
      cases again with
      | call same' executed' again =>
        subst same same'
        rw [executed] at executed'
        cases executed'
        exact ih _ ran again

end System.Runs

section Serving

variable {may : S.Choice → Prop} {cfg next : Config S} {r : S.Request} {own : S.Local}
  {outcome : Except S.Error S.Response}

/-- Threads that nobody waits for do not block the last one. -/
private theorem unblocked {threads : List (Thread S)} {last : Thread S} {s : S.Shared} {c : I.Call}
    {l : S.Local} (free : ∀ thread ∈ threads, S.waits c s l thread.own = false) :
    Config.blocked ⟨s, threads ++ [last]⟩ threads.length c l = false := by
  rw [Config.blocked, List.any_eq_false]
  intro pair member
  obtain ⟨other, j⟩ := pair
  have there := List.mk_mem_zipIdx_iff_getElem?.mp member
  rcases Config.getElem?_append_cases there with old | ⟨same, -⟩
  · simp [free other (List.mem_of_getElem? old)]
  · simp [same]

private theorem calls_of_runs {threads : List (Thread S)} {prog : Prog I S.Error S.Response}
    {s s' : S.Shared} {l : S.Local}
    (free : ∀ c s l, ∀ thread ∈ threads, S.waits c s l thread.own = false)
    (ran : S.Runs may prog s l outcome s' own) :
    ∃ choices : List S.Choice, (∀ choice ∈ choices, may choice) ∧
      Config.play serial ⟨s, threads ++ [⟨some prog, l⟩]⟩ (choices.map (.call threads.length)) =
        some ⟨s', threads ++ [⟨some (.done outcome), own⟩]⟩ := by
  induction ran with
  | done => exact ⟨[], by simp, rfl⟩
  | @call choice c rest s l answer s₁ l₁ _ _ _ allowed executed _ ih =>
    obtain ⟨choices, all, played⟩ := ih
    have unheld : Config.blocked ⟨s, threads ++ [⟨some (.call c rest), l⟩]⟩ threads.length c l =
      false := unblocked (free c s l)
    refine ⟨choice :: choices, by simpa using ⟨allowed, all⟩, ?_⟩
    simpa [Config.play, Config.step, serial, unheld, executed] using played

/-- A request is served as its program runs alone, if no thread makes others wait. -/
theorem Config.play_of_runs {s : S.Shared}
    (free : ∀ c s l, ∀ thread ∈ cfg.threads, S.waits c s l thread.own = false)
    (quiet : cfg.quiet = true)
    (ran : S.Runs may (S.handler r) cfg.shared (S.arrive r) outcome s own) :
    ∃ choices : List S.Choice, (∀ choice ∈ choices, may choice) ∧
      cfg.play serial (cfg.serving r choices) =
        some ⟨s, cfg.threads ++ [⟨some (.done outcome), own⟩]⟩ := by
  obtain ⟨choices, all, played⟩ := calls_of_runs free ran
  exact ⟨choices, all, by simpa [serving, play, step, serial, quiet] using played⟩

end Serving
end Concurrency
