import Fides.Concurrency.Interleaving

/-! # Two runs in lockstep

One schedule is run twice, with choices of the environment that are to make no visible
difference.  A mask says which choices, answers, errors and own states look alike.  If
calls and programs respect it, both runs go through the same shared states, and their
threads end alike.
-/

namespace Concurrency

variable {I : Interface} {S : System I}

structure Mask (S : System I) where
  choices : S.Choice → S.Choice → Prop
  answers : (c : I.Call) → I.Result c → I.Result c → Prop
  errors : S.Error → S.Error → Prop
  own : S.Local → S.Local → Prop
  exec : ∀ {choice choice' c s l l' x s' m}, choices choice choice' → own l l' →
    S.exec choice c s l = some (x, s', m) →
    ∃ y m', S.exec choice' c s l' = some (y, s', m') ∧ answers c x y ∧ own m m'
  waits : ∀ {l l' o o'} c s, own l l' → own o o' → S.waits c s l' o' = S.waits c s l o
  arrive : ∀ r, own (S.arrive r) (S.arrive r)
  lost : ∀ {l l'}, own l l' → own (S.lost l) (S.lost l')

namespace Mask

variable {M : Mask S} {α β : Type}

/-- The same value, or errors that look alike. -/
inductive Ends (M : Mask S) : Except S.Error α → Except S.Error α → Prop where
  | ok (value : α) : Ends M (.ok value) (.ok value)
  | error {e e' : S.Error} : M.errors e e' → Ends M (.error e) (.error e')

/-- The programs make the same calls as long as the answers look alike, and end alike. -/
inductive Alike (M : Mask S) : Prog I S.Error α → Prog I S.Error α → Prop where
  | done {outcome outcome'} : M.Ends outcome outcome' → Alike M (.done outcome) (.done outcome')
  | call {c : I.Call} {rest rest'} :
      (∀ x y, M.answers c x y → Alike M (rest x) (rest' y)) →
      Alike M (.call c rest) (.call c rest')

namespace Alike

theorem bind {p p' : Prog I S.Error α} {next next' : α → Prog I S.Error β} (first : M.Alike p p')
    (last : ∀ value, M.Alike (next value) (next' value)) :
    M.Alike (p >>= next) (p' >>= next') := by
  induction first with
  | done ends =>
    cases ends with
    | ok value => exact last value
    | error looks => exact .done (.error looks)
  | call _ ih => exact .call fun x y alike => ih x y alike

theorem onError {p p' : Prog I S.Error α} {cleanup : Prog I S.Error Unit} (body : M.Alike p p')
    (cleaned : M.Alike cleanup cleanup) : M.Alike (p.onError cleanup) (p'.onError cleanup) := by
  induction body with
  | done ends =>
    cases ends with
    | ok value => exact .done (.ok value)
    | error looks => exact cleaned.bind fun _ => .done (.error looks)
  | call _ ih => exact .call fun x y alike => ih x y alike

end Alike

inductive Threads (M : Mask S) : Thread S → Thread S → Prop where
  | running {p p' own own'} : M.Alike p p' → M.own own own' →
      Threads M ⟨some p, own⟩ ⟨some p', own'⟩
  | ended {own own'} : M.own own own' → Threads M ⟨none, own⟩ ⟨none, own'⟩

theorem Threads.own {thread thread' : Thread S} (alike : M.Threads thread thread') :
    M.own thread.own thread'.own := by
  cases alike <;> assumption

structure Configs (M : Mask S) (cfg cfg' : Config S) : Prop where
  shared : cfg'.shared = cfg.shared
  threads : List.Forall₂ M.Threads cfg.threads cfg'.threads

inductive Events (M : Mask S) : Event S → Event S → Prop where
  | request (r : S.Request) : Events M (.request r) (.request r)
  | call (i : Nat) {choice choice'} : M.choices choice choice' →
      Events M (.call i choice) (.call i choice')
  | drop (i : Nat) : Events M (.drop i) (.drop i)
  | crash : Events M .crash .crash

section Lists

variable {ρ : Type} {R : ρ → ρ → Prop} {xs ys : List ρ}

private theorem getElem?_of_forall₂ (related : List.Forall₂ R xs ys) {i : Nat} {x : ρ}
    (found : xs[i]? = some x) : ∃ y, ys[i]? = some y ∧ R x y := by
  induction related generalizing i with
  | nil => simp at found
  | cons head _ ih =>
    cases i with
    | zero =>
      cases found
      exact ⟨_, rfl, head⟩
    | succ i => exact ih found

private theorem set_of_forall₂ (related : List.Forall₂ R xs ys) {x y : ρ} (new : R x y) (i : Nat) :
    List.Forall₂ R (xs.set i x) (ys.set i y) := by
  induction related generalizing i with
  | nil => exact .nil
  | cons head tail ih =>
    cases i with
    | zero => exact .cons new tail
    | succ i => exact .cons head (ih i)

private theorem any_of_forall₂ (related : List.Forall₂ R xs ys) {f g : ρ × Nat → Bool}
    (same : ∀ x y j, R x y → g (y, j) = f (x, j)) (n : Nat) :
    (ys.zipIdx n).any g = (xs.zipIdx n).any f := by
  induction related generalizing n with
  | nil => rfl
  | cons head _ ih => simp only [List.zipIdx_cons, List.any_cons, same _ _ _ head, ih]

end Lists

variable {cfg cfg' next : Config S} {event event' : Event S}

private theorem blocked_eq (alike : M.Configs cfg cfg') {own own' : S.Local} (same : M.own own own')
    (i : Nat) (c : I.Call) : cfg'.blocked i c own' = cfg.blocked i c own := by
  refine any_of_forall₂ alike.threads (fun x y j related => ?_) 0
  simp only [alike.shared, M.waits c cfg.shared same related.own]

/-- Of two configurations that look alike, one can make every step of the other. -/
theorem step (handlers : ∀ r, M.Alike (S.handler r) (S.handler r)) (alike : M.Configs cfg cfg')
    (events : M.Events event event') (stepped : cfg.step event = some next) :
    ∃ next', cfg'.step event' = some next' ∧ M.Configs next next' := by
  cases events with
  | request r =>
    cases stepped
    refine ⟨_, rfl, alike.shared, List.rel_append alike.threads (.cons ?_ .nil)⟩
    exact .running (handlers r) (M.arrive r)
  | crash =>
    cases stepped
    refine ⟨_, rfl, congrArg S.restart alike.shared, ?_⟩
    rw [List.forall₂_map_left_iff, List.forall₂_map_right_iff]
    exact alike.threads.imp fun _ _ related => .ended (M.lost related.own)
  | drop i =>
    obtain ⟨_, same, -⟩ | ⟨_, _, _, _, _, _, _, _, same, -⟩ | ⟨i, c, rest, own, same, found, rfl⟩ |
      ⟨same, -⟩ := Config.step_cases stepped <;> cases same
    obtain ⟨thread', found', related⟩ := getElem?_of_forall₂ alike.threads found
    cases related with
    | @running _ _ _ theirs programs looks =>
      cases programs
      refine ⟨⟨cfg'.shared, cfg'.threads.set i ⟨none, S.lost theirs⟩⟩, ?_, alike.shared,
        set_of_forall₂ alike.threads (.ended (M.lost looks)) i⟩
      simp only [Config.step, found']
  | call i choices =>
    obtain ⟨_, same, -⟩ | ⟨i, choice, c, rest, own, x, shared, own', same, found, free, ran, rfl⟩ |
      ⟨_, _, _, _, same, -⟩ | ⟨same, -⟩ := Config.step_cases stepped <;> cases same
    obtain ⟨thread', found', related⟩ := getElem?_of_forall₂ alike.threads found
    cases related with
    | running programs looks =>
      cases programs with
      | @call _ _ rest' rests =>
        obtain ⟨y, m', ran', answers, later⟩ := M.exec choices looks ran
        refine ⟨⟨shared, cfg'.threads.set i ⟨some (rest' y), m'⟩⟩, ?_, rfl,
          set_of_forall₂ alike.threads (.running (rests x y answers) later) i⟩
        simp only [Config.step, found', blocked_eq alike looks, free, alike.shared, ran',
          Bool.false_eq_true, if_false]

/-- A schedule that plays also plays with choices that look alike, and what comes of it
    looks alike. -/
theorem play (handlers : ∀ r, M.Alike (S.handler r) (S.handler r)) (alike : M.Configs cfg cfg')
    {events events' : List (Event S)} (masked : List.Forall₂ M.Events events events')
    (played : cfg.play (fun _ => true) events = some next) :
    ∃ next', cfg'.play (fun _ => true) events' = some next' ∧ M.Configs next next' := by
  induction masked generalizing cfg cfg' with
  | nil =>
    cases played
    exact ⟨cfg', rfl, alike⟩
  | cons head _ ih =>
    simp only [Config.play, if_true] at played ⊢
    split at played
    · rename_i middle stepped
      obtain ⟨middle', stepped', related⟩ := step handlers alike head stepped
      simp only [stepped']
      exact ih related played
    · cases played

end Mask
end Concurrency
