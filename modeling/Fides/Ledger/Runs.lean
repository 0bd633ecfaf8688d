import Fides.Ledger.Handlers

/-! # Runs of the server

The server refines the book: every step leaves the committed tables alone or is
one of the moves of the book.  What the moves keep therefore holds of the
committed tables in every run, under every schedule.
-/

namespace Fides.Ledger

open Domain Service Storage Relational Concurrency

variable {cfg next : Config server} {event : Event server} {trace : List (Transition server)}

/-- An invariant of the runs from a safe configuration whose transitions are all of an
    allowed kind. -/
theorem later_invariant (allowed : Transition server → Prop) {P : Config server → Prop}
    {start : Config server} (safe : protocol.Safe start) (holds : P start)
    (keeps : ∀ before event after, protocol.Safe before → P before →
      before.step event = some after → allowed ⟨before, event, after⟩ → P after)
    (run : Steps start trace cfg) (all : ∀ moved ∈ trace, allowed moved) : P cfg := by
  have both : protocol.Safe cfg ∧ P cfg := by
    refine run.invariant (P := fun cfg => protocol.Safe cfg ∧ P cfg) ?_ ⟨safe, holds⟩ all
    rintro before event after ⟨safe, holds⟩ stepped permitted
    exact ⟨safe.step checked stepped, keeps before event after safe holds stepped permitted⟩
  exact both.2

theorem run_invariant (allowed : Transition server → Prop) {P : Config server → Prop}
    (start : P initial)
    (keeps : ∀ before event after, protocol.Safe before → P before →
      before.step event = some after → allowed ⟨before, event, after⟩ → P after)
    (run : Steps initial trace cfg) (all : ∀ moved ∈ trace, allowed moved) : P cfg :=
  later_invariant allowed (safe .refl) start keeps run all

/-- The request that a thread has answered with success. -/
def succeeded (cfg : Config server) (i : Nat) : Option Request :=
  match cfg.threads[i]? with
  | some ⟨some (.done (.ok _)), own⟩ => some own.request
  | _ => none

/-- The request that a thread has answered, and the response. -/
def answer (cfg : Config server) (i : Nat) : Option (Request × Response) :=
  match cfg.threads[i]? with
  | some ⟨some (.done (.ok response)), own⟩ => some (own.request, response)
  | _ => none

theorem answer_eq_some {i : Nat} {r : Request} {response : Response}
    (answered : answer cfg i = some (r, response)) :
    ∃ own, cfg.threads[i]? = some ⟨some (.done (.ok response)), own⟩ ∧ own.request = r := by
  unfold answer at answered
  split at answered
  · rename_i own found
    cases answered
    exact ⟨own, found, rfl⟩
  · cases answered

/-- The session whose commit takes effect in a transition. -/
def committing (moved : Transition server) : Option Session :=
  match moved.event with
  | .call i .fair => match moved.before.threads[i]? with
      | some ⟨some (.call .commit _), own⟩ => some own
      | _ => none
  | _ => none

/-- What a step is in which a session commits. -/
structure Commits (cfg next : Config server) (own : Session) : Prop where
  ready : Ready cfg.shared own
  owns : Owns cfg.shared own
  tables : next.shared.tables = cfg.shared.tables.merge own.tx.versions
  thread : ∃ i rest, cfg.threads[i]? = some ⟨some (.call .commit rest), own⟩ ∧
    next.threads = cfg.threads.set i ⟨some (rest (.ok ())), own.record .commit (.ok ()) .idle⟩

/-- A call is a commit that takes effect, or it is not. -/
theorem committing_call {i : Nat} {weather : Weather} {c : Call} {rest own} {answer : c.Result}
    {shared : World} {own' : Session} (found : cfg.threads[i]? = some ⟨some (.call c rest), own⟩)
    (ran : exec weather c cfg.shared own = some (answer, shared, own')) :
    committing ⟨cfg, .call i weather, next⟩ = none ∧
        (⟨c, answer⟩ : Answered) ≠ ⟨.commit, .ok ()⟩ ∨
      committing ⟨cfg, .call i weather, next⟩ = some own ∧
        (⟨c, answer⟩ : Answered) = ⟨.commit, .ok ()⟩ := by
  cases c with
  | commit =>
      cases weather with
      | fair =>
          cases ran
          exact .inr ⟨by simp only [committing, found], rfl⟩
      | fault message =>
          cases ran
          exact .inl ⟨rfl, nofun⟩
  | _ => exact .inl ⟨by cases weather <;> simp only [committing, found], nofun⟩

/-- Only a commit changes the committed tables. -/
theorem step_committing (safe : protocol.Safe cfg) (stepped : cfg.step event = some next) :
    committing ⟨cfg, event, next⟩ = none ∧ next.shared.tables = cfg.shared.tables ∨
      ∃ own, committing ⟨cfg, event, next⟩ = some own ∧ Commits cfg next own := by
  rcases Config.step_cases stepped with
    ⟨r, rfl, rfl⟩ | ⟨i, weather, c, rest, own, answer, shared, own', rfl, found, -, ran, rfl⟩ |
    ⟨i, c, rest, own, rfl, -, rfl⟩ | ⟨rfl, rfl⟩
  · exact .inl ⟨rfl, rfl⟩
  · rcases committing_call found ran with ⟨none, other⟩ | ⟨some, made⟩
    · exact .inl ⟨none, exec_tables ran other⟩
    · refine .inr ⟨own, some, ?_⟩
      obtain ⟨tx, does, rfl⟩ := exec_does ran
      cases made
      cases does with
      | commit => exact ⟨(safe.pre found).2, (safe.threads i _ found).1, rfl, i, rest, found, rfl⟩
      | give_up other | statement other => exact absurd rfl other
      | apply made | seed made => cases made
  · exact .inl ⟨rfl, rfl⟩
  · exact .inl ⟨rfl, rfl⟩

/-- A call leaves the committed tables alone, or it is a commit that takes effect. -/
theorem call_commits {i : Nat} {weather : Weather} {c : Call} {rest own} {answer : c.Result}
    {shared : World} {own' : Session} (safe : protocol.Safe cfg)
    (stepped : cfg.step (.call i weather) = some next)
    (found : cfg.threads[i]? = some ⟨some (.call c rest), own⟩)
    (ran : exec weather c cfg.shared own = some (answer, shared, own')) :
    (⟨c, answer⟩ : Answered) ≠ ⟨.commit, .ok ()⟩ ∧ next.shared.tables = cfg.shared.tables ∨
      (⟨c, answer⟩ : Answered) = ⟨.commit, .ok ()⟩ ∧ Commits cfg next own := by
  rcases step_committing safe stepped with ⟨none, tables⟩ | ⟨committer, some, commits⟩
  · rcases committing_call found ran with ⟨-, other⟩ | ⟨known, -⟩
    · exact .inl ⟨other, tables⟩
    · rw [none] at known
      cases known
  · rcases committing_call found ran with ⟨known, -⟩ | ⟨known, made⟩
    · rw [some] at known
      cases known
    · rw [some] at known
      cases known
      exact .inr ⟨made, commits⟩

/-- The legs of the authorization that a transition makes permanent. -/
def authorizing (moved : Transition server) : Option (List TransferLeg) :=
  match committing moved with
  | some own => match own.request, own.summary.authorized with
      | .authorize req _, _ :: _ => (parseTransferLegs req.legs).toOption
      | _, _ => none
  | none => none

/-- What a transition does to the book. -/
inductive Books (moved : Transition server) : Prop where
  | nothing (kind : authorizing moved = none)
      (tables : moved.after.shared.tables = moved.before.shared.tables)
  | enroll {row} (kind : authorizing moved = none)
      (enrolls : Enrolls moved.before.shared.tables moved.before.shared.sequences row)
      (tables : moved.after.shared.tables = moved.before.shared.tables.enroll row)
  | hold {own legs row rows updates} (kind : authorizing moved = some legs)
      (commits : Commits moved.before moved.after own)
      (lines : rows.map EntryRow.line = legs.map TransferLeg.line)
      (funds : ∀ leg ∈ legs,
        moved.before.shared.tables.normal leg.accountId.value ≠ leg.entryType.side →
          ∃ balance : AccountBalance, balance.hasAvailable leg.amount = true ∧
            (⟨.cacheGet leg.accountId, some balance⟩ : Answered) ∈ own.history)
      (holds : Holds moved.before.shared.tables moved.before.shared.sequences row rows updates)
      (tables : moved.after.shared.tables = moved.before.shared.tables.hold row rows updates)
  | settle {own id status postedAt row updates} (kind : authorizing moved = none)
      (commits : Commits moved.before moved.after own)
      (settles : Settles moved.before.shared.tables id status postedAt updates)
      (found : moved.before.shared.tables.transaction? id = some row)
      (written : { row with status := status, postedAt := postedAt } ∈
        own.tx.versions.transactions)
      (tables : moved.after.shared.tables =
        moved.before.shared.tables.settle id status postedAt updates)

theorem step_books (safe : protocol.Safe cfg) (stepped : cfg.step event = some next) :
    Books ⟨cfg, event, next⟩ := by
  have book : Consistent cfg.shared.tables cfg.shared.sequences := safe.inv
  rcases step_committing safe stepped with ⟨idle, same⟩ | ⟨own, known, commits⟩
  · exact .nothing (by simp only [authorizing, idle]) same
  · have merged := commits.tables
    cases commits.ready with
    | reading versions summary =>
        rw [versions] at merged
        refine .nothing ?_ merged
        simp only [authorizing, known, summary, Summary.blank]
        cases own.request <;> rfl
    | enrolling request enrolls versions =>
        rw [versions, merge_enroll enrolls] at merged
        exact .enroll (by simp only [authorizing, known, request]) enrolls merged
    | holding request parsed _ lines funds holds _ versions summary =>
        rw [versions, merge_hold book holds] at merged
        refine .hold ?_ commits lines funds holds merged
        simp only [authorizing, known, request, summary, parsed, Except.toOption]
    | settling request settles found versions =>
        rw [versions, merge_settle book settles found] at merged
        refine .settle ?_ commits settles found (by rw [versions]; exact List.mem_cons_self) merged
        generalize asked : own.request = r at request
        cases request <;> simp only [authorizing, known, asked]

section Effects

theorem effects_lost (l : Session) : (server.lost l).effects = l.effects := by
  have same : (server.lost l).summary = l.summary := rfl
  rw [Session.effects, same, Session.effects]

/-- Only a commit has an effect. -/
theorem effects_record {w : World} {l : Session} {c : Call} {answer : c.Result} (tx : Tx)
    (allowed : Allowed w l c) (other : (⟨c, answer⟩ : Answered) ≠ ⟨.commit, .ok ()⟩) :
    (l.record c answer tx).effects = l.effects := by
  have open' : l.summary.committed = false → (l.summary.add c answer).committed = false →
      (l.record c answer tx).effects = l.effects := by
    intro before after
    simp [Session.effects, before, after]
  cases c with
  | commit =>
      cases answer with
      | ok => exact absurd rfl other
      | error => simp [Session.effects, Summary.add]
  | createAccount | createTransaction =>
      cases answer with
      | ok => exact open' allowed allowed
      | error => simp [Session.effects, Summary.add]
  | createEntry | updateTransactionStatus | updateAccountBalance =>
      cases answer with
      | ok => exact open' allowed.1 allowed.1
      | error => simp [Session.effects, Summary.add]
  | _ => simp [Session.effects, Summary.add]

theorem Ready.uncommitted {w : World} {l : Session} (ready : Ready w l) :
    l.summary.committed = false ∧ l.summary.seeded = [] ∧ l.summary.applied = [] := by
  cases ready <;> simp [*, Summary.blank]

theorem Ready.effects {w : World} {l : Session} (ready : Ready w l) (tx : Tx) :
    l.effects = .blank ∧
      (l.record .commit (.ok ()) tx).effects = { l.summary with committed := true } := by
  obtain ⟨uncommitted, unseeded, unapplied⟩ := ready.uncommitted
  constructor
  · simp [Session.effects, uncommitted]
  · rw [Session.effects, Session.summary_record]
    simp [Summary.add, unseeded, unapplied]

/-- What the sessions have done to the committed tables, in total. -/
theorem total_effects (safe : protocol.Safe cfg) (stepped : cfg.step event = some next)
    {f : Summary → Int} (blank : f .blank = 0) :
    next.total (fun l => f l.effects) = cfg.total (fun l => f l.effects) +
      (committing ⟨cfg, event, next⟩).elim 0 fun own =>
        f { own.summary with committed := true } := by
  rcases Config.total_step (f := fun l : Session => f l.effects) stepped (fun _ => blank)
      (fun _ => rfl) with
    ⟨other, same⟩ | ⟨i, weather, c, rest, own, answer, shared, own', rfl, found, ran, changed⟩
  · have none : committing ⟨cfg, event, next⟩ = none := by
      cases event with
      | call i choice => exact absurd rfl (other i choice)
      | _ => rfl
    rw [same, none, Option.elim_none, add_zero]
  · obtain ⟨tx, -, rfl⟩ := exec_does ran
    rcases committing_call found ran with ⟨none, other⟩ | ⟨some, made⟩
    · rw [changed, none, effects_record tx (safe.pre found).2 other, Option.elim_none]
      ring
    · cases made
      have ready : Ready cfg.shared own := (safe.pre found).2
      obtain ⟨before, after⟩ := ready.effects tx
      rw [changed, some, Option.elim_some, before, after, blank]
      ring

/-- What all sessions can rely on in a step. -/
theorem step_keeps (safe : protocol.Safe cfg) (stepped : cfg.step event = some next) :
    Keeps [] cfg.shared next.shared := by
  rcases Config.step_cases stepped with
    ⟨r, -, rfl⟩ | ⟨i, weather, c, rest, own, answer, shared, own', -, found, -, ran, rfl⟩ |
    ⟨i, c, rest, own, -, -, rfl⟩ | ⟨-, rfl⟩
  · exact .refl
  · exact .call (o := server.arrive own.request) safe.inv (safe.threads i _ found).1
      (safe.pre found).2 (fun _ _ => nofun) ran
  · exact .refl
  · exact .of_same_tables rfl (.refl _)

theorem steps_keeps {later : List (Transition server)} {cfg' : Config server}
    (safe : protocol.Safe cfg) (run : Steps cfg later cfg') : Keeps [] cfg.shared cfg'.shared :=
  later_invariant (fun _ => True) (P := fun later => Keeps [] cfg.shared later.shared) safe .refl
    (fun _ _ _ safe kept stepped _ => kept.trans (step_keeps safe stepped)) run fun _ _ => trivial

/-- What the answers to allowed calls say, if no step takes it back, holds of all answers
    that sessions have had. -/
theorem history_invariant {T : World → Answered → Prop}
    (stable : ∀ w w' answered, Keeps [] w w' → T w answered → T w' answered)
    (call : ∀ {weather c answer w w' l l'}, Consistent w.tables w.sequences → Allowed w l c →
      exec weather c w l = some (answer, w', l') → T w' ⟨c, answer⟩)
    (run : Steps initial trace cfg) :
    ∀ (i : Nat) thread, cfg.threads[i]? = some thread → ∀ answered ∈ thread.own.history,
      T cfg.shared answered := by
  refine run_invariant (fun _ => True) (P := fun cfg => ∀ (i : Nat) thread,
    cfg.threads[i]? = some thread → ∀ answered ∈ thread.own.history, T cfg.shared answered)
    (by simp [initial]) ?_ run fun _ _ => trivial
  intro before event after safe all stepped _
  refine safe.all_step (T := fun w (l : Session) => ∀ answered ∈ l.history, T w answered) all
    stepped (fun _ _ member => absurd member List.not_mem_nil) (fun _ holds => holds) ?_ ?_ ?_
  · have kept : Keeps [] before.shared (restart before.shared) := .of_same_tables rfl (.refl _)
    exact fun _ holds answered member => stable _ _ _ kept (holds answered member)
  · exact fun _ _ keeps holds answered member =>
      stable _ _ _ (keeps.anti (by simp)) (holds answered member)
  · rintro i weather c rest own answer shared own' rfl found holds ran rfl answered member
    obtain ⟨tx, -, rfl⟩ := exec_does ran
    rcases List.mem_append.mp member with old | new
    · exact stable _ _ _ (step_keeps safe stepped) (holds answered old)
    · cases List.mem_singleton.mp new
      exact call safe.inv (safe.pre found).2 ran

/-- What the effects of a session say about the book: it holds of what is committed,
    and the book never takes it back. -/
theorem effects_invariant {T : World → Request → Summary → Prop}
    (blank : ∀ w request, T w request .blank)
    (stable : ∀ w w' request s, Keeps [] w w' → T w request s → T w' request s)
    (commit : ∀ cfg next own, protocol.Safe cfg → Commits cfg next own →
      T next.shared own.request { own.summary with committed := true })
    (run : Steps initial trace cfg) :
    ∀ (i : Nat) thread, cfg.threads[i]? = some thread →
      T cfg.shared thread.own.request thread.own.effects := by
  refine run_invariant (fun _ => True) (P := fun cfg => ∀ (i : Nat) thread,
    cfg.threads[i]? = some thread → T cfg.shared thread.own.request thread.own.effects) nofun ?_ run
    fun _ _ => trivial
  intro before event after safe all stepped _
  refine safe.all_step (T := fun w (l : Session) => T w l.request l.effects) all stepped
    (fun _ => blank _ _) (fun _ holds => holds) ?_ ?_ ?_
  · have kept : Keeps [] before.shared (restart before.shared) := .of_same_tables rfl (.refl _)
    exact fun _ holds => stable _ _ _ _ kept holds
  · exact fun _ _ keeps holds => stable _ _ _ _ (keeps.anti nofun) holds
  · rintro i weather c rest own answer shared own' rfl found holds ran rfl
    obtain ⟨tx, -, rfl⟩ := exec_does ran
    have allowed := (safe.pre found).2
    rcases call_commits safe stepped found ran with ⟨other, -⟩ | ⟨made, commits⟩
    · rw [effects_record tx allowed other]
      exact stable _ _ _ _ (step_keeps safe stepped) holds
    · cases made
      rw [(Ready.effects allowed tx).2]
      exact commit before after own safe commits

end Effects

/-- A session that has made a call serves a request that was not turned down at once. -/
theorem started (run : Steps initial trace cfg) {i : Nat} {thread : Thread server}
    (there : cfg.threads[i]? = some thread) (called : thread.own.history ≠ []) :
    ∃ c rest, handler thread.own.request = .call c rest := by
  have all : ∀ (i : Nat) thread, cfg.threads[i]? = some thread →
      (thread.own.history = [] ∧
        ∀ prog, thread.prog = some prog → prog = handler thread.own.request) ∨
      ∃ c rest, handler thread.own.request = .call c rest := by
    refine run.invariant (P := fun cfg : Config server => ∀ (i : Nat) thread,
      cfg.threads[i]? = some thread → (thread.own.history = [] ∧
        ∀ prog, thread.prog = some prog → prog = handler thread.own.request) ∨
      ∃ c rest, handler thread.own.request = .call c rest) ?_ (by simp [initial])
      fun _ _ => trivial
    intro before event after all stepped _
    refine Config.each_step all stepped (fun r => .inl ⟨rfl, by simp⟩) (fun prog own holds => ?_) ?_
    · exact holds.imp_left fun unstarted => ⟨unstarted.1, by simp⟩
    · intro weather c rest own answer w w' own' holds ran
      obtain ⟨tx, -, rfl⟩ := exec_eq_some ran
      rcases holds with ⟨-, same⟩ | calls
      · exact .inr ⟨c, rest, (same _ rfl).symm⟩
      · exact .inr calls
  rcases all i thread there with ⟨none, -⟩ | calls
  · exact absurd none called
  · exact calls

/-- Refinement: what a step does to the committed tables. -/
theorem step_entered (safe : protocol.Safe cfg) (stepped : cfg.step event = some next) :
    next.shared.tables = cfg.shared.tables ∨
      Entered cfg.shared.tables cfg.shared.sequences next.shared.tables := by
  cases step_books safe stepped with
  | nothing _ same => exact .inl same
  | enroll _ enrolls tables => exact .inr (tables ▸ .enroll enrolls)
  | hold _ _ _ _ holds tables => exact .inr (tables ▸ .hold holds)
  | settle _ _ settles _ _ tables => exact .inr (tables ▸ .settle settles)

/-- What every move of the book keeps holds of the committed tables of every run. -/
theorem book_invariant {P : Tables → Prop} (start : P .empty)
    (keeps : ∀ t ids t', Consistent t ids → P t → Entered t ids t' → P t')
    (run : Steps initial trace cfg) : P cfg.shared.tables := by
  apply run_invariant (fun _ => True) (P := fun cfg => P cfg.shared.tables) start _ run
  · exact fun _ _ => trivial
  · intro before event after safe holds stepped _
    rcases step_entered safe stepped with same | moved
    · rw [same]
      exact holds
    · exact keeps _ _ _ safe.inv holds moved

/-- Accounts stay in the book. -/
theorem account_stays {later : List (Transition server)} {cfg' : Config server}
    (safe : protocol.Safe cfg) (run : Steps cfg later cfg') {a : Int}
    (present : (cfg.shared.tables.account? a).isSome) :
    (cfg'.shared.tables.account? a).isSome := by
  refine later_invariant (fun _ => True) (P := fun cfg => (cfg.shared.tables.account? a).isSome)
    safe present ?_ run fun _ _ => trivial
  intro before event after safe present stepped _
  cases step_books safe stepped with
  | nothing _ tables => exact tables ▸ present
  | enroll _ _ tables =>
      change after.shared.tables = _ at tables
      rw [tables, Tables.account?_enroll, Option.isSome_or, present, Bool.true_or]
  | hold _ _ _ _ _ tables | settle _ _ _ _ _ tables =>
      change after.shared.tables = _ at tables
      simpa [tables] using present

/-- A schedule that plays reaches the configuration it ends in. -/
theorem reached (check : Transition server → Bool) (events : List (Event server)) {α : Type}
    (f : Config server → α) {a : α} (played : (initial.play check events).map f = some a) :
    ∃ trace cfg, Steps initial trace cfg ∧ (∀ moved ∈ trace, check moved = true) ∧ f cfg = a := by
  obtain ⟨cfg, ended, same⟩ := Option.map_eq_some_iff.mp played
  obtain ⟨trace, run, all⟩ := Steps.of_play ended
  exact ⟨trace, cfg, run, all, same⟩

/-- A schedule in two parts, with what was reached in between. -/
theorem reached_twice (check : Transition server → Bool) (events more : List (Event server))
    {α β : Type} (f : Config server → α) (g : Config server → β) {a : α} {b : β}
    (played : ((initial.play check events).bind fun cfg =>
      (cfg.play check more).map fun cfg' => (f cfg, g cfg')) = some (a, b)) :
    ∃ trace cfg later cfg', Steps initial trace cfg ∧ Steps cfg later cfg' ∧
      (∀ moved ∈ trace ++ later, check moved = true) ∧ f cfg = a ∧ g cfg' = b := by
  obtain ⟨cfg, ended, rest⟩ := Option.bind_eq_some_iff.mp played
  obtain ⟨cfg', ended', same⟩ := Option.map_eq_some_iff.mp rest
  obtain ⟨trace, run, all⟩ := Steps.of_play ended
  obtain ⟨later, continued, more⟩ := Steps.of_play ended'
  obtain ⟨first, second⟩ := Prod.mk.inj same
  refine ⟨trace, cfg, later, cfg', run, continued, fun moved member => ?_, first, second⟩
  exact (List.mem_append.mp member).elim (all moved) (more moved)

/-- A thread makes its next calls without interruption. -/
def turns (i n : Nat) : List (Event server) := List.replicate n (.call i .fair)

/-- The authorization of a deposit. -/
def depositing : Request := .authorize ⟨"deposit", [⟨1, 1, 100⟩, ⟨2, 2, 100⟩], ⟨"", .error ""⟩⟩ 2

/-- An asset account and a liability account are opened, and a deposit is authorized. -/
def deposit (assets : String × String) : List (Event server) :=
  .request (.createAccount ⟨1, assets.1, 2⟩ 1) :: turns 0 4 ++
    .request (.createAccount ⟨2, assets.2, 2⟩ 1) :: turns 1 4 ++ .request depositing :: turns 2 12

/-- Two settlements of the deposit that both read it before either locks it. -/
def overlapping (first second : Request) : List (Event server) :=
  deposit ("USD", "USD") ++ .request first :: .request second ::
    turns 3 2 ++ turns 4 2 ++ turns 3 10 ++ turns 4 10

end Fides.Ledger
