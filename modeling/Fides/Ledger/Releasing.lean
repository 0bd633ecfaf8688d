import Fides.Concurrency.Serial
import Fides.Service.History

/-! # A finished handler holds no locks

Leaving the scope of a database transaction with an error rolls it back, and no
handler answers with success before it has committed.  After that it only touches
the cache.
-/

namespace Fides.Ledger

open Domain Service Storage Concurrency

variable {α β : Type}

/-- A session that succeeds has ended its database transaction. -/
def Ended (outcome : Except Failure α) (l : Session) : Prop :=
  ∀ value, outcome = .ok value → l.tx = .idle

/-- Alone or not, the program has ended the transaction when it succeeds. -/
def Closes (p : Handler α) : Prop := ∀ l, server.Ensures Ended p l

/-- The program opens no transaction. -/
def StaysIdle (p : Handler α) : Prop := ∀ l : Session, l.tx = .idle → server.Ensures Ended p l

section Rules

theorem Closes.bind {p : Handler α} {next : α → Handler β} (closes : ∀ value, Closes (next value)) :
    Closes (p >>= next) := by
  intro l
  refine System.Ensures.bind (Q := fun _ _ => True) (.of_forall fun _ _ => trivial) ?_ ?_
  · intro e l _ value same
    cases same
  · exact fun value l _ => closes value l

theorem Closes.reject (e : ServiceError) : Closes (reject e : Handler α) := by
  intro l value same
  cases same

theorem StaysIdle.bind {p : Handler α} {next : α → Handler β} (idle : StaysIdle p)
    (later : ∀ value, StaysIdle (next value)) : StaysIdle (p >>= next) := by
  intro l start
  refine (idle l start).bind ?_ ?_
  · intro e l _ value same
    cases same
  · exact fun value l ended => later value l (ended value rfl)

theorem StaysIdle.done (outcome : Except Failure α) : StaysIdle (.done outcome) :=
  fun _ start _ _ => start

theorem StaysIdle.orReject (result : Except ServiceError α) : StaysIdle (orReject result) := by
  cases result <;> exact .done _

/-- The transaction after a call that ends it, and after one that leaves it alone. -/
private theorem exec_tx {weather : Weather} {c : Call} {w w' : World} {l l' : Session}
    {answer : c.Result} (ran : exec weather c w l = some (answer, w', l')) :
    (c = .commit ∨ c = .rollback → l'.tx = .idle) ∧
      (c = .begin ∨ (∃ id, c = .cacheGet id) ∨
        (∃ id posted pending, c = .cacheApplyDelta id posted pending) ∨
        (∃ id posted pending, c = .cacheSet id posted pending) → l'.tx = l.tx) := by
  obtain ⟨tx, out, rfl⟩ := exec_eq_some ran
  constructor
  · rintro (rfl | rfl) <;> cases weather <;> cases out <;> rfl
  · rintro (rfl | ⟨_, rfl⟩ | ⟨_, _, _, rfl⟩ | ⟨_, _, _, rfl⟩) <;> cases weather <;> cases out <;> rfl

/-- After a commit nothing but the cache is touched. -/
theorem Closes.commit_then {next : Handler α} (idle : StaysIdle next) :
    Closes (commit >>= fun _ => next) := by
  intro l weather w answer w' l' ran
  have ended := (exec_tx ran).1 (.inl rfl)
  cases answer with
  | ok value => exact idle l' ended
  | error e =>
    cases e <;>
      · intro value same
        cases same

theorem StaysIdle.cacheSet (id : AccountId) (posted pending : Int) :
    StaysIdle (cacheSet id posted pending) := by
  intro l start weather w answer w' l' ran value _
  rw [(exec_tx ran).2 (.inr (.inr (.inr ⟨_, _, _, rfl⟩))), start]

theorem StaysIdle.updateCache (updates : List BalanceUpdate) : StaysIdle (updateCache updates) := by
  induction updates with
  | nil => exact .done _
  | cons update updates ih =>
    refine .bind ?_ fun _ => ih
    intro l start weather w answer w' l' ran value _
    rw [(exec_tx ran).2 (.inr (.inr (.inl ⟨_, _, _, rfl⟩))), start]

/-- Either way out of the scope of a transaction ends it. -/
theorem inTransaction_idle {body : Handler α} (closes : Closes body) {l : Session}
    (start : l.tx = .idle) : server.Ensures (fun _ l => l.tx = .idle) (inTransaction body) l := by
  intro weather w answer w' l' ran
  have unopened : l'.tx = .idle := ((exec_tx ran).2 (.inl rfl)).trans start
  cases answer with
  | error e => exact unopened
  | ok value =>
    refine System.Ensures.onError (closes l') (fun value l ended => ended value rfl) ?_
    intro e l _ weather w answer w' l' ran
    exact (exec_tx ran).1 (.inr rfl)

end Rules

section Handlers

variable {l : Session}

/-- The handler leaves no transaction open, whichever way it ends. -/
private def LeavesIdle (p : Handler Response) (l : Session) : Prop :=
  server.Ensures (fun _ l => l.tx = .idle) p l

private theorem leavesIdle_orReject {result : Except ServiceError α} {next : α → Handler Response}
    (start : l.tx = .idle) (later : ∀ value, LeavesIdle (next value) l) :
    LeavesIdle (orReject result >>= next) l := by
  cases result with
  | error e => exact start
  | ok value => exact later value

private theorem leavesIdle_createAccount (req : CreateAccountRequest) (now : Int)
    (start : l.tx = .idle) : LeavesIdle (createAccount req now) l := by
  refine leavesIdle_orReject start fun accountType => ?_
  dsimp only
  split
  · exact start
  split
  · exact start
  · exact inTransaction_idle (.bind fun id => .commit_then
      (.bind (.cacheSet _ _ _) fun _ => .bind (.orReject _) fun _ => .done _)) start

private theorem leavesIdle_getAccount (id : Int) (start : l.tx = .idle) :
    LeavesIdle (getAccount id) l := by
  refine leavesIdle_orReject start fun id => inTransaction_idle (.bind fun found => ?_) start
  cases found with
  | none => exact .reject _
  | some account => exact .commit_then (.done _)

private theorem leavesIdle_getEntries (id : Int) (start : l.tx = .idle) :
    LeavesIdle (getEntries id) l := by
  refine leavesIdle_orReject start fun id => inTransaction_idle (.bind fun found => ?_) start
  cases found with
  | none => exact .reject _
  | some account => exact .bind fun entries => .commit_then (.done _)

private theorem leavesIdle_getBalance (id : Int) (start : l.tx = .idle) :
    LeavesIdle (getBalance id) l := by
  refine leavesIdle_orReject start fun id => ?_
  intro weather w answer w' l' ran
  have unopened : l'.tx = .idle := ((exec_tx ran).2 (.inr (.inl ⟨_, rfl⟩))).trans start
  cases answer <;> exact unopened

private theorem closes_authorizeNew (req : AuthorizeRequest) (now : Int) (metadata : JsonValue)
    (legs : List TransferLeg) : Closes (authorizeNew req now metadata legs) :=
  .bind fun _ => .bind fun _ => .bind fun _ => .bind fun _ => .bind fun _ => .commit_then
    (.bind (.updateCache _) fun _ => .bind (.orReject _) fun _ => .done _)

private theorem leavesIdle_authorize (req : AuthorizeRequest) (now : Int) (start : l.tx = .idle) :
    LeavesIdle (authorize req now) l := by
  unfold authorize
  split
  · exact start
  refine leavesIdle_orReject start fun metadata => leavesIdle_orReject start fun legs =>
    leavesIdle_orReject start fun _ => inTransaction_idle (.bind fun found => ?_) start
  cases found with
  | none => exact closes_authorizeNew req now metadata legs
  | some existing => exact .bind fun entries => .commit_then (.done _)

private theorem closes_settlePending (kind : Settlement) (transaction : Transaction)
    (id : TransactionId) : Closes (settlePending kind transaction id) :=
  .bind fun _ => .bind fun _ => .bind fun _ => .bind fun _ => .bind fun _ => .bind fun _ =>
    .commit_then (.bind (.updateCache _) fun _ => .bind (.orReject _) fun _ => .done _)

private theorem leavesIdle_settle (kind : Settlement) (id : Int) (start : l.tx = .idle) :
    LeavesIdle (settle kind id) l := by
  refine leavesIdle_orReject start fun id => inTransaction_idle (.bind fun found => ?_) start
  cases found with
  | none => exact .reject _
  | some transaction =>
    dsimp only
    split
    · exact .commit_then (.done _)
    split
    · exact .reject _
    · exact closes_settlePending kind transaction id

private theorem leavesIdle_handler (r : Request) : LeavesIdle (handler r) (server.arrive r) := by
  cases r with
  | createAccount req now => exact leavesIdle_createAccount req now rfl
  | getAccount id => exact leavesIdle_getAccount id rfl
  | getBalance id => exact leavesIdle_getBalance id rfl
  | authorize req now => exact leavesIdle_authorize req now rfl
  | capture id now => exact leavesIdle_settle _ id rfl
  | void id => exact leavesIdle_settle _ id rfl
  | getEntries id => exact leavesIdle_getEntries id rfl

end Handlers

/-- In every run, a thread that makes no more calls has no transaction open. -/
theorem finished_idle {cfg : Config server} {trace : List (Transition server)}
    (run : Steps initial trace cfg) {i : Nat} {thread : Thread server}
    (there : cfg.threads[i]? = some thread) (finished : thread.finished = true) :
    thread.own.tx = .idle := by
  have all : ∀ (i : Nat) (thread : Thread server), cfg.threads[i]? = some thread →
      thread.prog.elim (thread.own.tx = .idle) fun p => LeavesIdle p thread.own := by
    clear there
    induction run with
    | refl => simp [initial]
    | snoc _ stepped ih =>
      exact Config.ensured_step (R := fun l : Session => l.tx = .idle) leavesIdle_handler
        (fun _ => rfl) ih stepped
  obtain ⟨prog, own⟩ := thread
  replace all := all i _ there
  cases prog with
  | none => exact all
  | some p =>
    cases p with
    | done outcome => exact all
    | call c rest => cases finished

/-- Nobody waits where no request is being served. -/
theorem quiet_free {cfg : Config server} {trace : List (Transition server)}
    (run : Steps initial trace cfg) (quiet : cfg.quiet = true) (c : Call) (w : World)
    (l : Session) : ∀ thread ∈ cfg.threads, server.waits c w l thread.own = false := by
  intro thread member
  obtain ⟨i, there⟩ := List.mem_iff_getElem?.mp member
  have idle := finished_idle run there (List.all_eq_true.mp quiet thread member)
  simp [waits, idle, Tx.idle]

end Fides.Ledger
