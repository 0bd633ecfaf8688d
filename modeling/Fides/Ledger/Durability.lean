import Fides.Ledger.Accounts

/-! # What was acknowledged is kept

A response goes out after the commit, so whatever else is going on, and however often the
process crashes afterwards, the book has what the response says.  Of a settlement it has
that the transaction is settled; which way, if captures and voids overlap, is not for the
first response to say.
-/

namespace Fides.Ledger

open Domain Service Storage FixedWidth Relational Concurrency

variable {cfg cfg' next : Config server} {trace more : List (Transition server)}

section Closing

/-- The session has read the transaction as settled, or has settled it. -/
def SeenSettled (l : Session) (id : TransactionId) : Prop :=
  (∃ transaction : Transaction, transaction.status ≠ .pending ∧
    (⟨.getTransaction id, .ok (some transaction)⟩ : Answered) ∈ l.history) ∨
  ∃ status postedAt, (id, status, postedAt) ∈ l.effects.settled

/-- The book has the transaction, and it is settled. -/
def Closed (t : Tables) (id : TransactionId) : Prop :=
  ∃ row, t.transaction? id.value = some row ∧ row.status ≠ 1

theorem Closed.later {t t' : Tables} {id : TransactionId} (closed : Closed t id)
    (continues : t.Continues t') : Closed t' id := by
  obtain ⟨row, found, ended⟩ := closed
  obtain ⟨row', found', onward⟩ := continues.transaction? found
  exact ⟨row', found', onward.not_pending ended⟩

private theorem closed_call {i : Nat} {weather : Weather} {c : Call} {rest own}
    {answer : c.Result} {own' : Session} (safe : protocol.Safe cfg)
    (stepped : cfg.step (.call i weather) = some next)
    (found : cfg.threads[i]? = some ⟨some (.call c rest), own⟩)
    (ran : exec weather c cfg.shared own = some (answer, next.shared, own'))
    (before : ∀ id, SeenSettled own id → Closed next.shared.tables id) :
    ∀ id, SeenSettled own' id → Closed next.shared.tables id := by
  have allowed := (safe.pre found).2
  obtain ⟨tx, -, rfl⟩ := exec_does ran
  rintro id (⟨transaction, ended, seen⟩ | ⟨status, postedAt, settled⟩)
  · rw [Session.history_record] at seen
    rcases List.mem_append.mp seen with old | new
    · exact before id (.inl ⟨transaction, ended, old⟩)
    · cases List.mem_singleton.mp new
      obtain ⟨row, there, built⟩ := row_of_read allowed ran
      exact ⟨row, there, (buildTransaction_ok built).2.2 ▸ status_ne.mpr ended⟩
  · rcases call_commits safe stepped found ran with ⟨other, -⟩ | ⟨made, commits⟩
    · rw [effects_record tx allowed other] at settled
      exact before id (.inr ⟨status, postedAt, settled⟩)
    · cases made
      rw [(Ready.effects allowed tx).2] at settled
      obtain ⟨ended, row, there, same, -⟩ := commits.made safe id status postedAt settled
      exact ⟨row, there, same ▸ status_ne.mpr ended⟩

/-- What sessions know to be settled is settled. -/
theorem closed_steps (run : Steps initial trace cfg) :
    ∀ (i : Nat) thread, cfg.threads[i]? = some thread →
      ∀ id, SeenSettled thread.own id → Closed cfg.shared.tables id := by
  refine run_invariant (fun _ => True) (P := fun cfg => ∀ (i : Nat) thread,
    cfg.threads[i]? = some thread → ∀ id, SeenSettled thread.own id → Closed cfg.shared.tables id)
    nofun ?_ run fun _ _ => trivial
  intro before event after safe all stepped _
  have later : ∀ id, Closed before.shared.tables id → Closed after.shared.tables id :=
    fun id closed => closed.later (continues_steps safe (.snoc .refl stepped))
  refine Config.all_step (T := fun (w : World) l => ∀ id, SeenSettled l id → Closed w.tables id)
    all stepped ?_ (fun _ holds => holds) (fun _ holds => holds) ?_
  · rintro r id (⟨transaction, -, seen⟩ | ⟨status, postedAt, settled⟩)
    · cases seen
    · cases settled
  · rintro i weather c rest own answer shared own' rfl found ran rfl
    exact ⟨closed_call safe stepped found ran fun id seen => later id (all i _ found id seen),
      fun j other _ _ holds id seen => later id (holds id seen)⟩

end Closing

/-- A settlement that was answered with success is about a transaction of the book that is settled,
    and says of it what the book says. -/
private theorem answer_closed (run : Steps initial trace cfg) {i : Nat} {response : Response}
    {own : Session} (found : cfg.threads[i]? = some ⟨some (.done (.ok response)), own⟩)
    {id : TransactionId} {status : TransactionStatus} {postedAt : Option Int}
    (asks : Asks own.request id status postedAt) :
    ∃ transaction row, response = .settled transaction ∧
      cfg.shared.tables.transaction? id.value = some row ∧ row.status ≠ 1 ∧
      withoutSettlement row.proto = withoutSettlement transaction := by
  have known := history_remembered run i _ found
  have closed := closed_steps run i _ found
  cases (((safe run).post found).2.1 response rfl).settled id status postedAt asks with
  | @replayed transaction seen done =>
    obtain ⟨row, there, ended⟩ := closed id (.inl ⟨transaction, done ▸ asks.terminal, seen⟩)
    obtain ⟨row', there', columns⟩ := known _ seen
    cases there.symm.trans there'
    exact ⟨_, row, rfl, there, ended, columns⟩
  | @made transaction seen committed settled =>
    have listed : (id, status, postedAt) ∈ own.effects.settled := by
      simp [Session.effects, committed, settled]
    obtain ⟨row, there, ended⟩ := closed id (.inr ⟨status, postedAt, listed⟩)
    obtain ⟨row', there', columns⟩ := known _ seen
    cases there.symm.trans there'
    have here : row.id = id.value := key_of_find there
    simp only [withoutSettlement, TransactionRow.proto, transactionToProto,
      ProtoTransaction.mk.injEq] at columns
    refine ⟨_, row, rfl, there, ended, ?_⟩
    simp only [withoutSettlement, TransactionRow.proto, here, columns.2.1, columns.2.2.2.1]

/-- Acknowledged writes are durable.  In every run, with crashes and any other requests before
    the response and after it: an account that was answered is in the book for good, with what
    was answered but for balances and version; so is a transaction that was answered to an
    authorization, with its key and all its entries, but for settlements; and a transaction whose
    settlement was answered with success is never pending again. -/
theorem acknowledged_durable (run : Steps initial trace cfg) (later : Steps cfg more cfg') {i : Nat}
    {response : Response} {own : Session}
    (found : cfg.threads[i]? = some ⟨some (.done (.ok response)), own⟩) :
    (∀ req now, own.request = .createAccount req now → req.assetCode.length ≤ 16 →
      ∃ account row, response = .account account ∧
        cfg'.shared.tables.account? account.id = some row ∧
        Contract.accountProto row.fixed = account) ∧
    (∀ req now, own.request = .authorize req now → req.idempotencyKey.length ≤ 64 →
      ∃ transaction entries, response = .authorized transaction entries ∧
        Recorded cfg'.shared req.idempotencyKey transaction entries) ∧
    ∀ id status postedAt, Asks own.request id status postedAt →
      ∃ transaction row, response = .settled transaction ∧
        cfg'.shared.tables.transaction? id.value = some row ∧ row.status ≠ 1 ∧
        withoutSettlement row.proto = withoutSettlement transaction := by
  have continues := continues_steps (safe run) later
  refine ⟨fun req now asked short => ?_, fun req now asked short => ?_,
    fun id status postedAt asks => ?_⟩
  · obtain ⟨accountType, account, answer, opened⟩ := answered_opened run found asked short
    obtain ⟨row, there, same⟩ := (opened.later continues).stored
    exact ⟨account, row, answer, there, same⟩
  · obtain ⟨transaction, entries, answer, recorded⟩ := authorized_recorded run found asked short
    exact ⟨transaction, entries, answer, recorded.stable (steps_keeps (safe run) later)⟩
  · obtain ⟨transaction, row, answer, there, ended, columns⟩ := answer_closed run found asks
    obtain ⟨row', there', onward⟩ := continues.transaction? there
    exact ⟨transaction, row', answer, there', onward.not_pending ended,
      (congrArg TransactionRow.proto onward.fixed).trans columns⟩

/-- A deposit is answered, its capture is under way, and the process crashes. -/
theorem acknowledged_durable_crash : ∃ trace cfg more cfg' transaction entries,
    Steps initial trace cfg ∧ Steps cfg more cfg' ∧ succeeded cfg 2 = some depositing ∧
    succeeded cfg' 2 = none ∧ Recorded cfg'.shared "deposit" transaction entries := by
  obtain ⟨trace, cfg, more, cfg', run, later, -, answered, gone⟩ := reached_twice (fun _ => true)
    (deposit ("USD", "USD")) (.request (.capture 1 5) :: turns 3 6 ++ [.crash])
    (fun cfg => succeeded cfg 2) (fun cfg' => succeeded cfg' 2)
    (a := some depositing) (b := none) (by decide +kernel)
  obtain ⟨response, own, found, request⟩ := succeeded_eq_some answered
  obtain ⟨transaction, entries, -, recorded⟩ :=
    (acknowledged_durable run later found).2.1 _ _ request (by decide)
  exact ⟨trace, cfg, more, cfg', transaction, entries, run, later, answered, gone, recorded⟩

end Fides.Ledger
