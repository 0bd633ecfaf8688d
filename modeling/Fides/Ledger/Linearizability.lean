import Fides.Ledger.Reading
import Fides.Ledger.Settlements

/-! # Settlements at one moment

A settlement reads its transaction, locks its accounts and commits, with the calls of
other requests in between.  As long as no status is changed too late, it is answered as if
it had been served at once: where it looked for the transaction if that settles it, and
else where it commits.
-/

namespace Fides.Ledger

open Domain Service Storage FixedWidth Relational Bookkeeping Concurrency

variable {cfg : Config server} {trace : List (Transition server)}

section Netting

variable {t : Tables} {normal : Int → Side} {p q : Int} {lines : List (Line Int)}
  {updates updates' : List BalanceUpdate}

/-- The lines say what the update of an account is. -/
private theorem find_nets (nets : Nets normal p q lines updates) (a : Int) :
    find updates a = if ∃ line ∈ lines, line.account = a then
      some ⟨⟨a⟩, p * balance normal lines a, q * balance normal lines a⟩ else none := by
  split
  · rename_i named
    obtain ⟨update, listed, rfl⟩ := (nets.covers a).mpr named
    obtain ⟨posted, pending⟩ := nets.amounts update listed
    rw [← posted, ← pending]
    exact find_of_mem nets.distinct listed
  · rename_i unnamed
    refine find_eq_none.mpr fun update listed same => unnamed ?_
    exact (nets.covers a).mp ⟨update, listed, same⟩

private theorem settle_nets (nets : Nets normal p q lines updates)
    (nets' : Nets normal p q lines updates') (id status : Int) (postedAt : Option Int) :
    t.settle id status postedAt updates = t.settle id status postedAt updates' := by
  have same : AccountRow.updated updates = AccountRow.updated updates' := by
    funext row
    rw [AccountRow.updated, AccountRow.updated, find_nets nets, find_nets nets']
  rw [Tables.settle, Tables.settle, same]

private theorem overflow_nets (nets : Nets normal p q lines updates)
    (nets' : Nets normal p q lines updates') (applicable : Applicable t updates) :
    Contract.overflow t updates' = none := by
  refine List.findSome?_eq_none_iff.mpr fun update listed => ?_
  have found := find_of_mem nets'.distinct listed
  rw [find_nets nets', ← find_nets nets] at found
  obtain ⟨row, there, sound⟩ := applicable update (mem_of_find found)
  have version : Fits 32 (row.version + 1) := sound.version.2
  rw [there, Option.bind_some, Contract.misfit, if_neg (not_not.mpr ⟨sound.posted, sound.pending⟩),
    if_neg (not_not.mpr version)]

end Netting

private theorem Attempts.unique {r : Request} {id id' : TransactionId} {kind kind' : Settlement}
    (attempts : Attempts r id kind) (also : Attempts r id' kind') : id' = id ∧ kind' = kind := by
  cases attempts <;> cases also <;> exact ⟨rfl, rfl⟩

private theorem Attempts.asks {r : Request} {id : TransactionId} {kind : Settlement}
    (attempts : Attempts r id kind) : Asks r id kind.status kind.postedAt := by
  cases attempts with
  | capture id now => exact .capture id now
  | void id => exact .void id

section Programs

variable {α β : Type} {Q : α → Session → Prop} {R : β → Session → Prop} {l : Session}

/-- If the program succeeds, it does so with this. -/
private def Gives (Q : α → Session → Prop) (p : Handler α) (l : Session) : Prop :=
  server.Ensures (fun outcome l' => ∀ value, outcome = .ok value → Q value l') p l

private theorem Gives.done {value : α} (holds : Q value l) : Gives Q (.done (.ok value)) l := by
  rintro _ ⟨⟩
  exact holds

private theorem Gives.fail (e : Failure) : Gives Q (.done (.error e)) l := by
  rintro _ ⟨⟩

/-- What comes before does not matter. -/
private theorem Gives.after {p : Handler α} {next : α → Handler β}
    (last : ∀ value l', Onward l l' → Gives R (next value) l') : Gives R (p >>= next) l :=
  System.Ensures.bind (ensures_onward p l) (fun e _ _ => Gives.fail e) fun value l' onward =>
    last value l' onward

private theorem Gives.storage {c : Call} {next : α → Handler β}
    (read : c.Result → Except StorageError α)
    (after : ∀ answer value tx, read answer = .ok value →
      Gives R (next value) (l.record c answer tx)) :
    Gives R (.call c (fun answer => orStorageError (read answer)) >>= next) l := by
  intro weather w answer w' l' ran
  obtain ⟨tx, -, rfl⟩ := exec_eq_some ran
  change Gives R (orStorageError (read answer) >>= next) _
  cases said : read answer with
  | ok value => exact after answer value tx said
  | error e => exact Gives.fail _

private theorem Gives.commit {next : Handler β}
    (after : ∀ tx, Gives R next (l.record .commit (.ok ()) tx)) :
    Gives R (commit >>= fun _ => next) l := by
  intro weather w answer w' l' ran
  obtain ⟨tx, -, rfl⟩ := exec_eq_some ran
  rcases answer with (e | message | _ | _) | value
  · exact Gives.fail _
  · exact Gives.fail _
  · exact Gives.fail _
  · exact Gives.fail _
  · exact after tx

private theorem Gives.inTransaction {body : Handler α}
    (inner : ∀ tx, Gives Q body (l.record .begin (.ok ()) tx)) : Gives Q (inTransaction body) l := by
  refine Gives.storage _ fun answer value tx said => ?_
  cases said
  refine System.Ensures.onError (inner tx) (fun _ _ holds => holds) ?_
  rintro e l - weather w answer w' l' ran _ ⟨⟩

end Programs

/-- How a settlement succeeds: the transaction was settled before, and nothing was marked; or it
    was pending, and the commit comes after its mark. -/
private inductive Concluded (kind : Settlement) (id : TransactionId) (response : Response)
    (l : Session) : Prop where
  | replayed {earlier transaction}
      (heard : Heard l earlier ⟨.getTransaction id, .ok (some transaction)⟩)
      (done : transaction.status = kind.status)
      (same : response = .settled (transactionToProto transaction))
      (unmarked : ∀ status postedAt,
        (⟨.updateTransactionStatus id status postedAt, .ok ()⟩ : Answered) ∉ l.history)
  | made {earlier transaction before}
      (heard : Heard l earlier ⟨.getTransaction id, .ok (some transaction)⟩)
      (same : response = .settled ⟨id.value, transaction.idempotencyKey,
        transactionStatusToI16 kind.status, transaction.createdAt, kind.postedAt.getD 0⟩)
      (commits : Heard l before ⟨.commit, .ok ()⟩)
      (marked : (⟨.updateTransactionStatus id kind.status kind.postedAt, .ok ()⟩ : Answered) ∈ before)

private theorem concluded_settlePending {kind : Settlement} {id : TransactionId}
    {transaction : Transaction} {l : Session} {earlier : List Answered}
    (heard : Heard l earlier ⟨.getTransaction id, .ok (some transaction)⟩) :
    Gives (Concluded kind id) (settlePending kind transaction id) l := by
  refine Gives.after fun entries l₁ onward₁ => Gives.after fun accounts l₂ onward₂ => ?_
  refine Gives.after fun updates l₃ onward₃ => Gives.storage _ fun answer value tx said => ?_
  cases said
  have marked : (⟨.updateTransactionStatus id kind.status kind.postedAt, .ok ()⟩ : Answered) ∈
      (l₃.record (.updateTransactionStatus id kind.status kind.postedAt) (.ok ()) tx).history :=
    List.mem_append_right _ List.mem_cons_self
  have marking := Onward.record l₃ (.updateTransactionStatus id kind.status kind.postedAt) (.ok ()) tx
  have onward := ((onward₁.trans onward₂).trans onward₃).trans marking
  refine Gives.after fun rows l₄ onward₄ => Gives.after fun _ l₅ onward₅ => Gives.commit fun tx' => ?_
  have known := (onward.trans onward₄).trans onward₅
  have commits := heard_last l₅ .commit (.ok ()) tx'
  refine Gives.after fun _ l₆ onward₆ => ?_
  cases built : Transaction.new id transaction.idempotencyKey kind.status transaction.metadata
      transaction.createdAt (kind.postedAt.getD 0) with
  | error e => exact Gives.fail _
  | ok updated =>
    refine Gives.done (.made (heard.trans (known.history.trans ?_)) ?_
      (commits.trans onward₆.history) ?_)
    · exact (Onward.record l₅ .commit (.ok ()) tx').history.trans onward₆.history
    · rw [transactionToProto_new built]
    · exact (onward₄.trans onward₅).history.subset marked

private theorem concluded_settle {kind : Settlement} {id : Int} {l : Session}
    (unasked : l.history = []) (valid : ¬ id ≤ 0) :
    Gives (Concluded kind ⟨id⟩) (settle kind id) l := by
  unfold settle TransactionId.new
  rw [if_neg valid]
  refine Gives.inTransaction fun tx => Gives.storage _ fun answer found tx' said => ?_
  cases said
  cases found with
  | none => exact Gives.fail _
  | some transaction =>
    have heard := heard_last (l.record .begin (.ok ()) tx) (.getTransaction ⟨id⟩)
      (.ok (some transaction)) tx'
    change Gives _ (if _ then _ else _) _
    split
    · rename_i done
      refine Gives.commit fun tx'' => Gives.done (.replayed (heard.trans ?_) done rfl ?_)
      · exact (Onward.record _ _ _ _).history
      · simp [unasked]
    split
    · exact Gives.fail _
    · exact concluded_settlePending heard

/-- A settlement is turned down as it is, or concluded. -/
private def Ending (outcome : Except Failure Response) (l : Session) : Prop :=
  ∀ id kind, Attempts l.request id kind →
    (id.value ≤ 0 →
      l.history = [] ∧ outcome = .error (.error (.ofTransaction (.invalidId id.value)))) ∧
    ∀ response, outcome = .ok response → Concluded kind id response l

private theorem ending_settle {r : Request} {kind : Settlement} {id : Int}
    (attempts : Attempts r ⟨id⟩ kind) :
    server.Ensures Ending (settle kind id) (server.arrive r) := by
  by_cases valid : id ≤ 0
  · unfold settle TransactionId.new
    rw [if_pos valid]
    intro id' kind' also
    obtain ⟨rfl, rfl⟩ := attempts.unique also
    exact ⟨fun _ => ⟨rfl, rfl⟩, by rintro _ ⟨⟩⟩
  · refine ((ensures_onward _ _).and (concluded_settle rfl valid)).mono ?_
    rintro outcome l ⟨onward, concluded⟩ id' kind' also
    rw [onward.request] at also
    obtain ⟨rfl, rfl⟩ := attempts.unique also
    exact ⟨fun low => absurd low valid, concluded⟩

private theorem ending_handler (r : Request) : server.Ensures Ending (handler r) (server.arrive r) := by
  have other (never : ∀ id kind, ¬ Attempts r id kind) :
      server.Ensures Ending (handler r) (server.arrive r) := by
    refine (ensures_onward _ _).mono fun outcome l onward id kind attempts => ?_
    rw [onward.request] at attempts
    exact absurd attempts (never id kind)
  cases r with
  | capture id now => exact ending_settle (.capture id now)
  | void id => exact ending_settle (.void id)
  | _ => exact other (by rintro id kind ⟨⟩)

/-- What the contract says about a settlement that is made. -/
private theorem meaning_settle {r : Request} {id : TransactionId} {kind : Settlement} {w : World}
    {row : TransactionRow} {updates : List BalanceUpdate} (attempts : Attempts r id kind)
    (valid : ¬ id.value ≤ 0) (found : w.tables.transaction? id.value = some row)
    (pending : row.status = 1)
    (settles : Settles w.tables id.value (transactionStatusToI16 kind.status) kind.postedAt updates) :
    (Contract.meaning r w).1 = .ok (.settled
        (row.settled id.value (transactionStatusToI16 kind.status) kind.postedAt).proto) ∧
      (Contract.meaning r w).2.database =
        ⟨w.tables.settle id.value (transactionStatusToI16 kind.status) kind.postedAt updates,
          w.sequences⟩ := by
  obtain ⟨_, same, sound⟩ := settles.present
  cases found.symm.trans same
  have paid : ∀ time ∈ kind.postedAt, 0 < time := by
    intro time stamped
    by_cases posted : transactionStatusToI16 kind.status = 2
    · obtain ⟨p, set, late⟩ := sound.posted posted
      cases stamped.symm.trans set
      exact late
    · cases (sound.unposted posted).symm.trans stamped
  have terminal : ¬ 1 = transactionStatusToI16 kind.status := by
    rcases settles.terminal with two | three <;> omega
  have settle (p : Int) (netting : Nets w.tables.normal p (-1) (w.tables.lines id.value) updates) :
      Contract.settle kind.status p kind.postedAt kind.attempted id.value w =
        (.ok (.settled
          (row.settled id.value (transactionStatusToI16 kind.status) kind.postedAt).proto),
          ⟨⟨w.tables.settle id.value (transactionStatusToI16 kind.status) kind.postedAt updates,
            w.sequences⟩, Contract.applied w.cache
              (netted w.tables.normal p (-1) (w.tables.lines id.value))⟩) := by
    have fits := overflow_nets netting (netted_nets _) settles.applicable
    simp only [Contract.settle, if_neg valid, found, pending, if_neg terminal, ne_eq,
      not_true_eq_false, if_false, if_neg (not_not.mpr paid), fits]
    rw [settle_nets netting (netted_nets _)]
  have nets := settles.nets
  cases attempts with
  | capture id now =>
    exact ⟨congrArg Prod.fst (settle 1 nets), congrArg (·.2.database) (settle 1 nets)⟩
  | void id => exact ⟨congrArg Prod.fst (settle 0 nets), congrArg (·.2.database) (settle 0 nets)⟩

variable {i : Nat} {own : Session} {outcome : Except Failure Response}

/-- A transaction that was read is the one that is settled, but for the status. -/
private theorem proto_of_read (run : Steps initial trace cfg) {thread : Thread server}
    (there : cfg.threads[i]? = some thread) {id : TransactionId} {earlier : List Answered}
    {transaction : Transaction}
    (heard : Heard thread.own earlier ⟨.getTransaction id, .ok (some transaction)⟩)
    {moved : Transition server} (member : moved ∈ trace) {row : TransactionRow}
    (found : moved.before.shared.tables.transaction? id.value = some row) (status : Int)
    (postedAt : Option Int) :
    (row.settled id.value status postedAt).proto =
      ⟨id.value, transaction.idempotencyKey, status, transaction.createdAt, postedAt.getD 0⟩ := by
  obtain ⟨read, l, made⟩ := made_of_heard run there heard
  obtain ⟨⟨_, first⟩, _, later⟩ := made.split run
  obtain ⟨weather, -, w', l', ran⟩ := made.called
  obtain ⟨old, seen, built⟩ := lookup_eq_some.mp (getTransaction_answer (made.allowed run) ran).1
  obtain ⟨before, after, -, reached, stepped, rest⟩ := run.split member
  -- Both have gone on to the row that is there now.
  obtain ⟨now, kept, continues⟩ := (continues_steps (safe first) later).transaction? seen
  obtain ⟨_, kept', continues'⟩ := (continues_steps (safe reached)
    (Steps.append (.snoc .refl stepped) rest)).transaction? found
  cases kept.symm.trans kept'
  have fixed : row.fixed = old.fixed := continues'.fixed.symm.trans continues.fixed
  have named : row.id = id.value := key_of_find found
  have proto := transactionToProto_build built
  have key : transaction.idempotencyKey = row.idempotencyKey := by
    change transaction.idempotencyKey = row.fixed.idempotencyKey
    rw [fixed]
    exact congrArg ProtoTransaction.idempotencyKey proto
  have created : transaction.createdAt = row.createdAt := by
    change transaction.createdAt = row.fixed.createdAt
    rw [fixed]
    exact congrArg ProtoTransaction.createdAt proto
  rw [TransactionRow.settled, if_pos named, TransactionRow.proto, key, created, named]

/-- The commit of a settlement moves the database as the contract says. -/
private theorem meaning_commit (run : Steps initial trace cfg)
    (inTime : ∀ moved ∈ trace, timely moved = true) {thread : Thread server}
    (there : cfg.threads[i]? = some thread) {id : TransactionId} {kind : Settlement}
    (attempts : Attempts thread.own.request id kind) (valid : ¬ id.value ≤ 0)
    {earlier before : List Answered} {transaction : Transaction}
    (heard : Heard thread.own earlier ⟨.getTransaction id, .ok (some transaction)⟩)
    {moved : Transition server} {l : Session} (made : Made trace i before ⟨.commit, .ok ()⟩ moved l)
    (marked : l.summary.settled ≠ []) :
    (Contract.meaning thread.own.request moved.before.shared).1 =
        .ok (.settled ⟨id.value, transaction.idempotencyKey, transactionStatusToI16 kind.status,
          transaction.createdAt, kind.postedAt.getD 0⟩) ∧
      moved.after.shared.database =
        (Contract.meaning thread.own.request moved.before.shared).2.database := by
  have ready : Ready moved.before.shared l := made.allowed run
  have onward := made.onward run there
  obtain ⟨first, rest, all, reached, stepped, -⟩ := run.split made.member
  obtain ⟨weather, l', ran⟩ := made.exec run
  obtain ⟨tx, out, -⟩ := exec_eq_some (exec_fair ran rfl)
  cases ready with
  | reading _ summary => exact absurd (by rw [summary]; rfl) marked
  | enrolling request =>
    rw [onward.request, request] at attempts
    cases attempts
  | holding request =>
    rw [onward.request, request] at attempts
    cases attempts
  | @settling id' status postedAt row updates asks settles found versions summary =>
    have asked : Asks l.request id kind.status kind.postedAt := by
      rw [onward.request] at attempts
      exact attempts.asks
    obtain ⟨rfl, rfl, rfl⟩ := asks.unique asked
    have pending : row.status = 1 := by
      obtain ⟨rest, at_call⟩ := made.there
      have steady := Steady.initial.steps reached fun moved member =>
        inTime moved (all ▸ List.mem_append_left _ member)
      have written : { row with
          status := transactionStatusToI16 kind.status, postedAt := kind.postedAt } ∈
          l.tx.versions.transactions := by
        rw [versions]
        exact List.mem_cons_self
      have locked := ((safe reached).threads i _ at_call).1.guarded.transactions _ written
      have same : row.id = id.value := key_of_find found
      change .transaction row.id ∈ l.tx.held at locked
      exact steady.locks i _ at_call id.value row (same ▸ locked) found
    obtain ⟨answer, effect⟩ := meaning_settle attempts valid found pending settles
    refine ⟨by rw [answer, proto_of_read run there heard made.member found], ?_⟩
    rw [effect, ← merge_settle (safe reached).inv settles found, ← versions]
    exact (congrArg (·.2.1.database) (Option.some.inj out)).symm

/-- What the contract says of a settlement at the call that looks for the transaction. -/
private theorem linearized_read (run : Steps initial trace cfg)
    (ended : cfg.threads[i]? = some ⟨some (.done outcome), own⟩) {id : TransactionId}
    {earlier : List Answered} {found : Option Transaction}
    (heard : Heard own earlier ⟨.getTransaction id, .ok found⟩)
    (meant : ∀ w : World, lookup buildTransaction (w.tables.transaction? id.value) = .ok found →
      Contract.meaning own.request w = (outcome, w)) : Linearized trace i own outcome := by
  obtain ⟨moved, l, made⟩ := made_of_heard run ended heard
  obtain ⟨weather, l', ran⟩ := made.exec run
  obtain ⟨called, same, -⟩ := made.called
  obtain ⟨read, unchanged⟩ := getTransaction_answer (made.allowed run) ran
  have meaning := meant _ read
  refine .moment made.member ⟨called, same⟩ (by rw [meaning]) ?_
  rw [meaning, unchanged]

private theorem meaning_attempts {r : Request} {id : TransactionId} {kind : Settlement}
    (attempts : Attempts r id kind) : ∃ share,
      Contract.meaning r = Contract.settle kind.status share kind.postedAt kind.attempted id.value := by
  cases attempts with
  | capture id now => exact ⟨1, rfl⟩
  | void id => exact ⟨0, rfl⟩

/-- A settlement that is refused. -/
private theorem linearized_refusal (run : Steps initial trace cfg) {e : Failure}
    (ended : cfg.threads[i]? = some ⟨some (.done (.error e)), own⟩) {id : TransactionId}
    {kind : Settlement} (attempts : Attempts own.request id kind) (valid : ¬ id.value ≤ 0) :
    Linearized trace i own (.error e) := by
  obtain ⟨share, meaning⟩ := meaning_attempts attempts
  rcases explained_run run ended e rfl with ⟨unasked, refusal, rfl, unfit⟩ | grounds
  · generalize own.request = r at attempts unfit
    cases attempts with
    | capture | void =>
      cases unfit with
      | malformed low => exact absurd low valid
  cases grounds with
  | account named =>
    generalize own.request = r at attempts named
    cases attempts <;> cases named
  | booked booked heard => exact (booked_found run ended booked heard).elim
  | transaction also heard =>
    obtain ⟨rfl, rfl⟩ := attempts.unique also
    refine linearized_read run ended heard fun w read => ?_
    rw [meaning, Contract.settle, if_neg valid, lookup_eq_none.mp read]
    rfl
  | funds request =>
    rw [request] at attempts
    cases attempts
  | @state id kind transaction _ also heard other settled =>
    obtain ⟨rfl, rfl⟩ := attempts.unique also
    refine linearized_read run ended heard fun w read => ?_
    obtain ⟨row, found, built⟩ := lookup_eq_some.mp read
    have status := (buildTransaction_ok built).2.2
    have current : Contract.statusOf row.status = transaction.status := by
      rw [← status]
      cases transaction.status <;> rfl
    have apart : ¬ row.status = transactionStatusToI16 kind.status := by
      rw [← status, transactionStatusToI16_inj]
      exact other
    have final : row.status ≠ 1 := by
      rw [← status]
      exact status_ne.mpr settled
    simp only [meaning, Contract.settle, if_neg valid, found, if_neg apart, if_pos final, current]
    rfl
  | @storage _ answered _ heard failed first =>
    have other : inserts answered.call = false := by
      by_contra inserting
      obtain ⟨-, req, now, request, -⟩ := first (by simpa using inserting)
      rw [request] at attempts
      cases attempts
    obtain ⟨sql, moved, l, rfl, made⟩ := database_of_heard run ended heard failed other
    exact .database made failed rfl
  | late committed =>
    rw [((safe run).post ended).2.2 e rfl] at committed
    cases committed

/-- A settlement that was made before. -/
private theorem linearized_replay (run : Steps initial trace cfg) {transaction : Transaction}
    (ended : cfg.threads[i]? =
      some ⟨some (.done (.ok (.settled (transactionToProto transaction)))), own⟩)
    {id : TransactionId} {kind : Settlement} (attempts : Attempts own.request id kind)
    (valid : ¬ id.value ≤ 0) {earlier : List Answered}
    (heard : Heard own earlier ⟨.getTransaction id, .ok (some transaction)⟩)
    (done : transaction.status = kind.status) :
    Linearized trace i own (.ok (.settled (transactionToProto transaction))) := by
  obtain ⟨share, meaning⟩ := meaning_attempts attempts
  refine linearized_read run ended heard fun w read => ?_
  obtain ⟨row, found, built⟩ := lookup_eq_some.mp read
  have status : row.status = transactionStatusToI16 kind.status := by
    rw [← (buildTransaction_ok built).2.2, done]
  simp only [meaning, Contract.settle, if_neg valid, found, if_pos status,
    transactionToProto_build built]

/-- A step of a settlement that changes the tables is the commit after its mark. -/
private theorem changed_marked (run : Steps initial trace cfg) {thread : Thread server}
    (there : cfg.threads[i]? = some thread) {id : TransactionId} {kind : Settlement}
    (attempts : Attempts thread.own.request id kind) {moved : Transition server}
    (member : moved ∈ trace) (called : ∃ weather, moved.event = .call i weather)
    (changed : moved.after.shared.tables ≠ moved.before.shared.tables) :
    ∃ l, Made trace i l.history ⟨.commit, .ok ()⟩ moved l ∧
      l.summary.settled = [(id, kind.status, kind.postedAt)] ∧
      (⟨.commit, .ok ()⟩ : Answered) ∈ thread.own.history := by
  obtain ⟨weather, called⟩ := called
  obtain ⟨before, later, -, reached, stepped, rest⟩ := run.split member
  rw [called] at stepped
  obtain ⟨c, next, l, answer, w', l', found, ran, after⟩ := Config.step_call stepped
  rcases call_commits (safe reached) stepped found ran with ⟨-, same⟩ | ⟨commit, commits⟩
  · exact absurd same changed
  cases commit
  have made : Made trace i l.history ⟨.commit, .ok ()⟩ moved l :=
    ⟨member, ⟨weather, called, w', l', ran⟩, ⟨next, found⟩, rfl⟩
  have onward := made.onward run there
  refine ⟨l, made, ?_, ?_⟩
  · rw [onward.request] at attempts
    have merged := commits.tables
    cases commits.ready with
    | reading versions =>
      rw [versions] at merged
      exact absurd merged changed
    | enrolling request =>
      rw [request] at attempts
      cases attempts
    | holding request =>
      rw [request] at attempts
      cases attempts
    | settling asks _ _ _ summary =>
      obtain ⟨rfl, rfl, rfl⟩ := asks.unique attempts.asks
      rw [summary]
  · obtain ⟨tx, -, rfl⟩ := exec_eq_some ran
    have there' : moved.after.threads[i]? =
        some ⟨some (next (.ok ())), l.record .commit (.ok ()) tx⟩ := by
      rw [after]
      exact List.getElem?_set_self (List.getElem?_eq_some_iff.mp found).1
    obtain ⟨_, last, onward'⟩ := onward_steps rest there'
    cases there.symm.trans last
    exact onward'.history.subset (List.mem_append_right _ List.mem_cons_self)

/-- As long as no status is changed too late, a settlement ends as the contract says, served at once
    at one of its calls, which moves the database as the contract says, or the database has failed;
    and so is every step of it that changes the tables. -/
theorem settlements_linearizable (run : Steps initial trace cfg)
    (inTime : ∀ moved ∈ trace, timely moved = true)
    (ended : cfg.threads[i]? = some ⟨some (.done outcome), own⟩) {id : TransactionId}
    {kind : Settlement} (attempts : Attempts own.request id kind) :
    Linearized trace i own outcome ∧
      ∀ moved ∈ trace, (∃ weather, moved.event = .call i weather) →
        moved.after.shared.tables ≠ moved.before.shared.tables →
        (Contract.meaning own.request moved.before.shared).1 = outcome ∧
          moved.after.shared.database =
            (Contract.meaning own.request moved.before.shared).2.database := by
  obtain ⟨early, concluded⟩ := ensured_run ending_handler run ended id kind attempts
  by_cases valid : id.value ≤ 0
  · obtain ⟨unasked, rfl⟩ := early valid
    obtain ⟨share, meaning⟩ := meaning_attempts attempts
    refine ⟨.always unasked fun w => ?_, fun moved member called changed => ?_⟩
    · rw [meaning, Contract.settle, if_pos valid]
      rfl
    · obtain ⟨l, -, -, committed⟩ := changed_marked run ended attempts member called changed
      simp [unasked] at committed
  cases outcome with
  | error e =>
    refine ⟨linearized_refusal run ended attempts valid, fun moved member called changed => ?_⟩
    obtain ⟨l, -, -, committed⟩ := changed_marked run ended attempts member called changed
    rw [← Session.committed_iff, ((safe run).post ended).2.2 e rfl] at committed
    cases committed
  | ok response =>
    cases concluded response rfl with
    | replayed heard done same unmarked =>
      subst same
      refine ⟨linearized_replay run ended attempts valid heard done, fun moved member called changed => ?_⟩
      obtain ⟨l, made, settled, -⟩ := changed_marked run ended attempts member called changed
      have marked := Session.mem_settled.mp (settled ▸ List.mem_cons_self)
      exact absurd ((made.onward run ended).history.subset marked) (unmarked _ _)
    | made heard same commits marked =>
      subst same
      obtain ⟨moved, l, made⟩ := made_of_heard run ended commits
      have listed := Session.mem_settled.mpr (made.history.symm ▸ marked)
      obtain ⟨answer, effect⟩ := meaning_commit run inTime ended attempts valid heard made
        (List.ne_nil_of_mem listed)
      obtain ⟨weather, called, -⟩ := made.called
      refine ⟨.moment made.member ⟨weather, called⟩ answer effect, fun moved member called changed => ?_⟩
      obtain ⟨l, made, settled, -⟩ := changed_marked run ended attempts member called changed
      exact meaning_commit run inTime ended attempts valid heard made (by simp [settled])

/-- A capture that waits for an authorization on the same accounts. -/
theorem settlements_linearizable_capture : ∃ trace cfg own, Steps initial trace cfg ∧
    (∀ moved ∈ trace, timely moved = true) ∧
    cfg.threads[3]? =
      some ⟨some (.done (.ok (.settled ⟨1, "deposit", 2, 2, 5⟩))), own⟩ ∧
    Linearized trace 3 own (.ok (.settled ⟨1, "deposit", 2, 2, 5⟩)) := by
  obtain ⟨trace, cfg, run, inTime, answered⟩ := reached timely
    (deposit ("USD", "USD") ++ .request (.capture 1 5) :: turns 3 3 ++
      .request (.authorize ⟨"more", [⟨1, 1, 50⟩, ⟨2, 2, 50⟩], ⟨"", .error ""⟩⟩ 6) :: turns 4 12 ++
      turns 3 9) (answer · 3)
    (a := some (.capture 1 5, .settled ⟨1, "deposit", 2, 2, 5⟩)) (by decide +kernel)
  obtain ⟨own, found, request⟩ := answer_eq_some answered
  have attempts : Attempts own.request ⟨1⟩ (.capture 5) := request ▸ .capture 1 5
  exact ⟨trace, cfg, own, run, inTime, found, (settlements_linearizable run inTime found attempts).1⟩

end Fides.Ledger
