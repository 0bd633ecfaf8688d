import Fides.Ledger.Stages

/-! # Handlers do what their requests mean -/

namespace Fides.Ledger

open Domain Service Storage FixedWidth Relational Bookkeeping Concurrency

variable {w : World}

/-- A failure of the database is a refusal, whatever ids it has drawn. -/
private theorem like_failing (e : SqlError) (ids : Sequences) (w : World) :
    Contract.Like (.error (.error (.ofStorage (.ofSqlx e))), drawing ids w) (Contract.failing e w) :=
  ⟨rfl, rfl, rfl, nofun⟩

/-- A program that comes to an end in the database does not go on. -/
private theorem like_fails {α : Type} {p : Handler α} {next : α → Handler Response} {v v' : Tables}
    {e : SqlError} (ids : Sequences) {ids' : Sequences}
    (failed : alone p (drawing ids w) v =
      (.error (.error (.ofStorage (.ofSqlx e))), drawing ids' w, v')) :
    Contract.Like (visible (p >>= next) (drawing ids w) v) (Contract.failing e w) := by
  rw [visible_fails failed]
  exact like_failing e ids' w

/-- A call that the database refuses ends the program. -/
private theorem like_refused {α : Type} {c : Call} {rest : c.Result → Handler α}
    {next : α → Handler Response} {e : SqlError} (ids : Sequences) (answer : c.Result)
    (answered : answering c (w, .empty) = (answer, drawing ids w, .empty))
    (refused : rest answer = reject (.ofStorage (.ofSqlx e))) :
    Contract.Like (visible (Prog.call c rest >>= next) w .empty) (Contract.failing e w) := by
  have failed : alone (.call c rest) w .empty =
      (.error (.error (.ofStorage (.ofSqlx e))), drawing ids w, .empty) := by
    rw [alone_call answered, refused]
    rfl
  exact like_fails w.sequences failed

section Authorize

open Contract (Like failing overflow entryRows applied)

variable {req : AuthorizeRequest} {now : Int} {metadata : JsonValue} {legs : List TransferLeg}
  {accounts : List Account}

/-- The rows and the updates of a new transaction make a hold. -/
private theorem holds_new {row : TransactionRow} {ids : Sequences}
    (book : Consistent w.tables w.sequences) (sound : row.Sound) (pending : row.status = 1)
    (id : row.id = w.sequences.transactions + 1) (within : row.id ≤ ids.transactions)
    (freshKey : w.tables.byKey? row.idempotencyKey = none) (created : 0 < now)
    (positive : ∀ leg ∈ legs, 0 < leg.amount.value)
    (there : ∀ leg ∈ legs, ∃ account, w.tables.account? leg.accountId.value = some account)
    (formed : WellFormed (legs.map TransferLeg.line))
    (room : w.sequences.entries + legs.length ≤ ids.entries)
    (fits : overflow w.tables (netted w.tables.normal 0 1 (legs.map TransferLeg.line)) = none) :
    Holds w.tables ids row (entryRows row now w.sequences.entries legs)
      (netted w.tables.normal 0 1 (legs.map TransferLeg.line)) where
  fresh := fresh_transaction book id
  freshKey := freshKey
  sound := sound
  pending := pending
  within := within
  entries e member := by
    obtain ⟨leg, inside, id, above, below, rfl⟩ := mem_entryRows member
    refine ⟨?_, by simp only [entryFor]; omega, ?_⟩
    · exact sound_entryFor (checked_entryFor created (positive leg inside) id)
    · rw [find_eq_none]
      intro old stored same
      have := (book.entryRows old stored).2
      simp only [entryFor] at same
      change old.id = id at same
      omega
  belong e member := by
    obtain ⟨leg, inside, id, above, below, rfl⟩ := mem_entryRows member
    exact ⟨rfl, rfl, there leg inside⟩
  sorted := sorted_entryRows _
  last e member old inside _ := by
    obtain ⟨leg, -, id, above, -, rfl⟩ := mem_entryRows member
    have := (book.entryRows old inside).2
    simp only [entryFor]
    omega
  lines := by
    rw [lines_entryRows]
    exact formed
  nets := by
    rw [lines_entryRows]
    exact netted_nets _
  applicable := by
    refine (overflow_eq_none book ?_).mp fits
    intro update member
    obtain ⟨line, inside, same⟩ :=
      ((netted_nets (legs.map TransferLeg.line)).covers _).mp ⟨update, member, rfl⟩
    obtain ⟨leg, listed, rfl⟩ := List.mem_map.mp inside
    exact same ▸ there leg listed

/-- The entries, the balances and the answer of a transaction whose row is written. -/
private theorem visible_entries (transaction : Transaction) {row : TransactionRow}
    {rows : List EntryRow} {updates : List BalanceUpdate} {ids : Sequences}
    (book : Consistent w.tables w.sequences) (sound : row.Sound) (pending : row.status = 1)
    (id : row.id = w.sequences.transactions + 1) (created : 0 < now)
    (freshKey : w.tables.byKey? row.idempotencyKey = none)
    (positive : ∀ leg ∈ legs, 0 < leg.amount.value)
    (formed : WellFormed (legs.map TransferLeg.line)) (stored : Stored w.tables accounts)
    (known : ∀ leg ∈ legs, ∃ account, findAccount accounts leg.accountId = .ok account)
    (room : w.sequences.entries + legs.length ≤ hi 64)
    (made : rows = entryRows row now w.sequences.entries legs)
    (netting : updates = netted w.tables.normal 0 1 (legs.map TransferLeg.line))
    (last : ids = ⟨w.sequences.accounts, row.id, w.sequences.entries + legs.length⟩) :
    Like (visible (createEntries ⟨row.id⟩ accounts now legs [] [] >>= fun made =>
      applyBalanceUpdates accounts made.2 >>= fun _ => commit >>= fun _ =>
      updateCache made.2 >>= fun _ =>
      pure (.authorized (transactionToProto transaction) (made.1.map entryToProto)))
      (drawing ⟨w.sequences.accounts, row.id, w.sequences.entries⟩ w) ⟨[], [row], []⟩)
    ((overflow w.tables updates).elim
      (.ok (.authorized (transactionToProto transaction) (rows.map EntryRow.proto)),
        ⟨⟨w.tables.hold row rows updates, ids⟩, applied w.cache updates⟩)
      fun e => failing e w) := by
  have nets : Nets w.tables.normal 0 1 (legs.map TransferLeg.line) updates :=
    netting ▸ netted_nets _
  have there : ∀ leg ∈ legs, ∃ account, w.tables.account? leg.accountId.value = some account := by
    intro leg member
    obtain ⟨account, found⟩ := known leg member
    obtain ⟨inside, same⟩ := findAccount_ok found
    obtain ⟨old, present, -⟩ := stored account inside
    exact ⟨old, same ▸ present⟩
  have after : Before w.sequences ids := by
    rw [last]
    exact ⟨le_refl _, by simp only; omega, by simp only; omega⟩
  obtain ⟨entries, looped, lists⟩ := createEntries_alone
    (w := drawing ⟨w.sequences.accounts, row.id, w.sequences.entries⟩ w) created positive stored
    known row [] [] [] formed.toBounded room
  have entered : alone (createEntries ⟨row.id⟩ accounts now legs [] [])
      (drawing ⟨w.sequences.accounts, row.id, w.sequences.entries⟩ w) ⟨[], [row], []⟩ =
      (.ok (entries, updates), drawing ids w, ⟨[], [row], rows⟩) := by
    rw [netting, last, made]
    exact looped
  have updating := applyBalanceUpdates_alone (w := drawing ids w) (v := ⟨[], [row], rows⟩)
    (book.mono after) stored
    (known_of_nets nets fun line member => by
      obtain ⟨leg, inside, rfl⟩ := List.mem_map.mp member
      exact known leg inside) nets.distinct (by simp)
  rw [visible_bind entered]
  cases fits : overflow w.tables updates with
  | some e =>
    obtain ⟨v', failed⟩ := updating.2 e fits
    exact like_fails _ failed
  | none =>
    have holds : Holds w.tables ids row rows updates := by
      rw [made, netting]
      apply holds_new book sound pending id (by rw [last]) freshKey created positive there formed
        (by rw [last])
      rw [← netting]
      exact fits
    rw [visible_bind (updating.1 fits), visible_bind commit_alone, List.nil_append]
    rw [visible_bind (updateCache_alone updates)]
    change Like (.ok (.authorized _ (entries.map entryToProto)),
      ⟨⟨w.tables.merge ⟨w.tables.bumped updates, [row], rows⟩, ids⟩, applied w.cache updates⟩) _
    rw [merge_hold (book.mono after) holds, lists, made]
    exact .refl _

/-- The writes of an authorization, when its accounts are there and its funds suffice. -/
private theorem visible_hold (book : Consistent w.tables w.sequences)
    (filled : req.idempotencyKey ≠ "") (storable : Storable req.idempotencyKey)
    (positive : ∀ leg ∈ legs, 0 < leg.amount.value)
    (formed : WellFormed (legs.map TransferLeg.line)) (stored : Stored w.tables accounts)
    (known : ∀ leg ∈ legs, ∃ account, findAccount accounts leg.accountId = .ok account) :
    Like (visible (createTransaction req.idempotencyKey .pending metadata now none >>=
      fun transactionId => createEntries transactionId accounts now legs [] [] >>= fun made =>
      applyBalanceUpdates accounts made.2 >>= fun _ => commit >>= fun _ =>
      updateCache made.2 >>= fun _ => orReject ((Transaction.new transactionId req.idempotencyKey
        .pending metadata now 0).mapError .ofTransaction) >>= fun transaction =>
      pure (.authorized (transactionToProto transaction) (made.1.map entryToProto))) w .empty)
    (Contract.holding req now metadata legs w) := by
  have bound : ¬ (req.idempotencyKey.toList.any fun c => c = Char.ofNat 0) = true :=
    Bool.not_eq_true _ ▸ storable
  unfold Contract.holding
  split
  · rename_i e _ unfit
    refine like_refused w.sequences (.error (.ofSqlx _)) ?_ rfl
    simp only [answering, Call.perform, storing, Storage.createTransaction, if_neg bound, unfit]
    rfl
  · rename_i _ e fit unkept
    refine like_refused w.sequences (.error (.ofSqlx _)) ?_ rfl
    simp only [answering, Call.perform, storing, Storage.createTransaction, if_neg bound, fit,
      unkept]
    rfl
  rename_i value key fit kept
  obtain rfl := jsonb_ok fit
  split
  · rename_i exhausted
    have draws : nextval w.database.sequences.transactions = .error .sequenceExhausted :=
      if_neg (not_lt.mpr exhausted)
    refine like_refused w.sequences (.error (.ofSqlx _)) ?_ rfl
    simp only [answering, Call.perform, storing, Storage.createTransaction, if_neg bound, fit, kept,
      draws]
    rfl
  rename_i some
  have draws : nextval w.database.sequences.transactions = .ok (w.sequences.transactions + 1) :=
    if_pos (not_le.mp some)
  split
  · rename_i early
    have unchecked : (⟨w.sequences.transactions + 1, key, 1, value, now, none⟩ :
        TransactionRow).check = .error (.checkViolation "chk_created_at") :=
      if_pos (not_lt.mpr early)
    refine like_refused { w.sequences with transactions := w.sequences.transactions + 1 }
      (.error (.ofSqlx _)) ?_ rfl
    simp only [answering, Call.perform, storing, Storage.createTransaction, if_neg bound, fit,
      draws, kept, transactionStatusToI16, unchecked]
    rfl
  rename_i late
  have created : 0 < now := not_le.mp late
  have checked : (⟨w.sequences.transactions + 1, key, 1, value, now, none⟩ :
      TransactionRow).check = .ok ⟨w.sequences.transactions + 1, key, 1, value, now, none⟩ := by
    simp [TransactionRow.check, created]
  split
  · rename_i taken
    have seen : ∀ ids, ((⟨.empty, []⟩ : Tx).view ⟨w.database.tables, ids⟩).byKey? key =
      w.tables.byKey? key := fun ids => Tx.view_byKey? rfl _
    refine like_refused { w.sequences with transactions := w.sequences.transactions + 1 }
      (.error (.ofSqlx _)) ?_ rfl
    simp only [answering, Call.perform, storing, Storage.createTransaction, if_neg bound, fit,
      draws, kept, transactionStatusToI16, checked, seen, taken, if_true]
    rfl
  rename_i free
  have unused : w.tables.byKey? key = none := by simpa using free
  have answered : answering (.createTransaction req.idempotencyKey .pending value now none)
      (w, .empty) = (.ok ⟨w.sequences.transactions + 1⟩,
        drawing ⟨w.sequences.accounts, w.sequences.transactions + 1, w.sequences.entries⟩ w,
        ⟨[], [⟨w.sequences.transactions + 1, key, 1, value, now, none⟩], []⟩) := by
    have seen : ∀ ids, ((⟨.empty, []⟩ : Tx).view ⟨w.database.tables, ids⟩).byKey? key = none :=
      fun ids => (Tx.view_byKey? rfl _).trans unused
    simp only [answering, Call.perform, storing, Storage.createTransaction, if_neg bound, fit,
      draws, kept, transactionStatusToI16, checked, seen, Option.isSome_none, Bool.false_eq_true,
      if_false]
    rfl
  have written : alone (createTransaction req.idempotencyKey .pending value now none) w .empty =
      (.ok ⟨w.sequences.transactions + 1⟩,
        drawing ⟨w.sequences.accounts, w.sequences.transactions + 1, w.sequences.entries⟩ w,
        ⟨[], [⟨w.sequences.transactions + 1, key, 1, value, now, none⟩], []⟩) :=
    alone_call answered
  rw [visible_bind written]
  split
  · rename_i full
    have some : legs ≠ [] := by
      rintro rfl
      exact absurd formed.two (by decide)
    obtain ⟨ids, v', failed⟩ := createEntries_exhausted
      (w := drawing ⟨w.sequences.accounts, w.sequences.transactions + 1, w.sequences.entries⟩ w)
      created positive stored known
      ⟨w.sequences.transactions + 1, key, 1, value, now, none⟩ [] [] [] formed.toBounded full
      (.inr some)
    exact like_fails _ failed
  · rename_i room
    obtain ⟨transaction, new⟩ := Transaction.new_ok ⟨w.sequences.transactions + 1⟩ value .pending
      0 filled created (by simp) fun _ => rfl
    have entered := visible_entries transaction book
      (row_sound kept filled checked rfl rfl rfl) rfl rfl created unused positive formed stored known
      (not_lt.mp room) rfl rfl rfl
    rw [new]
    refine Eq.mp (congrArg (Like _) ?_) entered
    rw [transactionToProto_new new]
    dsimp only
    cases overflow w.tables _ <;> rfl

/-- An authorization under a key that is not in use. -/
private theorem visible_authorizeNew (book : Consistent w.tables w.sequences)
    (filled : req.idempotencyKey ≠ "") (storable : Storable req.idempotencyKey)
    (positive : ∀ leg ∈ legs, 0 < leg.amount.value)
    (formed : WellFormed (legs.map TransferLeg.line)) :
    Like (visible (authorizeNew req now metadata legs) w .empty)
      (Contract.authorizeNew req now metadata legs w) := by
  unfold authorizeNew Contract.authorizeNew
  cases missing : Contract.missingAccount w.tables legs with
  | some a =>
    rw [missingAccount_eq] at missing
    rw [visible_fails (lockAccounts_missing book missing)]
    exact .refl _
  | none =>
    rw [missingAccount_eq] at missing
    obtain ⟨accounts, locking, order, stored⟩ := lockAccounts_found book missing
    have known : ∀ leg ∈ legs, ∃ account, findAccount accounts leg.accountId = .ok account :=
      fun leg member => findAccount_locked order (List.mem_map_of_mem member)
    rw [visible_bind locking]
    have checking := checkAvailable_alone (v := .empty) known stored
    cases short : Contract.shortfall w.tables w.cache legs with
    | some e =>
      rw [short] at checking
      rw [visible_fails checking]
      exact .refl _
    | none =>
      rw [short] at checking
      rw [visible_bind checking]
      exact visible_hold book filled storable positive formed stored known

/-- An authorization under the key of an existing transaction. -/
private theorem visible_replay {row : TransactionRow} {existing : Transaction}
    (book : Consistent w.tables w.sequences) (built : buildTransaction row = .ok existing) :
    visible (getEntriesForTransaction existing.id >>= fun entries => commit >>= fun _ =>
      pure (Response.authorized (transactionToProto existing) (entries.map entryToProto)))
      w .empty =
    (.ok (.authorized row.proto ((w.tables.entriesOf row.id).map EntryRow.proto)), w) := by
  obtain ⟨entries, decoded⟩ := book.decodes_entriesOf existing.id.value
  rw [visible_bind (getEntriesForTransaction_alone book decoded), visible_bind commit_alone,
    transactionToProto_build built, buildEntries_proto decoded, (buildTransaction_ok built).1]
  rfl

theorem visible_authorize (book : Consistent w.tables w.sequences)
    (req : AuthorizeRequest) (now : Int) :
    Like (visible (authorize req now) w .empty) (Contract.authorize req now w) := by
  unfold authorize Contract.authorize
  split
  · exact .refl _
  rename_i filled
  cases parseMetadata req.metadata with
  | error e => exact .refl _
  | ok metadata =>
    cases parsed : parseTransferLegs req.legs with
    | error e => exact .refl _
    | ok legs =>
      change Like (visible (orReject ((validateTransactionBalance legs).mapError .ofValidation) >>=
        fun _ => inTransaction _) w .empty) _
      simp only
      cases valid : validateTransactionBalance legs with
      | error e => exact .refl _
      | ok accepted =>
        change Like (visible (inTransaction _) w .empty) _
        rw [visible_inTransaction]
        simp only
        split
        · rename_i null
          refine like_refused w.sequences (.error (.ofSqlx _)) ?_ rfl
          simp only [answering, Call.perform, storing, Storage.findTransactionByKey, null, if_true]
          rfl
        · rename_i storable
          rw [Bool.not_eq_true] at storable
          cases found : w.tables.byKey? req.idempotencyKey with
          | none =>
            rw [visible_bind (findTransactionByKey_alone storable (lookup_eq_none.mpr found))]
            have positive : ∀ leg ∈ legs, 0 < leg.amount.value :=
              fun leg member => (parseTransferLegs_ok parsed leg member).1
            exact visible_authorizeNew book filled storable positive (validated parsed valid)
          | some row =>
            have member : row ∈ w.tables.transactions := List.mem_of_find?_eq_some found
            obtain ⟨existing, built⟩ := buildTransaction_of_sound (book.transactionRows row member).1
            rw [visible_bind (findTransactionByKey_alone storable
              (lookup_eq_some.mpr ⟨row, found, built⟩))]
            simp only
            rw [visible_replay book built]
            exact .refl _

end Authorize

section Settle

open Contract (failing overflow applied)

variable {kind : Settlement} {id : TransactionId} {row : TransactionRow}
  {transaction : Transaction}

/-- The check constraints of the row with its new status. -/
private theorem settled_check (proper : Proper kind) (positive : ∀ p ∈ kind.postedAt, 0 < p)
    (sound : row.Sound) :
    { row with status := transactionStatusToI16 kind.status, postedAt := kind.postedAt }.check =
      .ok { row with status := transactionStatusToI16 kind.status, postedAt := kind.postedAt } := by
  have status : 1 ≤ transactionStatusToI16 kind.status ∧
      transactionStatusToI16 kind.status ≤ 4 := by
    rcases proper.terminal with same | same <;> omega
  rw [TransactionRow.check, if_neg (not_not.mpr sound.createdAt), if_neg (not_not.mpr positive),
    if_neg (not_not.mpr status)]

/-- The writes of a settlement, at a time that can be stored. -/
private theorem visible_mark {accounts : List Account} {updates : List BalanceUpdate}
    (proper : Proper kind) (late : ∀ time ∈ kind.postedAt, 0 < time)
    (book : Consistent w.tables w.sequences) (found : w.tables.transaction? id.value = some row)
    (built : buildTransaction row = .ok transaction) (stored : Stored w.tables accounts)
    (known : ∀ update ∈ updates, ∃ account, findAccount accounts update.accountId = .ok account)
    (nets : Nets w.tables.normal (if transactionStatusToI16 kind.status = 2 then 1 else 0) (-1)
      (w.tables.lines id.value) updates) :
    visible (updateTransactionStatus id kind.status kind.postedAt >>= fun _ =>
      updateEntryStatusByTransaction id kind.entryStatus >>= fun _ =>
      applyBalanceUpdates accounts updates >>= fun _ => commit >>= fun _ =>
      updateCache updates >>= fun _ => orReject ((Transaction.new id transaction.idempotencyKey
        kind.status transaction.metadata transaction.createdAt (kind.postedAt.getD 0)).mapError
          .ofTransaction) >>= fun updated => pure (Response.settled (transactionToProto updated)))
      w .empty =
    (overflow w.tables updates).elim
      (.ok (.settled (row.settled id.value (transactionStatusToI16 kind.status)
          kind.postedAt).proto),
        ⟨⟨w.tables.settle id.value (transactionStatusToI16 kind.status) kind.postedAt updates,
          w.sequences⟩, applied w.cache updates⟩)
      fun e => failing e w := by
  have sound := (book.transactionRows row (mem_of_find found)).1
  have mark : row.settled id.value (transactionStatusToI16 kind.status) kind.postedAt =
      { row with status := transactionStatusToI16 kind.status, postedAt := kind.postedAt } :=
    if_pos (key_of_find found)
  have checked := settled_check proper late sound
  rw [← mark] at checked
  have seen : ((⟨.empty, []⟩ : Tx).view w.database).transaction? id.value = some row :=
    (Tx.view_transaction? rfl _).trans found
  have marks : answering (.updateTransactionStatus id kind.status kind.postedAt) (w, .empty) =
      (.ok (), w, ⟨[], [row.settled id.value (transactionStatusToI16 kind.status) kind.postedAt],
        []⟩) := by
    simp only [answering, Call.perform, storing, Storage.updateTransactionStatus, seen, ← mark,
      checked]
    rfl
  have marking : alone (updateTransactionStatus id kind.status kind.postedAt) w .empty =
      (.ok (), w, ⟨[], [row.settled id.value (transactionStatusToI16 kind.status) kind.postedAt],
        []⟩) := alone_call marks
  have following : alone (updateEntryStatusByTransaction id kind.entryStatus) w
      ⟨[], [row.settled id.value (transactionStatusToI16 kind.status) kind.postedAt], []⟩ =
      (.ok ((w.tables.entriesOf id.value).map fun e =>
          { e with status := entryStatusToI16 kind.entryStatus }).length, w,
        ⟨[], [row.settled id.value (transactionStatusToI16 kind.status) kind.postedAt],
          (w.tables.entriesOf id.value).map fun e =>
            { e with status := entryStatusToI16 kind.entryStatus }⟩) := rfl
  rw [visible_bind marking, visible_bind following, proper.entryStatus]
  have updating := applyBalanceUpdates_alone (v := ⟨[],
    [row.settled id.value (transactionStatusToI16 kind.status) kind.postedAt],
    (w.tables.entriesOf id.value).map fun e =>
      { e with status := transactionStatusToI16 kind.status }⟩) book stored known nets.distinct
    (by simp)
  cases fits : overflow w.tables updates with
  | some e =>
    obtain ⟨v', failed⟩ := updating.2 e fits
    exact visible_fails failed
  | none =>
    have settles : Settles w.tables id.value (transactionStatusToI16 kind.status) kind.postedAt
        updates := by
      refine ⟨⟨row, found, settled_sound proper sound (mark ▸ checked)⟩, proper.terminal, nets, ?_⟩
      refine (overflow_eq_none book ?_).mp fits
      intro update member
      obtain ⟨line, inside, same⟩ := (nets.covers _).mp ⟨update, member, rfl⟩
      exact same ▸ book.lines_covered id.value line inside
    obtain ⟨updated, new⟩ := settled_new proper late id transaction
    rw [visible_bind (updating.1 fits), visible_bind commit_alone,
      visible_bind (updateCache_alone updates), new]
    have merged := merge_settle book settles found
    rw [← mark] at merged
    have proto : transactionToProto updated =
        (row.settled id.value (transactionStatusToI16 kind.status) kind.postedAt).proto := by
      have created : transaction.createdAt = row.createdAt :=
        congrArg ProtoTransaction.createdAt (transactionToProto_build built)
      rw [transactionToProto_new new, mark, (buildTransaction_ok built).2.1, created,
        ← key_of_find found]
      rfl
    change (Except.ok (Response.settled (transactionToProto updated)),
      (⟨⟨w.tables.merge ⟨w.tables.bumped updates, _, _⟩, w.sequences⟩, applied w.cache updates⟩ :
        World)) = _
    rw [merged, proto]
    rfl

/-- The settlement of a transaction that was read as pending. -/
private theorem visible_settlePending (proper : Proper kind) (book : Consistent w.tables w.sequences)
    (found : w.tables.transaction? id.value = some row)
    (built : buildTransaction row = .ok transaction) {updates : List BalanceUpdate}
    (netting : updates = netted w.tables.normal
      (if transactionStatusToI16 kind.status = 2 then 1 else 0) (-1) (w.tables.lines id.value)) :
    visible (settlePending kind transaction id) w .empty =
      if ¬ ∀ time ∈ kind.postedAt, 0 < time then
        failing (.checkViolation "chk_posted_at") w
      else (overflow w.tables updates).elim
        (.ok (.settled (row.settled id.value (transactionStatusToI16 kind.status)
            kind.postedAt).proto),
          ⟨⟨w.tables.settle id.value (transactionStatusToI16 kind.status) kind.postedAt updates,
            w.sequences⟩, applied w.cache updates⟩)
        fun e => failing e w := by
  have sound := (book.transactionRows row (mem_of_find found)).1
  obtain ⟨entries, decoded⟩ := book.decodes_entriesOf id.value
  have lines : entries.map Entry.line = w.tables.lines id.value := buildEntries_lines decoded
  have present : (((lockOrder (entries.map Entry.accountId)).map AccountId.value).find?
      fun a => (w.tables.account? a).isNone) = none := by
    rw [List.find?_eq_none]
    intro a member
    obtain ⟨account, locked, rfl⟩ := List.mem_map.mp member
    obtain ⟨entry, inside, rfl⟩ := List.mem_map.mp (mem_lockOrder.mp locked)
    have listed : entry.line ∈ w.tables.lines id.value := lines ▸ List.mem_map_of_mem inside
    obtain ⟨old, there⟩ := book.lines_covered id.value entry.line listed
    change w.tables.account? entry.accountId.value = some old at there
    simp [there]
  obtain ⟨accounts, locking, order, stored⟩ := lockAccounts_found book present
  have known : ∀ entry ∈ entries, ∃ account, findAccount accounts entry.accountId = .ok account :=
    fun entry member => findAccount_locked order (List.mem_map_of_mem member)
  have collected : collectUpdates kind.movement accounts entries [] = .ok updates := by
    obtain ⟨result, collected⟩ := collectUpdates_total kind.movement known []
    rw [collected, netting, ← lines]
    have formed : WellFormed (entries.map Entry.line) := by
      rw [lines, ← key_of_find found]
      exact book.lines row (mem_of_find found)
    exact congrArg _ (collectUpdates_netted proper.scales stored.knows [] formed.toBounded collected)
  have collecting : alone (.done (collectUpdates kind.movement accounts entries [])) w .empty =
      (.ok updates, w, .empty) := by
    rw [collected]
    rfl
  rw [settlePending, visible_bind (getEntriesForTransaction_alone book decoded),
    visible_bind locking, visible_bind collecting]
  split
  · rename_i early
    have unchecked : { row with
        status := transactionStatusToI16 kind.status, postedAt := kind.postedAt }.check =
        .error (.checkViolation "chk_posted_at") := by
      rw [TransactionRow.check, if_neg (not_not.mpr sound.createdAt), if_pos early]
    have seen : ((⟨.empty, []⟩ : Tx).view w.database).transaction? id.value = some row :=
      (Tx.view_transaction? rfl _).trans found
    have answered : answering (.updateTransactionStatus id kind.status kind.postedAt) (w, .empty) =
        (.error (.ofSqlx (.checkViolation "chk_posted_at")), w, .empty) := by
      simp only [answering, Call.perform, storing, Storage.updateTransactionStatus, seen, unchecked]
      rfl
    have failed : alone (updateTransactionStatus id kind.status kind.postedAt) w .empty =
      (.error (.error (.ofStorage (.ofSqlx (.checkViolation "chk_posted_at")))), w, .empty) :=
        alone_call answered
    exact visible_fails failed
  · rename_i late
    have nets : Nets w.tables.normal (if transactionStatusToI16 kind.status = 2 then 1 else 0) (-1)
      (w.tables.lines id.value) updates := netting ▸ netted_nets _
    apply visible_mark proper (not_not.mp late) book found built stored _ nets
    apply known_of_nets nets
    intro line member
    rw [← lines] at member
    obtain ⟨entry, inside, rfl⟩ := List.mem_map.mp member
    exact known entry inside

theorem visible_settle (proper : Proper kind) (book : Consistent w.tables w.sequences)
    (id : Int) : visible (settle kind id) w .empty = Contract.settle kind.status
      (if transactionStatusToI16 kind.status = 2 then 1 else 0) kind.postedAt kind.attempted id w := by
  unfold settle Contract.settle TransactionId.new
  split
  · rfl
  change visible (inTransaction _) w .empty = _
  rw [visible_inTransaction]
  cases found : w.tables.transaction? id with
  | none =>
    rw [visible_bind (getTransaction_alone (lookup_eq_none.mpr found))]
    rfl
  | some row =>
    obtain ⟨transaction, built⟩ :=
      buildTransaction_of_sound (book.transactionRows row (mem_of_find found)).1
    have status := (buildTransaction_ok built).2.2
    rw [visible_bind (getTransaction_alone (lookup_eq_some.mpr ⟨row, found, built⟩))]
    simp only
    by_cases done : transaction.status = kind.status
    · have same : row.status = transactionStatusToI16 kind.status := by rw [← status, done]
      rw [if_pos done, if_pos same, visible_bind commit_alone, transactionToProto_build built]
      rfl
    have other : ¬ row.status = transactionStatusToI16 kind.status := by
      rw [← status, transactionStatusToI16_inj]
      exact done
    rw [if_neg done, if_neg other]
    by_cases pending : transaction.status = .pending
    · have same : row.status = 1 := by rw [← status, pending, transactionStatusToI16]
      rw [if_neg (not_not.mpr pending), if_neg (not_not.mpr same)]
      refine (visible_settlePending proper book found built rfl).trans ?_
      split
      · rfl
      · cases overflow w.tables _ <;> rfl
    · have settled : row.status ≠ 1 := by
        rw [← status]
        exact fun same => pending (transactionStatusToI16_inj.mp same)
      have current : Contract.statusOf row.status = transaction.status := by
        rw [← status]
        cases transaction.status <;> rfl
      rw [if_pos pending, if_pos settled, current]
      rfl

end Settle

section Accounts

private theorem i16ToAccountType_ok {code : Int} {accountType : AccountType}
    (decoded : i16ToAccountType code = .ok accountType) : accountTypeToProto accountType = code := by
  unfold i16ToAccountType at decoded
  repeat' split at decoded
  all_goals cases decoded
  all_goals subst_vars
  all_goals rfl

theorem accountToProto_row {row : AccountRow} {account : Account} (sound : row.Sound)
    (built : buildAccount row = .ok account) : accountToProto account = Contract.accountProto row := by
  have side := (buildAccount_ok built).2.2
  have low := sound.assetScale
  unfold buildAccount at built
  cases decoded : i16ToAccountType row.accountType with
  | error e => simp [decoded] at built
  | ok accountType =>
    simp only [decoded] at built
    cases new : Account.new ⟨row.id⟩ accountType row.assetCode (row.assetScale % 256).toNat
        row.version row.createdAt with
    | error e => simp [new] at built
    | ok account' =>
      simp only [new, Except.ok.injEq] at built
      subst built
      obtain ⟨id, kind, code, scale, version, created⟩ := Account.new_eq_ok new
      have number : ((row.assetScale % 256).toNat : Int) = row.assetScale := by omega
      have sides : normalBalanceToProto account'.normalBalance =
          (Contract.accountProto row).normalBalance := by
        rw [Contract.accountProto, ← side]
        cases account'.normalBalance <;> rfl
      rw [accountToProto, sides, id, kind, code, scale, version, created, number,
        i16ToAccountType_ok decoded]
      rfl

theorem visible_getAccount (book : Consistent w.tables w.sequences) (a : Int) :
    visible (getAccount a) w .empty = Contract.getAccount a w := by
  unfold Service.getAccount Contract.getAccount AccountId.new
  split
  · rfl
  change visible (inTransaction _) w .empty = _
  rw [visible_inTransaction]
  cases found : w.tables.account? a with
  | none =>
    rw [visible_bind (getAccountRow_alone (lookup_eq_none.mpr found))]
    rfl
  | some row =>
    have sound := (book.accountRows row (mem_of_find found)).1
    obtain ⟨account, built⟩ := buildAccount_of_sound sound
    rw [visible_bind (getAccountRow_alone (lookup_eq_some.mpr ⟨row, found, built⟩))]
    change visible (commit >>= fun _ => pure (Response.account (accountToProto account))) w _ = _
    rw [visible_bind commit_alone, accountToProto_row sound built]
    rfl

private theorem visible_getBalance (a : Int) :
    visible (getBalance a) w .empty = Contract.getBalance a w := by
  unfold getBalance Contract.getBalance AccountId.new
  split
  · rfl
  have asked : alone (cacheGet ⟨a⟩) w .empty = (.ok (w.cache.get ⟨a⟩), w, .empty) := rfl
  change visible (cacheGet ⟨a⟩ >>= _) w .empty = _
  rw [visible_bind asked]
  cases w.cache.get ⟨a⟩ <;> rfl

private theorem visible_getEntries (book : Consistent w.tables w.sequences) (a : Int) :
    visible (getEntries a) w .empty = Contract.getEntries a w := by
  unfold getEntries Contract.getEntries AccountId.new
  split
  · rfl
  change visible (inTransaction _) w .empty = _
  rw [visible_inTransaction]
  cases found : w.tables.account? a with
  | none =>
    rw [visible_bind (getAccountRow_alone (lookup_eq_none.mpr found))]
    rfl
  | some row =>
    have sound := (book.accountRows row (mem_of_find found)).1
    obtain ⟨account, built⟩ := buildAccount_of_sound sound
    have inside : ∀ e ∈ w.tables.entries.filter fun e => e.accountId = a, e ∈ w.tables.entries :=
      fun e member => (List.mem_filter.mp member).1
    obtain ⟨entries, decoded⟩ := buildEntries_of_book book inside
    rw [visible_bind (getAccountRow_alone (lookup_eq_some.mpr ⟨row, found, built⟩))]
    change visible (getEntriesForAccount ⟨a⟩ >>= fun entries => commit >>= fun _ =>
      pure (Response.entries (entries.map entryToProto))) w _ = _
    rw [visible_bind (getEntriesForAccount_alone book decoded), visible_bind commit_alone,
      buildEntries_proto decoded]
    rfl

/-- The end of the creation of an account whose row is written. -/
private theorem visible_enroll (account : Account) {row : AccountRow}
    (book : Consistent w.tables w.sequences) (sound : row.Sound)
    (id : row.id = w.sequences.accounts + 1)
    (empty : row.postedBalance = 0 ∧ row.pendingBalance = 0 ∧ row.version = 0) :
    visible (commit >>= fun _ => cacheSet ⟨row.id⟩ 0 0 >>= fun _ =>
      pure (Response.account (accountToProto account)))
      (drawing ⟨row.id, w.sequences.transactions, w.sequences.entries⟩ w) ⟨[row], [], []⟩ =
    (.ok (.account (accountToProto account)),
      ⟨⟨w.tables.enroll row, ⟨row.id, w.sequences.transactions, w.sequences.entries⟩⟩,
        w.cache.set ⟨row.id⟩ 0 0⟩) := by
  have enrolls : Enrolls w.tables ⟨row.id, w.sequences.transactions, w.sequences.entries⟩ row := by
    refine ⟨?_, sound, le_refl _, empty⟩
    rw [Tables.account?, find_eq_none]
    intro old member same
    have within := (book.accountRows old member).2
    change old.id = row.id at same
    omega
  rw [visible_bind commit_alone, ← merge_enroll enrolls]
  rfl

private theorem visible_createAccount (book : Consistent w.tables w.sequences)
    (req : CreateAccountRequest) (now : Int) :
    Contract.Like (visible (createAccount req now) w .empty) (Contract.createAccount req now w) := by
  unfold Service.createAccount Contract.createAccount
  cases protoToAccountType req.accountType with
  | error e => exact .refl _
  | ok accountType =>
    change Contract.Like (visible (ite _ _ _) w .empty) _
    simp only
    split
    · exact .refl _
    rename_i filled
    split
    · exact .refl _
    rename_i small
    rw [visible_inTransaction]
    split
    · rename_i e unkept
      refine like_refused w.sequences (.error (.ofSqlx _)) ?_ rfl
      simp only [answering, Call.perform, storing, Storage.createAccount, unkept]
      rfl
    rename_i code kept
    split
    · rename_i exhausted
      have draws : nextval w.database.sequences.accounts = .error .sequenceExhausted :=
        if_neg (not_lt.mpr exhausted)
      refine like_refused w.sequences (.error (.ofSqlx _)) ?_ rfl
      simp only [answering, Call.perform, storing, Storage.createAccount, kept, draws]
      rfl
    rename_i some
    have draws : nextval w.database.sequences.accounts = .ok (w.sequences.accounts + 1) :=
      if_pos (not_le.mp some)
    have low : 0 ≤ ((req.assetScale % 256).toNat : Int) ∧ ((req.assetScale % 256).toNat : Int) ≤ 18 := by
      omega
    have kind : 1 ≤ accountTypeToI16 accountType ∧ accountTypeToI16 accountType ≤ 5 := by
      cases accountType <;> decide
    split
    · rename_i early
      have unchecked : (⟨w.sequences.accounts + 1, accountTypeToI16 accountType, code,
          (req.assetScale % 256).toNat, 0, 0, 0, now⟩ : AccountRow).check =
          .error (.checkViolation "chk_created_at") := by
        rw [AccountRow.check, if_neg (not_not.mpr kind), if_neg (not_not.mpr low),
          if_pos (not_lt.mpr early)]
      refine like_refused { w.sequences with accounts := w.sequences.accounts + 1 }
        (.error (.ofSqlx _)) ?_ rfl
      simp only [answering, Call.perform, storing, Storage.createAccount, draws, kept, unchecked]
      rfl
    rename_i late
    have created : 0 < now := not_le.mp late
    have checked : (⟨w.sequences.accounts + 1, accountTypeToI16 accountType, code,
        (req.assetScale % 256).toNat, 0, 0, 0, now⟩ : AccountRow).check =
        .ok ⟨w.sequences.accounts + 1, accountTypeToI16 accountType, code,
          (req.assetScale % 256).toNat, 0, 0, 0, now⟩ := by
      rw [AccountRow.check, if_neg (not_not.mpr kind), if_neg (not_not.mpr low),
        if_neg (not_not.mpr created), if_neg (by simp)]
    have answered : answering (.createAccount accountType req.assetCode
        (req.assetScale % 256).toNat now) (w, .empty) = (.ok ⟨w.sequences.accounts + 1⟩,
          drawing ⟨w.sequences.accounts + 1, w.sequences.transactions, w.sequences.entries⟩ w,
          ⟨[⟨w.sequences.accounts + 1, accountTypeToI16 accountType, code,
            (req.assetScale % 256).toNat, 0, 0, 0, now⟩], [], []⟩) := by
      simp only [answering, Call.perform, storing, Storage.createAccount, draws, kept, checked]
      rfl
    have written : alone (createAccountRow accountType req.assetCode (req.assetScale % 256).toNat now)
        w .empty = (.ok ⟨w.sequences.accounts + 1⟩,
          drawing ⟨w.sequences.accounts + 1, w.sequences.transactions, w.sequences.entries⟩ w,
          ⟨[⟨w.sequences.accounts + 1, accountTypeToI16 accountType, code,
            (req.assetScale % 256).toNat, 0, 0, 0, now⟩], [], []⟩) := alone_call answered
    obtain ⟨account, new⟩ := Account.new_ok ⟨w.sequences.accounts + 1⟩ accountType filled
      (not_lt.mp small) (le_refl 0) created
    obtain ⟨id, type, text, scale, version, time⟩ := Account.new_eq_ok new
    have sound : (⟨w.sequences.accounts + 1, accountTypeToI16 accountType, code,
        (req.assetScale % 256).toNat, 0, 0, 0, now⟩ : AccountRow).Sound :=
      ⟨kind, varchar_ne_empty kept filled (by decide), low, ⟨le_refl _, (by decide : Fits 32 0)⟩,
        (by decide : Fits 64 0), (by decide : Fits 64 0), created⟩
    have proto : accountToProto account = { Contract.accountProto ⟨w.sequences.accounts + 1,
        accountTypeToI16 accountType, code, (req.assetScale % 256).toNat, 0, 0, 0, now⟩ with
        assetCode := req.assetCode } := by
      rw [accountToProto, Account.normalBalance, id, type, text, scale, version, time]
      cases accountType <;> rfl
    rw [visible_bind written, new, ← proto]
    have enrolled := visible_enroll account book sound rfl ⟨rfl, rfl, rfl⟩
    exact enrolled ▸ .refl _

end Accounts

/-- A handler that runs alone does what its request means. -/
theorem visible_handler (book : Consistent w.tables w.sequences) (r : Request) :
    Contract.Serves r w (visible (handler r) w .empty).1 (visible (handler r) w .empty).2 := by
  have exactly : ∀ {m}, visible (handler r) w .empty = m → Contract.Like (visible (handler r) w .empty) m :=
    fun same => same ▸ .refl _
  cases r with
  | createAccount req now => exact visible_createAccount book req now
  | getAccount a => exact exactly (visible_getAccount book a)
  | getBalance a => exact exactly (visible_getBalance a)
  | authorize req now => exact visible_authorize book req now
  | capture id now => exact exactly (visible_settle (capture_proper now) book id)
  | void id => exact exactly (visible_settle void_proper book id)
  | getEntries a => exact exactly (visible_getEntries book a)

section Serving

variable {cfg : Config server} {trace : List (Transition server)} {w w' : World} {l l' : Session}

/-- The database does not fail. -/
def Fair (weather : Weather) : Prop := weather = .fair

/-- A session keeps its request. -/
theorem runs_request {p : Handler Response} {outcome : Except Failure Response}
    (ran : server.Runs Fair p w l outcome w' l') : l'.request = l.request := by
  refine System.Runs.keeps (T := fun own : Session => own.request = l.request) ?_ ran rfl
  intro weather c w l answer w' l' executed same
  obtain ⟨tx, -, rfl⟩ := exec_eq_some executed
  exact same

/-- Where no request is open, a request is served as its handler runs alone. -/
theorem served_of_runs (run : Steps initial trace cfg) (quiet : cfg.quiet = true) {r : Request}
    {outcome : Except Failure Response}
    (ran : server.Runs Fair (handler r) cfg.shared (server.arrive r) outcome w' l') :
    ∃ calls, cfg.play serial (cfg.serving r (List.replicate calls .fair)) =
      some ⟨w', cfg.threads ++ [⟨some (.done outcome), l'⟩]⟩ := by
  obtain ⟨choices, fair, played⟩ :=
    Config.play_of_runs (fun c w l => quiet_free run quiet c w l) quiet ran
  rw [List.eq_replicate_of_mem fair] at played
  exact ⟨choices.length, played⟩

/-- A handler runs alone as it is evaluated. -/
theorem runs_alone (r : Request) (w : World) : ∃ own,
    server.Runs Fair (handler r) w (server.arrive r) (visible (handler r) w .empty).1
      (visible (handler r) w .empty).2 own := by
  obtain ⟨w', own, ran, same⟩ := System.runs_of_eval Weather.fair answering
    (fun (w : World) (l : Session) => (w, l.tx.versions)) answers_alone (handler r) w
    (server.arrive r)
  have left : w' = (visible (handler r) w .empty).2 := congrArg Prod.fst same
  exact ⟨own, left ▸ ran⟩

/-- Where no request is open, a request can be served, and ends as it means. -/
theorem serves_alone (run : Steps initial trace cfg) (quiet : cfg.quiet = true) (r : Request) :
    ∃ calls next outcome own,
      cfg.play serial (cfg.serving r (List.replicate calls .fair)) = some next ∧
      next.threads[cfg.threads.length]? = some ⟨some (.done outcome), own⟩ ∧ own.request = r ∧
      Contract.Serves r cfg.shared outcome next.shared := by
  obtain ⟨own, ran⟩ := runs_alone r cfg.shared
  obtain ⟨calls, played⟩ := served_of_runs run quiet ran
  exact ⟨calls, _, _, own, played, List.getElem?_concat_length, runs_request ran,
    visible_handler (safe run).inv r⟩

end Serving

end Fides.Ledger
