import Fides.Ledger.Locking

/-! # Capture and void follow the protocol

A settlement reads the transaction without a lock, and overwrites its status
later under the lock of the row.  Between the two anything may have happened to
the status; the lines, which the balance updates are computed from, stay.
-/

namespace Fides.Ledger

open Domain Service Storage FixedWidth Relational Bookkeeping

/-- What `capture` and `void` have in common. -/
structure Proper (kind : Settlement) : Prop where
  scales : Scales kind.movement (if transactionStatusToI16 kind.status = 2 then 1 else 0) (-1)
  entryStatus : entryStatusToI16 kind.entryStatus = transactionStatusToI16 kind.status
  terminal : transactionStatusToI16 kind.status = 2 ∨ transactionStatusToI16 kind.status = 3
  posted : transactionStatusToI16 kind.status = 2 → ∃ p, kind.postedAt = some p
  unposted : transactionStatusToI16 kind.status ≠ 2 → kind.postedAt = none

theorem capture_proper (now : Int) : Proper (.capture now) :=
  ⟨capture_scales, rfl, .inl rfl, fun _ => ⟨now, rfl⟩, fun other => absurd rfl other⟩

theorem void_proper : Proper .void :=
  ⟨void_scales, rfl, .inr rfl, nofun, fun _ => rfl⟩

variable {w w' : World} {l l' : Session}

/-- The entries a settlement works on, and the accounts it has locked for them. -/
structure Settling (w : World) (l : Session) (id : TransactionId) (entries : List Entry)
    (accounts : List Account) : Prop where
  present : ∃ row, w.tables.transaction? id.value = some row
  lines : entries.map Entry.line = w.tables.lines id.value
  locked : Locked w l accounts

namespace Settling

variable {id : TransactionId} {entries : List Entry} {accounts : List Account}

theorem stable (settling : Settling w l id entries accounts) (keeps : Keeps l.tx.held w w') :
    Settling w' l id entries accounts := by
  obtain ⟨row, there⟩ := settling.present
  obtain ⟨⟨row', present, -⟩, same⟩ := keeps.lines id.value row there
  exact ⟨⟨row', present⟩, settling.lines.trans same.symm, settling.locked.stable keeps⟩

theorem grown (settling : Settling w l id entries accounts) (grown : Grown l l') :
    Settling w l' id entries accounts :=
  ⟨settling.present, settling.lines, settling.locked.grown grown⟩

theorem formed (settling : Settling w l id entries accounts)
    (book : Consistent w.tables w.sequences) : WellFormed (entries.map Entry.line) := by
  obtain ⟨row, there⟩ := settling.present
  have same : row.id = id.value := key_of_find there
  rw [settling.lines, ← same]
  exact book.lines row (mem_of_find there)

theorem nets {kind : Settlement} {updates : List BalanceUpdate} (proper : Proper kind)
    (settling : Settling w l id entries accounts) (book : Consistent w.tables w.sequences)
    (collected : collectUpdates kind.movement accounts entries [] = .ok updates) :
    Nets w.tables.normal (if transactionStatusToI16 kind.status = 2 then 1 else 0) (-1)
      (w.tables.lines id.value) updates := by
  have bounded := (settling.formed book).toBounded
  have collects := collectUpdates_netted proper.scales settling.locked.knows [] bounded collected
  rw [collects, List.nil_append, settling.lines]
  exact netted_nets _

end Settling

theorem settled_sound {kind : Settlement} {row : TransactionRow} (proper : Proper kind)
    (sound : row.Sound)
    (checked : { row with status := transactionStatusToI16 kind.status,
                          postedAt := kind.postedAt }.check =
      .ok { row with status := transactionStatusToI16 kind.status, postedAt := kind.postedAt }) :
    { row with status := transactionStatusToI16 kind.status,
               postedAt := kind.postedAt : TransactionRow }.Sound := by
  obtain ⟨-, -, positive, -⟩ := TransactionRow.check_ok checked
  refine ⟨sound.idempotencyKey, .inr proper.terminal, sound.createdAt, ?_, proper.unposted⟩
  intro captured
  obtain ⟨p, same⟩ := proper.posted captured
  exact ⟨p, same, positive p same⟩

/-- The transaction of the response can be built. -/
theorem settled_new {kind : Settlement} (proper : Proper kind)
    (positive : ∀ p ∈ kind.postedAt, 0 < p) (id : TransactionId) (transaction : Transaction) :
    ∃ updated, Transaction.new id transaction.idempotencyKey kind.status transaction.metadata
      transaction.createdAt (kind.postedAt.getD 0) = .ok updated := by
  refine Transaction.new_ok _ _ _ _ transaction.idempotencyKey_ne transaction.createdAt_pos ?_ ?_
  · intro posted
    obtain ⟨p, same⟩ := proper.posted (by rw [posted]; rfl)
    rw [same]
    exact positive p same
  · intro other
    rw [proper.unposted fun same => other (by cases status : kind.status <;> simp_all
      [transactionStatusToI16])]
    rfl

/-- What a settlement has when all its rows are written is ready to be committed. -/
private theorem settling_ready {kind : Settlement} {id : TransactionId} {entries : List Entry}
    {accounts : List Account} {updates : List BalanceUpdate} {row : TransactionRow}
    (proper : Proper kind) (asks : Asks l.request id kind.status kind.postedAt)
    (collected : collectUpdates kind.movement accounts entries [] = .ok updates)
    (settling : Settling w l id entries accounts) (book : Consistent w.tables w.sequences)
    (there : w.tables.transaction? id.value = some row)
    (checked : { row with status := transactionStatusToI16 kind.status,
                          postedAt := kind.postedAt }.check =
      .ok { row with status := transactionStatusToI16 kind.status, postedAt := kind.postedAt })
    (applicable : Applicable w.tables updates)
    (versions : l.tx.versions = ⟨w.tables.bumped updates,
      [{ row with status := transactionStatusToI16 kind.status, postedAt := kind.postedAt }],
      (w.tables.entriesOf id.value).map fun e =>
        { e with status := transactionStatusToI16 kind.status }⟩)
    (summary : l.summary = { Summary.blank with
      settled := [(id, kind.status, kind.postedAt)], written := updates }) : Ready w l := by
  have sound := settled_sound proper (book.transactionRows row (mem_of_find there)).1 checked
  exact .settling asks ⟨⟨row, there, sound⟩, proper.terminal, settling.nets proper book collected,
    applicable⟩ there versions summary

/-- From the balance updates of a settlement on, when its transaction and entries are marked. -/
private theorem meets_settleMarked {kind : Settlement} {id : TransactionId} {entries : List Entry}
    {accounts : List Account} {updates : List BalanceUpdate} {row : TransactionRow}
    (proper : Proper kind) (asks : Asks l.request id kind.status kind.postedAt)
    (collected : collectUpdates kind.movement accounts entries [] = .ok updates)
    (settling : Settling w l id entries accounts) (book : Consistent w.tables w.sequences)
    (mine : .transaction id.value ∈ l.tx.held)
    (there : w.tables.transaction? id.value = some row)
    (checked : { row with status := transactionStatusToI16 kind.status,
                          postedAt := kind.postedAt }.check =
      .ok { row with status := transactionStatusToI16 kind.status, postedAt := kind.postedAt })
    (versions : l.tx.versions = ⟨[],
      [{ row with status := transactionStatusToI16 kind.status, postedAt := kind.postedAt }],
      (w.tables.entriesOf id.value).map fun e =>
        { e with status := transactionStatusToI16 kind.status }⟩)
    (summary : l.summary = { Summary.blank with settled := [(id, kind.status, kind.postedAt)] })
    {transaction : Transaction}
    (seen : (⟨.getTransaction id, .ok (some transaction)⟩ : Answered) ∈ l.history) :
    Meets (applyBalanceUpdates accounts updates >>= fun _ => commit >>= fun _ =>
      updateCache updates >>= fun _ => orReject ((Transaction.new id transaction.idempotencyKey
        kind.status transaction.metadata transaction.createdAt (kind.postedAt.getD 0)).mapError
          .ofTransaction) >>= fun updated => pure (.settled (transactionToProto updated))) w l := by
  apply meets_applyBalanceUpdates [] (by rw [summary]; rfl) settling.locked (by simp)
    (by rw [versions]; rfl) (settling.nets proper book collected).distinct (by simp [Applicable])
  intro w₁ l₁ keeps₁ grown₁ versions₁ summary₁ held₁ applicable₁
  rw [List.nil_append] at versions₁ held₁ applicable₁
  have asks₁ : Asks l₁.request id kind.status kind.postedAt := by
    rw [grown₁.request]
    exact asks
  have summary₁ : l₁.summary = { Summary.blank with
      settled := [(id, kind.status, kind.postedAt)], written := updates } := by
    rw [summary₁, summary]
    rfl
  obtain ⟨updated, new⟩ :=
    settled_new proper (TransactionRow.check_ok checked).2.2.1 id transaction
  apply meets_finish (mapError_eq_ok.mpr new) (by rw [summary₁]; rfl) (by rw [summary₁]; rfl)
    (by rw [summary₁]) (by rw [summary₁]; rfl)
  · intro l₂ request history summary₂
    rw [summary₁] at summary₂
    have seen₂ := history _ (grown₁.history _ seen)
    rw [transactionToProto_new new]
    exact .of_settle (request ▸ asks₁) (.made seen₂ (by rw [summary₂]) (by rw [summary₂]))
  intro w₂ book₂ keeps₂
  have keeps := keeps₁.trans (keeps₂.anti grown₁.held)
  obtain ⟨same, entries₂⟩ := keeps.transactions id.value mine
  have bumped₂ : w₂.tables.bumped updates = w₁.tables.bumped updates :=
    Tables.bumped_congr fun update member => keeps₂.accounts _ (held₁ update member)
  have settling₂ := ((settling.stable keeps₁).grown grown₁).stable keeps₂
  apply settling_ready proper asks₁ collected settling₂ book₂ (same.trans there) checked
    (applicable₁.stable held₁ keeps₂) _ summary₁
  rw [versions₁, versions, bumped₂, entries₂]

/-- From the first write of a settlement on. -/
private theorem meets_settleLocked {kind : Settlement} {id : TransactionId} {entries : List Entry}
    {accounts : List Account} {updates : List BalanceUpdate} (proper : Proper kind)
    (asks : Asks l.request id kind.status kind.postedAt)
    (collected : collectUpdates kind.movement accounts entries [] = .ok updates)
    (settling : Settling w l id entries accounts) (unwritten : Unwritten l)
    (held : ∀ r ∈ l.tx.held, ∃ a, r = .account a) {transaction : Transaction}
    (pending : transaction.status = .pending)
    (seen : (⟨.getTransaction id, .ok (some transaction)⟩ : Answered) ∈ l.history) :
    Meets (updateTransactionStatus id kind.status kind.postedAt >>= fun _ =>
      updateEntryStatusByTransaction id kind.entryStatus >>= fun _ =>
      applyBalanceUpdates accounts updates >>= fun _ => commit >>= fun _ =>
      updateCache updates >>= fun _ => orReject ((Transaction.new id transaction.idempotencyKey
        kind.status transaction.metadata transaction.createdAt (kind.postedAt.getD 0)).mapError
          .ofTransaction) >>= fun updated => pure (.settled (transactionToProto updated))) w l := by
  obtain ⟨old, present⟩ := settling.present
  apply meets_updateTransactionStatus unwritten pending seen present
  · intro h member
    obtain ⟨a, rfl⟩ := held h member
    simp [Resource.rank, Prod.Lex.toLex_lt_toLex]
  intro w₁ row book₁ keeps₁ there checked
  have grown₁ : Grown l (l.record (.updateTransactionStatus id kind.status kind.postedAt) (.ok ())
      (l.tx.updateTransaction
        { row with status := transactionStatusToI16 kind.status, postedAt := kind.postedAt })) :=
    .record fun r member => List.mem_append_left _ member
  have settling₁ := (settling.stable keeps₁).grown grown₁
  have mine : .transaction id.value ∈ (l.tx.updateTransaction
      { row with status := transactionStatusToI16 kind.status,
                 postedAt := kind.postedAt }).held := by
    have same : row.id = id.value := key_of_find there
    exact same ▸ List.mem_append_right _ List.mem_cons_self
  apply meets_updateEntryStatusByTransaction
  · rw [Session.summary_record]
    exact unwritten.uncommitted
  · exact unwritten.entries
  · intro h member e
    rcases List.mem_append.mp member with old | new
    · obtain ⟨a, rfl⟩ := held h old
      simp [Resource.rank, Prod.Lex.toLex_lt_toLex]
    · rw [List.mem_singleton.mp new]
      simp [Resource.rank, Prod.Lex.toLex_lt_toLex]
  intro w₂ count book₂ keeps₂
  rw [proper.entryStatus]
  refine meets_settleMarked proper ?_ collected ((settling₁.stable keeps₂).grown
    (.record fun r member => List.mem_append_left _ member)) book₂ (List.mem_append_left _ mine)
    ((keeps₂.transactions id.value mine).1.trans there) checked ?_ ?_
    (List.mem_append_left _ (List.mem_append_left _ seen))
  · exact asks
  · simp only [Session.tx_record, Tx.writeEntries, Tx.updateTransaction, unwritten.versions]
    rfl
  · rw [Session.summary_record, Session.summary_record, unwritten.summary]
    rfl

/-- A settlement that has read the transaction as pending. -/
private theorem meets_settlePending {kind : Settlement} {id : TransactionId}
    {transaction : Transaction} {row : TransactionRow} (proper : Proper kind)
    (asks : Asks l.request id kind.status kind.postedAt) (unwritten : Unwritten l)
    (idle : l.tx.held = []) (there : w.tables.transaction? id.value = some row)
    (pending : transaction.status = .pending)
    (seen : (⟨.getTransaction id, .ok (some transaction)⟩ : Answered) ∈ l.history) :
    Meets (settlePending kind transaction id) w l := by
  apply meets_getEntriesForTransaction unwritten there
  intro w₁ entries book₁ keeps₁ lines
  obtain ⟨⟨old, found, -⟩, -⟩ := keeps₁.lines id.value row there
  have unwritten₁ : Unwritten (l.record (.getEntriesForTransaction id) (.ok entries) l.tx) :=
    unwritten.read rfl
  apply meets_lockAccounts unwritten₁ (lockOrder_increasing _)
  · intro h member
    rw [Session.tx_record, idle] at member
    cases member
  intro w₂ l₂ accounts keeps₂ unwritten₂ grown locked _ held
  cases collected : collectUpdates kind.movement accounts entries [] with
  | error e => exact promise_error unwritten₂.uncommitted
  | ok updates =>
      have settling : Settling w₂ l₂ id entries accounts := by
        obtain ⟨⟨row₂, present, -⟩, same⟩ := keeps₂.lines id.value old found
        exact ⟨⟨row₂, present⟩, lines.trans same.symm, locked⟩
      refine meets_settleLocked proper (by rw [grown.request]; exact asks) collected settling
        unwritten₂ ?_ pending (grown.history _ (List.mem_append_left _ seen))
      intro r member
      rcases held r member with old | ⟨other, -, rfl⟩
      · rw [Session.tx_record, idle] at old
        cases old
      · exact ⟨_, rfl⟩

/-- Both settlements, from the first call to the answer. -/
theorem meets_settle {kind : Settlement} {id : Int} (proper : Proper kind)
    (asks : Asks l.request ⟨id⟩ kind.status kind.postedAt) (unwritten : Unwritten l)
    (idle : l.tx.held = []) : Meets (settle kind id) w l := by
  apply meets_orReject unwritten.uncommitted
  intro transactionId parsed
  obtain rfl := TransactionId.new_eq_ok (mapError_eq_ok.mp parsed)
  apply meets_inTransaction unwritten
  intro w₁
  have unwritten₁ : Unwritten (l.record .begin (.ok ()) l.tx) := unwritten.read rfl
  apply meets_getTransaction unwritten₁
  · intro w₂
    exact promise_error (unwritten₁.read rfl).uncommitted
  intro w₂ row transaction book₂ there built
  have unwritten₂ : Unwritten ((l.record .begin (.ok ()) l.tx).record (.getTransaction ⟨id⟩)
      (.ok (some transaction)) l.tx) := unwritten₁.read rfl
  change Meets (if transaction.status = kind.status then _ else _) _ _
  split
  · rename_i done
    apply meets_commit unwritten₂.uncommitted
    · exact fun _ _ _ => .reading unwritten₂.versions unwritten₂.summary
    · intro w₃
      refine ⟨?_, fun _ same => ?_, nofun⟩
      · intro _
        rw [Session.summary_record, unwritten₂.summary]
        exact ⟨rfl, rfl⟩
      · cases same
        exact .of_settle asks (.replayed (by simp) done)
  · split
    · exact promise_error unwritten₂.uncommitted
    · rename_i pending
      exact meets_settlePending proper asks unwritten₂ idle there (not_not.mp pending)
        (List.mem_append_right _ List.mem_cons_self)

end Fides.Ledger
