import Fides.Ledger.Decoding
import Fides.Ledger.Runs

/-! # Reading the stored data

What a session reads of the committed tables is a consistent book, and so can be
decoded.  The entries of an account are listed by id, and ids are drawn before
the commit; but they are drawn under the lock of the account, so a later commit
never puts an entry before one that was already listed.
-/

namespace Fides.Ledger

open Domain Service Storage FixedWidth Relational Concurrency

variable {cfg next : Config server} {event : Event server} {trace : List (Transition server)}

section Corruption

/-- The answer does not say that stored data cannot be decoded. -/
private def Sane {α : Type} (answer : Except StorageError α) : Prop :=
  ∀ message, answer ≠ .error (.dataCorruption message)

private theorem Sane.failure {α : Type} {answer : Except StorageError α} (sane : Sane answer)
    (message : String) : Service.failure answer ≠ some (.dataCorruption message) := by
  cases answer with
  | ok value => simp [Service.failure]
  | error e =>
      intro same
      cases same
      exact sane message rfl

private theorem Sane.ok {α : Type} (value : α) : Sane (.ok value) := by simp [Sane]

private theorem Sane.of_reply {α : Type} {read answer : Except StorageError α}
    {db db' : Database} {tx tx' : Tx} (replied : (read, db, tx) = (answer, db', tx'))
    (sane : Sane read) : Sane answer := by
  cases replied
  exact sane

@[simp] private theorem ofSqlx_ne (e : SqlError) (message : String) :
    StorageError.ofSqlx e ≠ .dataCorruption message := by
  cases e <;> simp [StorageError.ofSqlx]

variable {db db' : Database} {tx tx' : Tx}

private theorem createAccount_sane {accountType assetCode assetScale createdAt answer}
    (replied : Storage.createAccount accountType assetCode assetScale createdAt db tx =
      (answer, db', tx')) : Sane answer := by
  rintro message rfl
  simp only [Storage.createAccount, sqlFailure] at replied
  repeat' split at replied
  all_goals simp at replied

private theorem createTransaction_sane {idempotencyKey status metadata createdAt postedAt answer}
    (replied : Storage.createTransaction idempotencyKey status metadata createdAt postedAt db tx =
      (answer, db', tx')) : Sane answer := by
  rintro message rfl
  simp only [Storage.createTransaction, sqlFailure] at replied
  repeat' split at replied
  all_goals simp at replied

private theorem createEntry_sane {transactionId accountId entryType amount status createdAt answer}
    (replied : Storage.createEntry transactionId accountId entryType amount status createdAt db tx =
      (answer, db', tx')) : Sane answer := by
  rintro message rfl
  simp only [Storage.createEntry, sqlFailure] at replied
  repeat' split at replied
  all_goals simp at replied

private theorem updateTransactionStatus_sane {id status postedAt answer} {row : TransactionRow}
    (unwritten : tx.versions.transactions = [])
    (present : db.tables.transaction? id.value = some row)
    (replied : Storage.updateTransactionStatus id status postedAt db tx = (answer, db', tx')) :
    Sane answer := by
  rintro message rfl
  simp only [Storage.updateTransactionStatus, Tx.view_transaction? unwritten, present,
    sqlFailure] at replied
  split at replied <;> simp at replied

private theorem updateAccountBalance_sane {id version posted pending answer} {row : AccountRow}
    (present : (tx.view db).account? id.value = some row)
    (replied : Storage.updateAccountBalance id version posted pending db tx = (answer, db', tx')) :
    Sane answer := by
  rintro message rfl
  simp only [Storage.updateAccountBalance, present, sqlFailure] at replied
  repeat' split at replied
  all_goals simp at replied

section Reads

variable (book : Consistent db.tables db.sequences)

include book

private theorem lookupAccount_sane (id : Int) :
    Sane (lookup buildAccount (db.tables.account? id)) := by
  obtain ⟨found, read⟩ := lookup_ok fun row (there : db.tables.account? id = some row) =>
    buildAccount_of_sound (book.accountRows row (mem_of_find there)).1
  rw [read]
  exact .ok found

private theorem lookupTransaction_sane {row? : Option TransactionRow}
    (stored : ∀ row, row? = some row → row ∈ db.tables.transactions) :
    Sane (lookup buildTransaction row?) := by
  obtain ⟨found, read⟩ := lookup_ok fun row there =>
    buildTransaction_of_sound (book.transactionRows row (stored row there)).1
  rw [read]
  exact .ok found

private theorem getAccount_sane {id answer} (unwritten : tx.versions.accounts = [])
    (replied : Storage.getAccount id db tx = (answer, db', tx')) : Sane answer := by
  rw [getAccount_eq, Tx.view_account? unwritten] at replied
  exact .of_reply replied (lookupAccount_sane book _)

private theorem getAccountForUpdate_sane {id answer} (unwritten : tx.versions.accounts = [])
    (replied : Storage.getAccountForUpdate id db tx = (answer, db', tx')) : Sane answer := by
  rw [getAccountForUpdate_eq, Tx.view_account? unwritten] at replied
  exact .of_reply replied (lookupAccount_sane book _)

private theorem getTransaction_sane {id answer} (unwritten : tx.versions.transactions = [])
    (replied : Storage.getTransaction id db tx = (answer, db', tx')) : Sane answer := by
  rw [getTransaction_eq, Tx.view_transaction? unwritten] at replied
  exact .of_reply replied (lookupTransaction_sane book fun _ => mem_of_find)

private theorem findTransactionByKey_sane {key answer} (unwritten : tx.versions.transactions = [])
    (replied : Storage.findTransactionByKey key db tx = (answer, db', tx')) : Sane answer := by
  by_cases storable : Storable key
  · rw [findTransactionByKey_eq storable, Tx.view_byKey? unwritten] at replied
    exact .of_reply replied (lookupTransaction_sane book fun _ => List.mem_of_find?_eq_some)
  · rw [findTransactionByKey_null storable] at replied
    exact .of_reply replied (by simp [Sane])

private theorem buildEntries_sane (test : EntryRow → Bool) :
    Sane (buildEntries (orderById (db.tables.entries.filter test))) := by
  have sorting := List.perm_insertionSort (fun a b : EntryRow => a.id ≤ b.id)
    (db.tables.entries.filter test)
  have inside : ∀ e ∈ orderById (db.tables.entries.filter test), e ∈ db.tables.entries :=
    fun e member => List.mem_of_mem_filter (sorting.mem_iff.mp member)
  obtain ⟨entries, built⟩ := buildEntries_of_book book inside
  rw [built]
  exact nofun

end Reads

private theorem storing_sane {α : Type} {call : Database → Tx → Reply α} {w w' : World}
    {answer : Except StorageError α}
    (sane : ∀ {answer db' tx'}, call w.database tx = (answer, db', tx') → Sane answer)
    (ran : storing call w tx = (answer, w', tx')) (message : String) :
    failure answer ≠ some (.dataCorruption message) := by
  obtain ⟨_, replied, -⟩ := storing_eq call ran
  exact (sane replied).failure message

/-- No call that a session may make finds stored data that cannot be decoded. -/
private theorem exec_sane {weather : Weather} {c : Call} {answer : c.Result} {w w' : World}
    {l l' : Session} (book : Consistent w.tables w.sequences) (allowed : Allowed w l c)
    (ran : exec weather c w l = some (answer, w', l')) (message : String) :
    (⟨c, answer⟩ : Answered).error ≠ some (.dataCorruption message) := by
  obtain ⟨tx, out, -⟩ := exec_eq_some ran
  cases weather with
  | fault text =>
      cases c <;> cases out <;> exact nofun
  | fair =>
      have out := Option.some.inj out
      cases c with
      | begin | commit =>
          cases out
          exact nofun
      | rollback | cacheGet | cacheApplyDelta | cacheSet => exact nofun
      | createAccount => exact storing_sane createAccount_sane out message
      | createTransaction => exact storing_sane createTransaction_sane out message
      | createEntry => exact storing_sane createEntry_sane out message
      | updateTransactionStatus =>
          obtain ⟨-, unwritten, ⟨row, present⟩, -⟩ := allowed
          exact storing_sane (updateTransactionStatus_sane unwritten present) out message
      | updateAccountBalance =>
          obtain ⟨-, -, row, present, -⟩ := allowed
          exact storing_sane (updateAccountBalance_sane present) out message
      | updateEntryStatusByTransaction =>
          cases out
          exact nofun
      | getAccount => exact storing_sane (getAccount_sane book allowed) out message
      | getAccountForUpdate =>
          exact storing_sane (getAccountForUpdate_sane book allowed) out message
      | getTransaction => exact storing_sane (getTransaction_sane book allowed) out message
      | findTransactionByKey =>
          exact storing_sane (findTransactionByKey_sane book allowed) out message
      | getEntriesForTransaction id =>
          cases out
          refine Sane.failure ?_ message
          rw [Tx.view_entriesOf allowed.1]
          exact buildEntries_sane book _
      | getEntriesForAccount id =>
          cases out
          refine Sane.failure ?_ message
          rw [Tx.view_entries allowed]
          exact buildEntries_sane book _

/-- No answer in any history says that stored data cannot be decoded. -/
theorem history_sane (run : Steps initial trace cfg) :
    ∀ (i : Nat) thread, cfg.threads[i]? = some thread → ∀ answered ∈ thread.own.history,
      ∀ message, answered.error ≠ some (.dataCorruption message) :=
  history_invariant (T := fun _ answered => ∀ message,
    answered.error ≠ some (.dataCorruption message)) (fun _ _ _ _ sane => sane) exec_sane run

/-- In every run all stored rows decode, `posted_at` is set just where a transaction is
    posted, and no storage call finds corrupted data. -/
theorem stored_decodes (run : Steps initial trace cfg) :
    (∀ row ∈ cfg.shared.tables.accounts, ∃ account, buildAccount row = .ok account) ∧
    (∀ row ∈ cfg.shared.tables.transactions,
      (∃ transaction, buildTransaction row = .ok transaction) ∧
        (row.postedAt.isSome ↔ row.status = transactionStatusToI16 .posted) ∧
        ∀ p ∈ row.postedAt, 0 < p) ∧
    (∀ e ∈ cfg.shared.tables.entries, ∃ entry, buildEntry e = .ok entry) ∧
    ∀ (i : Nat) thread, cfg.threads[i]? = some thread → ∀ answered ∈ thread.own.history,
      ∀ message, answered.error ≠ some (.dataCorruption message) := by
  have book : Consistent cfg.shared.tables cfg.shared.sequences := (safe run).inv
  refine ⟨fun row member => buildAccount_of_sound (book.accountRows row member).1,
    fun row member => ?_, fun e member => buildEntry_of_book book member, history_sane run⟩
  obtain ⟨sound, -⟩ := book.transactionRows row member
  refine ⟨buildTransaction_of_sound sound, ?_⟩
  by_cases posted : row.status = 2
  · obtain ⟨p, same, positive⟩ := sound.posted posted
    simp [same, posted, positive, transactionStatusToI16]
  · simp [sound.unposted posted, posted, transactionStatusToI16]

/-- A void overlaps a capture and commits last. -/
theorem stored_decodes_overlapping : ∃ trace cfg row, Steps initial trace cfg ∧
    succeeded cfg 3 = some (.capture 1 5) ∧ succeeded cfg 4 = some (.void 1) ∧
    cfg.shared.tables.transaction? 1 = some row ∧ row.status = 3 ∧
    (∃ transaction, buildTransaction row = .ok transaction) ∧ row.postedAt = none := by
  obtain ⟨trace, cfg, run, -, computed⟩ := reached (fun _ => true)
    (overlapping (.capture 1 5) (.void 1))
    (fun cfg => (succeeded cfg 3, succeeded cfg 4,
      (cfg.shared.tables.transaction? 1).map TransactionRow.status))
    (a := (some (.capture 1 5), some (.void 1), some 3)) (by decide +kernel)
  simp only [Prod.mk.injEq, Option.map_eq_some_iff] at computed
  obtain ⟨captured, voided, row, found, status⟩ := computed
  obtain ⟨decodes, set, -⟩ := (stored_decodes run).2.1 row (mem_of_find found)
  refine ⟨trace, cfg, row, run, captured, voided, found, status, decodes, ?_⟩
  simpa [status, transactionStatusToI16] using set

end Corruption

section Stream

theorem stream_entered {t t' : Tables} {ids : Sequences} (moved : Entered t ids t') (a : Int) :
    t.stream a <+: t'.stream a := by
  cases moved with
  | enroll => exact List.prefix_refl _
  | hold => exact ⟨_, (t.stream_hold _ _ _ a).symm⟩
  | settle => exact ⟨[], by rw [Tables.stream_settle, List.append_nil]⟩

/-- The entries of an account only grow at their end. -/
theorem stream_grows {later : List (Transition server)} {cfg' : Config server}
    (safe : protocol.Safe cfg) (run : Steps cfg later cfg') (a : Int) :
    cfg.shared.tables.stream a <+: cfg'.shared.tables.stream a := by
  refine later_invariant (fun _ => True) (P := fun later =>
    cfg.shared.tables.stream a <+: later.shared.tables.stream a) safe (List.prefix_refl _) ?_ run
    fun _ _ => trivial
  intro before event after safe grown stepped _
  rcases step_entered safe stepped with same | moved
  · rwa [same]
  · exact grown.trans (stream_entered moved a)

/-- The account whose entries are read in a transition, and the answer. -/
def listing (moved : Transition server) : Option (Int × List Entry) :=
  match moved.event with
  | .call i weather => match moved.before.threads[i]? with
      | some ⟨some (.call (.getEntriesForAccount id) _), own⟩ =>
          match exec weather (.getEntriesForAccount id) moved.before.shared own with
          | some (.ok entries, _, _) => some (id.value, entries)
          | _ => none
      | _ => none
  | _ => none

/-- A response entry but for its status. -/
def withoutStatus (entry : ProtoEntry) : ProtoEntry := { entry with status := 0 }

theorem withoutStatus_proto :
    withoutStatus ∘ EntryRow.proto = EntryRow.proto ∘ EntryRow.fixed := rfl

/-- What is listed are the committed entries of the account, in table order. -/
private theorem listing_eq {moved : Transition server} (safe : protocol.Safe moved.before) {a : Int}
    {entries : List Entry} (listed : listing moved = some (a, entries)) :
    entries.map entryToProto =
      (moved.before.shared.tables.entries.filter fun e => e.accountId = a).map EntryRow.proto := by
  unfold listing at listed
  split at listed
  · split at listed
    · rename_i found
      split at listed
      · rename_i ran
        cases listed
        have unwritten : _ = [] := (safe.pre found).2
        have same :=
          (exec_getEntriesForAccount safe.inv unwritten _).symm.trans (exec_fair ran rfl)
        exact buildEntries_proto (congrArg Prod.fst (Option.some.inj same))
      · cases listed
    · cases listed
  · cases listed

private theorem listing_distinct {moved : Transition server} (safe : protocol.Safe moved.before)
    {a : Int} {entries : List Entry} (listed : listing moved = some (a, entries)) :
    (entries.map Entry.id).Nodup := by
  have ids := congrArg (List.map ProtoEntry.id) (listing_eq safe listed)
  rw [List.map_map, List.map_map] at ids
  have distinct : (entries.map (ProtoEntry.id ∘ entryToProto)).Nodup := by
    rw [ids]
    exact List.pairwise_map.mpr ((safe.inv.streams a).imp fun less => ne_of_lt less)
  rw [show ProtoEntry.id ∘ entryToProto = EntryId.value ∘ Entry.id from rfl,
    ← List.map_map] at distinct
  exact distinct.of_map _

/-- Statuses set aside, an earlier listing is the beginning of a later one. -/
private theorem listing_grows {moved moved' : Transition server} {between : List (Transition server)}
    (before : protocol.Safe moved.before) (after : protocol.Safe moved'.before)
    (run : Steps moved.before between moved'.before) {a : Int} {entries entries' : List Entry}
    (listed : listing moved = some (a, entries)) (listed' : listing moved' = some (a, entries')) :
    (entries.map (withoutStatus ∘ entryToProto)) <+:
      entries'.map (withoutStatus ∘ entryToProto) := by
  rw [← List.map_map, ← List.map_map, listing_eq before listed, listing_eq after listed',
    List.map_map, List.map_map, withoutStatus_proto, ← List.map_map, ← List.map_map]
  exact (stream_grows before run a).map EntryRow.proto

/-- The entries that a session has read were read in a transition of the run. -/
private theorem listing_of_answer (run : Steps initial trace cfg) :
    ∀ (i : Nat) thread, cfg.threads[i]? = some thread → ∀ id entries,
      (⟨.getEntriesForAccount id, .ok entries⟩ : Answered) ∈ thread.own.history →
        ∃ moved ∈ trace, listing moved = some (id.value, entries) := by
  induction run with
  | refl => simp [initial]
  | @snoc trace cfg event next _ stepped ih =>
      have earlier : ∀ {id : AccountId} {entries : List Entry},
          (∃ moved ∈ trace, listing moved = some (id.value, entries)) →
            ∃ moved ∈ trace ++ [⟨cfg, event, next⟩], listing moved = some (id.value, entries) :=
        fun found => found.imp fun moved both => ⟨List.mem_append_left _ both.1, both.2⟩
      refine Config.all_step (T := fun (_ : World) (l : Session) => ∀ id entries,
        (⟨.getEntriesForAccount id, .ok entries⟩ : Answered) ∈ l.history →
          ∃ moved ∈ trace ++ [⟨cfg, event, next⟩], listing moved = some (id.value, entries))
        (fun i thread there id entries seen => earlier (ih i thread there id entries seen)) stepped
        (fun _ _ _ seen => absurd seen List.not_mem_nil) (fun _ holds => holds)
        (fun _ holds => holds) ?_
      rintro i weather c rest own answer shared own' rfl found ran -
      refine ⟨fun id entries seen => ?_, fun _ _ _ _ holds => holds⟩
      obtain ⟨tx, -, rfl⟩ := exec_eq_some ran
      rcases List.mem_append.mp seen with old | new
      · exact earlier (ih i _ found id entries old)
      · cases List.mem_singleton.mp new
        refine ⟨_, List.mem_append_right _ List.mem_cons_self, ?_⟩
        simp only [listing, found]
        rw [show exec _ _ _ own = _ from ran]

/-- A listing has every committed entry of the account exactly once, a later one begins
    with the same entries, and `GetEntries` answers with a listing. -/
theorem entries_listed (run : Steps initial trace cfg) :
    (∀ moved ∈ trace, ∀ a entries, listing moved = some (a, entries) →
      entries.map entryToProto =
        (moved.before.shared.tables.entries.filter fun e => e.accountId = a).map EntryRow.proto ∧
      (entries.map Entry.id).Nodup) ∧
    (∀ earlier moved later, trace = earlier ++ moved :: later → ∀ moved' ∈ later,
      ∀ a entries entries', listing moved = some (a, entries) →
        listing moved' = some (a, entries') →
        (entries.map (withoutStatus ∘ entryToProto)) <+:
          entries'.map (withoutStatus ∘ entryToProto)) ∧
    ∀ (i : Nat) response own a, cfg.threads[i]? = some ⟨some (.done (.ok response)), own⟩ →
      own.request = .getEntries a → ∃ moved ∈ trace, ∃ entries,
        listing moved = some (a, entries) ∧ response = .entries (entries.map entryToProto) := by
  refine ⟨fun moved member a entries listed => ?_,
    fun earlier moved later whole moved' after a entries entries' listed listed' => ?_,
    fun i response own a found request => ?_⟩
  · obtain ⟨_, _, -, before, -⟩ := run.split member
    exact ⟨listing_eq (safe before) listed, listing_distinct (safe before) listed⟩
  · subst whole
    obtain ⟨before, stepped, rest⟩ := run.cut
    obtain ⟨between, _, -, reads, -⟩ := rest.split after
    have onward : Steps moved.before ([moved] ++ between) moved'.before :=
      (Steps.snoc .refl stepped).append reads
    exact listing_grows (safe before) (safe (before.append onward)) onward listed listed'
  · obtain ⟨-, reports, -⟩ := (safe run).post found
    obtain ⟨entries, seen, rfl⟩ := (reports response rfl).listed a request
    obtain ⟨moved, member, listed⟩ := listing_of_answer run i _ found _ _ seen
    exact ⟨moved, member, entries, listed, rfl⟩

/-- The entries of an account are listed after one deposit and after two. -/
theorem entries_listed_deposits : ∃ earlier later cfg moved moved' entries entries',
    Steps initial (earlier ++ moved :: (later ++ [moved'])) cfg ∧
    listing moved = some (1, entries) ∧ listing moved' = some (1, entries') ∧
    entries.length = 1 ∧ entries'.length = 2 ∧
    (entries.map (withoutStatus ∘ entryToProto)) <+:
      entries'.map (withoutStatus ∘ entryToProto) := by
  have played : ((initial.play (fun _ => true)
      (deposit ("USD", "USD") ++ .request (.getEntries 1) :: turns 3 2)).bind fun before =>
    (before.step (.call 3 .fair)).bind fun after =>
    (after.play (fun _ => true) (.request
      (.authorize ⟨"again", [⟨1, 1, 50⟩, ⟨2, 2, 50⟩], ⟨"", .error ""⟩⟩ 3) :: turns 4 12 ++
        .request (.getEntries 1) :: turns 5 2)).bind fun before' =>
    (before'.step (.call 5 .fair)).map fun after' =>
      ((listing ⟨before, .call 3 .fair, after⟩).map fun seen => (seen.1, seen.2.length),
        (listing ⟨before', .call 5 .fair, after'⟩).map fun seen => (seen.1, seen.2.length))) =
      some (some (1, 1), some (1, 2)) := by decide +kernel
  simp only [Option.bind_eq_some_iff, Option.map_eq_some_iff, Prod.mk.injEq, Prod.exists] at played
  obtain ⟨before, first, after, read, before', second, after', read',
    ⟨_, entries, listed, rfl, one⟩, _, entries', listed', rfl, two⟩ := played
  obtain ⟨earlier, run, -⟩ := Steps.of_play first
  obtain ⟨later, between, -⟩ := Steps.of_play second
  have whole := (run.snoc read).append (between.snoc read')
  rw [List.append_assoc, List.singleton_append] at whole
  exact ⟨earlier, later, after', _, _, entries, entries', whole, listed, listed', one, two,
    (entries_listed whole).2.1 earlier _ _ rfl _ (by simp) 1 entries entries' listed listed'⟩

end Stream
end Fides.Ledger
