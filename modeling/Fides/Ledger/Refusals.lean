import Fides.Ledger.Audit
import Fides.Ledger.Conformance
import Fides.Ledger.Grounds
import Fides.Ledger.Permanence
import Fides.Ledger.Versions

/-! # Refusals tell the truth

What a session has heard was said in a transition of the run, and what it says about
the ledger was so when it was said.  So every refusal names a fact: about the request,
or about the ledger at one of the calls that were made for it.
-/

namespace Fides.Ledger

open Domain Service Storage FixedWidth Relational Concurrency

variable {cfg : Config server} {trace : List (Transition server)}

section Errors

/-- A failure that every storage call can have. -/
private def Common (e : StorageError) : Prop :=
  (∃ sql, e = .database sql) ∨ ∃ message, e = .dataCorruption message

private theorem common_ofSqlx {sql : SqlError} (other : ∀ detail, sql ≠ .uniqueViolation detail) :
    Common (.ofSqlx sql) := by
  cases sql with
  | uniqueViolation detail => exact absurd rfl (other detail)
  | _ => exact .inl ⟨_, rfl⟩

private theorem nextval_error {last : Int} {sql : SqlError} (failed : nextval last = .error sql)
    (detail : String) : sql ≠ .uniqueViolation detail := by
  unfold nextval at failed
  split at failed <;> cases failed
  simp

private theorem varchar_error {limit : Nat} {text : String} {sql : SqlError}
    (failed : varchar limit text = .error sql) (detail : String) : sql ≠ .uniqueViolation detail := by
  unfold varchar at failed
  repeat' split at failed
  all_goals cases failed
  all_goals simp

private theorem jsonb_error {value : JsonValue} {sql : SqlError} (failed : jsonb value = .error sql)
    (detail : String) : sql ≠ .uniqueViolation detail := by
  unfold jsonb at failed
  split at failed <;> cases failed
  simp

private theorem accountCheck_error {row : AccountRow} {sql : SqlError}
    (failed : row.check = .error sql) (detail : String) : sql ≠ .uniqueViolation detail := by
  unfold AccountRow.check at failed
  repeat' split at failed
  all_goals cases failed
  all_goals simp

private theorem transactionCheck_error {row : TransactionRow} {sql : SqlError}
    (failed : row.check = .error sql) (detail : String) : sql ≠ .uniqueViolation detail := by
  unfold TransactionRow.check at failed
  repeat' split at failed
  all_goals cases failed
  all_goals simp

private theorem entryCheck_error {row : EntryRow} {sql : SqlError}
    (failed : row.check = .error sql) (detail : String) : sql ≠ .uniqueViolation detail := by
  unfold EntryRow.check at failed
  repeat' split at failed
  all_goals cases failed
  all_goals simp

private theorem buildAccount_error {row : AccountRow} {e : StorageError}
    (failed : buildAccount row = .error e) : Common e := by
  unfold buildAccount at failed
  split at failed
  · rename_i undecoded
    cases failed
    unfold i16ToAccountType at undecoded
    repeat' split at undecoded
    all_goals cases undecoded
    exact .inr ⟨_, rfl⟩
  · split at failed <;> cases failed
    exact .inr ⟨_, rfl⟩

private theorem buildTransaction_error {row : TransactionRow} {e : StorageError}
    (failed : buildTransaction row = .error e) : Common e := by
  unfold buildTransaction at failed
  split at failed
  · rename_i undecoded
    cases failed
    unfold i16ToTransactionStatus at undecoded
    repeat' split at undecoded
    all_goals cases undecoded
    exact .inr ⟨_, rfl⟩
  · split at failed <;> cases failed
    exact .inr ⟨_, rfl⟩

private theorem buildEntry_error {row : EntryRow} {e : StorageError}
    (failed : buildEntry row = .error e) : Common e := by
  unfold buildEntry at failed
  split at failed
  · rename_i undecoded
    cases failed
    unfold i16ToEntryType at undecoded
    repeat' split at undecoded
    all_goals cases undecoded
    exact .inr ⟨_, rfl⟩
  · rename_i undecoded
    cases failed
    unfold i16ToEntryStatus at undecoded
    repeat' split at undecoded
    all_goals cases undecoded
    exact .inr ⟨_, rfl⟩
  · split at failed <;> cases failed
    exact .inr ⟨_, rfl⟩

private theorem buildEntries_error {rows : List EntryRow} {e : StorageError}
    (failed : buildEntries rows = .error e) : Common e := by
  induction rows generalizing e with
  | nil => cases failed
  | cons row rows ih =>
    unfold buildEntries at failed
    split at failed
    · rename_i undecoded
      cases failed
      exact buildEntry_error undecoded
    · rename_i undecoded
      cases failed
      exact ih undecoded
    · cases failed

private theorem lookup_error {ρ α : Type} {build : ρ → Except StorageError α} {row? : Option ρ}
    (common : ∀ row e, build row = .error e → Common e) {e : StorageError}
    (failed : lookup build row? = .error e) : Common e := by
  cases row? with
  | none => cases failed
  | some row =>
    cases built : build row with
    | ok value => simp [lookup, built, Except.map] at failed
    | error e' =>
      simp only [lookup, built, Except.map, Except.error.injEq] at failed
      exact failed ▸ common row e' built

variable {db db' : Database} {tx tx' : Tx} {e : StorageError}

private theorem createAccount_error {accountType assetCode assetScale createdAt}
    (replied : Storage.createAccount accountType assetCode assetScale createdAt db tx =
      (.error e, db', tx')) : Common e := by
  simp only [Storage.createAccount, sqlFailure] at replied
  split at replied
  · rename_i failed
    cases replied
    exact common_ofSqlx (varchar_error failed)
  split at replied
  · rename_i failed
    cases replied
    exact common_ofSqlx (nextval_error failed)
  split at replied <;> cases replied
  rename_i failed
  exact common_ofSqlx (accountCheck_error failed)

private theorem createEntry_error {transactionId accountId entryType amount status createdAt}
    (replied : Storage.createEntry transactionId accountId entryType amount status createdAt db tx =
      (.error e, db', tx')) : Common e := by
  simp only [Storage.createEntry, sqlFailure] at replied
  split at replied
  · rename_i failed
    cases replied
    exact common_ofSqlx (nextval_error failed)
  split at replied
  · rename_i failed
    cases replied
    exact common_ofSqlx (entryCheck_error failed)
  split at replied
  · cases replied
    exact .inl ⟨_, rfl⟩
  split at replied <;> cases replied
  exact .inl ⟨_, rfl⟩

private theorem updateTransactionStatus_error {id status postedAt}
    (replied : Storage.updateTransactionStatus id status postedAt db tx = (.error e, db', tx')) :
    Common e := by
  simp only [Storage.updateTransactionStatus, sqlFailure] at replied
  split at replied
  · cases replied
    exact .inr ⟨_, rfl⟩
  split at replied <;> cases replied
  rename_i failed
  exact common_ofSqlx (transactionCheck_error failed)

private theorem getAccount_error {id}
    (replied : Storage.getAccount id db tx = (.error e, db', tx')) : Common e := by
  rw [getAccount_eq] at replied
  exact lookup_error (fun _ _ => buildAccount_error) (Prod.mk.inj replied).1

private theorem getAccountForUpdate_error {id}
    (replied : Storage.getAccountForUpdate id db tx = (.error e, db', tx')) : Common e := by
  rw [getAccountForUpdate_eq] at replied
  exact lookup_error (fun _ _ => buildAccount_error) (Prod.mk.inj replied).1

private theorem getTransaction_error {id}
    (replied : Storage.getTransaction id db tx = (.error e, db', tx')) : Common e := by
  rw [getTransaction_eq] at replied
  exact lookup_error (fun _ _ => buildTransaction_error) (Prod.mk.inj replied).1

private theorem getEntriesForTransaction_error {id}
    (replied : Storage.getEntriesForTransaction id db tx = (.error e, db', tx')) : Common e :=
  buildEntries_error (Prod.mk.inj replied).1

private theorem getEntriesForAccount_error {id}
    (replied : Storage.getEntriesForAccount id db tx = (.error e, db', tx')) : Common e :=
  buildEntries_error (Prod.mk.inj replied).1

private theorem findTransactionByKey_error {key}
    (replied : Storage.findTransactionByKey key db tx = (.error e, db', tx')) : Common e := by
  by_cases storable : Storable key
  · rw [findTransactionByKey_eq storable] at replied
    exact lookup_error (fun _ _ => buildTransaction_error) (Prod.mk.inj replied).1
  · rw [findTransactionByKey_null storable] at replied
    cases replied
    exact .inl ⟨_, rfl⟩

/-- A duplicate key is a key of the transactions as the session sees them. -/
private theorem createTransaction_error {key status metadata createdAt postedAt}
    (replied : Storage.createTransaction key status metadata createdAt postedAt db tx =
      (.error e, db', tx')) : Common e ∨ ∃ stored, varchar 64 key = .ok stored ∧
      ((tx.view db).byKey? stored).isSome ∧
      e = .duplicateKey ((duplicateValue (duplicateDetail stored)).getD "unknown") := by
  simp only [Storage.createTransaction, sqlFailure] at replied
  split at replied
  · cases replied
    exact .inl (.inl ⟨_, rfl⟩)
  split at replied
  · rename_i failed
    cases replied
    exact .inl (common_ofSqlx (jsonb_error failed))
  · rename_i failed
    cases replied
    exact .inl (common_ofSqlx (varchar_error failed))
  rename_i stored _ kept
  split at replied
  · rename_i failed
    cases replied
    exact .inl (common_ofSqlx (nextval_error failed))
  split at replied
  · rename_i failed
    cases replied
    exact .inl (common_ofSqlx (transactionCheck_error failed))
  rename_i row checked
  obtain ⟨rfl, -⟩ := TransactionRow.check_ok checked
  split at replied <;> cases replied
  rename_i taken
  exact .inr ⟨stored, kept, taken, rfl⟩

private theorem updateAccountBalance_error {id version posted pending}
    (replied : Storage.updateAccountBalance id version posted pending db tx = (.error e, db', tx')) :
    Common e ∨ ∃ entity conflicting expected actual,
      e = .versionConflict entity conflicting expected actual := by
  simp only [Storage.updateAccountBalance, sqlFailure] at replied
  repeat' split at replied
  all_goals cases replied
  · exact .inl (.inr ⟨_, rfl⟩)
  · exact .inl (.inl ⟨_, rfl⟩)
  · exact .inl (.inl ⟨_, rfl⟩)
  · exact .inl (.inl ⟨_, rfl⟩)
  · exact .inr ⟨_, _, _, _, rfl⟩

/-- What a call can fail with. -/
private inductive Fails (w : World) (tx : Tx) (e : StorageError) : Answered → Prop where
  | common {answered} (common : Common e) : Fails w tx e answered
  | duplicate {key status metadata createdAt postedAt stored} (kept : varchar 64 key = .ok stored)
      (taken : ((tx.view w.database).byKey? stored).isSome)
      (same : e = .duplicateKey ((duplicateValue (duplicateDetail stored)).getD "unknown")) :
      Fails w tx e ⟨.createTransaction key status metadata createdAt postedAt, .error e⟩
  | conflict {id version posted pending} {entity conflicting expected actual}
      (same : e = .versionConflict entity conflicting expected actual) :
      Fails w tx e ⟨.updateAccountBalance id version posted pending, .error e⟩

private theorem storing_error {α : Type} {call : Database → Tx → Reply α} {w w' : World}
    {answer : Except StorageError α} {c : Call} {result : c.Result}
    (common : ∀ {db' tx'}, call w.database tx = (.error e, db', tx') → Common e)
    (ran : storing call w tx = (answer, w', tx')) (failed : failure answer = some e) :
    Fails w tx e ⟨c, result⟩ := by
  obtain ⟨database, replied, -⟩ := storing_eq call ran
  cases answer with
  | ok value => cases failed
  | error e' =>
    cases failed
    exact .common (common replied)

private theorem exec_error {weather : Weather} {c : Call} {answer : c.Result} {w w' : World}
    {l l' : Session} (ran : exec weather c w l = some (answer, w', l'))
    (failed : (⟨c, answer⟩ : Answered).error = some e) : Fails w l.tx e ⟨c, answer⟩ := by
  obtain ⟨tx, out, -⟩ := exec_eq_some ran
  cases weather with
  | fault text =>
    cases c <;> cases out <;> cases failed <;> exact .common (.inl ⟨_, rfl⟩)
  | fair =>
    have out := Option.some.inj out
    cases c with
    | begin | commit | updateEntryStatusByTransaction =>
      cases out
      cases failed
    | rollback | cacheGet | cacheApplyDelta | cacheSet => cases failed
    | createAccount => exact storing_error createAccount_error out failed
    | createEntry => exact storing_error createEntry_error out failed
    | updateTransactionStatus => exact storing_error updateTransactionStatus_error out failed
    | findTransactionByKey => exact storing_error findTransactionByKey_error out failed
    | getAccount => exact storing_error getAccount_error out failed
    | getAccountForUpdate => exact storing_error getAccountForUpdate_error out failed
    | getTransaction => exact storing_error getTransaction_error out failed
    | getEntriesForTransaction => exact storing_error getEntriesForTransaction_error out failed
    | getEntriesForAccount => exact storing_error getEntriesForAccount_error out failed
    | createTransaction key status metadata createdAt postedAt =>
      obtain ⟨database, replied, -⟩ := storing_eq
        (Storage.createTransaction key status metadata createdAt postedAt) out
      cases answer with
      | ok value => cases failed
      | error e' =>
        cases failed
        rcases createTransaction_error replied with common | ⟨stored, kept, taken, same⟩
        · exact .common common
        · exact .duplicate kept taken same
    | updateAccountBalance id version posted pending =>
      obtain ⟨database, replied, -⟩ := storing_eq
        (Storage.updateAccountBalance id version posted pending) out
      cases answer with
      | ok value => cases failed
      | error e' =>
        cases failed
        rcases updateAccountBalance_error replied with common | ⟨_, _, _, _, same⟩
        · exact .common common
        · exact .conflict same

end Errors

section Stored

variable {db db' : Database} {tx tx' : Tx}

/-- The call leaves no version of a transaction row behind. -/
private def Spares {α : Type} (call : Database → Tx → Reply α) : Prop :=
  ∀ db tx answer db' tx', call db tx = (answer, db', tx') →
    tx'.versions.transactions = tx.versions.transactions

private theorem spares_of_storing {α : Type} {call : Database → Tx → Reply α} (spares : Spares call)
    {w w' : World} {answer : Except StorageError α} (ran : storing call w tx = (answer, w', tx'))
    (none : tx.versions.transactions = []) : tx'.versions.transactions = [] := by
  obtain ⟨database, replied, -⟩ := storing_eq call ran
  rw [spares _ _ _ _ _ replied, none]

private theorem createAccount_spares {accountType assetCode assetScale createdAt} :
    Spares (Storage.createAccount accountType assetCode assetScale createdAt) := by
  intro db tx answer db' tx' replied
  simp only [Storage.createAccount, sqlFailure] at replied
  repeat' split at replied
  all_goals cases replied
  all_goals rfl

private theorem createEntry_spares {transactionId accountId entryType amount status createdAt} :
    Spares (Storage.createEntry transactionId accountId entryType amount status createdAt) := by
  intro db tx answer db' tx' replied
  simp only [Storage.createEntry, sqlFailure] at replied
  repeat' split at replied
  all_goals cases replied
  all_goals rfl

private theorem updateAccountBalance_spares {id version posted pending} :
    Spares (Storage.updateAccountBalance id version posted pending) := by
  intro db tx answer db' tx' replied
  simp only [Storage.updateAccountBalance, sqlFailure] at replied
  repeat' split at replied
  all_goals cases replied
  all_goals rfl

private theorem getAccount_spares {id} : Spares (Storage.getAccount id) := by
  intro db tx answer db' tx' replied
  rw [getAccount_eq] at replied
  cases replied
  rfl

private theorem getTransaction_spares {id} : Spares (Storage.getTransaction id) := by
  intro db tx answer db' tx' replied
  rw [getTransaction_eq] at replied
  cases replied
  rfl

private theorem findTransactionByKey_spares {key} : Spares (Storage.findTransactionByKey key) := by
  intro db tx answer db' tx' replied
  by_cases storable : Storable key
  · rw [findTransactionByKey_eq storable] at replied
    cases replied
    rfl
  · rw [findTransactionByKey_null storable] at replied
    cases replied
    rfl

private theorem getAccountForUpdate_spares {id} : Spares (Storage.getAccountForUpdate id) := by
  intro db tx answer db' tx' replied
  rw [getAccountForUpdate_eq] at replied
  cases replied
  split <;> rfl

/-- Only an insert or an update of a transaction that succeeds leaves a version of its row. -/
private theorem exec_stores {weather : Weather} {c : Call} {answer : c.Result} {w w' : World}
    {l l' : Session} (ran : exec weather c w l = some (answer, w', l'))
    (plain : stores ⟨c, answer⟩ = false) (none : l.tx.versions.transactions = []) :
    l'.tx.versions.transactions = [] := by
  obtain ⟨tx, out, rfl⟩ := exec_eq_some ran
  cases weather with
  | fault text => cases c <;> cases out <;> first | exact none | rfl
  | fair =>
    have out := Option.some.inj out
    cases c with
    | begin | cacheGet | cacheApplyDelta | cacheSet =>
      cases out
      exact none
    | commit | rollback =>
      cases out
      rfl
    | createAccount => exact spares_of_storing createAccount_spares out none
    | createEntry => exact spares_of_storing createEntry_spares out none
    | updateAccountBalance => exact spares_of_storing updateAccountBalance_spares out none
    | getAccountForUpdate => exact spares_of_storing getAccountForUpdate_spares out none
    | updateEntryStatusByTransaction | getEntriesForTransaction | getEntriesForAccount =>
      cases out
      exact none
    | getAccount => exact spares_of_storing getAccount_spares out none
    | getTransaction => exact spares_of_storing getTransaction_spares out none
    | findTransactionByKey => exact spares_of_storing findTransactionByKey_spares out none
    | createTransaction key status metadata createdAt postedAt =>
      cases answer with
      | ok id => cases plain
      | error e =>
        obtain ⟨database, replied, -⟩ := storing_eq
          (Storage.createTransaction key status metadata createdAt postedAt) out
        simp only [Storage.createTransaction, sqlFailure] at replied
        repeat' split at replied
        all_goals cases replied
        all_goals exact none
    | updateTransactionStatus id status postedAt =>
      cases answer with
      | ok value => cases plain
      | error e =>
        obtain ⟨database, replied, -⟩ := storing_eq
          (Storage.updateTransactionStatus id status postedAt) out
        simp only [Storage.updateTransactionStatus, sqlFailure] at replied
        repeat' split at replied
        all_goals cases replied
        all_goals exact none

theorem unstored (run : Steps initial trace cfg) {i : Nat} {thread : Thread server}
    (there : cfg.threads[i]? = some thread)
    (plain : ∀ before ∈ thread.own.history, stores before = false) :
    thread.own.tx.versions.transactions = [] := by
  have all : ∀ (i : Nat) thread, cfg.threads[i]? = some thread →
      (∀ before ∈ thread.own.history, stores before = false) →
        thread.own.tx.versions.transactions = [] := by
    refine run.invariant (P := fun cfg : Config server => ∀ (i : Nat) thread,
      cfg.threads[i]? = some thread → (∀ before ∈ thread.own.history, stores before = false) →
        thread.own.tx.versions.transactions = []) ?_ (by simp [initial]) fun _ _ => trivial
    intro before event after all stepped _
    refine Config.each_step all stepped (fun _ _ => rfl) (fun _ _ _ _ => rfl) ?_
    intro weather c rest own answer w w' own' holds ran plain
    obtain ⟨tx, -, rfl⟩ := exec_eq_some ran
    exact exec_stores ran (plain _ (List.mem_append_right _ List.mem_cons_self))
      (holds fun before member => plain before (List.mem_append_left _ member))
  exact all i thread there plain

end Stored

section Moments

/-- In this transition of the run, request `i` made a call after those, and got this answer. -/
structure Made (trace : List (Transition server)) (i : Nat) (earlier : List Answered)
    (answered : Answered) (moved : Transition server) (l : Session) : Prop where
  member : moved ∈ trace
  called : ∃ weather, moved.event = .call i weather ∧ ∃ w' l',
    exec weather answered.call moved.before.shared l = some (answered.result, w', l')
  there : ∃ rest, moved.before.threads[i]? = some ⟨some (.call answered.call rest), l⟩
  history : l.history = earlier

variable {i : Nat} {earlier : List Answered} {answered : Answered}

private theorem Made.later {moved : Transition server} {l : Session} {last : Transition server}
    (made : Made trace i earlier answered moved l) :
    Made (trace ++ [last]) i earlier answered moved l :=
  ⟨List.mem_append_left _ made.member, made.called, made.there, made.history⟩

/-- What a session has heard was said in a transition of the run. -/
theorem made_of_heard (run : Steps initial trace cfg) {thread : Thread server}
    (there : cfg.threads[i]? = some thread) (heard : Heard thread.own earlier answered) :
    ∃ moved l, Made trace i earlier answered moved l := by
  induction run generalizing thread with
  | refl => cases there
  | @snoc trace cfg event next run stepped ih =>
    have before : ∀ {old : Thread server}, cfg.threads[i]? = some old →
        Heard old.own earlier answered →
        ∃ moved l, Made (trace ++ [⟨cfg, event, next⟩]) i earlier answered moved l := by
      intro old there heard
      obtain ⟨moved, l, made⟩ := ih there heard
      exact ⟨moved, l, made.later⟩
    rcases Config.step_cases stepped with
      ⟨r, -, rfl⟩ | ⟨j, weather, c, rest, own, answer, w', own', rfl, found, -, ran, rfl⟩ |
      ⟨j, c, rest, own, -, found, rfl⟩ | ⟨-, rfl⟩
    · rcases Config.getElem?_append_cases there with old | ⟨-, rfl⟩
      · exact before old heard
      · simp [Heard] at heard
    · rcases Config.getElem?_set_cases there with ⟨rfl, rfl⟩ | ⟨-, old⟩
      · obtain ⟨tx, -, rfl⟩ := exec_eq_some ran
        rcases List.prefix_concat_iff.mp heard with same | old
        · obtain ⟨rfl, last⟩ := List.append_inj' same rfl
          cases last
          exact ⟨_, own, ⟨List.mem_append_right _ List.mem_cons_self,
            ⟨weather, rfl, w', _, ran⟩, ⟨rest, found⟩, rfl⟩⟩
        · exact before found old
      · exact before old heard
    · rcases Config.getElem?_set_cases there with ⟨rfl, rfl⟩ | ⟨-, old⟩
      · exact before found heard
      · exact before old heard
    · simp only [List.getElem?_map, Option.map_eq_some_iff] at there
      obtain ⟨old, was, rfl⟩ := there
      exact before was heard

/-- The run up to the call and from there on. -/
theorem Made.split {moved : Transition server} {l : Session} (run : Steps initial trace cfg)
    (made : Made trace i earlier answered moved l) :
    (∃ before, Steps initial before moved.before) ∧ ∃ later, Steps moved.before later cfg := by
  obtain ⟨before, later, -, first, stepped, last⟩ := run.split made.member
  exact ⟨⟨before, first⟩, _, .append (.snoc .refl stepped) last⟩

/-- What the call has made of the world. -/
theorem Made.exec {moved : Transition server} {l : Session} (run : Steps initial trace cfg)
    (made : Made trace i earlier answered moved l) : ∃ weather l',
      Service.exec weather answered.call moved.before.shared l =
        some (answered.result, moved.after.shared, l') := by
  obtain ⟨weather, called, w', l', ran⟩ := made.called
  obtain ⟨rest, there⟩ := made.there
  obtain ⟨-, -, -, -, stepped, -⟩ := run.split made.member
  rw [called] at stepped
  obtain ⟨c, _, own, answer, w'', own', found, ran', next⟩ := Config.step_call stepped
  cases there.symm.trans found
  cases ran.symm.trans ran'
  exact ⟨weather, l', by rw [next]; exact ran⟩

theorem Made.allowed {moved : Transition server} {l : Session} (run : Steps initial trace cfg)
    (made : Made trace i earlier answered moved l) : Allowed moved.before.shared l answered.call := by
  obtain ⟨⟨before, first⟩, -⟩ := made.split run
  obtain ⟨rest, there⟩ := made.there
  exact ((safe first).pre there).2

private theorem getAccountForUpdate_answer {weather : Weather} {w w' : World} {l l' : Session}
    {id : AccountId} {found : Option Account} (unwritten : l.tx.versions.accounts = [])
    (ran : exec weather (.getAccountForUpdate id) w l = some (.ok found, w', l')) :
    lookup buildAccount (w.tables.account? id.value) = .ok found := by
  obtain ⟨tx, out, -⟩ := exec_eq_some (exec_fair ran rfl)
  obtain ⟨database, replied, -⟩ := storing_eq (Storage.getAccountForUpdate id) (Option.some.inj out)
  rw [getAccountForUpdate_eq, Tx.view_account? unwritten] at replied
  exact (Prod.mk.inj replied).1

/-- An account that is said to be missing is not in the table, or not in the cache. -/
private theorem missing_true (run : Steps initial trace cfg) {moved : Transition server}
    {l : Session} {a : Int} (made : Made trace i earlier answered moved l)
    (missing : Missing a answered) :
    moved.before.shared.tables.account? a = none ∨ moved.before.shared.cache.get ⟨a⟩ = none := by
  have allowed := made.allowed run
  obtain ⟨weather, -, w', l', ran⟩ := made.called
  cases missing with
  | account =>
    have fair := exec_fair ran rfl
    rw [exec_getAccount allowed] at fair
    exact .inl (lookup_eq_none.mp (Prod.mk.inj (Option.some.inj fair)).1)
  | locked => exact .inl (lookup_eq_none.mp (getAccountForUpdate_answer allowed ran))
  | cached =>
    obtain ⟨tx, out, -⟩ := exec_eq_some (exec_fair ran rfl)
    exact .inr (Prod.mk.inj (Option.some.inj out)).1

/-- The accounts of entries that were read are there. -/
private theorem booked_present (run : Steps initial trace cfg) {thread : Thread server}
    (there : cfg.threads[i]? = some thread) {a : AccountId} (booked : Booked thread.own.history a) :
    (cfg.shared.tables.account? a.value).isSome := by
  obtain ⟨id, entries, read, entry, listed, rfl⟩ := booked
  have lines := history_invariant (T := fun w answered => ∀ id entries,
      answered = ⟨.getEntriesForTransaction id, .ok entries⟩ →
        (∃ row, w.tables.transaction? id.value = some row) ∧
          entries.map Entry.line = w.tables.lines id.value) ?_ ?_ run i thread there _ read id
    entries rfl
  · have line : entry.line ∈ cfg.shared.tables.lines id.value :=
      lines.2 ▸ List.mem_map_of_mem listed
    obtain ⟨row, found⟩ := (safe run).inv.lines_covered _ _ line
    change cfg.shared.tables.account? entry.accountId.value = some row at found
    rw [found]
    rfl
  · intro w w' answered keeps holds id entries same
    obtain ⟨⟨row, found⟩, lines⟩ := holds id entries same
    obtain ⟨⟨row', kept, -⟩, unchanged⟩ := keeps.lines id.value row found
    exact ⟨⟨row', kept⟩, lines.trans unchanged.symm⟩
  · intro weather c answer w w' l l' book allowed ran id entries same
    cases same
    obtain ⟨read, rfl⟩ := getEntriesForTransaction_answer book allowed.1 ran
    exact ⟨allowed.2, buildEntries_lines read⟩

/-- The account of a stored entry cannot be missing. -/
theorem booked_found (run : Steps initial trace cfg) {thread : Thread server}
    (there : cfg.threads[i]? = some thread) {a : AccountId} (booked : Booked earlier a)
    (heard : Heard thread.own earlier ⟨.getAccountForUpdate a, .ok none⟩) : False := by
  obtain ⟨moved, l, made⟩ := made_of_heard run there heard
  obtain ⟨⟨before, reached⟩, -⟩ := made.split run
  obtain ⟨rest, at_call⟩ := made.there
  have present := booked_present reached at_call (made.history.symm ▸ booked)
  obtain ⟨weather, -, w', l', ran⟩ := made.called
  rw [lookup_eq_none.mp (getAccountForUpdate_answer (made.allowed run) ran)] at present
  cases present

/-- An account that was read under lock is on the side it was read with. -/
private theorem read_normal (run : Steps initial trace cfg) {thread : Thread server}
    (there : cfg.threads[i]? = some thread) {a : AccountId} {account : Account}
    (read : (⟨.getAccountForUpdate a, .ok (some account)⟩ : Answered) ∈ thread.own.history) :
    cfg.shared.tables.normal a.value = account.normalBalance.side := by
  obtain ⟨earlier, later, split⟩ := List.append_of_mem read
  have heard : Heard thread.own earlier ⟨.getAccountForUpdate a, .ok (some account)⟩ :=
    ⟨later, by rw [split, List.append_assoc]; rfl⟩
  obtain ⟨moved, l, made⟩ := made_of_heard run there heard
  obtain ⟨⟨before, first⟩, more, last⟩ := made.split run
  obtain ⟨weather, -, w', l', ran⟩ := made.called
  obtain ⟨row, found, built⟩ := lookup_eq_some.mp
    (getAccountForUpdate_answer (made.allowed run) ran)
  rw [(continues_steps (safe first) last).normal (by rw [found]; rfl), Tables.normal, found,
    (buildAccount_ok built).2.2]

end Moments

section Truth

/-- At one of the calls that were made for request `i`, the world was like this. -/
def Met (trace : List (Transition server)) (i : Nat) (P : World → Prop) : Prop :=
  ∃ moved ∈ trace, (∃ weather, moved.event = .call i weather) ∧ P moved.before.shared

/-- The fact that a refusal of request `i` reports. -/
inductive Truthful (trace : List (Transition server)) (i : Nat) (own : Session) :
    ServiceError → Prop where
  | request {e} (unasked : own.history = []) (unfit : Unfit own.request e) : Truthful trace i own e
  | account {a} (named : Names own.request a)
      (met : Met trace i fun w => w.tables.account? a = none ∨ w.cache.get ⟨a⟩ = none) :
      Truthful trace i own (.accountNotFound a)
  | transaction {id kind} (attempts : Attempts own.request id kind)
      (met : Met trace i fun w => w.tables.transaction? id.value = none) :
      Truthful trace i own (.transactionNotFound id.value)
  | funds {req now legs leg balance} (request : own.request = .authorize req now)
      (parsed : parseTransferLegs req.legs = .ok legs) (asked : leg ∈ legs)
      (met : Met trace i fun w => w.tables.normal leg.accountId.value ≠ leg.entryType.side ∧
        w.cache.get leg.accountId = some balance)
      (short : balance.available < leg.amount.value) :
      Truthful trace i own
        (.insufficientFunds leg.accountId.value balance.available leg.amount.value)
  | state {id kind current} (attempts : Attempts own.request id kind)
      (met : Met trace i fun w => ∃ row, w.tables.transaction? id.value = some row ∧
        row.status = transactionStatusToI16 current)
      (other : current ≠ kind.status) (settled : current ≠ .pending) :
      Truthful trace i own (.invalidTransactionState id.value current kind.attempted)
  | duplicate {req now key} (request : own.request = .authorize req now)
      (stored : varchar 64 req.idempotencyKey = .ok key)
      (met : Met trace i fun w => (w.tables.byKey? key).isSome) :
      Truthful trace i own
        (.duplicateTransaction ((duplicateValue (duplicateDetail key)).getD "unknown"))
  | database {earlier answered moved l e} (made : Made trace i earlier answered moved l)
      (failed : answered.error = some (.database e)) : Truthful trace i own (.internal e.toString)

variable {i : Nat} {own : Session}

theorem Made.met {earlier : List Answered} {answered : Answered} {moved : Transition server}
    {l : Session} {P : World → Prop} (made : Made trace i earlier answered moved l)
    (holds : P moved.before.shared) : Met trace i P := by
  obtain ⟨weather, called, -⟩ := made.called
  exact ⟨moved, made.member, ⟨weather, called⟩, holds⟩

/-- What a session has heard fails with a failure of the database, or with a key that is taken. -/
private theorem failure_of_heard (run : Steps initial trace cfg) {thread : Thread server}
    (there : cfg.threads[i]? = some thread) {earlier : List Answered} {answered : Answered}
    {e : StorageError} (heard : Heard thread.own earlier answered) (failed : answered.error = some e) :
    ∃ moved l, Made trace i earlier answered moved l ∧ ((∃ sql, e = .database sql) ∨
      ∃ key status metadata createdAt postedAt stored,
        answered = ⟨.createTransaction key status metadata createdAt postedAt, .error e⟩ ∧
        varchar 64 key = .ok stored ∧
        ((l.tx.view moved.before.shared.database).byKey? stored).isSome ∧
        e = .duplicateKey ((duplicateValue (duplicateDetail stored)).getD "unknown")) := by
  obtain ⟨moved, l, made⟩ := made_of_heard run there heard
  refine ⟨moved, l, made, ?_⟩
  have member : answered ∈ thread.own.history :=
    heard.subset (List.mem_append_right _ List.mem_cons_self)
  obtain ⟨weather, -, w', l', ran⟩ := made.called
  obtain ⟨c, answer⟩ := answered
  cases exec_error ran failed with
  | common common =>
    rcases common with database | ⟨message, rfl⟩
    · exact .inl database
    · exact absurd failed (history_sane run i _ there _ member message)
  | conflict same =>
    subst same
    exact absurd member (unconflicted_steps run i _ there _ _ _ _ _ _ _ _)
  | duplicate kept taken same => exact .inr ⟨_, _, _, _, _, _, rfl, kept, taken, same⟩

/-- Where no key is inserted, only the database fails. -/
theorem database_of_heard (run : Steps initial trace cfg) {thread : Thread server}
    (there : cfg.threads[i]? = some thread) {earlier : List Answered} {answered : Answered}
    {e : StorageError} (heard : Heard thread.own earlier answered) (failed : answered.error = some e)
    (other : inserts answered.call = false) :
    ∃ sql moved l, e = .database sql ∧ Made trace i earlier answered moved l := by
  obtain ⟨moved, l, made, ⟨sql, rfl⟩ | ⟨key, status, metadata, createdAt, postedAt, stored, rfl, -⟩⟩ :=
    failure_of_heard run there heard failed
  · exact ⟨sql, moved, l, rfl, made⟩
  · cases other

/-- A storage error that a request is refused with. -/
private theorem storage_true (run : Steps initial trace cfg) {earlier : List Answered}
    {answered : Answered} {e : StorageError} {prog}
    (there : cfg.threads[i]? = some ⟨prog, own⟩) (heard : Heard own earlier answered)
    (failed : answered.error = some e)
    (first : inserts answered.call = true → (∀ before ∈ earlier, stores before = false) ∧
      ∃ req now, own.request = .authorize req now ∧ ∃ metadata,
        answered.call = .createTransaction req.idempotencyKey .pending metadata now none) :
    Truthful trace i own (.ofStorage e) := by
  obtain ⟨moved, l, made, ⟨sql, rfl⟩ | ⟨_, _, _, _, _, stored, rfl, kept, taken, rfl⟩⟩ :=
    failure_of_heard run there heard failed
  · exact .database made failed
  · obtain ⟨plain, req, now, request, metadata, call⟩ := first rfl
    cases call
    obtain ⟨⟨before, reached⟩, -⟩ := made.split run
    obtain ⟨rest, at_call⟩ := made.there
    have unwritten : l.tx.versions.transactions = [] :=
      unstored reached at_call (made.history ▸ plain)
    rw [Tx.view_byKey? unwritten] at taken
    exact .duplicate request kept (made.met taken)

/-- In every run, a request that ends with an error ends with an error status that reports a fact.
    Either the request is unfit as it is, and no call was made for it; or at one of the calls that
    were made for it, an account it names was missing, its transaction was missing or settled
    otherwise, its key was taken, the cache had less available than a leg takes out, or the database
    failed.  It never ends with a panic or a version conflict. -/
theorem refusals_truthful (run : Steps initial trace cfg) {e : Failure}
    (ended : cfg.threads[i]? = some ⟨some (.done (.error e)), own⟩) :
    ∃ refusal, e = .error refusal ∧ Truthful trace i own refusal := by
  rcases explained_run run ended e rfl with ⟨unasked, refusal, rfl, unfit⟩ | grounds
  · exact ⟨refusal, rfl, .request unasked unfit⟩
  cases grounds with
  | account named heard missing =>
    obtain ⟨moved, l, made⟩ := made_of_heard run ended heard
    exact ⟨_, rfl, .account named (made.met (missing_true run made missing))⟩
  | booked booked heard =>
    exact (booked_found run ended booked heard).elim
  | transaction attempts heard =>
    obtain ⟨moved, l, made⟩ := made_of_heard run ended heard
    obtain ⟨weather, -, w', l', ran⟩ := made.called
    have missing := (getTransaction_answer (made.allowed run) ran).1
    exact ⟨_, rfl, .transaction attempts (made.met (lookup_eq_none.mp missing))⟩
  | @funds req now legs leg account balance earlier request parsed asked read reduces heard short =>
    obtain ⟨moved, l, made⟩ := made_of_heard run ended heard
    obtain ⟨⟨before, reached⟩, -⟩ := made.split run
    obtain ⟨rest, at_call⟩ := made.there
    have side := read_normal reached at_call (made.history.symm ▸ read)
    obtain ⟨weather, -, w', l', ran⟩ := made.called
    obtain ⟨tx, out, -⟩ := exec_eq_some (exec_fair ran rfl)
    refine ⟨_, rfl, .funds request parsed asked (made.met ⟨?_, ?_⟩) ?_⟩
    · rw [side]
      exact reducesBalance_iff.mp reduces
    · exact (Prod.mk.inj (Option.some.inj out)).1
    · simpa [AccountBalance.hasAvailable] using short
  | state attempts heard other settled =>
    obtain ⟨moved, l, made⟩ := made_of_heard run ended heard
    obtain ⟨weather, -, w', l', ran⟩ := made.called
    obtain ⟨row, found, built⟩ := lookup_eq_some.mp (getTransaction_answer (made.allowed run) ran).1
    refine ⟨_, rfl, .state attempts (made.met ⟨row, found, ?_⟩) other settled⟩
    exact (buildTransaction_ok built).2.2.symm
  | storage heard failed first => exact ⟨_, rfl, storage_true run ended heard failed first⟩
  | late committed =>
    rw [((safe run).post ended).2.2 e rfl] at committed
    cases committed

/-- What a thread has ended with instead of a response. -/
def refused (cfg : Config server) (i : Nat) : Option Failure :=
  match cfg.threads[i]? with
  | some ⟨some (.done (.error e)), _⟩ => some e
  | _ => none

private theorem refused_eq_some {e : Failure} (ended : refused cfg i = some e) :
    ∃ own, cfg.threads[i]? = some ⟨some (.done (.error e)), own⟩ := by
  unfold refused at ended
  split at ended
  · rename_i own found
    cases ended
    exact ⟨own, found⟩
  · cases ended

/-- A withdrawal of more than the deposit that was captured. -/
theorem refusals_truthful_overdraft : ∃ trace cfg own, Steps initial trace cfg ∧
    cfg.threads[4]? = some ⟨some (.done (.error (.error (.insufficientFunds 1 100 500)))), own⟩ ∧
    Truthful trace 4 own (.insufficientFunds 1 100 500) := by
  obtain ⟨trace, cfg, run, -, ended⟩ := reached (fun _ => true)
    (deposit ("USD", "USD") ++ .request (.capture 1 5) :: turns 3 12 ++
      .request (.authorize ⟨"withdrawal", [⟨1, 2, 500⟩, ⟨2, 1, 500⟩], ⟨"", .error ""⟩⟩ 6) ::
      turns 4 6) (refused · 4) (a := some (.error (.insufficientFunds 1 100 500)))
    (by decide +kernel)
  obtain ⟨own, found⟩ := refused_eq_some ended
  obtain ⟨refusal, same, truthful⟩ := refusals_truthful run found
  cases same
  exact ⟨trace, cfg, own, run, found, truthful⟩

end Truth

end Fides.Ledger
