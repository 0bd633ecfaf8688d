import Fides.Concurrency.Evaluation
import Fides.Ledger.Contract
import Fides.Ledger.Decoding
import Fides.Ledger.Releasing
import Fides.Ledger.Runs

/-! # The stages of a handler that runs alone

Alone and with a database that does not fail, a program is a function of the world
and of the row versions its transaction has written.  This is the function of each
loop and of each group of calls that the handlers are made of.
-/

namespace Fides.Ledger

open Domain Service Storage FixedWidth Relational Bookkeeping Concurrency

section Evaluation

/-- The answers of a database that does not fail; the locks of the caller play no part. -/
def answering (c : Call) (s : World × Tables) : c.Result × World × Tables :=
  let out := c.perform s.1 ⟨s.2, []⟩
  (out.1, out.2.1, out.2.2.versions)

/-- What a program does alone, from the row versions of its transaction. -/
def alone {α : Type} (p : Handler α) (w : World) (v : Tables) : Except Failure α × World × Tables :=
  p.eval answering (w, v)

private theorem perform_answering (c : Call) (w : World) (tx : Tx) :
    (c.perform w tx).1 = (answering c (w, tx.versions)).1 ∧
      (c.perform w tx).2.1 = (answering c (w, tx.versions)).2.1 ∧
      (c.perform w tx).2.2.versions = (answering c (w, tx.versions)).2.2 := by
  obtain ⟨v, held⟩ := tx
  have seen : ∀ db, (⟨v, held⟩ : Tx).view db = (⟨v, []⟩ : Tx).view db := fun _ => rfl
  cases c with
  | getAccount id =>
    simp only [answering, Call.perform, storing, getAccount_eq, seen, and_self]
  | getAccountForUpdate id =>
    simp only [answering, Call.perform, storing, getAccountForUpdate_eq, seen, true_and]
    split <;> rfl
  | getTransaction id =>
    simp only [answering, Call.perform, storing, getTransaction_eq, seen, and_self]
  | createAccount accountType assetCode assetScale createdAt =>
    simp only [answering, Call.perform, storing, Storage.createAccount]
    split
    · exact ⟨rfl, rfl, rfl⟩
    split
    · exact ⟨rfl, rfl, rfl⟩
    split <;> exact ⟨rfl, rfl, rfl⟩
  | createTransaction key status metadata createdAt postedAt =>
    simp only [answering, Call.perform, storing, Storage.createTransaction, seen]
    split
    · exact ⟨rfl, rfl, rfl⟩
    split
    · exact ⟨rfl, rfl, rfl⟩
    · exact ⟨rfl, rfl, rfl⟩
    split
    · exact ⟨rfl, rfl, rfl⟩
    split
    · exact ⟨rfl, rfl, rfl⟩
    split <;> exact ⟨rfl, rfl, rfl⟩
  | findTransactionByKey key =>
    simp only [answering, Call.perform, storing, Storage.findTransactionByKey, seen]
    split
    · exact ⟨rfl, rfl, rfl⟩
    split <;> exact ⟨rfl, rfl, rfl⟩
  | updateTransactionStatus id status postedAt =>
    simp only [answering, Call.perform, storing, Storage.updateTransactionStatus, seen]
    split
    · exact ⟨rfl, rfl, rfl⟩
    split <;> exact ⟨rfl, rfl, rfl⟩
  | createEntry transactionId accountId entryType amount status createdAt =>
    simp only [answering, Call.perform, storing, Storage.createEntry, seen]
    split
    · exact ⟨rfl, rfl, rfl⟩
    split
    · exact ⟨rfl, rfl, rfl⟩
    split
    · exact ⟨rfl, rfl, rfl⟩
    split <;> exact ⟨rfl, rfl, rfl⟩
  | updateAccountBalance id version posted pending =>
    simp only [answering, Call.perform, storing, Storage.updateAccountBalance, seen]
    split
    · exact ⟨rfl, rfl, rfl⟩
    split
    · split
      · exact ⟨rfl, rfl, rfl⟩
      split
      · exact ⟨rfl, rfl, rfl⟩
      split <;> exact ⟨rfl, rfl, rfl⟩
    · exact ⟨rfl, rfl, rfl⟩
  | begin | getEntriesForTransaction | getEntriesForAccount | updateEntryStatusByTransaction
  | commit | rollback | cacheGet | cacheApplyDelta | cacheSet => exact ⟨rfl, rfl, rfl⟩

/-- A call of a handler is answered so. -/
theorem answers_alone (c : Call) (w : World) (l : Session) : ∃ w' l',
    exec .fair c w l = some ((answering c (w, l.tx.versions)).1, w', l') ∧
      (w', l'.tx.versions) = (answering c (w, l.tx.versions)).2 := by
  obtain ⟨answer, world, versions⟩ := perform_answering c w l.tx
  refine ⟨(c.perform w l.tx).2.1, l.record c (c.perform w l.tx).1 (c.perform w l.tx).2.2, ?_, ?_⟩
  · rw [← answer]
    rfl
  · exact Prod.ext world versions

variable {α β : Type} {w w' : World} {v v' : Tables}

/-- What others see of a program that ran alone: its outcome and the world it leaves. -/
def visible (p : Handler α) (w : World) (v : Tables) : Except Failure α × World :=
  ((alone p w v).1, (alone p w v).2.1)

theorem visible_of_alone {p : Handler α} {outcome : Except Failure α}
    (did : alone p w v = (outcome, w', v')) : visible p w v = (outcome, w') := by
  rw [visible, did]

theorem alone_call {c : Call} {rest : c.Result → Handler α} {answer : c.Result}
    (answered : answering c (w, v) = (answer, w', v')) :
    alone (.call c rest) w v = alone (rest answer) w' v' := by
  rw [alone, Prog.eval, answered]
  rfl

theorem alone_bind {p : Handler α} {next : α → Handler β} {value : α}
    (first : alone p w v = (.ok value, w', v')) :
    alone (p >>= next) w v = alone (next value) w' v' :=
  Prog.eval_bind_ok first

theorem alone_fails {p : Handler α} {next : α → Handler β} {e : Failure}
    (failed : alone p w v = (.error e, w', v')) : alone (p >>= next) w v = (.error e, w', v') :=
  Prog.eval_bind_error failed

theorem visible_bind {p : Handler α} {next : α → Handler β} {value : α}
    (first : alone p w v = (.ok value, w', v')) :
    visible (p >>= next) w v = visible (next value) w' v' := by
  rw [visible, alone_bind first]
  rfl

theorem visible_fails {p : Handler α} {next : α → Handler β} {e : Failure}
    (failed : alone p w v = (.error e, w', v')) : visible (p >>= next) w v = (.error e, w') :=
  visible_of_alone (alone_fails failed)

/-- The scope of a transaction shows nothing but what its body does. -/
theorem visible_inTransaction (body : Handler α) :
    visible (inTransaction body) w v = visible body w v := by
  have begun : alone (inTransaction body) w v = alone (body.onError rollback) w v :=
    Prog.eval_bind_ok rfl
  have onError : alone (body.onError rollback) w v = _ := Prog.eval_onError body rollback (w, v)
  rw [visible, visible, begun, onError]
  change _ = ((body.eval answering (w, v)).1, (body.eval answering (w, v)).2.1)
  cases body.eval answering (w, v) with
  | mk outcome left => cases outcome <;> rfl

/-- A commit puts the row versions in place. -/
theorem commit_alone : alone commit w v =
    (.ok (), { w with database := { w.database with tables := w.tables.merge v } }, .empty) := rfl

end Evaluation

section Reads

variable {w : World} {v : Tables}

/-- What a transaction reads that has written nothing is what is committed. -/
theorem getAccountRow_alone {id : AccountId} {found : Option Account}
    (read : lookup buildAccount (w.tables.account? id.value) = .ok found) :
    alone (getAccountRow id) w .empty = (.ok found, w, .empty) := by
  have answered : answering (.getAccount id) (w, .empty) = (.ok found, w, .empty) := by
    rw [answering, Call.perform, storing, getAccount_eq, Tx.view_account? rfl]
    exact congrArg (·, w, Tables.empty) read
  exact alone_call answered

theorem getAccountForUpdate_alone {id : AccountId} {found : Option Account}
    (read : lookup buildAccount (w.tables.account? id.value) = .ok found) :
    alone (getAccountForUpdate id) w .empty = (.ok found, w, .empty) := by
  have answered : answering (.getAccountForUpdate id) (w, .empty) = (.ok found, w, .empty) := by
    simp only [answering, Call.perform, storing, getAccountForUpdate_eq]
    rw [Tx.view_account? rfl]
    simp only [World.tables] at read
    rw [read]
    split <;> rfl
  exact alone_call answered

theorem getTransaction_alone {id : TransactionId} {found : Option Transaction}
    (read : lookup buildTransaction (w.tables.transaction? id.value) = .ok found) :
    alone (getTransaction id) w .empty = (.ok found, w, .empty) := by
  have answered : answering (.getTransaction id) (w, .empty) = (.ok found, w, .empty) := by
    rw [answering, Call.perform, storing, getTransaction_eq, Tx.view_transaction? rfl]
    exact congrArg (·, w, Tables.empty) read
  exact alone_call answered

theorem findTransactionByKey_alone {key : String} {found : Option Transaction}
    (storable : Storable key) (read : lookup buildTransaction (w.tables.byKey? key) = .ok found) :
    alone (findTransactionByKey key) w .empty = (.ok found, w, .empty) := by
  have answered : answering (.findTransactionByKey key) (w, .empty) = (.ok found, w, .empty) := by
    rw [answering, Call.perform, storing, findTransactionByKey_eq storable, Tx.view_byKey? rfl]
    exact congrArg (·, w, Tables.empty) read
  exact alone_call answered

theorem getEntriesForTransaction_alone {id : TransactionId} {entries : List Entry}
    (book : Consistent w.tables w.sequences)
    (built : buildEntries (w.tables.entriesOf id.value) = .ok entries) :
    alone (getEntriesForTransaction id) w .empty = (.ok entries, w, .empty) := by
  have answered : answering (.getEntriesForTransaction id) (w, .empty) =
      (.ok entries, w, .empty) := by
    rw [answering, Call.perform, storing, Storage.getEntriesForTransaction, Tx.view_entriesOf rfl]
    have ordered := book.orderById_entriesOf id.value
    exact congrArg (·, w, Tables.empty) ((congrArg buildEntries ordered).trans built)
  exact alone_call answered

theorem getEntriesForAccount_alone {id : AccountId} {entries : List Entry}
    (book : Consistent w.tables w.sequences)
    (built : buildEntries (w.tables.entries.filter fun e => e.accountId = id.value) = .ok entries) :
    alone (getEntriesForAccount id) w .empty = (.ok entries, w, .empty) := by
  have answered : answering (.getEntriesForAccount id) (w, .empty) = (.ok entries, w, .empty) := by
    rw [answering, Call.perform, storing, Storage.getEntriesForAccount, Tx.view_entries rfl]
    have ordered := book.orderById_stream id.value
    exact congrArg (·, w, Tables.empty) ((congrArg buildEntries ordered).trans built)
  exact alone_call answered

end Reads

section Locking

/-- In an increasing list, the first member with a property is the least one. -/
private theorem find?_increasing {values others : List Int} (increasing : values.Pairwise (· < ·))
    (same : ∀ a, a ∈ values ↔ a ∈ others) (test : Int → Bool) :
    values.find? test = (others.filter test).min? := by
  cases found : values.find? test with
  | none =>
    have nobody : others.filter test = [] := by
      rw [List.filter_eq_nil_iff]
      exact fun a member => List.find?_eq_none.mp found a ((same a).mpr member)
    rw [nobody]
    rfl
  | some a =>
    obtain ⟨passes, before, after, rfl, failing⟩ := List.find?_eq_some_iff_append.mp found
    symm
    rw [List.min?_eq_some_iff]
    constructor
    · exact List.mem_filter.mpr ⟨(same a).mp (by simp), passes⟩
    · intro b member
      obtain ⟨inside, also⟩ := List.mem_filter.mp member
      rcases List.mem_append.mp ((same b).mpr inside) with early | late
      · have := failing b early
        simp [also] at this
      · rcases List.mem_cons.mp late with rfl | later
        · exact le_refl _
        · have below := (List.pairwise_append.mp increasing).2.1
          exact le_of_lt ((List.pairwise_cons.mp below).1 b later)

/-- What is missing is what is found missing first, in the order of locking. -/
theorem missingAccount_eq (t : Tables) (legs : List TransferLeg) :
    Contract.missingAccount t legs =
      ((lockOrder (legs.map TransferLeg.accountId)).map AccountId.value).find? fun a =>
        (t.account? a).isNone := by
  rw [Contract.missingAccount, find?_increasing]
  · exact List.pairwise_map.mpr (lockOrder_increasing _)
  · intro a
    simp [mem_lockOrder]

/-- The accounts are decoded from the book. -/
def Stored (t : Tables) (accounts : List Account) : Prop :=
  ∀ account ∈ accounts, ∃ row, t.account? account.id.value = some row ∧
    buildAccount row = .ok account

theorem Stored.knows {t : Tables} {accounts : List Account} (stored : Stored t accounts) :
    Knows t.normal accounts := by
  intro account member
  obtain ⟨row, there, built⟩ := stored account member
  rw [(buildAccount_ok built).2.2, Tables.normal, there]

variable {w : World} {ids : List AccountId}

theorem lockAccounts_missing (book : Consistent w.tables w.sequences) {a : Int}
    (missing : ((ids.map AccountId.value).find? fun a => (w.tables.account? a).isNone) = some a) :
    alone (lockAccounts ids) w .empty = (.error (.error (.accountNotFound a)), w, .empty) := by
  induction ids with
  | nil => cases missing
  | cons id ids ih =>
    rw [List.map_cons, List.find?_cons] at missing
    rw [lockAccounts]
    cases found : w.tables.account? id.value with
    | none =>
      rw [found] at missing
      cases missing
      exact alone_bind (getAccountForUpdate_alone (lookup_eq_none.mpr found))
    | some row =>
      rw [found] at missing
      obtain ⟨account, built⟩ := buildAccount_of_sound (book.accountRows row (mem_of_find found)).1
      rw [alone_bind (getAccountForUpdate_alone (lookup_eq_some.mpr ⟨row, found, built⟩))]
      exact alone_fails (ih missing)

theorem lockAccounts_found (book : Consistent w.tables w.sequences)
    (there : ((ids.map AccountId.value).find? fun a => (w.tables.account? a).isNone) = none) :
    ∃ accounts, alone (lockAccounts ids) w .empty = (.ok accounts, w, .empty) ∧
      accounts.map Account.id = ids ∧ Stored w.tables accounts := by
  induction ids with
  | nil => exact ⟨[], rfl, rfl, by simp [Stored]⟩
  | cons id ids ih =>
    rw [List.map_cons, List.find?_cons] at there
    cases found : w.tables.account? id.value with
    | none =>
      rw [found] at there
      cases there
    | some row =>
      rw [found] at there
      obtain ⟨accounts, locking, order, stored⟩ := ih there
      obtain ⟨account, built⟩ := buildAccount_of_sound (book.accountRows row (mem_of_find found)).1
      have same : account.id = id := by
        apply AccountId.ext_value
        rw [(buildAccount_ok built).1]
        exact key_of_find found
      refine ⟨account :: accounts, ?_, by rw [List.map_cons, same, order], ?_⟩
      · rw [lockAccounts,
          alone_bind (getAccountForUpdate_alone (lookup_eq_some.mpr ⟨row, found, built⟩))]
        exact alone_bind locking
      · intro other member
        rcases List.mem_cons.mp member with rfl | inside
        · exact ⟨row, same ▸ found, built⟩
        · exact stored other inside

end Locking

section Checking

variable {w : World} {v : Tables} {accounts : List Account}

/-- The funds are checked leg by leg, against the cache. -/
theorem checkAvailable_alone {legs : List TransferLeg}
    (known : ∀ leg ∈ legs, ∃ account, findAccount accounts leg.accountId = .ok account)
    (stored : Stored w.tables accounts) :
    alone (checkAvailable accounts legs) w v =
      (Contract.shortfall w.tables w.cache legs).elim (.ok (), w, v)
        fun e => (.error (.error e), w, v) := by
  induction legs with
  | nil => rfl
  | cons leg legs ih =>
    obtain ⟨account, found⟩ := known leg List.mem_cons_self
    have later := ih fun other member => known other (List.mem_cons_of_mem _ member)
    obtain ⟨member, same⟩ := findAccount_ok found
    have side : account.normalBalance.side = w.tables.normal leg.accountId.value := by
      rw [stored.knows account member, same]
    rw [checkAvailable, found]
    rw [Contract.shortfall, List.findSome?_cons]
    change alone (if _ then _ else _) w v = _
    by_cases takes : w.tables.normal leg.accountId.value = leg.entryType.side
    · have adds : ¬ reducesBalance account.normalBalance leg.entryType = true := by
        rw [reducesBalance_iff, side, not_not]
        exact takes
      rw [if_pos takes, if_neg adds]
      exact later
    · have reduces : reducesBalance account.normalBalance leg.entryType = true := by
        rw [reducesBalance_iff, side]
        exact takes
      rw [if_neg takes, if_pos reduces]
      have asked : alone (cacheGet leg.accountId) w v = (.ok (w.cache.get leg.accountId), w, v) := rfl
      rw [alone_bind asked]
      cases w.cache.get leg.accountId with
      | none => rfl
      | some balance =>
        by_cases enough : leg.amount.value ≤ balance.available
        · have has : balance.hasAvailable leg.amount = true := decide_eq_true enough
          simp only [has, enough, if_true]
          exact later
        · have hasNot : ¬ balance.hasAvailable leg.amount = true := by
            simpa [AccountBalance.hasAvailable] using enough
          simp only [hasNot, enough, if_false]
          rfl

end Checking

section Updating

variable {w : World} {v : Tables} {accounts : List Account}

open Contract (misfit overflow applied)

/-- A balance update at the version of the row. -/
private theorem updateAccountBalance_alone {update : BalanceUpdate} {row : AccountRow}
    (found : w.tables.account? update.accountId.value = some row) (sound : row.Sound)
    (once : ∀ version ∈ v.accounts, version.id ≠ update.accountId.value) :
    alone (updateAccountBalance update.accountId row.version update.postedDelta
        update.pendingDelta) w v =
      (misfit row update).elim (.ok (), w, { v with accounts := v.accounts ++ [row.bump update] })
        fun e => (.error (.error (.ofStorage (.ofSqlx e))), w, v) := by
  have seen : ((⟨v, []⟩ : Tx).view w.database).account? update.accountId.value = some row :=
    (find_merge_of_other once _).trans found
  have current : row.version = wrap 32 row.version := (wrap_of_fits_32 sound.version.2).symm
  have answered : answering (.updateAccountBalance update.accountId row.version update.postedDelta
      update.pendingDelta) (w, v) =
      (misfit row update).elim (.ok (), w, { v with accounts := v.accounts ++ [row.bump update] })
        fun e => (.error (.ofSqlx e), w, v) := by
    simp only [answering, Call.perform, storing, Storage.updateAccountBalance, seen, if_pos current,
      misfit]
    by_cases posted : Fits 64 (row.postedBalance + update.postedDelta)
    · by_cases pending : Fits 64 (row.pendingBalance + update.pendingDelta)
      · by_cases version : Fits 32 (row.version + 1)
        · simp only [posted, pending, version, not_true_eq_false, and_self, if_false]
          rfl
        · simp only [posted, pending, version, not_true_eq_false, not_false_eq_true, and_self,
            if_false, if_true]
          rfl
      · simp only [posted, pending, not_true_eq_false, not_false_eq_true, and_false, if_false,
          if_true]
        rfl
    · simp only [posted, not_false_eq_true, false_and, if_true]
      rfl
  rw [Service.updateAccountBalance]
  cases unfit : misfit row update with
  | none =>
    rw [unfit] at answered
    exact alone_call answered
  | some e =>
    rw [unfit] at answered
    exact alone_call answered

section Loop

variable {updates : List BalanceUpdate} (book : Consistent w.tables w.sequences)
  (stored : Stored w.tables accounts)
  (known : ∀ update ∈ updates, ∃ account, findAccount accounts update.accountId = .ok account)
  (distinct : Distinct updates)
  (once : ∀ update ∈ updates, ∀ version ∈ v.accounts, version.id ≠ update.accountId.value)

include book stored known in
/-- The rows that the updates are made on. -/
private theorem rows_of_updates : ∀ update ∈ updates, ∃ account row,
    findAccount accounts update.accountId = .ok account ∧
      w.tables.account? update.accountId.value = some row ∧ row.Sound ∧
      account.version = row.version := by
  intro update member
  obtain ⟨account, found⟩ := known update member
  obtain ⟨inside, same⟩ := findAccount_ok found
  obtain ⟨row, there, built⟩ := stored account inside
  rw [same] at there
  exact ⟨account, row, found, there, (book.accountRows row (mem_of_find there)).1,
    (buildAccount_ok built).2.1⟩

include book stored known distinct once in
/-- The balances are updated one after the other, up to the first one that leaves its range. -/
theorem applyBalanceUpdates_alone :
    (overflow w.tables updates = none → alone (applyBalanceUpdates accounts updates) w v =
      (.ok (), w, { v with accounts := v.accounts ++ w.tables.bumped updates })) ∧
    ∀ e, overflow w.tables updates = some e → ∃ v',
      alone (applyBalanceUpdates accounts updates) w v =
        (.error (.error (.ofStorage (.ofSqlx e))), w, v') := by
  induction updates generalizing v with
  | nil =>
    constructor
    · intro _
      simp only [Tables.bumped, List.filterMap_nil, List.append_nil]
      rfl
    · intro e none
      cases none
  | cons update updates ih =>
    obtain ⟨account, row, found, there, sound, version⟩ :=
      rows_of_updates book stored known update List.mem_cons_self
    have looked : alone (.done (findAccount accounts update.accountId)) w v =
        (.ok account, w, v) := by
      rw [found]
      rfl
    have updating := updateAccountBalance_alone there sound (once update List.mem_cons_self)
    rw [← version] at updating
    have first : overflow w.tables (update :: updates) =
        (misfit row update).or (overflow w.tables updates) := by
      rw [overflow, List.findSome?_cons, there, Option.bind_some]
      cases misfit row update <;> rfl
    rw [applyBalanceUpdates, alone_bind looked, first]
    cases unfit : misfit row update with
    | some e =>
      rw [unfit] at updating
      constructor
      · intro none
        cases none
      · rintro e' same
        cases same
        exact ⟨v, alone_fails updating⟩
    | none =>
      rw [unfit] at updating
      rw [alone_bind updating, Option.none_or]
      have apart := List.nodup_cons.mp distinct
      have later := ih (v := { v with accounts := v.accounts ++ [row.bump update] })
        (fun other member => known other (List.mem_cons_of_mem _ member)) apart.2
        (fun other member version inside => by
          rcases List.mem_append.mp inside with old | new
          · exact once other (List.mem_cons_of_mem _ member) version old
          · rw [List.mem_singleton.mp new]
            intro same
            have keys : key update = key other := (key_of_find there).symm.trans same
            exact apart.1 (keys ▸ List.mem_map_of_mem member))
      refine ⟨fun none => ?_, later.2⟩
      rw [later.1 none]
      simp only [Tables.bumped, List.filterMap_cons, there, Option.map_some, List.append_assoc,
        List.singleton_append]

end Loop

/-- The accounts of the updates are those of the lines. -/
theorem known_of_nets {normal : Int → Side} {p q : Int} {lines : List (Line Int)}
    {updates : List BalanceUpdate} (nets : Nets normal p q lines updates)
    (known : ∀ line ∈ lines, ∃ account, findAccount accounts ⟨line.account⟩ = .ok account) :
    ∀ update ∈ updates, ∃ account, findAccount accounts update.accountId = .ok account := by
  intro update member
  obtain ⟨line, inside, same⟩ := (nets.covers _).mp ⟨update, member, rfl⟩
  obtain ⟨account, found⟩ := known line inside
  exact ⟨account, (congrArg (findAccount accounts) (AccountId.ext_value same.symm)).trans found⟩

private theorem misfit_eq_none {row : AccountRow} {update : BalanceUpdate} :
    misfit row update = none ↔ Fits 64 (row.postedBalance + update.postedDelta) ∧
      Fits 64 (row.pendingBalance + update.pendingDelta) ∧ Fits 32 (row.version + 1) := by
  unfold misfit
  split
  · rename_i unfit
    exact ⟨nofun, fun fit => absurd ⟨fit.1, fit.2.1⟩ unfit⟩
  rename_i balances
  rw [not_not] at balances
  split
  · rename_i large
    exact ⟨nofun, fun fit => absurd fit.2.2 large⟩
  · rename_i version
    exact ⟨fun _ => ⟨balances.1, balances.2, not_not.mp version⟩, fun _ => rfl⟩

/-- Updates fit just if they leave the rows sound. -/
theorem overflow_eq_none {t : Tables} {ids : Sequences} {updates : List BalanceUpdate}
    (book : Consistent t ids)
    (there : ∀ update ∈ updates, ∃ row, t.account? update.accountId.value = some row) :
    overflow t updates = none ↔ Applicable t updates := by
  rw [overflow, List.findSome?_eq_none_iff]
  refine forall₂_congr fun update member => ?_
  obtain ⟨row, found⟩ := there update member
  rw [found, Option.bind_some, misfit_eq_none]
  have sound := bump_sound (book.accountRows row (mem_of_find found)).1 update
  constructor
  · exact fun fit => ⟨row, rfl, sound.mpr fit⟩
  · rintro ⟨_, same, bumped⟩
    cases same
    exact sound.mp bumped

theorem updateCache_alone (updates : List BalanceUpdate) : alone (updateCache updates) w v =
    (.ok (), { w with cache := applied w.cache updates }, v) := by
  induction updates generalizing w with
  | nil => rfl
  | cons update updates ih => exact ih

end Updating

section Writing

variable {w : World} {v : Tables} {row : TransactionRow} {now : Int} {accounts : List Account}
  {legs : List TransferLeg}

open Contract (entryRows)

/-- The world after ids were drawn. -/
def drawing (ids : Sequences) (w : World) : World :=
  { w with database := { w.database with sequences := ids } }

@[simp] theorem sequences_drawing (ids : Sequences) (w : World) :
    (drawing ids w).sequences = ids := rfl

theorem mem_entryRows {last : Int} {e : EntryRow} (member : e ∈ entryRows row now last legs) :
    ∃ leg ∈ legs, ∃ id, last < id ∧ id ≤ last + legs.length ∧ e = entryFor row leg now id := by
  induction legs generalizing last with
  | nil => cases member
  | cons leg legs ih =>
    rw [List.length_cons, Nat.cast_add, Nat.cast_one]
    rcases List.mem_cons.mp member with rfl | later
    · exact ⟨leg, List.mem_cons_self, last + 1, by omega, by omega, rfl⟩
    · obtain ⟨other, inside, id, above, below, same⟩ := ih later
      exact ⟨other, List.mem_cons_of_mem _ inside, id, by omega, by omega, same⟩

theorem sorted_entryRows (last : Int) :
    (entryRows row now last legs).Pairwise fun e e' => e.id < e'.id := by
  induction legs generalizing last with
  | nil => exact .nil
  | cons leg legs ih =>
    refine List.pairwise_cons.mpr ⟨?_, ih _⟩
    intro e member
    obtain ⟨other, -, id, above, -, rfl⟩ := mem_entryRows member
    exact above

theorem lines_entryRows (last : Int) :
    (entryRows row now last legs).map EntryRow.line = legs.map TransferLeg.line := by
  induction legs generalizing last with
  | nil => rfl
  | cons leg legs ih => rw [entryRows, List.map_cons, List.map_cons, ih, line_entryFor]

theorem checked_entryFor {leg : TransferLeg} (created : 0 < now)
    (positive : 0 < leg.amount.value) (id : Int) :
    (entryFor row leg now id).check = .ok (entryFor row leg now id) := by
  have kind : 1 ≤ entryTypeToI16 leg.entryType ∧ entryTypeToI16 leg.entryType ≤ 2 := by
    cases leg.entryType <;> decide
  simp only [EntryRow.check, entryFor, positive, created, kind, and_self, not_true_eq_false,
    if_false]
  rfl

/-- One more entry, or none when the ids are used up. -/
private theorem createEntry_alone {leg : TransferLeg} {rows : List EntryRow} (created : 0 < now)
    (positive : 0 < leg.amount.value)
    (there : (w.tables.account? leg.accountId.value).isSome) :
    alone (createEntry ⟨row.id⟩ leg.accountId leg.entryType leg.amount .pending now) w
        ⟨[], [row], rows⟩ =
      if w.sequences.entries < hi 64 then
        (.ok ⟨w.sequences.entries + 1⟩,
          drawing ⟨w.sequences.accounts, w.sequences.transactions, w.sequences.entries + 1⟩ w,
          ⟨[], [row], rows ++ [entryFor row leg now (w.sequences.entries + 1)]⟩)
      else (.error (.error (.ofStorage (.ofSqlx .sequenceExhausted))), w, ⟨[], [row], rows⟩) := by
  split
  · rename_i room
    have answered : answering (.createEntry ⟨row.id⟩ leg.accountId leg.entryType leg.amount .pending
        now) (w, ⟨[], [row], rows⟩) = (.ok ⟨w.sequences.entries + 1⟩,
          drawing ⟨w.sequences.accounts, w.sequences.transactions, w.sequences.entries + 1⟩ w,
          ⟨[], [row], rows ++ [entryFor row leg now (w.sequences.entries + 1)]⟩) := by
      have draws : nextval w.database.sequences.entries = .ok (w.sequences.entries + 1) :=
        if_pos room
      have checked : (entryFor row leg now (w.sequences.entries + 1)).check = _ :=
        checked_entryFor created positive _
      have inserted : ∀ db, ((⟨⟨[], [row], rows⟩, []⟩ : Tx).view db).transaction? row.id =
          some row := fun db => (find_upsert _ _ _).trans (if_pos rfl)
      have present : ∀ ids, (((⟨⟨[], [row], rows⟩, []⟩ : Tx).view
          ⟨w.database.tables, ids⟩).account? leg.accountId.value).isNone = false := by
        intro ids
        rw [Tx.view_account? rfl]
        simpa [World.tables] using there
      simp only [entryFor] at checked
      simp only [answering, Call.perform, storing, Storage.createEntry, draws, entryStatusToI16,
        checked, inserted, present, Option.isNone_some, Bool.false_eq_true, if_false]
      rfl
    exact alone_call answered
  · rename_i full
    have answered : answering (.createEntry ⟨row.id⟩ leg.accountId leg.entryType leg.amount .pending
        now) (w, ⟨[], [row], rows⟩) =
          (.error (.ofSqlx .sequenceExhausted), w, ⟨[], [row], rows⟩) := by
      have ends : nextval w.database.sequences.entries = .error .sequenceExhausted := if_neg full
      simp only [answering, Call.perform, storing, Storage.createEntry, ends]
      rfl
    exact alone_call answered

section Entries

variable (created : 0 < now) (positive : ∀ leg ∈ legs, 0 < leg.amount.value)
  (stored : Stored w.tables accounts)
  (known : ∀ leg ∈ legs, ∃ account, findAccount accounts leg.accountId = .ok account)

include stored in
private theorem account_of_leg {leg : TransferLeg} {account : Account}
    (found : findAccount accounts leg.accountId = .ok account) :
    (w.tables.account? leg.accountId.value).isSome := by
  obtain ⟨member, same⟩ := findAccount_ok found
  obtain ⟨row, there, -⟩ := stored account member
  rw [← same, there]
  rfl

include created stored in
/-- One leg of the loop, as long as there are ids. -/
private theorem createEntries_cons {leg : TransferLeg} {account : Account}
    {before : List (Line Int)} {rows : List EntryRow} (entries : List Entry)
    (positive : 0 < leg.amount.value)
    (found : findAccount accounts leg.accountId = .ok account)
    (bounded : Bounded (before ++ [leg.line])) (room : w.sequences.entries < hi 64) :
    ∃ entry, entryToProto entry = (entryFor row leg now (w.sequences.entries + 1)).proto ∧
      alone (createEntries ⟨row.id⟩ accounts now (leg :: legs) entries
          (netted w.tables.normal 0 1 before)) w ⟨[], [row], rows⟩ =
        alone (createEntries ⟨row.id⟩ accounts now legs (entries ++ [entry])
            (netted w.tables.normal 0 1 (before ++ [leg.line])))
          (drawing ⟨w.sequences.accounts, w.sequences.transactions, w.sequences.entries + 1⟩ w)
          ⟨[], [row], rows ++ [entryFor row leg now (w.sequences.entries + 1)]⟩ := by
  have looked : alone (.done (findAccount accounts leg.accountId)) w ⟨[], [row], rows⟩ =
      (.ok account, w, ⟨[], [row], rows⟩) := by
    rw [found]
    rfl
  have entered : alone (createEntry ⟨row.id⟩ leg.accountId leg.entryType leg.amount .pending now) w
      ⟨[], [row], rows⟩ = _ := createEntry_alone created positive (account_of_leg stored found)
  rw [if_pos room] at entered
  obtain ⟨entry, built⟩ := Entry.new_ok ⟨w.sequences.entries + 1⟩ ⟨row.id⟩ leg.accountId
    leg.entryType .pending positive created
  have last : leg.line ∈ before ++ [leg.line] := List.mem_append_right _ List.mem_cons_self
  have delta : computeBalanceDelta account.normalBalance leg.entryType leg.amount =
      leg.line.delta w.tables.normal :=
    delta_eq stored.knows found positive.le (bounded.amount_le last)
  refine ⟨entry, entryToProto_new built, ?_⟩
  rw [createEntries, alone_bind looked, alone_bind entered, built,
    ← accumulate_netted _ hold_scales bounded, delta]
  rfl

include created positive stored known in
/-- The loop over the legs enters a row for each of them and nets their deltas. -/
theorem createEntries_alone (row : TransactionRow) (before : List (Line Int))
    (entries : List Entry) (rows : List EntryRow) (bounded : Bounded (before ++ legs.map TransferLeg.line))
    (room : w.sequences.entries + legs.length ≤ hi 64) :
    ∃ entries', alone (createEntries ⟨row.id⟩ accounts now legs entries
        (netted w.tables.normal 0 1 before)) w ⟨[], [row], rows⟩ =
      (.ok (entries', netted w.tables.normal 0 1 (before ++ legs.map TransferLeg.line)),
        drawing ⟨w.sequences.accounts, w.sequences.transactions,
          w.sequences.entries + legs.length⟩ w,
        ⟨[], [row], rows ++ entryRows row now w.sequences.entries legs⟩) ∧
      entries'.map entryToProto = entries.map entryToProto ++
        (entryRows row now w.sequences.entries legs).map EntryRow.proto := by
  induction legs generalizing w before entries rows with
  | nil =>
    refine ⟨entries, ?_, by simp [entryRows]⟩
    simp only [List.map_nil, List.append_nil, List.length_nil, Nat.cast_zero, add_zero, entryRows]
    rfl
  | cons leg legs ih =>
    rw [List.length_cons, Nat.cast_add, Nat.cast_one] at room
    rw [List.map_cons, List.append_cons] at bounded
    obtain ⟨account, found⟩ := known leg List.mem_cons_self
    obtain ⟨entry, proto, entered⟩ := createEntries_cons created stored entries
      (positive leg List.mem_cons_self) found bounded.front (by omega)
    obtain ⟨entries', looped, lists⟩ := ih
      (w := drawing ⟨w.sequences.accounts, w.sequences.transactions, w.sequences.entries + 1⟩ w)
      (fun other member => positive other (List.mem_cons_of_mem _ member)) stored
      (fun other member => known other (List.mem_cons_of_mem _ member)) _ _ _ bounded
      (by rw [sequences_drawing]; simp only; omega)
    rw [sequences_drawing] at looped lists
    refine ⟨entries', entered.trans (looped.trans ?_), ?_⟩
    · have shifted : w.sequences.entries + 1 + (legs.length : Int) =
          w.sequences.entries + (leg :: legs).length := by
        rw [List.length_cons, Nat.cast_add, Nat.cast_one]
        omega
      simp only [shifted, List.append_assoc, List.singleton_append]
      rfl
    · rw [lists, List.map_append, List.append_assoc, List.map_singleton, proto]
      rfl

include created positive stored known in
/-- The loop ends where the ids of entries are used up. -/
theorem createEntries_exhausted (row : TransactionRow) (before : List (Line Int))
    (entries : List Entry) (rows : List EntryRow) (bounded : Bounded (before ++ legs.map TransferLeg.line))
    (full : hi 64 < w.sequences.entries + legs.length)
    (legal : w.sequences.entries ≤ hi 64 ∨ legs ≠ []) :
    ∃ ids v', alone (createEntries ⟨row.id⟩ accounts now legs entries
        (netted w.tables.normal 0 1 before)) w ⟨[], [row], rows⟩ =
      (.error (.error (.ofStorage (.ofSqlx .sequenceExhausted))), drawing ids w, v') := by
  induction legs generalizing w before entries rows with
  | nil =>
    rw [List.length_nil] at full
    rcases legal with within | some
    · omega
    · exact absurd rfl some
  | cons leg legs ih =>
    rw [List.length_cons, Nat.cast_add, Nat.cast_one] at full
    rw [List.map_cons, List.append_cons] at bounded
    obtain ⟨account, found⟩ := known leg List.mem_cons_self
    by_cases room : w.sequences.entries < hi 64
    · obtain ⟨entry, -, entered⟩ := createEntries_cons created stored entries
        (positive leg List.mem_cons_self) found bounded.front room
      obtain ⟨ids, v', looped⟩ := ih
        (w := drawing ⟨w.sequences.accounts, w.sequences.transactions, w.sequences.entries + 1⟩ w)
        (fun other member => positive other (List.mem_cons_of_mem _ member)) stored
        (fun other member => known other (List.mem_cons_of_mem _ member)) _ _ _ bounded
        (by rw [sequences_drawing]; simp only; omega) (.inl room)
      exact ⟨ids, v', entered.trans looped⟩
    · have looked : alone (.done (findAccount accounts leg.accountId)) w ⟨[], [row], rows⟩ =
          (.ok account, w, ⟨[], [row], rows⟩) := by
        rw [found]
        rfl
      have refused : alone (createEntry ⟨row.id⟩ leg.accountId leg.entryType leg.amount .pending
          now) w ⟨[], [row], rows⟩ = _ :=
        createEntry_alone created (positive leg List.mem_cons_self) (account_of_leg stored found)
      rw [if_neg room] at refused
      refine ⟨w.sequences, ⟨[], [row], rows⟩, ?_⟩
      rw [createEntries, alone_bind looked, alone_fails refused]
      rfl

end Entries

end Writing

end Fides.Ledger
