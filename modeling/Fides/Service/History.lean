import Fides.Service.Ledger

/-! # What a session has done so far

`Session.summary` reads the history of a session: whether it has committed, what
it has written and what it has put into the cache.
-/

namespace Fides.Service

open Domain Storage

structure Summary where
  committed : Bool
  /-- The accounts it has inserted, and those it has put into the cache. -/
  opened : List AccountId
  seeded : List AccountId
  /-- The transactions and the entries it has inserted. -/
  authorized : List TransactionId
  entered : List EntryRow
  /-- The status changes it has made. -/
  settled : List (TransactionId × TransactionStatus × Option Int)
  /-- The balance updates it has made in the accounts table, and in the cache. -/
  written : List BalanceUpdate
  applied : List BalanceUpdate

namespace Summary

def blank : Summary := ⟨false, [], [], [], [], [], [], []⟩

def add (summary : Summary) : (c : Call) → c.Result → Summary
  | .commit, .ok _ => { summary with committed := true }
  | .createAccount .., .ok id => { summary with opened := summary.opened ++ [id] }
  | .cacheSet id _ _, _ => { summary with seeded := summary.seeded ++ [id] }
  | .createTransaction .., .ok id => { summary with authorized := summary.authorized ++ [id] }
  | .createEntry transactionId accountId entryType amount status createdAt, .ok id =>
      { summary with entered := summary.entered ++ [⟨id.value, transactionId.value, accountId.value,
          entryTypeToI16 entryType, amount.value, entryStatusToI16 status, createdAt⟩] }
  | .updateTransactionStatus id status postedAt, .ok _ =>
      { summary with settled := summary.settled ++ [(id, status, postedAt)] }
  | .updateAccountBalance id _ posted pending, .ok _ =>
      { summary with written := summary.written ++ [⟨id, posted, pending⟩] }
  | .cacheApplyDelta id posted pending, _ =>
      { summary with applied := summary.applied ++ [⟨id, posted, pending⟩] }
  | _, _ => summary

end Summary

def Session.summary (s : Session) : Summary :=
  s.history.foldl (fun summary answered => summary.add answered.call answered.result) .blank

/-- What a session has done to the committed tables. -/
def Session.effects (s : Session) : Summary :=
  if s.summary.committed then { s.summary with seeded := [], applied := [] } else .blank

theorem Session.committed_effects (s : Session) :
    s.effects.committed = s.summary.committed := by
  unfold effects
  split
  · rfl
  · simp_all [Summary.blank]

@[simp] theorem Session.summary_record (s : Session) (c : Call) (answer : c.Result) (tx : Tx) :
    (s.record c answer tx).summary = s.summary.add c answer := by
  simp [summary, record]

section Members

private theorem mem_settled_foldl (history : List Answered) (before : Summary) (id : TransactionId)
    (status : TransactionStatus) (postedAt : Option Int) :
    (id, status, postedAt) ∈ (history.foldl
        (fun summary answered => summary.add answered.call answered.result) before).settled ↔
      (id, status, postedAt) ∈ before.settled ∨
        (⟨.updateTransactionStatus id status postedAt, .ok ()⟩ : Answered) ∈ history := by
  induction history generalizing before with
  | nil => simp
  | cons answered history ih =>
    rw [List.foldl_cons, ih, List.mem_cons, ← or_assoc]
    refine or_congr_left ?_
    obtain ⟨c, answer⟩ := answered
    cases c with
    | commit | createAccount | createTransaction | createEntry | updateTransactionStatus
    | updateAccountBalance => cases answer <;> simp [Summary.add]
    | _ => simp [Summary.add]

private theorem committed_foldl (history : List Answered) (before : Summary) :
    (history.foldl
        (fun summary answered => summary.add answered.call answered.result) before).committed = true ↔
      before.committed = true ∨ (⟨.commit, .ok ()⟩ : Answered) ∈ history := by
  induction history generalizing before with
  | nil => simp
  | cons answered history ih =>
    rw [List.foldl_cons, ih, List.mem_cons, ← or_assoc]
    refine or_congr_left ?_
    obtain ⟨c, answer⟩ := answered
    cases c with
    | commit | createAccount | createTransaction | createEntry | updateTransactionStatus
    | updateAccountBalance => cases answer <;> simp [Summary.add]
    | _ => simp [Summary.add]

/-- The summary has what the answers say. -/
theorem Session.mem_settled {s : Session} {id : TransactionId} {status : TransactionStatus}
    {postedAt : Option Int} : (id, status, postedAt) ∈ s.summary.settled ↔
      (⟨.updateTransactionStatus id status postedAt, .ok ()⟩ : Answered) ∈ s.history := by
  simp [summary, mem_settled_foldl, Summary.blank]

theorem Session.committed_iff {s : Session} :
    s.summary.committed = true ↔ (⟨.commit, .ok ()⟩ : Answered) ∈ s.history := by
  simp [summary, committed_foldl, Summary.blank]

end Members

@[simp] theorem Session.request_record (s : Session) (c : Call) (answer : c.Result) (tx : Tx) :
    (s.record c answer tx).request = s.request := rfl

@[simp] theorem Session.tx_record (s : Session) (c : Call) (answer : c.Result) (tx : Tx) :
    (s.record c answer tx).tx = tx := rfl

@[simp] theorem Session.history_record (s : Session) (c : Call) (answer : c.Result) (tx : Tx) :
    (s.record c answer tx).history = s.history ++ [⟨c, answer⟩] := rfl

def failure {α : Type} : Except StorageError α → Option StorageError
  | .ok _ => none
  | .error e => some e

/-- The storage error that a call was answered with. -/
def Answered.error : Answered → Option StorageError
  | ⟨.begin, answer⟩ => failure answer
  | ⟨.createAccount .., answer⟩ => failure answer
  | ⟨.getAccount _, answer⟩ => failure answer
  | ⟨.getAccountForUpdate _, answer⟩ => failure answer
  | ⟨.createTransaction .., answer⟩ => failure answer
  | ⟨.getTransaction _, answer⟩ => failure answer
  | ⟨.findTransactionByKey _, answer⟩ => failure answer
  | ⟨.updateTransactionStatus .., answer⟩ => failure answer
  | ⟨.createEntry .., answer⟩ => failure answer
  | ⟨.getEntriesForTransaction _, answer⟩ => failure answer
  | ⟨.getEntriesForAccount _, answer⟩ => failure answer
  | ⟨.updateEntryStatusByTransaction .., answer⟩ => failure answer
  | ⟨.updateAccountBalance .., answer⟩ => failure answer
  | ⟨.commit, answer⟩ => failure answer
  | ⟨.rollback, _⟩ | ⟨.cacheGet _, _⟩ | ⟨.cacheApplyDelta .., _⟩ | ⟨.cacheSet .., _⟩ => none

theorem storing_eq {α : Type} (call : Database → Tx → Reply α) {w w' : World}
    {tx tx' : Tx} {answer : Except StorageError α} (ran : storing call w tx = (answer, w', tx')) :
    ∃ database, call w.database tx = (answer, database, tx') ∧
      w' = { w with database := database } := by
  unfold storing at ran
  cases ran
  exact ⟨_, rfl, rfl⟩

theorem exec_eq_some {weather : Weather} {c : Call} {w w' : World} {s s' : Session}
    {answer : c.Result} (ran : exec weather c w s = some (answer, w', s')) :
    ∃ tx, c.run weather w s.tx = some (answer, w', tx) ∧ s' = s.record c answer tx := by
  unfold exec at ran
  split at ran
  · rename_i out
    cases ran
    exact ⟨_, out, rfl⟩
  · cases ran

end Fides.Service
