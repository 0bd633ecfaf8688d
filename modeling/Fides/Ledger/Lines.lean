import Fides.Bookkeeping.DoubleEntry
import Fides.Service.Ledger

/-! # The ledger's rows as bookkeeping lines

Legs, entries and entry rows are lines on account ids; accounts and account rows
have a normal side.  Decoding a row keeps both, and the delta the service
computes is the delta of the line as long as the amount is an `i64`.  A row is
reported as it is stored: decoding it and encoding the result for a response
gives the columns back.
-/

namespace Fides.Domain

open Bookkeeping FixedWidth

def NormalBalance.side : NormalBalance → Side
  | .debit => .debit
  | .credit => .credit

def EntryType.side : EntryType → Side
  | .debit => .debit
  | .credit => .credit

def TransferLeg.line (leg : TransferLeg) : Line Int :=
  ⟨leg.accountId.value, leg.entryType.side, leg.amount.value⟩

def Entry.line (entry : Entry) : Line Int :=
  ⟨entry.accountId.value, entry.entryType.side, entry.amount.value⟩

theorem computeBalanceDelta_eq {normal : NormalBalance} {entryType : EntryType} {amount : Amount}
    (nonneg : 0 ≤ amount.value) (bounded : amount.value ≤ hi 64) :
    computeBalanceDelta normal entryType amount =
      normal.side.sign * entryType.side.sign * amount.value := by
  have negated : wrap 64 (-amount.value) = -amount.value := by
    apply wrap_of_fits_64
    rw [fits_iff_64]
    simp only [hi] at bounded
    omega
  cases normal <;> cases entryType <;>
    simp [computeBalanceDelta, NormalBalance.side, EntryType.side, negated]

end Fides.Domain

namespace Fides.Storage

open Domain Service Bookkeeping

def AccountRow.side (row : AccountRow) : Side :=
  if row.accountType = 1 ∨ row.accountType = 5 then .debit else .credit

def EntryRow.line (row : EntryRow) : Line Int :=
  ⟨row.accountId, if row.entryType = 1 then .debit else .credit, row.amount⟩

private theorem i16ToAccountType_side {code : Int} {accountType : AccountType}
    (decoded : i16ToAccountType code = .ok accountType) :
    accountType.normalBalance.side = if code = 1 ∨ code = 5 then .debit else .credit := by
  unfold i16ToAccountType at decoded
  repeat' split at decoded
  all_goals cases decoded
  all_goals subst_vars
  all_goals rfl

private theorem i16ToEntryType_side {code : Int} {entryType : EntryType}
    (decoded : i16ToEntryType code = .ok entryType) :
    entryType.side = if code = 1 then .debit else .credit := by
  unfold i16ToEntryType at decoded
  repeat' split at decoded
  all_goals cases decoded
  all_goals subst_vars
  all_goals rfl

theorem i16ToEntryType_ok {code : Int} {entryType : EntryType}
    (decoded : i16ToEntryType code = .ok entryType) : entryTypeToI16 entryType = code := by
  unfold i16ToEntryType at decoded
  repeat' split at decoded
  all_goals cases decoded
  all_goals subst_vars
  all_goals rfl

theorem i16ToEntryStatus_ok {code : Int} {status : EntryStatus}
    (decoded : i16ToEntryStatus code = .ok status) : entryStatusToI16 status = code := by
  unfold i16ToEntryStatus at decoded
  repeat' split at decoded
  all_goals cases decoded
  all_goals subst_vars
  all_goals rfl

theorem i16ToTransactionStatus_ok {code : Int} {status : TransactionStatus}
    (decoded : i16ToTransactionStatus code = .ok status) :
    transactionStatusToI16 status = code := by
  unfold i16ToTransactionStatus at decoded
  repeat' split at decoded
  all_goals cases decoded
  all_goals subst_vars
  all_goals rfl

theorem buildAccount_ok {row : AccountRow} {account : Account}
    (built : buildAccount row = .ok account) :
    account.id.value = row.id ∧ account.version = row.version ∧
      account.normalBalance.side = row.side := by
  unfold buildAccount at built
  split at built
  · cases built
  · rename_i accountType decoded
    split at built
    · rename_i new
      cases built
      obtain ⟨id, kind, -, -, version, -⟩ := Account.new_eq_ok new
      refine ⟨by rw [id], version, ?_⟩
      rw [Account.normalBalance, kind, i16ToAccountType_side decoded, AccountRow.side]
    · cases built

theorem buildTransaction_ok {row : TransactionRow} {transaction : Transaction}
    (built : buildTransaction row = .ok transaction) :
    transaction.id.value = row.id ∧ transaction.idempotencyKey = row.idempotencyKey ∧
      transactionStatusToI16 transaction.status = row.status := by
  unfold buildTransaction at built
  split at built
  · cases built
  · rename_i status decoded
    split at built
    · rename_i new
      cases built
      obtain ⟨id, key, same, -, -, -⟩ := Transaction.new_eq_ok new
      refine ⟨by rw [id], key, ?_⟩
      rw [same, i16ToTransactionStatus_ok decoded]
    · cases built

theorem buildEntry_ok {row : EntryRow} {entry : Entry} (built : buildEntry row = .ok entry) :
    entry.line = row.line ∧ entry.accountId.value = row.accountId ∧
      entryStatusToI16 entry.status = row.status := by
  unfold buildEntry at built
  split at built
  · cases built
  · cases built
  · rename_i entryType status decodedType decodedStatus
    split at built
    · rename_i new
      cases built
      obtain ⟨-, -, account, kind, amount, same, -⟩ := Entry.new_eq_ok new
      refine ⟨?_, by rw [account], by rw [same, i16ToEntryStatus_ok decodedStatus]⟩
      simp only [Entry.line, EntryRow.line, account, kind, amount, i16ToEntryType_side decodedType]
    · cases built

/-- A transaction row and an entry row as a response has them. -/
def TransactionRow.proto (row : TransactionRow) : ProtoTransaction :=
  ⟨row.id, row.idempotencyKey, row.status, row.createdAt, row.postedAt.getD 0⟩

def EntryRow.proto (row : EntryRow) : ProtoEntry :=
  ⟨row.id, row.transactionId, row.accountId, row.entryType, row.amount, row.status, row.createdAt⟩

@[simp] theorem transactionStatusToProto_eq (status : TransactionStatus) :
    transactionStatusToProto status = transactionStatusToI16 status := by
  cases status <;> rfl

@[simp] theorem entryStatusToProto_eq (status : EntryStatus) :
    entryStatusToProto status = entryStatusToI16 status := by
  cases status <;> rfl

@[simp] theorem entryTypeToProto_eq (entryType : EntryType) :
    entryTypeToProto entryType = entryTypeToI16 entryType := by
  cases entryType <;> rfl

theorem transactionToProto_new {id key status metadata createdAt postedAt}
    {transaction : Transaction}
    (built : Transaction.new id key status metadata createdAt postedAt = .ok transaction) :
    transactionToProto transaction =
      ⟨id.value, key, transactionStatusToI16 status, createdAt, postedAt⟩ := by
  obtain ⟨rfl, rfl, rfl, -, rfl, rfl⟩ := Transaction.new_eq_ok built
  rw [transactionToProto, transactionStatusToProto_eq]

theorem transactionToProto_build {row : TransactionRow} {transaction : Transaction}
    (built : buildTransaction row = .ok transaction) :
    transactionToProto transaction = row.proto := by
  unfold buildTransaction at built
  split at built
  · cases built
  · rename_i status decoded
    split at built
    · rename_i new
      cases built
      rw [transactionToProto_new new, i16ToTransactionStatus_ok decoded, TransactionRow.proto]
    · cases built

theorem entryToProto_build {row : EntryRow} {entry : Entry} (built : buildEntry row = .ok entry) :
    entryToProto entry = row.proto := by
  unfold buildEntry at built
  split at built
  · cases built
  · cases built
  · rename_i entryType status decodedType decodedStatus
    split at built
    · rename_i new
      cases built
      obtain ⟨id, transaction, account, kind, amount, same, created⟩ := Entry.new_eq_ok new
      simp [entryToProto, EntryRow.proto, id, transaction, account, kind, amount, same, created,
        i16ToEntryType_ok decodedType, i16ToEntryStatus_ok decodedStatus]
    · cases built

/-- A list of rows decodes row by row. -/
theorem buildEntries_ok {rows : List EntryRow} {entries : List Entry}
    (built : buildEntries rows = .ok entries) :
    List.Forall₂ (fun row entry => buildEntry row = .ok entry) rows entries := by
  induction rows generalizing entries with
  | nil =>
      cases built
      exact .nil
  | cons row rows ih =>
      simp only [buildEntries] at built
      split at built
      · cases built
      · cases built
      · rename_i entry rest first others
        cases built
        exact .cons first (ih others)

/-- Every decoded entry comes from a row. -/
theorem exists_row {rows : List EntryRow} {entries : List Entry} {entry : Entry}
    (built : buildEntries rows = .ok entries) (member : entry ∈ entries) :
    ∃ row ∈ rows, buildEntry row = .ok entry := by
  have each := buildEntries_ok built
  clear built
  induction each with
  | nil => cases member
  | @cons row _ _ _ first _ ih =>
    rcases List.mem_cons.mp member with rfl | rest
    · exact ⟨row, List.mem_cons_self, first⟩
    · obtain ⟨other, inside, decoded⟩ := ih rest
      exact ⟨other, List.mem_cons_of_mem _ inside, decoded⟩

theorem buildEntries_lines {rows : List EntryRow} {entries : List Entry}
    (built : buildEntries rows = .ok entries) :
    entries.map Entry.line = rows.map EntryRow.line := by
  have each := buildEntries_ok built
  clear built
  induction each with
  | nil => rfl
  | cons first _ ih => rw [List.map_cons, List.map_cons, (buildEntry_ok first).1, ih]

theorem buildEntries_proto {rows : List EntryRow} {entries : List Entry}
    (built : buildEntries rows = .ok entries) :
    entries.map entryToProto = rows.map EntryRow.proto := by
  have each := buildEntries_ok built
  clear built
  induction each with
  | nil => rfl
  | cons first _ ih => rw [List.map_cons, List.map_cons, entryToProto_build first, ih]

end Fides.Storage
