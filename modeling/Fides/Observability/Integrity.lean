import Fides.Relational.Query
import Fides.Storage.Schema

/-! # The integrity checker

Two of the checks that run in the background: the global one, that the debits of
all entries equal their credits, and the reconciliation of the balance columns
with the entries.  Both read the database in one query; a query that fails is
logged and leaves the gauge as it is.  A `none` in place of gauges stands for an
`i64` operation that overflowed.
-/

namespace Fides.Observability

open Storage FixedWidth Relational

/-- The gauges as last set, if ever. -/
structure Gauges where
  globalBalanced : Option Nat
  accountMismatches : Option Nat
  deriving DecidableEq, Repr

/-- `::BIGINT` of a sum, which is a numeric. -/
def toBigint (value : Int) : Except SqlError Int :=
  if Fits 64 value then .ok value else .error (.outOfRange "bigint")

/-- `COALESCE(SUM(CASE WHEN entry_type = kind THEN amount ELSE 0 END), 0)::BIGINT` -/
def totalOf (kind : Int) (entries : List EntryRow) : Except SqlError Int :=
  toBigint (coalesce (sum (entries.map fun e =>
    caseWhen (equals (some e.entryType) kind) (some e.amount) (some 0))) 0)

/-- The query of the global check: the totals of the entries that are not voided. -/
def globalTotals (t : Tables) : Except SqlError (Int × Int) := do
  let live := t.entries.filter fun e => differs (some e.status) 3 = some true
  let totalDebits ← totalOf 1 live
  let totalCredits ← totalOf 2 live
  return (totalDebits, totalCredits)

def checkGlobalBalance (t : Tables) (gauges : Gauges) : Option Gauges :=
  match globalTotals t with
  | .error _ => some gauges
  | .ok totals =>
      if totals.1 = totals.2 then some { gauges with globalBalanced := some 1 }
      else do
        -- the difference is computed for the log line
        let _ ← checkedSub 64 totals.1 totals.2
        return { gauges with globalBalanced := some 0 }

def isDebitNormal (accountType : Int) : Bool := accountType = 1 || accountType = 5

/-- A row of the reconciliation query. -/
structure ReconciliationRow where
  id : Int
  accountType : Int
  matPosted : Int
  matPending : Int
  postedDebits : Int
  postedCredits : Int
  pendingDebits : Int
  pendingCredits : Int
  deriving DecidableEq, Repr

/-- `COALESCE(SUM(CASE WHEN e.status = status AND e.entry_type = kind THEN e.amount ELSE 0 END), 0)`
    over the rows of a group, as a `BIGINT`. -/
def sumOf (status kind : Int) (group : List (AccountRow × Option EntryRow)) : Except SqlError Int :=
  toBigint (coalesce (sum (group.map fun pair =>
    caseWhen (both (equals (pair.2.map EntryRow.status) status)
        (equals (pair.2.map EntryRow.entryType) kind))
      (pair.2.map EntryRow.amount) (some 0))) 0)

/-- `FROM accounts a LEFT JOIN entries e ON e.account_id = a.id AND e.status != 3` -/
def accountEntries (t : Tables) : List (AccountRow × Option EntryRow) :=
  leftJoin (fun a e => both (equals (some e.accountId) a.id) (differs (some e.status) 3))
    t.accounts t.entries

/-- The columns that the reconciliation query groups by. -/
abbrev GroupColumns := Int × Int × Int × Int

def groupColumns (a : AccountRow) : GroupColumns :=
  (a.id, a.accountType, a.postedBalance, a.pendingBalance)

def reconciliationRow (group : GroupColumns × List (AccountRow × Option EntryRow)) :
    Except SqlError ReconciliationRow := do
  let postedDebits ← sumOf 2 1 group.2
  let postedCredits ← sumOf 2 2 group.2
  let pendingDebits ← sumOf 1 1 group.2
  let pendingCredits ← sumOf 1 2 group.2
  return ⟨group.1.1, group.1.2.1, group.1.2.2.1, group.1.2.2.2, postedDebits, postedCredits,
    pendingDebits, pendingCredits⟩

/-- The query of the reconciliation, group by group. -/
def accountBalances (t : Tables) : Except SqlError (List ReconciliationRow) :=
  (groupBy (fun pair => groupColumns pair.1) (accountEntries t)).mapM reconciliationRow

/-- `debits - credits` or `credits - debits` -/
def expectedBalance (debitNormal : Bool) (debits credits : Int) : Option Int :=
  if debitNormal then checkedSub 64 debits credits else checkedSub 64 credits debits

def countMismatches : List ReconciliationRow → Nat → Option Nat
  | [], mismatches => some mismatches
  | row :: rows, mismatches => do
      let debitNormal := isDebitNormal row.accountType
      let expectedPosted ← expectedBalance debitNormal row.postedDebits row.postedCredits
      let expectedPending ← expectedBalance debitNormal row.pendingDebits row.pendingCredits
      if row.matPosted ≠ expectedPosted ∨ row.matPending ≠ expectedPending then
        countMismatches rows (mismatches + 1)
      else countMismatches rows mismatches

def checkAccountBalances (t : Tables) (gauges : Gauges) : Option Gauges :=
  match accountBalances t with
  | .error _ => some gauges
  | .ok rows => do
      let mismatches ← countMismatches rows 0
      return { gauges with accountMismatches := some mismatches }

end Fides.Observability
