import Fides.Domain.Transaction
import Fides.Numeric.FixedWidth

/-! # Transfer legs, balance validation and balance computation -/

namespace Fides.Domain

open FixedWidth

structure TransferLeg where
  accountId : AccountId
  entryType : EntryType
  amount : Amount
  amount_ne : amount.value ≠ 0
  deriving Repr

inductive TransferLegError where
  | zeroAmount
  deriving DecidableEq, Repr

def TransferLeg.new (accountId : AccountId) (entryType : EntryType) (amount : Amount) :
    Except TransferLegError TransferLeg :=
  if zero : amount.value = 0 then .error .zeroAmount
  else .ok { accountId, entryType, amount, amount_ne := zero }

def TransferLegError.toString : TransferLegError → String
  | .zeroAmount => "transfer leg amount cannot be zero"

structure AccountBalance where
  posted : Int
  pending : Int
  available : Int
  deriving DecidableEq, Repr

def AccountBalance.hasAvailable (balance : AccountBalance) (amount : Amount) : Bool :=
  balance.available ≥ amount.value

inductive ValidationError where
  | insufficientLegs (count : Nat)
  | unbalancedTransaction (totalDebits totalCredits : Int)
  | sumOverflow
  | balanceOverflow
  deriving DecidableEq, Repr

def ValidationError.toString : ValidationError → String
  | .insufficientLegs count =>
      "transaction requires at least 2 legs, got " ++ ToString.toString count
  | .unbalancedTransaction debits credits =>
      "unbalanced transaction: debits " ++ ToString.toString debits ++ " != credits " ++
        ToString.toString credits
  | .sumOverflow => "amount sum overflow"
  | .balanceOverflow => "balance computation overflow"

/-- The loop of `validateTransactionBalance` with its two running totals. -/
def sumLegs : List TransferLeg → Int → Int → Except ValidationError (Int × Int)
  | [], debits, credits => .ok (debits, credits)
  | leg :: legs, debits, credits =>
      match leg.entryType with
      | .debit => match checkedAdd 64 debits leg.amount.value with
          | some debits => sumLegs legs debits credits
          | none => .error .sumOverflow
      | .credit => match checkedAdd 64 credits leg.amount.value with
          | some credits => sumLegs legs debits credits
          | none => .error .sumOverflow

def validateTransactionBalance (legs : List TransferLeg) : Except ValidationError Unit :=
  if legs.length < 2 then .error (.insufficientLegs legs.length)
  else match sumLegs legs 0 0 with
    | .error e => .error e
    | .ok (debits, credits) =>
        if debits ≠ credits then .error (.unbalancedTransaction debits credits) else .ok ()

/-- The four gross sums of `computeAccountBalance`. -/
structure GrossSums where
  postedDebits : Int
  postedCredits : Int
  pendingDebits : Int
  pendingCredits : Int
  deriving DecidableEq, Repr

def sumEntries : List Entry → GrossSums → Except ValidationError GrossSums
  | [], sums => .ok sums
  | entry :: entries, sums =>
      match entry.status, entry.entryType with
      | .voided, _ => sumEntries entries sums
      | .posted, .debit => match checkedAdd 64 sums.postedDebits entry.amount.value with
          | some total => sumEntries entries { sums with postedDebits := total }
          | none => .error .sumOverflow
      | .posted, .credit => match checkedAdd 64 sums.postedCredits entry.amount.value with
          | some total => sumEntries entries { sums with postedCredits := total }
          | none => .error .sumOverflow
      | .pending, .debit => match checkedAdd 64 sums.pendingDebits entry.amount.value with
          | some total => sumEntries entries { sums with pendingDebits := total }
          | none => .error .sumOverflow
      | .pending, .credit => match checkedAdd 64 sums.pendingCredits entry.amount.value with
          | some total => sumEntries entries { sums with pendingCredits := total }
          | none => .error .sumOverflow

def subtractGross (normal : NormalBalance) (debits credits : Int) : Except ValidationError Int :=
  match normal with
  | .debit => (checkedSub 64 debits credits).elim (.error .balanceOverflow) .ok
  | .credit => (checkedSub 64 credits debits).elim (.error .balanceOverflow) .ok

def computeAccountBalance (normal : NormalBalance) (entries : List Entry) :
    Except ValidationError AccountBalance := do
  let sums ← sumEntries entries ⟨0, 0, 0, 0⟩
  let posted ← subtractGross normal sums.postedDebits sums.postedCredits
  let pending ← subtractGross normal sums.pendingDebits sums.pendingCredits
  let available ← (checkedSub 64 posted pending).elim (.error .balanceOverflow) .ok
  return ⟨posted, pending, available⟩

/-- Positive increases the balance, negative decreases it. -/
def computeBalanceDelta (normal : NormalBalance) (entryType : EntryType) (amount : Amount) : Int :=
  match normal, entryType with
  | .debit, .debit => amount.value
  | .credit, .credit => amount.value
  | .debit, .credit => wrap 64 (-amount.value)
  | .credit, .debit => wrap 64 (-amount.value)

end Fides.Domain
