import Mathlib.Tactic

/-! # Account and money types

The identifiers and the amount are newtypes over `i64`: requests go through
`new`, storage builds them from raw columns.  An `Account` only comes out of
`Account.new`, so its checks are fields.
-/

namespace Fides.Domain

structure Amount where
  value : Int
  deriving DecidableEq, Repr

inductive AmountError where
  | negative (value : Int)
  | overflow
  | underflow
  deriving DecidableEq, Repr

def Amount.new (value : Int) : Except AmountError Amount :=
  if value < 0 then .error (.negative value) else .ok ⟨value⟩

def AmountError.toString : AmountError → String
  | .negative v => "amount cannot be negative: " ++ ToString.toString v
  | .overflow => "amount overflow"
  | .underflow => "amount underflow (would be negative)"

structure AccountId where
  value : Int
  deriving DecidableEq, Repr

inductive AccountType where
  | asset
  | liability
  | equity
  | revenue
  | expense
  deriving DecidableEq, Repr

/-- The side that increases the balance. -/
inductive NormalBalance where
  | debit
  | credit
  deriving DecidableEq, Repr

inductive AccountError where
  | invalidId (id : Int)
  | emptyAssetCode
  | invalidScale (scale : Nat)
  | invalidVersion (version : Int)
  | invalidTimestamp (timestamp : Int)
  deriving DecidableEq, Repr

def AccountId.new (id : Int) : Except AccountError AccountId :=
  if id ≤ 0 then .error (.invalidId id) else .ok ⟨id⟩

def AccountType.normalBalance : AccountType → NormalBalance
  | .asset | .expense => .debit
  | .liability | .equity | .revenue => .credit

structure Account where
  id : AccountId
  accountType : AccountType
  assetCode : String
  assetScale : Nat
  version : Int
  createdAt : Int
  assetCode_ne : assetCode ≠ ""
  assetScale_le : assetScale ≤ 18
  version_nonneg : 0 ≤ version
  createdAt_pos : 0 < createdAt
  deriving DecidableEq, Repr

def Account.new (id : AccountId) (accountType : AccountType) (assetCode : String)
    (assetScale : Nat) (version createdAt : Int) : Except AccountError Account :=
  if code : assetCode = "" then .error .emptyAssetCode
  else if scale : assetScale > 18 then .error (.invalidScale assetScale)
  else if negative : version < 0 then .error (.invalidVersion version)
  else if early : createdAt ≤ 0 then .error (.invalidTimestamp createdAt)
  else .ok
    { id, accountType, assetCode, assetScale, version, createdAt
      assetCode_ne := code
      assetScale_le := by omega
      version_nonneg := by omega
      createdAt_pos := by omega }

def Account.normalBalance (account : Account) : NormalBalance :=
  account.accountType.normalBalance

def AccountError.toString : AccountError → String
  | .invalidId id => "invalid account id: " ++ ToString.toString id
  | .emptyAssetCode => "asset code cannot be empty"
  | .invalidScale s => "invalid scale " ++ ToString.toString s ++ ", max is 18"
  | .invalidVersion v => "invalid version: " ++ ToString.toString v
  | .invalidTimestamp t => "invalid timestamp: " ++ ToString.toString t

theorem AccountId.new_eq_ok {value : Int} {id : AccountId} (built : AccountId.new value = .ok id) :
    id = ⟨value⟩ := by
  unfold AccountId.new at built
  split at built <;> cases built
  rfl

theorem AccountId.ext_value {a b : AccountId} (same : a.value = b.value) : a = b := by
  cases a
  cases b
  cases same
  rfl

/-- What `Account.new` demands. -/
theorem Account.new_ok (id accountType) {assetCode : String} {assetScale : Nat}
    {version createdAt : Int} (filled : assetCode ≠ "") (scale : assetScale ≤ 18)
    (nonneg : 0 ≤ version) (created : 0 < createdAt) :
    ∃ account, Account.new id accountType assetCode assetScale version createdAt = .ok account := by
  have small : ¬ assetScale > 18 := by omega
  have valid : ¬ version < 0 := by omega
  have late : ¬ createdAt ≤ 0 := by omega
  exact ⟨_, by rw [Account.new, dif_neg filled, dif_neg small, dif_neg valid, dif_neg late]⟩

/-- `Account.new` builds exactly the account it was asked for. -/
theorem Account.new_eq_ok {id accountType assetCode assetScale version createdAt}
    {account : Account}
    (built : Account.new id accountType assetCode assetScale version createdAt = .ok account) :
    account.id = id ∧ account.accountType = accountType ∧ account.assetCode = assetCode ∧
      account.assetScale = assetScale ∧ account.version = version ∧
      account.createdAt = createdAt := by
  unfold Account.new at built
  split at built
  · cases built
  split at built
  · cases built
  split at built
  · cases built
  split at built
  · cases built
  cases built
  exact ⟨rfl, rfl, rfl, rfl, rfl, rfl⟩

end Fides.Domain
