import Fides.Domain.Validation

/-! # The in-memory balance cache -/

namespace Fides.Storage

open Domain FixedWidth

structure CachedBalance where
  posted : Int
  pending : Int
  deriving DecidableEq, Repr

structure BalanceCache where
  balances : AccountId → Option CachedBalance

namespace BalanceCache

def new : BalanceCache := ⟨fun _ => none⟩

/-- Absolute values, for a new account. -/
def set (cache : BalanceCache) (id : AccountId) (posted pending : Int) : BalanceCache :=
  ⟨fun other => if other = id then some ⟨posted, pending⟩ else cache.balances other⟩

def rehydrate (cache : BalanceCache) : List (AccountId × Int × Int) → BalanceCache
  | [] => cache
  | (id, posted, pending) :: data => (cache.set id posted pending).rehydrate data

def get (cache : BalanceCache) (id : AccountId) : Option AccountBalance :=
  (cache.balances id).map fun b => ⟨b.posted, b.pending, saturatingSub 64 b.posted b.pending⟩

/-- Does nothing for an account that is not in the cache. -/
def applyDelta (cache : BalanceCache) (id : AccountId) (deltaPosted deltaPending : Int) :
    BalanceCache :=
  ⟨fun other =>
    if other = id then (cache.balances other).map fun b =>
      ⟨saturatingAdd 64 b.posted deltaPosted, saturatingAdd 64 b.pending deltaPending⟩
    else cache.balances other⟩

variable (cache : BalanceCache) (id other : AccountId)

theorem balances_set (posted pending : Int) : (cache.set id posted pending).balances other =
    if other = id then some ⟨posted, pending⟩ else cache.balances other := rfl

theorem balances_applyDelta (posted pending : Int) :
    (cache.applyDelta id posted pending).balances other =
      if other = id then (cache.balances other).map fun b =>
        ⟨saturatingAdd 64 b.posted posted, saturatingAdd 64 b.pending pending⟩
      else cache.balances other := rfl

/-- Applying a delta neither adds an account nor takes one out. -/
@[simp] theorem isSome_applyDelta (posted pending : Int) :
    ((cache.applyDelta id posted pending).balances other).isSome =
      (cache.balances other).isSome := by
  rw [balances_applyDelta]
  split <;> simp

end BalanceCache
end Fides.Storage
