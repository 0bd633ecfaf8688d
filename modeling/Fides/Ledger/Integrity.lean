import Fides.Ledger.Computation
import Fides.Ledger.Decoding
import Fides.Observability.Integrity
import Fides.Storage.Postgres

/-! # What the integrity checker finds

The checker computes balances in SQL, with the raw codes of the columns.  On
tables that meet the constraints of the schema its reconciliation counts the
accounts whose columns differ from the balance that the domain computes.
-/

namespace Fides.Ledger

open Domain Service Storage Observability FixedWidth Relational Bookkeeping

/-- What the constraints of the schema say about accounts and entries. -/
structure Constrained (t : Tables) : Prop where
  accounts : Distinct t.accounts
  entries : Distinct t.entries
  accountRows : ∀ row ∈ t.accounts, row.check = .ok row
  entryRows : ∀ row ∈ t.entries, row.check = .ok row
  references : ∀ row ∈ t.entries,
    (t.account? row.accountId).isSome ∧ (t.transaction? row.transactionId).isSome

theorem Constrained.positive {t : Tables} (constrained : Constrained t) {e : EntryRow}
    (member : e ∈ t.entries) : 0 < e.amount :=
  (EntryRow.check_ok (constrained.entryRows e member)).2.1

/-- The amounts of the rows with a status and a type. -/
def rowSum (status kind : Int) (rows : List EntryRow) : Int :=
  (rows.map fun e => if e.status = status ∧ e.entryType = kind then e.amount else 0).sum

section Sums

variable {t : Tables} {rows : List EntryRow} {entries : List Entry}

theorem toBigint_of_nonneg {value : Int} (low : 0 ≤ value) :
    toBigint value = if value ≤ hi 64 then .ok value else .error (.outOfRange "bigint") := by
  have above := (lo_nonpos 64).trans low
  simp [toBigint, Fits, above]

private theorem rowSum_nonneg (positive : ∀ e ∈ rows, 0 < e.amount) (status kind : Int) :
    0 ≤ rowSum status kind rows := by
  apply List.sum_nonneg
  intro value member
  obtain ⟨e, inside, rfl⟩ := List.mem_map.mp member
  split
  · exact (positive e inside).le
  · exact le_rfl

/-- The sum of a group is over the rows of the account, since voided rows do not count. -/
private theorem sumOf_paired {status kind : Int} (live : status ≠ 3) (a : AccountRow) :
    sumOf status kind (paired a (t.entries.filter fun e =>
      both (equals (some e.accountId) a.id) (differs (some e.status) 3) = some true)) =
      toBigint (rowSum status kind (t.entries.filter fun e => e.accountId = a.id)) := by
  rw [sumOf, coalesce_sum_paired (p := fun e => both (equals (e.map EntryRow.status) status)
    (equals (e.map EntryRow.entryType) kind)) (by simp), rowSum, sum_filter, sum_filter]
  refine congrArg (fun values => toBigint (List.sum values)) (List.map_congr_left fun e _ => ?_)
  by_cases here : e.accountId = a.id
  · by_cases voided : e.status = 3
    · have other : e.status ≠ status := fun same => live (same.symm.trans voided)
      simp [here, voided, voided ▸ other]
    · simp [here, voided]
  · simp [here]

private theorem rowSum_perm {rows' : List EntryRow} (perm : rows'.Perm rows) (status kind : Int) :
    rowSum status kind rows' = rowSum status kind rows :=
  (perm.map _).sum_eq

/-- Decoding keeps the sums. -/
private theorem grossSum_build (built : buildEntries rows = .ok entries) (status : EntryStatus)
    (kind : EntryType) :
    grossSum status kind entries =
      rowSum (entryStatusToI16 status) (entryTypeToI16 kind) rows := by
  have decoded := buildEntries_ok built
  clear built
  induction decoded with
  | nil => rfl
  | @cons row entry rows entries here _ ih =>
    have proto := entryToProto_build here
    have stands : entryStatusToI16 entry.status = row.status := (buildEntry_ok here).2.2
    have type : entryTypeToI16 entry.entryType = row.entryType :=
      (entryTypeToProto_eq _).symm.trans (congrArg ProtoEntry.entryType proto)
    have amount : entry.amount.value = row.amount := congrArg ProtoEntry.amount proto
    have same : (entry.status = status ∧ entry.entryType = kind) ↔
        row.status = entryStatusToI16 status ∧ row.entryType = entryTypeToI16 kind := by
      rw [← stands, ← type, entryStatusToI16_inj, entryTypeToI16_inj]
    rw [rowSum, List.map_cons, List.sum_cons, ← rowSum, ← ih, grossSum, List.filter_cons]
    by_cases counted : entry.status = status ∧ entry.entryType = kind
    · rw [if_pos (by simpa using counted), if_pos (same.mp counted), List.map_cons, List.sum_cons,
        amount, grossSum]
    · rw [if_neg (by simpa using counted), if_neg (same.not.mp counted), zero_add, grossSum]

end Sums

/-- The balance that the domain computes for an account, from its decoded type and entries. -/
def Computes (t : Tables) (row : AccountRow) (balance : AccountBalance) : Prop :=
  ∃ accountType entries, i16ToAccountType row.accountType = .ok accountType ∧
    buildEntries (orderById (t.entries.filter fun e => e.accountId = row.id)) = .ok entries ∧
    computeAccountBalance accountType.normalBalance entries = .ok balance

section Reconciliation

variable {t : Tables}

/-- The four sums of the account are within a `BIGINT`. -/
def SumsFit (t : Tables) (a : AccountRow) : Prop :=
  ∀ status kind, status ≠ EntryStatus.voided →
    rowSum (entryStatusToI16 status) (entryTypeToI16 kind)
      (t.entries.filter fun e => e.accountId = a.id) ≤ hi 64

/-- The row that the reconciliation query has for an account. -/
def reconciled (t : Tables) (a : AccountRow) : ReconciliationRow :=
  let rows := t.entries.filter fun e => e.accountId = a.id
  ⟨a.id, a.accountType, a.postedBalance, a.pendingBalance, rowSum 2 1 rows, rowSum 2 2 rows,
    rowSum 1 1 rows, rowSum 1 2 rows⟩

/-- The checker's own table of normal balances is the domain's. -/
private theorem expectedBalance_of_ok {code debits credits value : Int} {accountType : AccountType}
    (decoded : i16ToAccountType code = .ok accountType)
    (subtracted : subtractGross accountType.normalBalance debits credits = .ok value) :
    expectedBalance (isDebitNormal code) debits credits = some value := by
  have same : subtractGross accountType.normalBalance debits credits =
      (expectedBalance (isDebitNormal code) debits credits).elim (.error .balanceOverflow) .ok := by
    unfold i16ToAccountType at decoded
    split_ifs at decoded <;> cases decoded <;> subst code <;> rfl
  rw [same] at subtracted
  cases expected : expectedBalance (isDebitNormal code) debits credits with
  | none => simp [expected] at subtracted
  | some result => simpa [expected] using subtracted

private theorem positive_of_build (constrained : Constrained t) {a : AccountRow}
    {entries : List Entry}
    (built : buildEntries (orderById (t.entries.filter fun e => e.accountId = a.id)) = .ok entries) :
    ∀ entry ∈ entries, 0 < entry.amount.value := by
  intro entry member
  obtain ⟨row, listed, decoded⟩ := exists_row built member
  have inside := (List.perm_insertionSort _ _).mem_iff.mp listed
  have amount : entry.amount.value = row.amount := congrArg Line.amount (buildEntry_ok decoded).1
  rw [amount]
  exact constrained.positive (List.mem_of_mem_filter inside)

/-- Where the domain computes a balance, the checker expects it. -/
private theorem expected_of_computes (constrained : Constrained t) {a : AccountRow}
    {balance : AccountBalance} (computes : Computes t a balance) :
    SumsFit t a ∧
    expectedBalance (isDebitNormal a.accountType) (reconciled t a).postedDebits
      (reconciled t a).postedCredits = some balance.posted ∧
    expectedBalance (isDebitNormal a.accountType) (reconciled t a).pendingDebits
      (reconciled t a).pendingCredits = some balance.pending := by
  obtain ⟨accountType, entries, type, built, computed⟩ := computes
  have positive := positive_of_build constrained built
  have sums : ∀ status kind, grossSum status kind entries =
      rowSum (entryStatusToI16 status) (entryTypeToI16 kind)
        (t.entries.filter fun e => e.accountId = a.id) := by
    intro status kind
    rw [grossSum_build built, orderById, rowSum_perm (List.perm_insertionSort _ _)]
  rw [computeAccountBalance_eq _ positive] at computed
  split_ifs at computed with fit
  cases computed
  refine ⟨?_, ?_, ?_⟩
  · intro status kind live
    rw [← sums]
    exact fit_iff.mp fit status kind live
  · have posted := (subtractGross_of_fit accountType.normalBalance positive fit .posted (by simp)).2
    rw [sums, sums] at posted
    exact expectedBalance_of_ok type posted
  · have pending := (subtractGross_of_fit accountType.normalBalance positive fit .pending
      (by simp)).2
    rw [sums, sums] at pending
    exact expectedBalance_of_ok type pending

/-- A group of the query whose sums fit. -/
private theorem reconciliationRow_eq (constrained : Constrained t) {a : AccountRow}
    (fit : SumsFit t a) :
    reconciliationRow (groupColumns a, paired a (t.entries.filter fun e =>
      both (equals (some e.accountId) a.id) (differs (some e.status) 3) = some true)) =
      .ok (reconciled t a) := by
  have sums : ∀ status kind, status ≠ .voided →
      sumOf (entryStatusToI16 status) (entryTypeToI16 kind) (paired a (t.entries.filter fun e =>
        both (equals (some e.accountId) a.id) (differs (some e.status) 3) = some true)) =
        .ok (rowSum (entryStatusToI16 status) (entryTypeToI16 kind)
          (t.entries.filter fun e => e.accountId = a.id)) := by
    intro status kind live
    have code : entryStatusToI16 status ≠ 3 := fun same => live (entryStatusToI16_inj.mp same)
    have positive : ∀ e ∈ t.entries.filter (fun e => e.accountId = a.id), 0 < e.amount :=
      fun e member => constrained.positive (List.mem_of_mem_filter member)
    rw [sumOf_paired code, toBigint_of_nonneg (rowSum_nonneg positive _ _),
      if_pos (fit status kind live)]
  have postedDebits := sums .posted .debit (by simp)
  have postedCredits := sums .posted .credit (by simp)
  have pendingDebits := sums .pending .debit (by simp)
  have pendingCredits := sums .pending .credit (by simp)
  simp only [entryStatusToI16, entryTypeToI16] at postedDebits postedCredits pendingDebits
  simp only [entryStatusToI16, entryTypeToI16] at pendingCredits
  simp only [reconciliationRow, postedDebits, postedCredits, pendingDebits, pendingCredits, bind,
    Except.bind]
  rfl

/-- The query, where the sums of all accounts fit. -/
theorem accountBalances_eq (constrained : Constrained t)
    (fit : ∀ a ∈ t.accounts, SumsFit t a) :
    accountBalances t = .ok (t.accounts.map (reconciled t)) := by
  have keys : (t.accounts.map groupColumns).Nodup := by
    apply List.Nodup.of_map Prod.fst
    rw [List.map_map]
    exact constrained.accounts
  rw [accountBalances, accountEntries, groupBy_leftJoin _ _ keys, List.mapM_map]
  apply mapM_of_ok
  intro a member
  exact reconciliationRow_eq constrained (fit a member)

theorem countMismatches_eq {balances : AccountRow → AccountBalance}
    {accounts : List AccountRow}
    (expected : ∀ a ∈ accounts,
      expectedBalance (isDebitNormal a.accountType) (reconciled t a).postedDebits
        (reconciled t a).postedCredits = some (balances a).posted ∧
      expectedBalance (isDebitNormal a.accountType) (reconciled t a).pendingDebits
        (reconciled t a).pendingCredits = some (balances a).pending) (mismatches : Nat) :
    countMismatches (accounts.map (reconciled t)) mismatches =
      some (mismatches + accounts.countP fun a =>
        (a.postedBalance, a.pendingBalance) ≠ ((balances a).posted, (balances a).pending)) := by
  induction accounts generalizing mismatches with
  | nil => rfl
  | cons a accounts ih =>
    obtain ⟨posted, pending⟩ := expected a List.mem_cons_self
    have rest := ih fun a member => expected a (List.mem_cons_of_mem _ member)
    have differs : ((reconciled t a).matPosted ≠ (balances a).posted ∨
        (reconciled t a).matPending ≠ (balances a).pending) ↔
        (a.postedBalance, a.pendingBalance) ≠ ((balances a).posted, (balances a).pending) := by
      rw [Ne, Ne, Ne, Prod.mk.injEq, not_and_or]
      rfl
    have type : (reconciled t a).accountType = a.accountType := rfl
    simp only [List.map_cons, countMismatches, type, posted, pending, Option.bind_eq_bind,
      Option.bind_some, rest]
    by_cases off : (a.postedBalance, a.pendingBalance) ≠ ((balances a).posted, (balances a).pending)
    · rw [if_pos (differs.mpr off), List.countP_cons, if_pos (decide_eq_true off), Nat.add_assoc,
        Nat.add_comm 1]
    · rw [if_neg (differs.not.mpr off), List.countP_cons, if_neg (by simpa using off), Nat.add_zero]

end Reconciliation

/-- On tables that the schema allows, with balances that the domain can compute, the
    reconciliation completes without overflow and counts the accounts whose balance
    columns differ from the computed ones. -/
theorem reconciliation_agrees {t : Tables} (constrained : Constrained t)
    {balances : AccountRow → AccountBalance}
    (computed : ∀ row ∈ t.accounts, Computes t row (balances row)) (gauges : Gauges) :
    (∃ rows, accountBalances t = .ok rows ∧
      countMismatches rows 0 = some (t.accounts.countP fun row =>
        (row.postedBalance, row.pendingBalance) ≠
          ((balances row).posted, (balances row).pending))) ∧
    checkAccountBalances t gauges = some { gauges with
      accountMismatches := some (t.accounts.countP fun row =>
        (row.postedBalance, row.pendingBalance) ≠
          ((balances row).posted, (balances row).pending)) } := by
  have each := fun row member => expected_of_computes constrained (computed row member)
  have query := accountBalances_eq constrained fun row member => (each row member).1
  have counted := countMismatches_eq (fun row member => (each row member).2) 0
  rw [Nat.zero_add] at counted
  refine ⟨⟨_, query, counted⟩, ?_⟩
  rw [checkAccountBalances, query]
  simp only [counted, Option.bind_eq_bind, Option.bind_some, Option.pure_def]

/-- A deposit of 100 into an asset account, and an account without entries whose columns
    say 7. -/
private def drifted : Tables where
  accounts := [⟨1, 1, "USD", 2, 1, 100, 0, 1⟩, ⟨2, 2, "USD", 2, 1, 7, 0, 1⟩]
  transactions := [⟨1, "deposit", 2, ⟨"\x7b\x7d"⟩, 1, some 1⟩]
  entries := [⟨1, 1, 1, 1, 100, 2, 1⟩, ⟨2, 1, 1, 2, 40, 3, 1⟩]

private theorem drifted_constrained : Constrained drifted where
  accounts := by decide
  entries := by decide
  accountRows := by decide
  entryRows := by decide
  references := by decide

theorem reconciliation_agrees_drifted :
    checkAccountBalances drifted ⟨none, none⟩ = some ⟨none, some 1⟩ := by
  have computed : ∀ row ∈ drifted.accounts,
      Computes drifted row (if row.id = 1 then ⟨100, 0, 100⟩ else ⟨0, 0, 0⟩) := by
    intro row member
    simp only [drifted, List.mem_cons, List.not_mem_nil, or_false] at member
    rcases member with rfl | rfl
    · exact ⟨.asset, _, rfl, rfl, rfl⟩
    · exact ⟨.liability, _, rfl, rfl, rfl⟩
  exact (reconciliation_agrees drifted_constrained computed ⟨none, none⟩).2

end Fides.Ledger
