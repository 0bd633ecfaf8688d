import Fides.Concurrency.Serial
import Fides.Ledger.Conservation
import Fides.Ledger.Integrity

/-! # When the integrity checker reaches a verdict

The queries of the checker cast exact sums to `BIGINT`.  A transaction keeps its own
totals within that range, but nothing bounds the totals of all entries, and a sum
that does not fit makes the query fail and leaves the gauge at its old value.
-/

namespace Fides.Ledger

open Domain Service Storage Observability FixedWidth Relational Bookkeeping Concurrency

variable {t : Tables} {ids : Sequences} {cfg : Config server} {trace : List (Transition server)}

theorem Consistent.constrained (book : Consistent t ids) : Constrained t where
  accounts := book.accounts
  entries := book.entries
  accountRows row member := by
    obtain ⟨sound, -⟩ := book.accountRows row member
    simp [AccountRow.check, sound.accountType, sound.assetScale, sound.createdAt, sound.version.1]
  entryRows e member := by
    obtain ⟨sound, -⟩ := book.entryRows e member
    obtain ⟨-, row, found, same⟩ := book.references e member
    have status := (book.transactionRows row (mem_of_find found)).1.status
    rw [← same] at status
    have type : 1 ≤ e.entryType ∧ e.entryType ≤ 2 := by
      have := sound.entryType
      omega
    have stands : 1 ≤ e.status ∧ e.status ≤ 3 := by omega
    simp [EntryRow.check, sound.amount, sound.createdAt, type, stands]
  references e member := by
    obtain ⟨⟨account, found⟩, transaction, there, -⟩ := book.references e member
    simp [found, there]

/-- The exact total of one side over the entries that are not voided. -/
def standingTotal (side : Side) (t : Tables) : Int := total side (t.standing.map EntryRow.line)

section Totals

variable (book : Consistent t ids)
include book

private theorem standing_amount {e : EntryRow} (member : e ∈ t.standing) : 0 < e.amount :=
  (book.entryRows e (List.mem_of_mem_filter member)).1.amount

theorem standingTotal_nonneg (side : Side) : 0 ≤ standingTotal side t := by
  apply total_nonneg
  intro line member
  obtain ⟨e, inside, rfl⟩ := List.mem_map.mp member
  exact (standing_amount book inside).le

omit book in
private theorem side_eq {e : EntryRow} (type : e.entryType = 1 ∨ e.entryType = 2)
    (kind : EntryType) : e.line.side = kind.side ↔ e.entryType = entryTypeToI16 kind := by
  rcases type with same | same <;> cases kind <;>
    simp [EntryRow.line, EntryType.side, entryTypeToI16, same]

/-- The query adds up what the exact total adds up. -/
private theorem totalOf_standing (kind : EntryType) :
    totalOf (entryTypeToI16 kind) t.standing = toBigint (standingTotal kind.side t) := by
  have value : ∀ e : EntryRow,
      caseWhen (equals (some e.entryType) (entryTypeToI16 kind)) (some e.amount) (some 0) =
        some (if e.entryType = entryTypeToI16 kind then e.amount else 0) := by
    intro e
    simp only [caseWhen, equals_eq_true, Option.some.injEq]
    split <;> rfl
  simp only [totalOf, value]
  rw [coalesce_sum, standingTotal, total, List.map_map]
  refine congrArg (fun values => toBigint (List.sum values)) (List.map_congr_left fun e member => ?_)
  have type := (book.entryRows e (List.mem_of_mem_filter member)).1.entryType
  simp only [Function.comp, side_eq type]
  rfl

theorem globalTotals_eq : globalTotals t =
    if standingTotal .debit t ≤ hi 64 ∧ standingTotal .credit t ≤ hi 64 then
      .ok (standingTotal .debit t, standingTotal .credit t)
    else .error (.outOfRange "bigint") := by
  have live : (t.entries.filter fun e => differs (some e.status) 3 = some true) = t.standing := by
    simp only [differs_some]
    rfl
  have debits : totalOf 1 t.standing = _ := totalOf_standing book .debit
  have credits : totalOf 2 t.standing = _ := totalOf_standing book .credit
  rw [toBigint_of_nonneg (standingTotal_nonneg book _)] at debits credits
  rw [globalTotals, live, debits, credits]
  simp only [EntryType.side]
  by_cases low : standingTotal .debit t ≤ hi 64 <;>
    by_cases high : standingTotal .credit t ≤ hi 64 <;>
    simp [low, high, bind, Except.bind, pure, Except.pure]

/-- The sums of an account are part of the totals. -/
private theorem rowSum_le_standing {status : EntryStatus} (live : status ≠ .voided)
    (kind : EntryType) (a : Int) :
    rowSum (entryStatusToI16 status) (entryTypeToI16 kind)
      (t.entries.filter fun e => e.accountId = a) ≤ standingTotal kind.side t := by
  rw [rowSum, sum_filter, standingTotal, total, List.map_map, Tables.standing, sum_filter]
  apply List.sum_le_sum
  intro e member
  obtain ⟨sound, -⟩ := book.entryRows e member
  have nonneg := sound.amount.le
  have side := side_eq sound.entryType kind
  have code : entryStatusToI16 status ≠ 3 := fun same => live (entryStatusToI16_inj.mp same)
  have amount : e.line.amount = e.amount := rfl
  simp only [Function.comp, side, amount, decide_eq_true_eq]
  split_ifs <;> omega

theorem sumsFit_of_totals (debits : standingTotal .debit t ≤ hi 64)
    (credits : standingTotal .credit t ≤ hi 64) (a : AccountRow) : SumsFit t a := by
  intro status kind live
  refine (rowSum_le_standing book live kind a.id).trans ?_
  cases kind with
  | debit => exact debits
  | credit => exact credits

end Totals

/-- In every run: the queries of the checker succeed just when the exact totals of the
    entries that are not voided are within a `BIGINT`.  Then the gauge says whether the
    totals are equal, and otherwise it keeps the value it had. -/
theorem verdict_reached (run : Steps initial trace cfg) :
    (((∃ totals, globalTotals cfg.shared.tables = .ok totals) ∧
        ∃ rows, accountBalances cfg.shared.tables = .ok rows) ↔
      standingTotal .debit cfg.shared.tables ≤ hi 64 ∧
        standingTotal .credit cfg.shared.tables ≤ hi 64) ∧
    ∀ gauges, checkGlobalBalance cfg.shared.tables gauges =
      if standingTotal .debit cfg.shared.tables ≤ hi 64 ∧
          standingTotal .credit cfg.shared.tables ≤ hi 64 then
        some { gauges with globalBalanced := some (if standingTotal .debit cfg.shared.tables =
          standingTotal .credit cfg.shared.tables then 1 else 0) }
      else some gauges := by
  have book := (safe run).inv
  have totals := globalTotals_eq book
  refine ⟨⟨?_, ?_⟩, fun gauges => ?_⟩
  · rintro ⟨⟨_, global⟩, -⟩
    by_contra large
    rw [totals, if_neg large] at global
    cases global
  · rintro ⟨debits, credits⟩
    exact ⟨⟨_, totals.trans (if_pos ⟨debits, credits⟩)⟩, _,
      accountBalances_eq book.constrained fun a _ => sumsFit_of_totals book debits credits a⟩
  · have balanced : standingTotal .debit cfg.shared.tables =
        standingTotal .credit cfg.shared.tables := by
      have all := standing_balanced book (fun _ => true) fun row member => by
        simpa using (book.lines row member).balanced
      rwa [List.filter_true] at all
    rw [checkGlobalBalance, totals]
    split_ifs with fit
    · simp only [if_pos balanced]
    · rfl

theorem verdict_reached_deposit : ∃ trace cfg, Steps initial trace cfg ∧
    standingTotal .debit cfg.shared.tables = 100 ∧
    checkGlobalBalance cfg.shared.tables ⟨none, none⟩ = some ⟨some 1, none⟩ := by
  obtain ⟨trace, cfg, run, -, same⟩ := reached serial (deposit ("USD", "USD"))
    (fun cfg => (standingTotal .debit cfg.shared.tables, standingTotal .credit cfg.shared.tables))
    (a := (100, 100)) (by decide +kernel)
  obtain ⟨debits, credits⟩ := Prod.mk.inj same
  have verdict := (verdict_reached run).2 ⟨none, none⟩
  rw [debits, credits] at verdict
  exact ⟨trace, cfg, run, debits, verdict⟩

/-- Two deposits of the largest amount, the first one captured before the second is
    authorized. -/
def largeDeposits : List (Event server) :=
  .request (.createAccount ⟨1, "USD", 2⟩ 1) :: turns 0 4 ++
    .request (.createAccount ⟨2, "USD", 2⟩ 1) :: turns 1 4 ++
    .request (.authorize ⟨"first", [⟨1, 1, 9223372036854775807⟩, ⟨2, 2, 9223372036854775807⟩],
      ⟨"", .error ""⟩⟩ 2) :: turns 2 12 ++
    .request (.capture 1 3) :: turns 3 12 ++
    .request (.authorize ⟨"second", [⟨1, 1, 9223372036854775807⟩, ⟨2, 2, 9223372036854775807⟩],
      ⟨"", .error ""⟩⟩ 4) :: turns 4 12

/-- After them the totals are equal, but the query fails and the gauge keeps its value. -/
theorem verdict_missing : ∃ trace cfg, Steps initial trace cfg ∧
    (∀ moved ∈ trace, serial moved = true) ∧
    standingTotal .debit cfg.shared.tables = 18446744073709551614 ∧
    standingTotal .credit cfg.shared.tables = 18446744073709551614 ∧
    globalTotals cfg.shared.tables = .error (.outOfRange "bigint") ∧
    checkGlobalBalance cfg.shared.tables ⟨some 0, none⟩ = some ⟨some 0, none⟩ := by
  obtain ⟨trace, cfg, run, all, same⟩ := reached serial largeDeposits
    (fun cfg => (standingTotal .debit cfg.shared.tables, standingTotal .credit cfg.shared.tables))
    (a := (18446744073709551614, 18446744073709551614)) (by decide +kernel)
  obtain ⟨debits, credits⟩ := Prod.mk.inj same
  have failed := globalTotals_eq (safe run).inv
  rw [debits, credits, if_neg (by decide)] at failed
  refine ⟨trace, cfg, run, all, debits, credits, failed, ?_⟩
  rw [checkGlobalBalance, failed]

end Fides.Ledger
