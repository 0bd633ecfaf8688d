import Fides.Ledger.Runs
import Fides.Relational.Growth

/-! # What is entered stays

The tables are logs: no row is ever removed, and of a row that is there only the
status, the time of posting, the balances and the version can change.  A change of
the balances shows in the version.
-/

namespace Fides.Storage

open Relational Service

def AccountRow.fixed (row : AccountRow) : AccountRow :=
  { row with version := 0, postedBalance := 0, pendingBalance := 0 }

/-- A later version of an account: as long as the version number is the same, so is the row. -/
structure AccountRow.Continues (row row' : AccountRow) : Prop where
  fixed : row'.fixed = row.fixed
  version : row.version ≤ row'.version
  unchanged : row'.version = row.version → row' = row

/-- A later version of a transaction: as long as it is pending, nothing has changed. -/
structure TransactionRow.Continues (row row' : TransactionRow) : Prop where
  fixed : row'.fixed = row.fixed
  unchanged : row'.status = 1 → row' = row

structure EntryRow.Continues (row row' : EntryRow) : Prop where
  fixed : row'.fixed = row.fixed
  unchanged : row'.status = 1 → row' = row

structure Tables.Continues (t t' : Tables) : Prop where
  accounts : Grows AccountRow.Continues t.accounts t'.accounts
  transactions : Grows TransactionRow.Continues t.transactions t'.transactions
  entries : Grows EntryRow.Continues t.entries t'.entries

theorem AccountRow.id_of_fixed {row row' : AccountRow} (same : row'.fixed = row.fixed) :
    row'.id = row.id := by
  change row'.fixed.id = row.fixed.id
  rw [same]

namespace AccountRow.Continues

variable {a b c : AccountRow}

protected theorem refl (a : AccountRow) : a.Continues a := ⟨rfl, le_refl _, fun _ => rfl⟩

protected theorem trans (first : a.Continues b) (second : b.Continues c) : a.Continues c where
  fixed := second.fixed.trans first.fixed
  version := first.version.trans second.version
  unchanged same := by
    have between : b.version = a.version := le_antisymm (same ▸ second.version) first.version
    rw [second.unchanged (same.trans between.symm), first.unchanged between]

theorem updated (updates : List BalanceUpdate) (a : AccountRow) :
    a.Continues (a.updated updates) := by
  unfold AccountRow.updated
  split
  · refine ⟨rfl, ?_, fun same => ?_⟩ <;> simp only [bump] at * <;> omega
  · exact .refl a

end AccountRow.Continues

namespace TransactionRow.Continues

variable {a b c : TransactionRow}

protected theorem refl (a : TransactionRow) : a.Continues a := ⟨rfl, fun _ => rfl⟩

protected theorem trans (first : a.Continues b) (second : b.Continues c) : a.Continues c where
  fixed := second.fixed.trans first.fixed
  unchanged pending := by
    have between := second.unchanged pending
    rw [between, first.unchanged (between ▸ pending)]

theorem not_pending (continues : a.Continues b) (ended : a.status ≠ 1) : b.status ≠ 1 := by
  intro pending
  rw [continues.unchanged pending] at pending
  exact ended pending

theorem settled {id status : Int} {postedAt : Option Int} (terminal : status ≠ 1)
    (a : TransactionRow) : a.Continues (a.settled id status postedAt) := by
  refine ⟨a.settled_fixed id status postedAt, ?_⟩
  unfold TransactionRow.settled
  split
  · exact fun pending => absurd pending terminal
  · exact fun _ => rfl

end TransactionRow.Continues

namespace EntryRow.Continues

variable {a b c : EntryRow}

protected theorem refl (a : EntryRow) : a.Continues a := ⟨rfl, fun _ => rfl⟩

protected theorem trans (first : a.Continues b) (second : b.Continues c) : a.Continues c where
  fixed := second.fixed.trans first.fixed
  unchanged pending := by
    have between := second.unchanged pending
    rw [between, first.unchanged (between ▸ pending)]

theorem settled {id status : Int} (terminal : status ≠ 1) (a : EntryRow) :
    a.Continues (a.settled id status) := by
  refine ⟨a.settled_fixed id status, ?_⟩
  unfold EntryRow.settled
  split
  · exact fun pending => absurd pending terminal
  · exact fun _ => rfl

end EntryRow.Continues

namespace Tables.Continues

variable {t t' t'' : Tables}

protected theorem refl (t : Tables) : t.Continues t where
  accounts := .refl .refl _
  transactions := .refl .refl _
  entries := .refl .refl _

protected theorem trans (first : t.Continues t') (second : t'.Continues t'') : t.Continues t'' where
  accounts := first.accounts.trans .trans second.accounts
  transactions := first.transactions.trans .trans second.transactions
  entries := first.entries.trans .trans second.entries

theorem account? (continues : t.Continues t') {a : Int} {row : AccountRow}
    (found : t.account? a = some row) : ∃ row', t'.account? a = some row' ∧ row.Continues row' :=
  continues.accounts.find (fun later => AccountRow.id_of_fixed later.fixed) found

theorem transaction? (continues : t.Continues t') {id : Int} {row : TransactionRow}
    (found : t.transaction? id = some row) :
    ∃ row', t'.transaction? id = some row' ∧ row.Continues row' :=
  continues.transactions.find (fun later => congrArg TransactionRow.id later.fixed) found

/-- An account stays on the side it is on. -/
theorem normal (continues : t.Continues t') {a : Int} (present : (t.account? a).isSome) :
    t'.normal a = t.normal a := by
  obtain ⟨row, found⟩ := Option.isSome_iff_exists.mp present
  obtain ⟨row', there, later⟩ := continues.account? found
  simp only [Tables.normal, found, there]
  change row'.fixed.side = row.fixed.side
  rw [later.fixed]

end Tables.Continues
end Fides.Storage

namespace Fides.Ledger

open Service Storage Concurrency

variable {cfg cfg' : Config server} {trace more : List (Transition server)}

/-- No move of the book takes anything back. -/
theorem Entered.continues {t t' : Tables} {ids : Sequences} (entered : Entered t ids t') :
    t.Continues t' := by
  cases entered with
  | enroll _ => exact ⟨.append .refl _ _, .refl .refl _, .refl .refl _⟩
  | hold _ => exact ⟨.map (.updated _) _, .append .refl _ _, .append .refl _ _⟩
  | @settle _ status _ _ settles =>
    have terminal : status ≠ 1 := by
      rcases settles.terminal with rfl | rfl <;> decide
    exact ⟨.map (.updated _) _, .map (.settled terminal) _, .map (.settled terminal) _⟩

theorem continues_steps (safe : protocol.Safe cfg) (later : Steps cfg more cfg') :
    cfg.shared.tables.Continues cfg'.shared.tables := by
  refine later_invariant (fun _ => True)
    (P := fun now => cfg.shared.tables.Continues now.shared.tables) safe (.refl _) ?_ later
    fun _ _ => trivial
  intro before event after safe so_far stepped _
  rcases step_entered safe stepped with same | entered
  · rw [same]
    exact so_far
  · exact so_far.trans entered.continues

/-- Whatever is committed at some point of a run is there at every later point: accounts with what
    they were opened with, a version that has not gone back and the same balances if the version is
    the same; transactions with everything but their status and time of posting, entries with
    everything but their status, and both quite unchanged as long as they are pending. -/
theorem rows_permanent (run : Steps initial trace cfg) (later : Steps cfg more cfg') :
    cfg.shared.tables.Continues cfg'.shared.tables :=
  continues_steps (safe run) later

/-- From an authorized deposit to its capture. -/
theorem rows_permanent_capture : ∃ trace cfg more cfg', Steps initial trace cfg ∧
    Steps cfg more cfg' ∧ cfg.shared.tables.transactions.map TransactionRow.status = [1] ∧
    cfg'.shared.tables.transactions.map TransactionRow.status = [2] ∧
    cfg.shared.tables.Continues cfg'.shared.tables := by
  obtain ⟨trace, cfg, more, cfg', run, later, -, pending, posted⟩ := reached_twice (fun _ => true)
    (deposit ("USD", "USD")) (.request (.capture 1 5) :: turns 3 12)
    (fun cfg => cfg.shared.tables.transactions.map TransactionRow.status)
    (fun cfg => cfg.shared.tables.transactions.map TransactionRow.status)
    (a := [1]) (b := [2]) (by decide +kernel)
  exact ⟨trace, cfg, more, cfg', run, later, pending, posted, rows_permanent run later⟩

end Fides.Ledger
