import Fides.Ledger.Book

/-! # Stored rows decode

The domain constructors demand more of a row than the constraints of the schema.
What they demand is part of what makes a row sound, so every row of a consistent
book can be decoded.
-/

namespace Fides.Storage

theorem transactionStatusToI16_inj {status other : Domain.TransactionStatus} :
    transactionStatusToI16 status = transactionStatusToI16 other ↔ status = other := by
  cases status <;> cases other <;> simp [transactionStatusToI16]

theorem entryStatusToI16_inj {status other : Domain.EntryStatus} :
    entryStatusToI16 status = entryStatusToI16 other ↔ status = other := by
  cases status <;> cases other <;> simp [entryStatusToI16]

theorem entryTypeToI16_inj {kind other : Domain.EntryType} :
    entryTypeToI16 kind = entryTypeToI16 other ↔ kind = other := by
  cases kind <;> cases other <;> simp [entryTypeToI16]

end Fides.Storage

namespace Fides.Ledger

open Domain Service Storage Relational

variable {t : Tables} {ids : Sequences}

theorem buildAccount_of_sound {row : AccountRow} (sound : row.Sound) :
    ∃ account, buildAccount row = .ok account := by
  obtain ⟨accountType, decoded⟩ :
      ∃ accountType, i16ToAccountType row.accountType = .ok accountType := by
    obtain ⟨low, high⟩ := sound.accountType
    generalize row.accountType = code at low high
    interval_cases code <;> exact ⟨_, rfl⟩
  have scale : (row.assetScale % 256).toNat ≤ 18 := by
    have := sound.assetScale
    omega
  obtain ⟨account, new⟩ := Account.new_ok ⟨row.id⟩ accountType sound.assetCode scale
    sound.version.1 sound.createdAt
  exact ⟨account, by simp only [buildAccount, decoded, new]⟩

theorem buildTransaction_of_sound {row : TransactionRow} (sound : row.Sound) :
    ∃ transaction, buildTransaction row = .ok transaction := by
  obtain ⟨status, decoded⟩ : ∃ status, i16ToTransactionStatus row.status = .ok status := by
    rcases sound.status with same | same | same <;> rw [same] <;> exact ⟨_, rfl⟩
  have code := i16ToTransactionStatus_ok decoded
  obtain ⟨transaction, new⟩ := Transaction.new_ok ⟨row.id⟩ row.metadata status
    (row.postedAt.getD 0) sound.idempotencyKey sound.createdAt
    (fun posted => by
      obtain ⟨p, same, positive⟩ := sound.posted (by rw [← code, posted]; rfl)
      rwa [same])
    (fun other => by
      rw [sound.unposted fun two => other (transactionStatusToI16_inj.mp (code.trans two))]
      rfl)
  exact ⟨transaction, by simp only [buildTransaction, decoded, new]⟩

theorem buildEntry_of_sound {row : EntryRow} (sound : row.Sound)
    (status : row.status = 1 ∨ row.status = 2 ∨ row.status = 3) :
    ∃ entry, buildEntry row = .ok entry := by
  obtain ⟨entryType, kind⟩ : ∃ entryType, i16ToEntryType row.entryType = .ok entryType := by
    rcases sound.entryType with same | same <;> rw [same] <;> exact ⟨_, rfl⟩
  obtain ⟨status, stands⟩ : ∃ status, i16ToEntryStatus row.status = .ok status := by
    rcases status with same | same | same <;> rw [same] <;> exact ⟨_, rfl⟩
  obtain ⟨entry, built⟩ := Entry.new_ok ⟨row.id⟩ ⟨row.transactionId⟩ ⟨row.accountId⟩ entryType status
    (show 0 < (⟨row.amount⟩ : Amount).value from sound.amount) sound.createdAt
  exact ⟨entry, by simp only [buildEntry, kind, stands, built]⟩

/-- An entry has the status of its transaction. -/
theorem buildEntry_of_book (book : Consistent t ids) {row : EntryRow} (member : row ∈ t.entries) :
    ∃ entry, buildEntry row = .ok entry := by
  obtain ⟨-, transaction, found, same⟩ := book.references row member
  have status := (book.transactionRows transaction (mem_of_find found)).1.status
  rw [← same] at status
  exact buildEntry_of_sound (book.entryRows row member).1 status

/-- The entries of the book can be decoded. -/
theorem buildEntries_of_book (book : Consistent t ids) {rows : List EntryRow}
    (inside : ∀ e ∈ rows, e ∈ t.entries) : ∃ entries, buildEntries rows = .ok entries := by
  induction rows with
  | nil => exact ⟨[], rfl⟩
  | cons row rows ih =>
      obtain ⟨entry, first⟩ := buildEntry_of_book book (inside row List.mem_cons_self)
      obtain ⟨entries, rest⟩ := ih fun row member => inside row (List.mem_cons_of_mem _ member)
      exact ⟨entry :: entries, by simp only [buildEntries, first, rest]⟩

theorem Consistent.decodes_entriesOf (book : Consistent t ids) (id : Int) :
    ∃ entries, buildEntries (t.entriesOf id) = .ok entries :=
  buildEntries_of_book book fun _ inside => ((Tables.mem_entriesOf _).mp inside).1

end Fides.Ledger
