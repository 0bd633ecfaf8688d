import Fides.Ledger.Book

/-! # The row versions of a handler, merged

At commit a handler's row versions are merged into the tables.  For the three
sets of versions that handlers build this is a move of the book.
-/

namespace Fides.Storage

open Domain Service Relational Ledger

/-- The versions of the account rows that the updates leave. -/
def Tables.bumped (t : Tables) (updates : List BalanceUpdate) : List AccountRow :=
  updates.filterMap fun update => (t.account? update.accountId.value).map (·.bump update)

theorem Tables.bumped_append (t : Tables) (updates more : List BalanceUpdate) :
    t.bumped (updates ++ more) = t.bumped updates ++ t.bumped more :=
  List.filterMap_append ..

theorem Tables.bumped_congr {t t' : Tables} {updates : List BalanceUpdate}
    (same : ∀ update ∈ updates, t'.account? update.accountId.value =
      t.account? update.accountId.value) : t'.bumped updates = t.bumped updates := by
  apply List.filterMap_congr
  intro update member
  rw [same update member]

end Fides.Storage

namespace Fides.Ledger

open Domain Service Storage Relational

variable {t : Tables} {ids : Sequences} {updates : List BalanceUpdate}

private theorem bumped_cons {update : BalanceUpdate} {row : AccountRow}
    (found : t.account? update.accountId.value = some row) :
    t.bumped (update :: updates) = row.bump update :: t.bumped updates := by
  simp [Tables.bumped, found]

theorem bumped_keys (applicable : Applicable t updates) :
    (t.bumped updates).map key = updates.map key := by
  induction updates with
  | nil => rfl
  | cons update updates ih =>
      obtain ⟨row, found, -⟩ := applicable update List.mem_cons_self
      have same : row.id = update.accountId.value := key_of_find found
      rw [bumped_cons found, List.map_cons, List.map_cons,
        ih fun other member => applicable other (List.mem_cons_of_mem _ member)]
      exact congrArg (· :: _) same

theorem find_bumped (applicable : Applicable t updates) (a : Int) :
    find (t.bumped updates) a =
      (find updates a).bind fun update => (t.account? a).map (·.bump update) := by
  induction updates with
  | nil => rfl
  | cons update updates ih =>
      obtain ⟨row, found, -⟩ := applicable update List.mem_cons_self
      have same : row.id = update.accountId.value := key_of_find found
      have keys : key (row.bump update) = key update := same
      rw [bumped_cons found, find_cons, find_cons, keys,
        ih fun other member => applicable other (List.mem_cons_of_mem _ member)]
      split
      · rename_i here
        have there : t.account? (key update) = some row := found
        rw [Option.bind_some, ← here, there]
        rfl
      · rfl

theorem merge_bumped (book : Consistent t ids) (distinct : Distinct updates)
    (applicable : Applicable t updates) :
    merge t.accounts (t.bumped updates) = t.accounts.map (AccountRow.updated updates) := by
  rw [merge_existing book.accounts]
  · apply List.map_congr_left
    intro row member
    have here : t.account? (key row) = some row := book.account?_of_mem member
    rw [find_bumped applicable, here, AccountRow.updated]
    have same : key row = row.id := rfl
    rw [same]
    cases find updates row.id <;> rfl
  · rw [Distinct, bumped_keys applicable]
    exact distinct
  · intro version member
    obtain ⟨update, inside, made⟩ := List.mem_filterMap.mp member
    obtain ⟨row, found, rfl⟩ := Option.map_eq_some_iff.mp made
    exact ⟨row, (key_of_find found).symm ▸ found⟩

theorem merge_enroll {row : AccountRow} (new : Enrolls t ids row) :
    t.merge ⟨[row], [], []⟩ = t.enroll row := by
  have accounts : merge t.accounts [row] = t.accounts ++ [row] :=
    merge_fresh (by simp [Distinct]) fun v member => by
      rw [List.mem_singleton.mp member]
      exact new.fresh
  simp only [Tables.merge, Tables.enroll, accounts]
  rfl

theorem merge_hold {row : TransactionRow} {rows : List EntryRow} (book : Consistent t ids)
    (new : Holds t ids row rows updates) :
    t.merge ⟨t.bumped updates, [row], rows⟩ = t.hold row rows updates := by
  have transactions : merge t.transactions [row] = t.transactions ++ [row] :=
    merge_fresh (by simp [Distinct]) fun v member => by
      rw [List.mem_singleton.mp member]
      exact new.fresh
  have entries : merge t.entries rows = t.entries ++ rows :=
    merge_fresh (List.pairwise_map.mpr (new.sorted.imp fun less => ne_of_lt less))
      fun e member => (new.entries e member).2.2
  simp only [Tables.merge, Tables.hold, transactions, entries,
    merge_bumped book new.nets.distinct new.applicable]

private theorem merge_settled_transaction (book : Consistent t ids) {id status : Int}
    {postedAt : Option Int} {row : TransactionRow} (found : t.transaction? id = some row) :
    merge t.transactions [{ row with status := status, postedAt := postedAt }] =
      t.transactions.map (TransactionRow.settled id status postedAt) := by
  have same : row.id = id := key_of_find found
  rw [merge_existing book.transactions (by simp [Distinct])]
  · apply List.map_congr_left
    intro other member
    simp only [find_cons, find_nil, TransactionRow.settled]
    by_cases here : other.id = id
    · have equal : other = row := by
        have there := book.transaction?_of_mem member
        rw [here, found] at there
        exact (Option.some.inj there).symm
      rw [if_pos here, equal]
      exact congrArg (Option.getD · row) (if_pos rfl)
    · have apart : ¬ row.id = other.id := fun equal => here (equal.symm.trans same)
      rw [if_neg here]
      exact congrArg (Option.getD · other) (if_neg apart)
  · intro v member
    rw [List.mem_singleton.mp member]
    exact ⟨row, same.symm ▸ found⟩

private theorem find_entriesOf (book : Consistent t ids) {id : Int} {e : EntryRow}
    (member : e ∈ t.entries) :
    find (t.entriesOf id) e.id = if e.transactionId = id then some e else none := by
  by_cases here : e.transactionId = id
  · rw [if_pos here]
    have distinct : Distinct (t.entriesOf id) :=
      List.Nodup.sublist (List.Sublist.map _ List.filter_sublist) book.entries
    exact find_of_mem distinct ((t.mem_entriesOf).mpr ⟨member, here⟩)
  · rw [if_neg here, find_eq_none]
    intro other inside same
    obtain ⟨old, belongs⟩ := (t.mem_entriesOf).mp inside
    have equal : other = e := List.inj_on_of_nodup_map book.entries old member same
    exact here (equal ▸ belongs)

private theorem merge_settled_entries (book : Consistent t ids) (id status : Int) :
    merge t.entries ((t.entriesOf id).map fun e => { e with status := status }) =
      t.entries.map (EntryRow.settled id status) := by
  have keyed : ∀ e : EntryRow, key { e with status := status } = key e := fun _ => rfl
  have distinct : Distinct (t.entriesOf id) :=
    List.Nodup.sublist (List.Sublist.map _ List.filter_sublist) book.entries
  rw [merge_existing book.entries (distinct.map keyed)]
  · apply List.map_congr_left
    intro e member
    rw [find_map keyed]
    change ((find (t.entriesOf id) e.id).map _).getD e = _
    rw [find_entriesOf book member, EntryRow.settled]
    split <;> rfl
  · intro v member
    obtain ⟨e, inside, rfl⟩ := List.mem_map.mp member
    exact ⟨e, find_of_mem book.entries ((t.mem_entriesOf).mp inside).1⟩

theorem merge_settle {id status : Int} {postedAt : Option Int} {row : TransactionRow}
    (book : Consistent t ids) (settles : Settles t id status postedAt updates)
    (found : t.transaction? id = some row) :
    t.merge ⟨t.bumped updates, [{ row with status := status, postedAt := postedAt }],
      (t.entriesOf id).map fun e => { e with status := status }⟩ =
      t.settle id status postedAt updates := by
  simp only [Tables.merge, Tables.settle, merge_settled_transaction book found,
    merge_settled_entries book, merge_bumped book settles.nets.distinct settles.applicable]

end Fides.Ledger
