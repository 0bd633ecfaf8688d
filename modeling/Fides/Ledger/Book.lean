import Fides.Ledger.Lines

/-! # The book

The committed tables change in three ways: an account is enrolled, a new
transaction is held, a held transaction is settled.  `Entered` is this machine;
`Consistent` is what it keeps, whatever the order of its moves: ids and keys are
unique, every row is sound, and every transaction has well-formed lines whose
status is the status of the transaction.
-/

namespace Fides.Service

open Relational

instance : Keyed BalanceUpdate := ⟨fun update => update.accountId.value⟩

end Fides.Service

namespace Fides.Storage

open Domain Service FixedWidth Relational Bookkeeping

def AccountRow.bump (row : AccountRow) (update : BalanceUpdate) : AccountRow :=
  { row with postedBalance := row.postedBalance + update.postedDelta
             pendingBalance := row.pendingBalance + update.pendingDelta
             version := row.version + 1 }

def AccountRow.updated (updates : List BalanceUpdate) (row : AccountRow) : AccountRow :=
  match find updates row.id with
  | some update => row.bump update
  | none => row

def TransactionRow.settled (id status : Int) (postedAt : Option Int) (row : TransactionRow) :
    TransactionRow :=
  if row.id = id then { row with status := status, postedAt := postedAt } else row

def EntryRow.settled (id status : Int) (row : EntryRow) : EntryRow :=
  if row.transactionId = id then { row with status := status } else row

/-- The columns of a transaction row and of an entry row that never change. -/
def TransactionRow.fixed (row : TransactionRow) : TransactionRow :=
  { row with status := 0, postedAt := none }

def EntryRow.fixed (row : EntryRow) : EntryRow := { row with status := 0 }

/-- The side on which an account of the book normally stands. -/
def Tables.normal (t : Tables) (a : Int) : Side :=
  match t.account? a with
  | some row => row.side
  | none => .debit

def Tables.lines (t : Tables) (id : Int) : List (Line Int) := (t.entriesOf id).map EntryRow.line

/-- The entries of an account, in table order and without their statuses. -/
def Tables.stream (t : Tables) (a : Int) : List EntryRow :=
  (t.entries.filter fun e => e.accountId = a).map EntryRow.fixed

def Tables.enroll (t : Tables) (row : AccountRow) : Tables :=
  { t with accounts := t.accounts ++ [row] }

def Tables.hold (t : Tables) (row : TransactionRow) (rows : List EntryRow)
    (updates : List BalanceUpdate) : Tables where
  accounts := t.accounts.map (AccountRow.updated updates)
  transactions := t.transactions ++ [row]
  entries := t.entries ++ rows

def Tables.settle (t : Tables) (id status : Int) (postedAt : Option Int)
    (updates : List BalanceUpdate) : Tables where
  accounts := t.accounts.map (AccountRow.updated updates)
  transactions := t.transactions.map (TransactionRow.settled id status postedAt)
  entries := t.entries.map (EntryRow.settled id status)

section Lookup

variable (t : Tables) (updates : List BalanceUpdate)

@[simp] theorem AccountRow.updated_id (row : AccountRow) : (row.updated updates).id = row.id := by
  unfold AccountRow.updated
  split <;> rfl

@[simp] theorem AccountRow.updated_side (row : AccountRow) :
    (row.updated updates).side = row.side := by
  unfold AccountRow.updated
  split <;> rfl

@[simp] theorem TransactionRow.settled_id (id status postedAt) (row : TransactionRow) :
    (row.settled id status postedAt).id = row.id := by
  unfold TransactionRow.settled
  split <;> rfl

@[simp] theorem TransactionRow.settled_key (id status postedAt) (row : TransactionRow) :
    (row.settled id status postedAt).idempotencyKey = row.idempotencyKey := by
  unfold TransactionRow.settled
  split <;> rfl

@[simp] theorem TransactionRow.settled_fixed (id status postedAt) (row : TransactionRow) :
    (row.settled id status postedAt).fixed = row.fixed := by
  unfold TransactionRow.settled
  split <;> rfl

@[simp] theorem EntryRow.settled_id (id status) (row : EntryRow) :
    (row.settled id status).id = row.id := by
  unfold EntryRow.settled
  split <;> rfl

@[simp] theorem EntryRow.settled_transactionId (id status) (row : EntryRow) :
    (row.settled id status).transactionId = row.transactionId := by
  unfold EntryRow.settled
  split <;> rfl

@[simp] theorem EntryRow.settled_accountId (id status) (row : EntryRow) :
    (row.settled id status).accountId = row.accountId := by
  unfold EntryRow.settled
  split <;> rfl

@[simp] theorem EntryRow.settled_line (id status) (row : EntryRow) :
    (row.settled id status).line = row.line := by
  unfold EntryRow.settled
  split <;> rfl

@[simp] theorem EntryRow.settled_fixed (id status) (row : EntryRow) :
    (row.settled id status).fixed = row.fixed := by
  unfold EntryRow.settled
  split <;> rfl

namespace Tables

theorem account?_enroll (row : AccountRow) (a : Int) :
    (t.enroll row).account? a = (t.account? a).or (if row.id = a then some row else none) := by
  simp only [account?, enroll, find_append, find_cons, find_nil]
  rfl

@[simp] theorem account?_hold (row rows) (a : Int) :
    (t.hold row rows updates).account? a = (t.account? a).map (AccountRow.updated updates) :=
  find_map (AccountRow.updated_id updates) _ _

@[simp] theorem account?_settle (id status postedAt) (a : Int) :
    (t.settle id status postedAt updates).account? a =
      (t.account? a).map (AccountRow.updated updates) :=
  find_map (AccountRow.updated_id updates) _ _

theorem transaction?_hold (row : TransactionRow) (rows) (id : Int) :
    (t.hold row rows updates).transaction? id =
      (t.transaction? id).or (if row.id = id then some row else none) := by
  simp only [transaction?, hold, find_append, find_cons, find_nil]
  rfl

@[simp] theorem transaction?_settle (id status postedAt) (other : Int) :
    (t.settle id status postedAt updates).transaction? other =
      (t.transaction? other).map (TransactionRow.settled id status postedAt) :=
  find_map (TransactionRow.settled_id id status postedAt) _ _

theorem entriesOf_hold (row : TransactionRow) (rows : List EntryRow) (id : Int) :
    (t.hold row rows updates).entriesOf id =
      t.entriesOf id ++ rows.filter fun e => e.transactionId = id :=
  List.filter_append ..

@[simp] theorem entriesOf_settle (id status postedAt) (other : Int) :
    (t.settle id status postedAt updates).entriesOf other =
      (t.entriesOf other).map (EntryRow.settled id status) := by
  simp only [entriesOf, settle, List.filter_map, Function.comp_def, EntryRow.settled_transactionId]

theorem transaction?_settle_other (status postedAt) {id other : Int} (different : other ≠ id) :
    (t.settle id status postedAt updates).transaction? other = t.transaction? other := by
  rw [transaction?_settle]
  cases there : t.transaction? other with
  | none => rfl
  | some row =>
      have same : row.id = other := key_of_find there
      rw [Option.map_some, TransactionRow.settled, if_neg (same ▸ different)]

theorem entriesOf_settle_other (status postedAt) {id other : Int} (different : other ≠ id) :
    (t.settle id status postedAt updates).entriesOf other = t.entriesOf other := by
  rw [entriesOf_settle]
  conv_rhs => rw [← List.map_id (t.entriesOf other)]
  apply List.map_congr_left
  intro e member
  have same : e.transactionId = other := by
    simpa [entriesOf] using (List.mem_filter.mp member).2
  rw [EntryRow.settled, if_neg (same ▸ different), id_eq]

@[simp] theorem normal_hold (row rows) : (t.hold row rows updates).normal = t.normal := by
  funext a
  simp only [normal, account?_hold]
  cases t.account? a <;> simp

@[simp] theorem normal_settle (id status postedAt) :
    (t.settle id status postedAt updates).normal = t.normal := by
  funext a
  simp only [normal, account?_settle]
  cases t.account? a <;> simp

theorem normal_enroll (row : AccountRow) {a : Int} {old : AccountRow}
    (present : t.account? a = some old) : (t.enroll row).normal a = t.normal a := by
  simp [normal, account?_enroll, present]

theorem mem_entriesOf {id : Int} {e : EntryRow} :
    e ∈ t.entriesOf id ↔ e ∈ t.entries ∧ e.transactionId = id := by
  simp [entriesOf]

/-- The lines are among what never changes. -/
theorem lines_of_fixed {t' : Tables} {id : Int}
    (same : (t'.entriesOf id).map EntryRow.fixed = (t.entriesOf id).map EntryRow.fixed) :
    t'.lines id = t.lines id := by
  have lines := congrArg (List.map EntryRow.line) same
  rw [List.map_map, List.map_map] at lines
  exact lines

theorem stream_hold (row : TransactionRow) (rows : List EntryRow) (a : Int) :
    (t.hold row rows updates).stream a =
      t.stream a ++ (rows.filter fun e => e.accountId = a).map EntryRow.fixed := by
  simp only [stream, hold, List.filter_append, List.map_append]

@[simp] theorem stream_settle (id status postedAt) (a : Int) :
    (t.settle id status postedAt updates).stream a = t.stream a := by
  simp only [stream, settle, List.filter_map, Function.comp_def, EntryRow.settled_accountId,
    List.map_map, EntryRow.settled_fixed]

end Tables
end Lookup

structure AccountRow.Sound (row : AccountRow) : Prop where
  accountType : 1 ≤ row.accountType ∧ row.accountType ≤ 5
  assetCode : row.assetCode ≠ ""
  assetScale : 0 ≤ row.assetScale ∧ row.assetScale ≤ 18
  version : 0 ≤ row.version ∧ Fits 32 row.version
  posted : Fits 64 row.postedBalance
  pending : Fits 64 row.pendingBalance
  createdAt : 0 < row.createdAt

structure TransactionRow.Sound (row : TransactionRow) : Prop where
  idempotencyKey : row.idempotencyKey ≠ ""
  status : row.status = 1 ∨ row.status = 2 ∨ row.status = 3
  createdAt : 0 < row.createdAt
  posted : row.status = 2 → ∃ p, row.postedAt = some p ∧ 0 < p
  unposted : row.status ≠ 2 → row.postedAt = none

structure EntryRow.Sound (row : EntryRow) : Prop where
  entryType : row.entryType = 1 ∨ row.entryType = 2
  amount : 0 < row.amount
  createdAt : 0 < row.createdAt

end Fides.Storage

namespace Fides.Ledger

open Domain Service Storage FixedWidth Relational Bookkeeping

/-- The lines of a transaction. -/
structure WellFormed (lines : List (Line Int)) : Prop where
  two : 2 ≤ lines.length
  positive : ∀ line ∈ lines, 0 < line.amount
  balanced : InBalance lines
  bounded : total .debit lines ≤ hi 64

/-- The updates name each account of the lines once, with its balance over all the
    lines, `p` times for posted and `q` times for pending. -/
structure Nets (normal : Int → Side) (p q : Int) (lines : List (Line Int))
    (updates : List BalanceUpdate) : Prop where
  distinct : Distinct updates
  covers : ∀ a, (∃ update ∈ updates, update.accountId.value = a) ↔ ∃ line ∈ lines, line.account = a
  amounts : ∀ update ∈ updates,
    update.postedDelta = p * balance normal lines update.accountId.value ∧
      update.pendingDelta = q * balance normal lines update.accountId.value

/-- What the updates make of the balances of any row. -/
theorem Nets.updated {normal : Int → Side} {p q : Int} {lines : List (Line Int)}
    {updates : List BalanceUpdate} (nets : Nets normal p q lines updates) (row : AccountRow) :
    (row.updated updates).postedBalance = row.postedBalance + p * balance normal lines row.id ∧
      (row.updated updates).pendingBalance =
        row.pendingBalance + q * balance normal lines row.id := by
  unfold AccountRow.updated
  split
  · rename_i update found
    have same : update.accountId.value = row.id := key_of_find found
    obtain ⟨posted, pending⟩ := nets.amounts update (mem_of_find found)
    rw [← same, ← posted, ← pending]
    exact ⟨rfl, rfl⟩
  · rename_i missing
    have absent : ∀ line ∈ lines, line.account ≠ row.id := by
      intro line member here
      obtain ⟨update, listed, same⟩ := (nets.covers row.id).mpr ⟨line, member, here⟩
      exact find_eq_none.mp missing update listed same
    simp [balance_of_absent absent]

/-- The updates hit accounts of the book, and leave them in range. -/
def Applicable (t : Tables) (updates : List BalanceUpdate) : Prop :=
  ∀ update ∈ updates, ∃ row, t.account? update.accountId.value = some row ∧ (row.bump update).Sound

structure Consistent (t : Tables) (ids : Sequences) : Prop where
  accounts : Distinct t.accounts
  transactions : Distinct t.transactions
  entries : Distinct t.entries
  keys : (t.transactions.map TransactionRow.idempotencyKey).Nodup
  accountRows : ∀ row ∈ t.accounts, row.Sound ∧ row.id ≤ ids.accounts
  transactionRows : ∀ row ∈ t.transactions, row.Sound ∧ row.id ≤ ids.transactions
  entryRows : ∀ e ∈ t.entries, e.Sound ∧ e.id ≤ ids.entries
  references : ∀ e ∈ t.entries, (∃ row, t.account? e.accountId = some row) ∧
    ∃ row, t.transaction? e.transactionId = some row ∧ e.status = row.status
  lines : ∀ row ∈ t.transactions, WellFormed (t.lines row.id)
  sorted : ∀ id, (t.entriesOf id).Pairwise fun e e' => e.id < e'.id
  streams : ∀ a, (t.entries.filter fun e => e.accountId = a).Pairwise fun e e' => e.id < e'.id

/-- A new account. -/
structure Enrolls (t : Tables) (ids : Sequences) (row : AccountRow) : Prop where
  fresh : t.account? row.id = none
  sound : row.Sound
  within : row.id ≤ ids.accounts
  empty : row.postedBalance = 0 ∧ row.pendingBalance = 0 ∧ row.version = 0

/-- A new transaction, pending with all its entries. -/
structure Holds (t : Tables) (ids : Sequences) (row : TransactionRow) (rows : List EntryRow)
    (updates : List BalanceUpdate) : Prop where
  fresh : t.transaction? row.id = none
  freshKey : t.byKey? row.idempotencyKey = none
  sound : row.Sound
  pending : row.status = 1
  within : row.id ≤ ids.transactions
  entries : ∀ e ∈ rows, e.Sound ∧ e.id ≤ ids.entries ∧ find t.entries e.id = none
  belong : ∀ e ∈ rows, e.transactionId = row.id ∧ e.status = 1 ∧
    ∃ account, t.account? e.accountId = some account
  sorted : rows.Pairwise fun e e' => e.id < e'.id
  last : ∀ e ∈ rows, ∀ old ∈ t.entries, old.accountId = e.accountId → old.id < e.id
  lines : WellFormed (rows.map EntryRow.line)
  nets : Nets t.normal 0 1 (rows.map EntryRow.line) updates
  applicable : Applicable t updates

/-- The settlement of a transaction: its entries go with it, and so does what
    they contributed to pending, to posted if it is captured. -/
structure Settles (t : Tables) (id status : Int) (postedAt : Option Int)
    (updates : List BalanceUpdate) : Prop where
  present : ∃ row, t.transaction? id = some row ∧
    { row with status := status, postedAt := postedAt : TransactionRow }.Sound
  terminal : status = 2 ∨ status = 3
  nets : Nets t.normal (if status = 2 then 1 else 0) (-1) (t.lines id) updates
  applicable : Applicable t updates

/-- The moves of the book. -/
inductive Entered (t : Tables) (ids : Sequences) : Tables → Prop where
  | enroll {row} : Enrolls t ids row → Entered t ids (t.enroll row)
  | hold {row rows updates} : Holds t ids row rows updates →
      Entered t ids (t.hold row rows updates)
  | settle {id status postedAt updates} : Settles t id status postedAt updates →
      Entered t ids (t.settle id status postedAt updates)

/-- Sequences only move up. -/
structure Before (ids later : Sequences) : Prop where
  accounts : ids.accounts ≤ later.accounts
  transactions : ids.transactions ≤ later.transactions
  entries : ids.entries ≤ later.entries

theorem Before.refl (ids : Sequences) : Before ids ids := ⟨le_refl _, le_refl _, le_refl _⟩

theorem Before.trans {ids later last : Sequences} (first : Before ids later)
    (second : Before later last) : Before ids last :=
  ⟨first.1.trans second.1, first.2.trans second.2, first.3.trans second.3⟩

namespace Consistent

variable {t : Tables} {ids : Sequences}

theorem empty : Consistent .empty ⟨0, 0, 0⟩ := by
  constructor <;> simp [Tables.empty, Distinct, Tables.entriesOf]

theorem mono {later : Sequences} (book : Consistent t ids) (grown : Before ids later) :
    Consistent t later := by
  refine { book with accountRows := ?_, transactionRows := ?_, entryRows := ?_ }
  · intro row member
    obtain ⟨sound, le⟩ := book.accountRows row member
    exact ⟨sound, le.trans grown.accounts⟩
  · intro row member
    obtain ⟨sound, le⟩ := book.transactionRows row member
    exact ⟨sound, le.trans grown.transactions⟩
  · intro e member
    obtain ⟨sound, le⟩ := book.entryRows e member
    exact ⟨sound, le.trans grown.entries⟩

theorem account?_of_mem (book : Consistent t ids) {row : AccountRow} (member : row ∈ t.accounts) :
    t.account? row.id = some row :=
  find_of_mem book.accounts member

theorem transaction?_of_mem (book : Consistent t ids) {row : TransactionRow}
    (member : row ∈ t.transactions) : t.transaction? row.id = some row :=
  find_of_mem book.transactions member

theorem lines_covered (book : Consistent t ids) (id : Int) :
    ∀ line ∈ t.lines id, ∃ row, t.account? line.account = some row := by
  intro line member
  obtain ⟨e, inside, rfl⟩ := List.mem_map.mp member
  exact (book.references e ((Tables.mem_entriesOf _).mp inside).1).1

/-- Entries are stored in the order of their ids. -/
theorem orderById_entriesOf (book : Consistent t ids) (id : Int) :
    orderById (t.entriesOf id) = t.entriesOf id :=
  List.Pairwise.insertionSort_eq ((book.sorted id).imp fun less => le_of_lt less)

theorem byKey?_of_mem (book : Consistent t ids) {row : TransactionRow}
    (member : row ∈ t.transactions) :
    t.byKey? row.idempotencyKey = some row := by
  cases found : t.byKey? row.idempotencyKey with
  | none => simpa using List.find?_eq_none.mp found row member
  | some other =>
      have key : other.idempotencyKey = row.idempotencyKey := by simpa using List.find?_some found
      rw [List.inj_on_of_nodup_map book.keys (List.mem_of_find?_eq_some found) member key]

theorem orderById_stream (book : Consistent t ids) (a : Int) :
    orderById (t.entries.filter fun e => e.accountId = a) =
      t.entries.filter fun e => e.accountId = a :=
  List.Pairwise.insertionSort_eq ((book.streams a).imp fun less => le_of_lt less)

/-- Every account row is sound, also after an update that fits. -/
theorem updated {updates : List BalanceUpdate} (book : Consistent t ids)
    (applicable : Applicable t updates) :
    ∀ row ∈ t.accounts.map (AccountRow.updated updates), row.Sound ∧ row.id ≤ ids.accounts := by
  intro row member
  obtain ⟨old, inside, rfl⟩ := List.mem_map.mp member
  obtain ⟨sound, le⟩ := book.accountRows old inside
  refine ⟨?_, by simpa using le⟩
  unfold AccountRow.updated
  split
  · rename_i update found
    obtain ⟨row, there, fits⟩ := applicable update (mem_of_find found)
    have same : update.accountId.value = old.id := key_of_find found
    rw [same, book.account?_of_mem inside] at there
    cases there
    exact fits
  · exact sound

theorem enroll {row : AccountRow} (book : Consistent t ids) (new : Enrolls t ids row) :
    Consistent (t.enroll row) ids := by
  refine { book with accounts := ?_, accountRows := ?_, references := ?_ }
  · apply book.accounts.append (by simp [Distinct])
    intro other member
    rw [List.mem_singleton.mp member]
    exact new.fresh
  · intro other member
    rcases List.mem_append.mp member with old | added
    · exact book.accountRows other old
    · rw [List.mem_singleton.mp added]
      exact ⟨new.sound, new.within⟩
  · intro e member
    obtain ⟨⟨account, found⟩, rest⟩ := book.references e member
    exact ⟨⟨account, by simp [Tables.account?_enroll, found]⟩, rest⟩

private theorem nodup_keys_append {row : TransactionRow} (book : Consistent t ids)
    (fresh : t.byKey? row.idempotencyKey = none) :
    ((t.transactions ++ [row]).map TransactionRow.idempotencyKey).Nodup := by
  rw [List.map_append]
  refine List.Nodup.append book.keys (by simp) ?_
  intro key old new
  obtain ⟨other, member, rfl⟩ := List.mem_map.mp old
  simp only [List.map_cons, List.map_nil, List.mem_singleton] at new
  exact List.find?_eq_none.mp fresh other member (by simpa using new)

private theorem entriesOf_fresh (book : Consistent t ids) {id : Int}
    (fresh : t.transaction? id = none) : t.entriesOf id = [] := by
  rw [Tables.entriesOf, List.filter_eq_nil_iff]
  intro e member
  obtain ⟨-, row, found, -⟩ := book.references e member
  simp only [decide_eq_true_eq]
  rintro rfl
  rw [fresh] at found
  cases found

/-- The entries of a transaction after a hold: those of the new one are its own. -/
theorem entriesOf_hold {row : TransactionRow} {rows updates} (book : Consistent t ids)
    (new : Holds t ids row rows updates) (id : Int) :
    (t.hold row rows updates).entriesOf id = if row.id = id then rows else t.entriesOf id := by
  rw [Tables.entriesOf_hold]
  by_cases here : row.id = id
  · have all : rows.filter (fun e => decide (e.transactionId = id)) = rows := by
      rw [List.filter_eq_self]
      intro e member
      simp [(new.belong e member).1, here]
    rw [if_pos here, all, entriesOf_fresh book (here ▸ new.fresh), List.nil_append]
  · have none : rows.filter (fun e => decide (e.transactionId = id)) = [] := by
      rw [List.filter_eq_nil_iff]
      intro e member
      simp [(new.belong e member).1, here]
    rw [if_neg here, none, List.append_nil]

theorem hold {row : TransactionRow} {rows updates} (book : Consistent t ids)
    (new : Holds t ids row rows updates) : Consistent (t.hold row rows updates) ids where
  accounts := book.accounts.map (AccountRow.updated_id updates)
  transactions := by
    apply book.transactions.append (by simp [Distinct])
    intro other member
    rw [List.mem_singleton.mp member]
    exact new.fresh
  entries := by
    apply book.entries.append
    · exact (List.pairwise_map.mpr (new.sorted.imp fun less => ne_of_lt less))
    · intro e member
      exact (new.entries e member).2.2
  keys := nodup_keys_append book new.freshKey
  accountRows := book.updated new.applicable
  transactionRows := by
    intro other member
    rcases List.mem_append.mp member with old | added
    · exact book.transactionRows other old
    · rw [List.mem_singleton.mp added]
      exact ⟨new.sound, new.within⟩
  entryRows := by
    intro e member
    rcases List.mem_append.mp member with old | added
    · exact book.entryRows e old
    · obtain ⟨sound, le, -⟩ := new.entries e added
      exact ⟨sound, le⟩
  references := by
    intro e member
    rw [Tables.account?_hold, Tables.transaction?_hold]
    rcases List.mem_append.mp member with old | added
    · obtain ⟨⟨account, found⟩, row, here, same⟩ := book.references e old
      exact ⟨⟨_, by rw [found]; rfl⟩, row, by rw [here]; rfl, same⟩
    · obtain ⟨belongs, pending, account, found⟩ := new.belong e added
      refine ⟨⟨_, by rw [found]; rfl⟩, row, ?_, pending.trans new.pending.symm⟩
      rw [belongs, new.fresh, if_pos rfl]
      rfl
  lines := by
    intro other member
    rw [Tables.lines, book.entriesOf_hold new]
    split
    · exact new.lines
    · rename_i apart
      rcases List.mem_append.mp member with old | added
      · exact book.lines other old
      · exact absurd (congrArg TransactionRow.id (List.mem_singleton.mp added)).symm apart
  sorted := by
    intro id
    rw [book.entriesOf_hold new]
    split
    · exact new.sorted
    · exact book.sorted id
  streams := by
    intro a
    change ((t.entries ++ rows).filter _).Pairwise _
    rw [List.filter_append]
    refine List.pairwise_append.mpr
      ⟨book.streams a, new.sorted.sublist List.filter_sublist, fun old before e added => ?_⟩
    simp only [List.mem_filter, decide_eq_true_eq] at before added
    exact new.last e added.1 old before.1 (before.2.trans added.2.symm)

theorem lines_settle {id status postedAt updates} (other : Int) :
    (t.settle id status postedAt updates).lines other = t.lines other := by
  simp [Tables.lines, Function.comp_def]

theorem settle {id status postedAt updates} (book : Consistent t ids)
    (settles : Settles t id status postedAt updates) :
    Consistent (t.settle id status postedAt updates) ids where
  accounts := book.accounts.map (AccountRow.updated_id updates)
  transactions := book.transactions.map (TransactionRow.settled_id id status postedAt)
  entries := book.entries.map (EntryRow.settled_id id status)
  keys := by
    have same : (t.settle id status postedAt updates).transactions.map
        TransactionRow.idempotencyKey = t.transactions.map TransactionRow.idempotencyKey := by
      simp [Tables.settle, Function.comp_def]
    rw [same]
    exact book.keys
  accountRows := book.updated settles.applicable
  transactionRows := by
    intro row member
    obtain ⟨old, inside, rfl⟩ := List.mem_map.mp member
    obtain ⟨sound, le⟩ := book.transactionRows old inside
    refine ⟨?_, by simpa using le⟩
    unfold TransactionRow.settled
    split
    · rename_i here
      obtain ⟨row, found, fits⟩ := settles.present
      rw [← here, book.transaction?_of_mem inside] at found
      cases found
      exact fits
    · exact sound
  entryRows := by
    intro e member
    obtain ⟨old, inside, rfl⟩ := List.mem_map.mp member
    obtain ⟨sound, le⟩ := book.entryRows old inside
    refine ⟨?_, by simpa using le⟩
    unfold EntryRow.settled
    split
    · exact ⟨sound.1, sound.2, sound.3⟩
    · exact sound
  references := by
    intro e member
    obtain ⟨old, inside, rfl⟩ := List.mem_map.mp member
    obtain ⟨⟨account, found⟩, row, here, same⟩ := book.references old inside
    rw [Tables.account?_settle, Tables.transaction?_settle, EntryRow.settled_accountId,
      EntryRow.settled_transactionId, found, here]
    refine ⟨⟨_, rfl⟩, _, rfl, ?_⟩
    have key : row.id = old.transactionId := key_of_find here
    simp only [EntryRow.settled, TransactionRow.settled, key]
    split
    · rfl
    · exact same
  lines := by
    intro row member
    obtain ⟨old, inside, rfl⟩ := List.mem_map.mp member
    rw [TransactionRow.settled_id, lines_settle]
    exact book.lines old inside
  sorted := by
    intro other
    rw [Tables.entriesOf_settle, List.pairwise_map]
    simpa using book.sorted other
  streams := by
    intro a
    change ((t.entries.map (EntryRow.settled id status)).filter _).Pairwise _
    rw [List.filter_map, List.pairwise_map]
    simpa [Function.comp_def] using book.streams a

/-- The book stays consistent under all its moves. -/
theorem entered {t' : Tables} (book : Consistent t ids) (moved : Entered t ids t') :
    Consistent t' ids := by
  cases moved with
  | enroll new => exact book.enroll new
  | hold new => exact book.hold new
  | settle settles => exact book.settle settles

end Consistent
end Fides.Ledger
