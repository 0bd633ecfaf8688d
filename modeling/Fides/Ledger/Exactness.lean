import Fides.Ledger.Computation
import Fides.Ledger.Decoding
import Fides.Ledger.Updates

/-! # Exact balances

In the book as it is meant to be, a transaction is settled at most once: only
while it is pending.  `Advanced` is this machine.  In it the balance columns of
an account are the exact sums of its posted and of its pending entries, and what
is settled stays as it is.
-/

namespace Fides.Storage

open Domain Bookkeeping Relational

/-- The lines of the entries that have a status. -/
def Tables.linesAt (t : Tables) (status : Int) : List (Line Int) :=
  (t.entries.filter fun e => e.status = status).map EntryRow.line

/-- What an entry row adds to the balance of an account. -/
def EntryRow.share (normal : Int → Side) (a : Int) (e : EntryRow) : Int :=
  if e.line.account = a then e.line.delta normal else 0

namespace Tables

variable (t : Tables) (normal : Int → Side) (a : Int)

theorem balance_linesAt (status : Int) :
    balance normal (t.linesAt status) a =
      (t.entries.map fun e => if e.status = status then e.share normal a else 0).sum := by
  rw [balance, linesAt, List.map_map, sum_filter]
  simp only [decide_eq_true_eq]
  rfl

/-- A settlement moves the lines of its transaction from one status to another. -/
theorem sum_settle (f : Line Int → Int) (id status s : Int) (postedAt : Option Int)
    (updates : List Service.BalanceUpdate) {c : Int}
    (moves : ∀ e ∈ t.entries, e.transactionId = id →
      (if status = s then 1 else 0) = (if e.status = s then 1 else 0) + c) :
    (((t.settle id status postedAt updates).linesAt s).map f).sum =
      ((t.linesAt s).map f).sum + c * ((t.lines id).map f).sum := by
  simp only [linesAt, lines, entriesOf, settle, List.map_map, sum_filter]
  rw [← List.sum_map_mul_left, ← List.sum_map_add]
  refine congrArg List.sum (List.map_congr_left fun e member => ?_)
  simp only [Function.comp, EntryRow.settled_line, decide_eq_true_eq]
  by_cases here : e.transactionId = id
  · have shift := moves e member here
    simp only [EntryRow.settled, if_pos here]
    generalize f e.line = value
    calc (if status = s then value else 0)
        = (if status = s then 1 else 0) * value := by split <;> simp
      _ = (if e.status = s then 1 else 0) * value + c * value := by rw [shift, add_mul]
      _ = _ := by split <;> simp
  · simp [EntryRow.settled, here]

end Tables
end Fides.Storage

namespace Fides.Ledger

open Domain Service Storage FixedWidth Relational Bookkeeping

/-- The moves of the book when settled transactions are left alone. -/
inductive Advanced (t : Tables) (ids : Sequences) : Tables → Prop where
  | enroll {row} : Enrolls t ids row → Advanced t ids (t.enroll row)
  | hold {row rows updates} : Holds t ids row rows updates →
      Advanced t ids (t.hold row rows updates)
  | settle {id status postedAt row updates} : Settles t id status postedAt updates →
      t.transaction? id = some row → row.status = 1 →
      Advanced t ids (t.settle id status postedAt updates)

theorem Advanced.entered {t t' : Tables} {ids : Sequences} (advanced : Advanced t ids t') :
    Entered t ids t' := by
  cases advanced with
  | enroll enrolls => exact .enroll enrolls
  | hold holds => exact .hold holds
  | settle settles => exact .settle settles

/-- The balance columns of every account are the sums of its entries. -/
def Exact (t : Tables) : Prop :=
  ∀ row ∈ t.accounts, row.postedBalance = balance t.normal (t.linesAt 2) row.id ∧
    row.pendingBalance = balance t.normal (t.linesAt 1) row.id

theorem pending_entries {t : Tables} {ids : Sequences} (book : Consistent t ids) {id : Int}
    {row : TransactionRow} (found : t.transaction? id = some row) (pending : row.status = 1) :
    ∀ e ∈ t.entries, e.transactionId = id → e.status = 1 := by
  intro e member here
  obtain ⟨-, other, there, same⟩ := book.references e member
  rw [here, found] at there
  cases there
  exact same.trans pending

/-- The lines of a pending transaction are no longer pending once it is settled. -/
theorem Settles.released {t : Tables} {ids : Sequences} {id status : Int} {postedAt : Option Int}
    {row : TransactionRow} {updates : List BalanceUpdate} (book : Consistent t ids)
    (settles : Settles t id status postedAt updates) (found : t.transaction? id = some row)
    (pending : row.status = 1) (f : Line Int → Int) :
    (((t.settle id status postedAt updates).linesAt 1).map f).sum =
      ((t.linesAt 1).map f).sum + -1 * ((t.lines id).map f).sum := by
  apply t.sum_settle
  intro e member here
  rw [pending_entries book found pending e member here]
  rcases settles.terminal with rfl | rfl <;> rfl

theorem linesAt_covered {t : Tables} {ids : Sequences} (book : Consistent t ids) (s : Int) :
    ∀ line ∈ t.linesAt s, ∃ row, t.account? line.account = some row := by
  intro line member
  obtain ⟨e, inside, rfl⟩ := List.mem_map.mp member
  exact (book.references e (List.mem_of_mem_filter inside)).1

/-- A new transaction adds its lines to the pending ones, and to no others. -/
theorem Holds.linesAt {t : Tables} {ids : Sequences} {row : TransactionRow} {rows updates}
    (holds : Holds t ids row rows updates) (s : Int) :
    (t.hold row rows updates).linesAt s =
      t.linesAt s ++ if s = 1 then rows.map EntryRow.line else [] := by
  have added : (rows.filter fun e => e.status = s) = if s = 1 then rows else [] := by
    have status : ∀ e ∈ rows, e.status = 1 := fun e member => (holds.belong e member).2.1
    split
    · rw [List.filter_eq_self]
      intro e member
      simpa [status e member] using Eq.symm ‹s = 1›
    · rw [List.filter_eq_nil_iff]
      intro e member
      simpa [status e member] using Ne.symm ‹¬ s = 1›
  rw [Tables.linesAt, Tables.hold, List.filter_append, List.map_append, added, Tables.linesAt]
  split <;> rfl

namespace Exact

variable {t t' : Tables} {ids : Sequences}

theorem enroll {row : AccountRow} (book : Consistent t ids) (exact : Exact t)
    (enrolls : Enrolls t ids row) : Exact (t.enroll row) := by
  have kept : ∀ s a, balance (t.enroll row).normal ((t.enroll row).linesAt s) a =
      balance t.normal (t.linesAt s) a := by
    intro s a
    refine balance_congr (fun line member => ?_) a
    obtain ⟨account, found⟩ := linesAt_covered book s line member
    exact t.normal_enroll row found
  have empty : ∀ s, balance t.normal (t.linesAt s) row.id = 0 := by
    intro s
    refine balance_of_absent fun line member here => ?_
    obtain ⟨account, found⟩ := linesAt_covered book s line member
    rw [here, enrolls.fresh] at found
    cases found
  intro other member
  rw [kept, kept]
  rcases List.mem_append.mp member with old | added
  · exact exact other old
  · rw [List.mem_singleton.mp added, empty, empty]
    exact ⟨enrolls.empty.1, enrolls.empty.2.1⟩

theorem hold {row : TransactionRow} {rows updates} (exact : Exact t)
    (holds : Holds t ids row rows updates) : Exact (t.hold row rows updates) := by
  intro other member
  obtain ⟨old, inside, rfl⟩ := List.mem_map.mp member
  obtain ⟨sum, held⟩ := exact old inside
  obtain ⟨same, added⟩ := holds.nets.updated old
  rw [Tables.normal_hold, holds.linesAt, holds.linesAt, balance_append, balance_append,
    AccountRow.updated_id, same, added, sum, held]
  constructor <;> simp

theorem settle {id status : Int} {postedAt : Option Int} {row : TransactionRow} {updates}
    (book : Consistent t ids) (exact : Exact t) (settles : Settles t id status postedAt updates)
    (found : t.transaction? id = some row) (pending : row.status = 1) :
    Exact (t.settle id status postedAt updates) := by
  have released : ∀ a, balance t.normal ((t.settle id status postedAt updates).linesAt 1) a =
      balance t.normal (t.linesAt 1) a + -1 * balance t.normal (t.lines id) a := fun a =>
    settles.released book found pending _
  have captured : ∀ a, balance t.normal ((t.settle id status postedAt updates).linesAt 2) a =
      balance t.normal (t.linesAt 2) a +
        (if status = 2 then 1 else 0) * balance t.normal (t.lines id) a := fun a =>
    t.sum_settle _ id status 2 postedAt updates fun e member here => by
      rw [pending_entries book found pending e member here]
      simp
  intro other member
  obtain ⟨old, inside, rfl⟩ := List.mem_map.mp member
  obtain ⟨sum, held⟩ := exact old inside
  obtain ⟨moved, taken⟩ := settles.nets.updated old
  rw [Tables.normal_settle, AccountRow.updated_id, released, captured, moved, taken, sum, held]
  exact ⟨rfl, rfl⟩

theorem advanced (book : Consistent t ids) (exact : Exact t) (moved : Advanced t ids t') :
    Exact t' := by
  cases moved with
  | enroll enrolls => exact exact.enroll book enrolls
  | hold holds => exact exact.hold holds
  | settle settles found pending => exact exact.settle book settles found pending

end Exact

/-- What is settled stays as it is. -/
theorem Advanced.final {t t' : Tables} {ids : Sequences} (book : Consistent t ids)
    (moved : Advanced t ids t') {id : Int} {row : TransactionRow}
    (found : t.transaction? id = some row) (settled : row.status ≠ 1) :
    t'.transaction? id = some row ∧ t'.entriesOf id = t.entriesOf id := by
  cases moved with
  | enroll => exact ⟨found, rfl⟩
  | @hold new _ _ holds =>
      have different : new.id ≠ id := by
        rintro rfl
        rw [holds.fresh] at found
        cases found
      rw [Tables.transaction?_hold, found, book.entriesOf_hold holds]
      exact ⟨rfl, if_neg different⟩
  | @settle target status postedAt _ updates _ there pending =>
      have different : id ≠ target := by
        rintro rfl
        rw [found] at there
        cases there
        exact settled pending
      rw [t.transaction?_settle_other updates status postedAt different,
        t.entriesOf_settle_other updates status postedAt different]
      exact ⟨found, rfl⟩

section Decoded

variable {t : Tables} {ids : Sequences}

theorem entry_amount (book : Consistent t ids) {e : EntryRow} (member : e ∈ t.entries) :
    0 < e.amount ∧ e.amount ≤ hi 64 := by
  obtain ⟨-, row, found, -⟩ := book.references e member
  have same : row.id = e.transactionId := key_of_find found
  have listed : e.line ∈ t.lines row.id :=
    List.mem_map.mpr ⟨e, (t.mem_entriesOf).mpr ⟨member, same.symm⟩, rfl⟩
  have formed := book.lines row (mem_of_find found)
  exact ⟨formed.positive _ listed, formed.toBounded.amount_le listed⟩

/-- The delta of a decoded entry is the share of its row. -/
private theorem delta_decoded {account : Account} {normal : Int → Side} {a : Int} {e : EntryRow}
    {entry : Entry} (side : account.normalBalance.side = normal a)
    (built : buildEntry e = .ok entry) (here : e.accountId = a)
    (amount : 0 < e.amount ∧ e.amount ≤ hi 64) :
    computeBalanceDelta account.normalBalance entry.entryType entry.amount = e.share normal a := by
  obtain ⟨line, -, -⟩ := buildEntry_ok built
  have value : entry.amount.value = e.amount := congrArg Line.amount line
  have kind : entry.entryType.side = e.line.side := congrArg Line.side line
  have account : e.line.account = a := here
  rw [computeBalanceDelta_eq (by omega) (by omega), side, kind, value, EntryRow.share,
    if_pos account, Line.delta, account]
  rfl

private theorem deltaSum_rows {account : Account} {normal : Int → Side} {a : Int}
    {rows : List EntryRow} {entries : List Entry} (side : account.normalBalance.side = normal a)
    (built : List.Forall₂ (fun row entry => buildEntry row = .ok entry) rows entries)
    (mine : ∀ e ∈ rows, e.accountId = a ∧ 0 < e.amount ∧ e.amount ≤ hi 64) (status : EntryStatus) :
    deltaSum account.normalBalance status entries =
      (rows.map fun e =>
        if e.status = entryStatusToI16 status then e.share normal a else 0).sum := by
  unfold deltaSum
  rw [sum_filter]
  induction built with
  | nil => rfl
  | @cons e entry rows entries first _ ih =>
      obtain ⟨here, amount⟩ := mine e List.mem_cons_self
      have rest := ih fun e member => mine e (List.mem_cons_of_mem _ member)
      have stands : e.status = entryStatusToI16 status ↔ entry.status = status := by
        rw [← (buildEntry_ok first).2.2, entryStatusToI16_inj]
      rw [List.map_cons, List.sum_cons, List.map_cons, List.sum_cons, rest,
        delta_decoded side first here amount]
      simp only [decide_eq_true_eq, stands]

theorem amounts_decoded (book : Consistent t ids) {rows : List EntryRow} {entries : List Entry}
    (inside : ∀ e ∈ rows, e ∈ t.entries) (built : buildEntries rows = .ok entries) :
    ∀ entry ∈ entries, 0 < entry.amount.value ∧ entry.amount.value ≤ hi 64 := by
  intro entry member
  obtain ⟨e, listed, decoded⟩ := exists_row built member
  have amount : entry.amount.value = e.amount := congrArg Line.amount (buildEntry_ok decoded).1
  rw [amount]
  exact entry_amount book (inside e listed)

/-- The balance columns of an account, in terms of what storage answers for it. -/
theorem Exact.decoded (book : Consistent t ids) (exact : Exact t) :
    ∀ row ∈ t.accounts, ∃ account entries, buildAccount row = .ok account ∧
      buildEntries (orderById (t.entries.filter fun e => e.accountId = row.id)) = .ok entries ∧
      row.postedBalance = deltaSum account.normalBalance .posted entries ∧
      row.pendingBalance = deltaSum account.normalBalance .pending entries := by
  intro row member
  obtain ⟨account, decoded⟩ := buildAccount_of_sound (book.accountRows row member).1
  have perm := List.perm_insertionSort (fun a b : EntryRow => a.id ≤ b.id)
    (t.entries.filter fun e => e.accountId = row.id)
  have mine : ∀ e ∈ orderById (t.entries.filter fun e => e.accountId = row.id),
      e ∈ t.entries ∧ e.accountId = row.id := by
    intro e inside
    simpa using perm.mem_iff.mp inside
  obtain ⟨entries, built⟩ := buildEntries_of_book book fun e inside => (mine e inside).1
  have side : account.normalBalance.side = t.normal row.id := by
    rw [(buildAccount_ok decoded).2.2, Tables.normal, book.account?_of_mem member]
  have sums : ∀ status, deltaSum account.normalBalance status entries =
      balance t.normal (t.linesAt (entryStatusToI16 status)) row.id := by
    intro status
    rw [deltaSum_rows side (buildEntries_ok built) (fun e inside =>
      ⟨(mine e inside).2, entry_amount book (mine e inside).1⟩), t.balance_linesAt]
    rw [orderById, (perm.map _).sum_eq, sum_filter]
    refine congrArg List.sum (List.map_congr_left fun e _ => ?_)
    by_cases here : e.accountId = row.id
    · simp [here]
    · have none : e.share t.normal row.id = 0 := if_neg here
      simp [here, none]
  obtain ⟨posted, pending⟩ := exact row member
  exact ⟨account, entries, decoded, built, posted.trans (sums .posted).symm,
    pending.trans (sums .pending).symm⟩

/-- Where the balance of an account can be computed from its entries, it is made up of
    their signed sums. -/
theorem computeAccountBalance_ok {account : Account} {entries : List Entry}
    {balance : AccountBalance}
    (bounded : ∀ entry ∈ entries, 0 < entry.amount.value ∧ entry.amount.value ≤ hi 64)
    (computed : computeAccountBalance account.normalBalance entries = .ok balance) :
    balance.posted = deltaSum account.normalBalance .posted entries ∧
      balance.pending = deltaSum account.normalBalance .pending entries ∧
      Fits 64 (balance.posted - balance.pending) ∧
      balance.available = balance.posted - balance.pending := by
  rw [computeAccountBalance_eq account.normalBalance fun entry member =>
    (bounded entry member).1] at computed
  split_ifs at computed with fit fits
  cases computed
  exact ⟨rfl, rfl, fits, rfl⟩

end Decoded
end Fides.Ledger
