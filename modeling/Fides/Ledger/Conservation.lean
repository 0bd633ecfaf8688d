import Fides.Ledger.Runs

/-! # Conservation

Whatever the handlers do and in whatever order, every transaction of the book has
balanced lines, and so have the non-voided entries of the whole book.  The balance
columns of the accounts table agree with each other for the same reason: a move
changes the balances of its accounts by what its lines say, and its lines balance.
The lines balance as bare amounts: within one asset they balance only if the legs
of every authorization do.
-/

namespace Fides.Storage

open Bookkeeping

/-- The sum of a balance column over the accounts that normally stand on one side. -/
def Tables.column (t : Tables) (side : Side) (amount : AccountRow → Int) : Int :=
  ((t.accounts.filter fun row => row.side = side).map amount).sum

/-- The entries of the book that are not voided. -/
def Tables.standing (t : Tables) : List EntryRow := t.entries.filter fun e => e.status ≠ 3

def AccountRow.asset (row : AccountRow) : String × Int := (row.assetCode, row.assetScale)

def Tables.asset? (t : Tables) (a : Int) : Option (String × Int) :=
  (t.account? a).map AccountRow.asset

/-- The lines on accounts of one asset. -/
def Tables.within (t : Tables) (asset : String × Int) (lines : List (Line Int)) :
    List (Line Int) :=
  lines.filter fun line => t.asset? line.account = some asset

section Assets

variable (t : Tables) (updates : List Service.BalanceUpdate) (asset : String × Int)

@[simp] theorem AccountRow.asset_updated (row : AccountRow) :
    (row.updated updates).asset = row.asset := by
  unfold AccountRow.updated
  split <;> rfl

namespace Tables

@[simp] theorem within_hold (row rows) :
    (t.hold row rows updates).within asset = t.within asset := by
  funext lines
  simp [within, asset?, Function.comp_def]

@[simp] theorem within_settle (id status postedAt) :
    (t.settle id status postedAt updates).within asset = t.within asset := by
  funext lines
  simp [within, asset?, Function.comp_def]

theorem within_enroll (row : AccountRow) {lines : List (Line Int)}
    (covered : ∀ line ∈ lines, ∃ row, t.account? line.account = some row) :
    (t.enroll row).within asset lines = t.within asset lines := by
  refine List.filter_congr fun line member => ?_
  obtain ⟨old, found⟩ := covered line member
  simp [asset?, account?_enroll, found]

@[simp] theorem within_append (lines more : List (Line Int)) :
    t.within asset (lines ++ more) = t.within asset lines ++ t.within asset more :=
  List.filter_append ..

end Tables
end Assets
end Fides.Storage

namespace Fides.Ledger

open Domain Service Storage Relational Bookkeeping Concurrency

variable {t : Tables} {ids : Sequences} {cfg : Config server} {trace : List (Transition server)}

section TrialBalance

/-- A balance column, with each account weighed by its normal side. -/
private def weighed (accounts : List AccountRow) (amount : AccountRow → Int) : Int :=
  (accounts.map fun row => row.side.sign * amount row).sum

private theorem weighed_eq_columns (t : Tables) (amount : AccountRow → Int) :
    weighed t.accounts amount = t.column .debit amount - t.column .credit amount := by
  unfold weighed Tables.column
  induction t.accounts with
  | nil => rfl
  | cons row rows ih =>
      rw [List.map_cons, List.sum_cons, ih]
      cases side : row.side <;> simp [side] <;> ring

/-- Balanced lines do not change the weighed sum of the balances they add to. -/
private theorem weighed_updated (book : Consistent t ids) {lines : List (Line Int)}
    (covered : ∀ line ∈ lines, ∃ row, t.account? line.account = some row)
    (balanced : InBalance lines) {updates : List BalanceUpdate} {amount : AccountRow → Int}
    {c : Int} (shifts : ∀ row : AccountRow,
      amount (row.updated updates) = amount row + c * balance t.normal lines row.id) :
    weighed (t.accounts.map (AccountRow.updated updates)) amount = weighed t.accounts amount := by
  have listed : ∀ line ∈ lines, line.account ∈ t.accounts.map AccountRow.id := by
    intro line member
    obtain ⟨row, found⟩ := covered line member
    exact List.mem_map.mpr ⟨row, mem_of_find found, key_of_find found⟩
  have sides : ∀ row ∈ t.accounts, row.side.sign * balance t.normal lines row.id =
      (t.normal row.id).sign * balance t.normal lines row.id := by
    intro row member
    rw [Tables.normal, book.account?_of_mem member]
  have shift : (t.accounts.map fun row => row.side.sign * balance t.normal lines row.id).sum = 0 :=
    calc (t.accounts.map fun row => row.side.sign * balance t.normal lines row.id).sum
        = ((t.accounts.map AccountRow.id).map fun a =>
            (t.normal a).sign * balance t.normal lines a).sum := by
          rw [List.map_map, List.map_congr_left sides]
          rfl
      _ = net lines := sum_balance t.normal book.accounts listed
      _ = 0 := inBalance_iff_net.mp balanced
  unfold weighed
  rw [List.map_map]
  have each : ∀ row ∈ t.accounts,
      ((fun row : AccountRow => row.side.sign * amount row) ∘ AccountRow.updated updates) row =
        row.side.sign * amount row + c * (row.side.sign * balance t.normal lines row.id) := by
    intro row _
    simp only [Function.comp, AccountRow.updated_side, shifts]
    ring
  rw [List.map_congr_left each, List.sum_map_add, List.sum_map_mul_left, shift, mul_zero, add_zero]

private theorem weighed_enroll {row : AccountRow} {amount : AccountRow → Int}
    (empty : amount row = 0) :
    weighed (t.enroll row).accounts amount = weighed t.accounts amount := by
  simp [weighed, Tables.enroll, empty]

theorem Settles.balanced {id status postedAt updates} (book : Consistent t ids)
    (settles : Settles t id status postedAt updates) : InBalance (t.lines id) := by
  obtain ⟨row, found, -⟩ := settles.present
  have same : row.id = id := key_of_find found
  exact same ▸ (book.lines row (mem_of_find found)).balanced

private theorem weighed_entered {t' : Tables} (book : Consistent t ids)
    (entered : Entered t ids t') :
    weighed t'.accounts AccountRow.postedBalance = weighed t.accounts AccountRow.postedBalance ∧
      weighed t'.accounts AccountRow.pendingBalance =
        weighed t.accounts AccountRow.pendingBalance := by
  cases entered with
  | enroll enrolls =>
      obtain ⟨posted, pending, -⟩ := enrolls.empty
      exact ⟨weighed_enroll posted, weighed_enroll pending⟩
  | @hold row rows _ holds =>
      have covered : ∀ line ∈ rows.map EntryRow.line, ∃ row, t.account? line.account = some row := by
        intro line member
        obtain ⟨e, inside, rfl⟩ := List.mem_map.mp member
        exact (holds.belong e inside).2.2
      have balanced := holds.lines.balanced
      exact ⟨weighed_updated book covered balanced fun row => (holds.nets.updated row).1,
        weighed_updated book covered balanced fun row => (holds.nets.updated row).2⟩
  | @settle id _ _ _ settles =>
      have covered := book.lines_covered id
      have balanced := settles.balanced book
      exact ⟨weighed_updated book covered balanced fun row => (settles.nets.updated row).1,
        weighed_updated book covered balanced fun row => (settles.nets.updated row).2⟩

/-- In every run the balance columns of the two sides agree. -/
theorem trial_balance (run : Steps initial trace cfg) :
    cfg.shared.tables.column .debit AccountRow.postedBalance =
        cfg.shared.tables.column .credit AccountRow.postedBalance ∧
      cfg.shared.tables.column .debit AccountRow.pendingBalance =
        cfg.shared.tables.column .credit AccountRow.pendingBalance := by
  have weighs : weighed cfg.shared.tables.accounts AccountRow.postedBalance = 0 ∧
      weighed cfg.shared.tables.accounts AccountRow.pendingBalance = 0 := by
    refine book_invariant (P := fun t => weighed t.accounts AccountRow.postedBalance = 0 ∧
      weighed t.accounts AccountRow.pendingBalance = 0) ⟨rfl, rfl⟩ ?_ run
    rintro t ids t' book ⟨posted, pending⟩ entered
    obtain ⟨same, also⟩ := weighed_entered book entered
    exact ⟨same.trans posted, also.trans pending⟩
  rw [weighed_eq_columns, weighed_eq_columns] at weighs
  omega

theorem trial_balance_overlapping : ∃ trace cfg, Steps initial trace cfg ∧
    cfg.shared.tables.column .debit AccountRow.postedBalance = 200 ∧
    cfg.shared.tables.column .debit AccountRow.postedBalance =
      cfg.shared.tables.column .credit AccountRow.postedBalance := by
  obtain ⟨trace, cfg, run, -, twice⟩ := reached (fun _ => true)
    (overlapping (.capture 1 5) (.capture 1 6))
    (fun cfg => cfg.shared.tables.column .debit AccountRow.postedBalance) (a := 200)
    (by decide +kernel)
  exact ⟨trace, cfg, run, twice, (trial_balance run).1⟩

end TrialBalance

section Totals

/-- The entries of the book, transaction by transaction. -/
private theorem sum_by_transaction (book : Consistent t ids) (f : EntryRow → Int) :
    (t.entries.map f).sum =
      (t.transactions.map fun row => ((t.entriesOf row.id).map f).sum).sum := by
  have covered : ∀ e ∈ t.entries, e.transactionId ∈ t.transactions.map TransactionRow.id := by
    intro e member
    obtain ⟨-, row, found, -⟩ := book.references e member
    exact List.mem_map.mpr ⟨row, mem_of_find found, key_of_find found⟩
  rw [← sum_by_key book.transactions EntryRow.transactionId f covered, List.map_map]
  refine congrArg List.sum (List.map_congr_left fun row _ => ?_)
  rw [Tables.entriesOf, sum_filter]
  simp only [Function.comp, decide_eq_true_eq]
  rfl

theorem entry_status (book : Consistent t ids) {row : TransactionRow}
    (member : row ∈ t.transactions) : ∀ e ∈ t.entriesOf row.id, e.status = row.status := by
  intro e inside
  obtain ⟨there, belongs⟩ := (Tables.mem_entriesOf _).mp inside
  obtain ⟨-, other, found, same⟩ := book.references e there
  rw [belongs, book.transaction?_of_mem member] at found
  cases found
  exact same

/-- If the lines of each transaction that pass a test balance, then so do the
    standing entries that pass it. -/
theorem standing_balanced (book : Consistent t ids) (test : Line Int → Bool)
    (each : ∀ row ∈ t.transactions, InBalance ((t.lines row.id).filter test)) :
    InBalance ((t.standing.map EntryRow.line).filter test) := by
  rw [inBalance_iff_net, net, sum_filter, Tables.standing, List.map_map, sum_filter,
    sum_by_transaction book]
  apply List.sum_eq_zero
  intro value listed
  obtain ⟨row, member, rfl⟩ := List.mem_map.mp listed
  by_cases voided : row.status = 3
  · apply List.sum_eq_zero
    intro value listed
    obtain ⟨e, inside, rfl⟩ := List.mem_map.mp listed
    simp [entry_status book member e inside, voided]
  · have none := inBalance_iff_net.mp (each row member)
    rw [net, sum_filter, Tables.lines, List.map_map] at none
    refine Eq.trans (congrArg List.sum (List.map_congr_left fun e inside => ?_)) none
    simp [entry_status book member e inside, voided]

/-- In every run, every transaction of the book has at least two entries, which
    balance and have its status, and the book as a whole balances. -/
theorem book_balanced (run : Steps initial trace cfg) :
    (∀ row ∈ cfg.shared.tables.transactions,
      2 ≤ (cfg.shared.tables.entriesOf row.id).length ∧
      total .debit (cfg.shared.tables.lines row.id) =
        total .credit (cfg.shared.tables.lines row.id) ∧
      row.status ∈ [TransactionStatus.pending, .posted, .voided].map transactionStatusToI16 ∧
      ∀ e ∈ cfg.shared.tables.entriesOf row.id, e.status = row.status) ∧
    total .debit (cfg.shared.tables.standing.map EntryRow.line) =
      total .credit (cfg.shared.tables.standing.map EntryRow.line) := by
  have book := (safe run).inv
  constructor
  · intro row member
    have lines := book.lines row member
    refine ⟨by simpa [Tables.lines] using lines.two, lines.balanced, ?_, entry_status book member⟩
    simpa [transactionStatusToI16] using (book.transactionRows row member).1.status
  · have all := standing_balanced book (fun _ => true) fun row member => by
      simpa using (book.lines row member).balanced
    rw [List.filter_true] at all
    exact all

theorem book_balanced_overlapping : ∃ trace cfg, Steps initial trace cfg ∧
    total .debit (cfg.shared.tables.standing.map EntryRow.line) = 100 ∧
    total .debit (cfg.shared.tables.standing.map EntryRow.line) =
      total .credit (cfg.shared.tables.standing.map EntryRow.line) := by
  obtain ⟨trace, cfg, run, -, debits⟩ := reached (fun _ => true)
    (overlapping (.void 1) (.capture 1 6))
    (fun cfg => total .debit (cfg.shared.tables.standing.map EntryRow.line)) (a := 100)
    (by decide +kernel)
  exact ⟨trace, cfg, run, debits, (book_balanced run).2⟩

end Totals

section Assets

/-- The legs balance within each asset of the accounts. -/
def balancedPerAsset (t : Tables) (legs : List TransferLeg) : Bool :=
  t.accounts.all fun row => InBalance (t.within row.asset (legs.map TransferLeg.line))

/-- A transition makes no authorization permanent whose legs mix assets. -/
def keepsAssetsApart (moved : Transition server) : Bool :=
  (authorizing moved).all (balancedPerAsset moved.before.shared.tables)

/-- The standing entries of each asset balance. -/
def AssetsConserved (t : Tables) : Prop :=
  ∀ asset, total .debit (t.within asset (t.standing.map EntryRow.line)) =
    total .credit (t.within asset (t.standing.map EntryRow.line))

/-- Every transaction balances within each asset. -/
def TransactionsConserved (t : Tables) : Prop :=
  ∀ row ∈ t.transactions, ∀ asset, total .debit (t.within asset (t.lines row.id)) =
    total .credit (t.within asset (t.lines row.id))

theorem balancedPerAsset_iff {legs : List TransferLeg} :
    balancedPerAsset t legs = true ↔
      ∀ asset, InBalance (t.within asset (legs.map TransferLeg.line)) := by
  rw [balancedPerAsset, List.all_eq_true]
  constructor
  · intro each asset
    by_cases used : ∃ row ∈ t.accounts, row.asset = asset
    · obtain ⟨row, member, rfl⟩ := used
      simpa using each row member
    · have none : t.within asset (legs.map TransferLeg.line) = [] := by
        rw [Tables.within, List.filter_eq_nil_iff]
        intro line _ here
        obtain ⟨row, found, same⟩ := Option.map_eq_some_iff.mp (of_decide_eq_true here)
        exact used ⟨row, mem_of_find found, same⟩
      rw [none]
      rfl
  · intro all row _
    simpa using all row.asset

theorem TransactionsConserved.assets (book : Consistent t ids) (each : TransactionsConserved t) :
    AssetsConserved t :=
  fun asset => standing_balanced book _ fun row member => each row member asset

theorem TransactionsConserved.enroll {row : AccountRow} (book : Consistent t ids)
    (each : TransactionsConserved t) : TransactionsConserved (t.enroll row) := by
  intro other member asset
  have same : (t.enroll row).within asset (t.lines other.id) = t.within asset (t.lines other.id) :=
    t.within_enroll asset row (book.lines_covered other.id)
  change total .debit ((t.enroll row).within asset (t.lines other.id)) =
    total .credit ((t.enroll row).within asset (t.lines other.id))
  rw [same]
  exact each other member asset

theorem TransactionsConserved.settle {id status : Int} {postedAt : Option Int}
    {updates : List BalanceUpdate} (each : TransactionsConserved t) :
    TransactionsConserved (t.settle id status postedAt updates) := by
  intro other member asset
  obtain ⟨old, inside, rfl⟩ := List.mem_map.mp member
  rw [Tables.within_settle, Consistent.lines_settle, TransactionRow.settled_id]
  exact each old inside asset

/-- A new transaction decides whether assets stay conserved. -/
theorem TransactionsConserved.hold {row : TransactionRow} {rows updates}
    (book : Consistent t ids) (holds : Holds t ids row rows updates)
    (each : TransactionsConserved t) :
    TransactionsConserved (t.hold row rows updates) ↔
      ∀ asset, InBalance (t.within asset (rows.map EntryRow.line)) := by
  have new : (t.hold row rows updates).lines row.id = rows.map EntryRow.line := by
    rw [Tables.lines, book.entriesOf_hold holds, if_pos rfl]
  constructor
  · intro all asset
    have here := all row (List.mem_append_right _ List.mem_cons_self) asset
    rwa [Tables.within_hold, new] at here
  · intro balanced other member asset
    rw [Tables.within_hold]
    rcases List.mem_append.mp member with old | added
    · have different : row.id ≠ other.id := by
        intro same
        have there := book.transaction?_of_mem old
        rw [← same, holds.fresh] at there
        cases there
      rw [Tables.lines, book.entriesOf_hold holds, if_neg different]
      exact each other old asset
    · rw [List.mem_singleton.mp added, new]
      exact balanced asset

theorem AssetsConserved.hold {row : TransactionRow} {rows updates}
    (holds : Holds t ids row rows updates) (whole : AssetsConserved t)
    (after : AssetsConserved (t.hold row rows updates)) :
    ∀ asset, InBalance (t.within asset (rows.map EntryRow.line)) := by
  intro asset
  have standing : (t.hold row rows updates).standing = t.standing ++ rows := by
    have all : rows.filter (fun e => decide (e.status ≠ 3)) = rows := by
      rw [List.filter_eq_self]
      intro e member
      simp [(holds.belong e member).2.1]
    rw [Tables.standing, Tables.hold, List.filter_append, all, Tables.standing]
  have before := whole asset
  have now := after asset
  rw [Tables.within_hold, standing, List.map_append, Tables.within_append, total_append,
    total_append] at now
  unfold InBalance
  omega

/-- The step at which a transaction is held decides whether assets are conserved. -/
theorem conserved_step {before after : Config server} {event : Event server}
    (safe : protocol.Safe before) (each : TransactionsConserved before.shared.tables)
    (stepped : before.step event = some after) :
    (AssetsConserved after.shared.tables ↔ keepsAssetsApart ⟨before, event, after⟩) ∧
      (TransactionsConserved after.shared.tables ↔ keepsAssetsApart ⟨before, event, after⟩) := by
  have book := safe.inv
  have later := (safe.step checked stepped).inv
  -- It is enough to treat the transactions, and what the book as a whole says of a hold.
  suffices decided : (TransactionsConserved after.shared.tables ↔
      keepsAssetsApart ⟨before, event, after⟩) ∧
      (AssetsConserved after.shared.tables → keepsAssetsApart ⟨before, event, after⟩) from
    ⟨⟨decided.2, fun met => (decided.1.mpr met).assets later⟩, decided.1⟩
  have free (none : authorizing ⟨before, event, after⟩ = none)
      (kept : TransactionsConserved after.shared.tables) :
      (TransactionsConserved after.shared.tables ↔ keepsAssetsApart ⟨before, event, after⟩) ∧
      (AssetsConserved after.shared.tables → keepsAssetsApart ⟨before, event, after⟩) := by
    simp [keepsAssetsApart, none, kept]
  cases step_books safe stepped with
  | nothing kind tables => exact free kind (tables ▸ each)
  | enroll kind _ tables => exact free kind (tables ▸ each.enroll book)
  | settle kind _ _ _ _ tables => exact free kind (tables ▸ each.settle)
  | @hold _ legs row rows updates kind _ lines _ holds tables =>
      have apart : keepsAssetsApart ⟨before, event, after⟩ = true ↔
          ∀ asset, InBalance (before.shared.tables.within asset (rows.map EntryRow.line)) := by
        simp only [keepsAssetsApart, kind, Option.all_some, balancedPerAsset_iff, lines]
      change after.shared.tables = _ at tables
      rw [tables, apart]
      exact ⟨each.hold book holds, (each.assets book).hold holds⟩

/-- In every run, assets are conserved in every state, by the book as a whole or by
    its transactions one by one, just when no authorization mixes assets. -/
theorem assets_conserved_iff (run : Steps initial trace cfg) :
    ((∀ moved ∈ trace, AssetsConserved moved.after.shared.tables) ↔
      ∀ moved ∈ trace, keepsAssetsApart moved) ∧
    ((∀ moved ∈ trace, TransactionsConserved moved.after.shared.tables) ↔
      ∀ moved ∈ trace, keepsAssetsApart moved) := by
  have step : ∀ before event after,
      protocol.Safe before ∧ TransactionsConserved before.shared.tables →
      before.step event = some after →
      (AssetsConserved after.shared.tables ↔ keepsAssetsApart ⟨before, event, after⟩) ∧
        (TransactionsConserved after.shared.tables ↔ keepsAssetsApart ⟨before, event, after⟩) ∧
          protocol.Safe after := by
    rintro before event after ⟨safe, conserved⟩ stepped
    obtain ⟨whole, each⟩ := conserved_step safe conserved stepped
    exact ⟨whole, each, safe.step checked stepped⟩
  have start : protocol.Safe initial ∧ TransactionsConserved initial.shared.tables :=
    ⟨safe .refl, nofun⟩
  let J (cfg : Config server) := protocol.Safe cfg ∧ TransactionsConserved cfg.shared.tables
  have any : ∀ moved ∈ trace, True := fun _ _ => trivial
  constructor
  · refine run.forall_after_iff (J := J)
      (P := fun cfg : Config server => AssetsConserved cfg.shared.tables) ?_ start any
    intro before event after holds stepped _
    obtain ⟨whole, each, safe⟩ := step before event after holds stepped
    exact ⟨whole, fun met => ⟨safe, each.mpr met⟩⟩
  · refine run.forall_after_iff (J := J)
      (P := fun cfg : Config server => TransactionsConserved cfg.shared.tables) ?_ start any
    intro before event after holds stepped _
    obtain ⟨whole, each, safe⟩ := step before event after holds stepped
    exact ⟨each, fun met => ⟨safe, each.mpr met⟩⟩

theorem assets_conserved_deposit : ∃ trace cfg, Steps initial trace cfg ∧
    cfg.shared.tables.standing.length = 2 ∧ (∀ moved ∈ trace, keepsAssetsApart moved = true) ∧
    ∀ moved ∈ trace, AssetsConserved moved.after.shared.tables := by
  obtain ⟨trace, cfg, run, apart, entries⟩ := reached keepsAssetsApart (deposit ("USD", "USD"))
    (fun cfg => cfg.shared.tables.standing.length) (a := 2) (by decide +kernel)
  exact ⟨trace, cfg, run, entries, apart, (assets_conserved_iff run).1.mpr apart⟩

/-- A deposit of one asset into an account of another is accepted. -/
theorem assets_mixed : ∃ trace cfg, Steps initial trace cfg ∧
    ¬ AssetsConserved cfg.shared.tables ∧ ¬ TransactionsConserved cfg.shared.tables := by
  obtain ⟨trace, cfg, run, -, totals⟩ := reached (fun _ => true) (deposit ("USD", "EUR"))
    (fun cfg =>
      let lines := cfg.shared.tables.within ("USD", 2) (cfg.shared.tables.standing.map EntryRow.line)
      (total .debit lines, total .credit lines)) (a := (100, 0)) (by decide +kernel)
  obtain ⟨debits, credits⟩ := Prod.mk.inj totals
  have mixed : ¬ AssetsConserved cfg.shared.tables := by
    intro conserved
    have same := conserved ("USD", 2)
    rw [debits, credits] at same
    cases same
  exact ⟨trace, cfg, run, mixed, fun each => mixed (each.assets (safe run).inv)⟩

end Assets
end Fides.Ledger
