import Fides.Ledger.Runs

/-! # No lost and no repeated update

The version that a handler passes to a balance update was read under the row
lock, so it is still the current one.  The version of an account therefore counts
the handlers that have updated it, and its balances are the sums of the deltas
those handlers computed.
-/

namespace Fides.Ledger

open Domain Service Storage FixedWidth Relational Concurrency

variable {cfg next : Config server} {event : Event server} {trace : List (Transition server)}

section Conflicts

/-- No balance update of the session found another version than it expected. -/
def Unconflicted (l : Session) : Prop :=
  ∀ id version posted pending entity conflicting expected actual,
    (⟨.updateAccountBalance id version posted pending,
      .error (.versionConflict entity conflicting expected actual)⟩ : Answered) ∉ l.history

private theorem exec_unconflicted {weather : Weather} {c : Call} {answer : c.Result}
    {w w' : World} {l l' : Session} (allowed : Allowed w l c)
    (ran : exec weather c w l = some (answer, w', l')) :
    ∀ id version posted pending entity conflicting expected actual,
      (⟨c, answer⟩ : Answered) ≠ ⟨.updateAccountBalance id version posted pending,
        .error (.versionConflict entity conflicting expected actual)⟩ := by
  intro id version posted pending entity conflicting expected actual same
  cases same
  obtain ⟨tx, out, -⟩ := exec_eq_some ran
  cases weather with
  | fault => cases out
  | fair =>
      obtain ⟨database, replied, -⟩ := storing_eq
        (Storage.updateAccountBalance id version posted pending) (Option.some.inj out)
      obtain ⟨-, -, row, found, current, fits⟩ := allowed
      refine updateAccountBalance_no_conflict found ?_ replied entity conflicting expected actual rfl
      rw [current, wrap_of_fits_32 fits]

theorem unconflicted_steps (run : Steps initial trace cfg) :
    ∀ (i : Nat) thread, cfg.threads[i]? = some thread → Unconflicted thread.own := by
  intro i thread there id version posted pending entity conflicting expected actual listed
  exact history_invariant (T := fun _ answered =>
    ∀ id version posted pending entity conflicting expected actual,
      answered ≠ ⟨.updateAccountBalance id version posted pending,
        .error (.versionConflict entity conflicting expected actual)⟩)
    (fun _ _ _ _ holds => holds) (fun _ allowed ran => exec_unconflicted allowed ran) run i thread
    there _ listed id version posted pending entity conflicting expected actual rfl

end Conflicts

section Columns

/-- The updates of an account among those a session has committed. -/
def updatesOf (a : Int) (s : Summary) : List BalanceUpdate :=
  s.written.filter fun update => update.accountId.value = a

/-- The number of sessions that have updated an account. -/
def updaters (cfg : Config server) (a : Int) : Int :=
  cfg.total fun l => if updatesOf a l.effects = [] then 0 else 1

/-- The sum of the deltas with which the sessions have updated an account. -/
def deltas (cfg : Config server) (a : Int) (delta : BalanceUpdate → Int) : Int :=
  cfg.total fun l => ((updatesOf a l.effects).map delta).sum

/-- A column of the account, 0 before the account is there. -/
private def columnAt (t : Tables) (a : Int) (column : AccountRow → Int) : Int :=
  (t.account? a).elim 0 column

variable {t : Tables} {ids : Sequences} {column : AccountRow → Int} {share : BalanceUpdate → Int}

private theorem columnAt_enroll {row : AccountRow} (empty : column row = 0) (a : Int) :
    columnAt (t.enroll row) a column = columnAt t a column := by
  rw [columnAt, Tables.account?_enroll, columnAt]
  cases t.account? a with
  | some old => rfl
  | none =>
      by_cases here : row.id = a
      · simp [here, empty]
      · simp [here]

private theorem columnAt_updated {t' : Tables} {updates : List BalanceUpdate} {a : Int}
    (bump : ∀ (row : AccountRow) update, column (row.bump update) = column row + share update)
    (applicable : Applicable t updates)
    (updated : t'.account? a = (t.account? a).map (AccountRow.updated updates)) :
    columnAt t' a column = columnAt t a column + (find updates a).elim 0 share := by
  rw [columnAt, updated, columnAt]
  cases there : t.account? a with
  | none =>
      have none : find updates a = none := by
        refine find_eq_none.mpr fun update member here => ?_
        obtain ⟨row, found, -⟩ := applicable update member
        have same : update.accountId.value = a := here
        rw [same, there] at found
        cases found
      simp [none]
  | some row =>
      have same : row.id = a := key_of_find there
      rw [Option.map_some, AccountRow.updated, same]
      cases find updates a with
      | none => simp
      | some update => exact bump row update

/-- Every step keeps a column equal to what the sessions have added to it. -/
private theorem column_step (safe : protocol.Safe cfg) (stepped : cfg.step event = some next)
    (bump : ∀ (row : AccountRow) update, column (row.bump update) = column row + share update)
    (empty : ∀ {t ids row}, Enrolls t ids row → column row = 0) {f : Int → Summary → Int}
    (counts : ∀ a s, Distinct s.written → f a s = (find s.written a).elim 0 share)
    (holds : ∀ a, cfg.total (fun l => f a l.effects) = columnAt cfg.shared.tables a column)
    (a : Int) :
    next.total (fun l => f a l.effects) = columnAt next.shared.tables a column := by
  have blank : f a .blank = 0 := counts a .blank (by simp [Distinct, Summary.blank])
  rw [total_effects safe stepped blank, holds]
  rcases step_committing safe stepped with ⟨none, same⟩ | ⟨own, known, commits⟩
  · rw [none, same, Option.elim_none, add_zero]
  · rw [known, Option.elim_some, commits.tables]
    have quiet : own.summary.written = [] → f a { own.summary with committed := true } = 0 := by
      intro nothing
      rw [counts a _ (by simp [Distinct, nothing]), nothing]
      rfl
    cases commits.ready with
    | reading versions summary =>
        rw [quiet (by rw [summary]; rfl), versions, add_zero]
        rfl
    | enrolling _ enrolls versions summary =>
        rw [quiet (by rw [summary]; rfl), versions, merge_enroll enrolls,
          columnAt_enroll (empty enrolls), add_zero]
    | @holding _ _ _ row rows updates _ _ _ _ _ holds _ versions summary =>
        have written : own.summary.written = updates := by rw [summary]
        rw [counts a _ (by rw [written]; exact holds.nets.distinct), versions,
          merge_hold safe.inv holds, written,
          columnAt_updated bump holds.applicable (Tables.account?_hold _ updates row rows a)]
    | @settling id status postedAt row updates _ settles found versions summary =>
        have written : own.summary.written = updates := by rw [summary]
        rw [counts a _ (by rw [written]; exact settles.nets.distinct), versions,
          merge_settle safe.inv settles found, written,
          columnAt_updated bump settles.applicable (Tables.account?_settle _ updates _ _ _ a)]

private theorem column_steps (run : Steps initial trace cfg)
    (bump : ∀ (row : AccountRow) update, column (row.bump update) = column row + share update)
    (empty : ∀ {t ids row}, Enrolls t ids row → column row = 0) {f : Int → Summary → Int}
    (counts : ∀ a s, Distinct s.written → f a s = (find s.written a).elim 0 share) :
    ∀ row ∈ cfg.shared.tables.accounts, column row = cfg.total fun l => f row.id l.effects := by
  have all : ∀ a, cfg.total (fun l => f a l.effects) = columnAt cfg.shared.tables a column := by
    refine run_invariant (fun _ => True) (P := fun cfg => ∀ a,
      cfg.total (fun l => f a l.effects) = columnAt cfg.shared.tables a column) (fun _ => rfl) ?_ run
      fun _ _ => trivial
    intro before event after safe holds stepped _
    exact column_step safe stepped bump empty counts holds
  intro row member
  rw [all, columnAt, (safe run).inv.account?_of_mem member]
  rfl

private theorem updatesOf_eq {s : Summary} (distinct : Distinct s.written) (a : Int) :
    updatesOf a s = (find s.written a).toList :=
  filter_key distinct a

private theorem column_eq_deltas (run : Steps initial trace cfg)
    (bump : ∀ (row : AccountRow) update, column (row.bump update) = column row + share update)
    (empty : ∀ {t ids row}, Enrolls t ids row → column row = 0) :
    ∀ row ∈ cfg.shared.tables.accounts, column row = deltas cfg row.id share := by
  refine column_steps run bump empty (f := fun a s => ((updatesOf a s).map share).sum) ?_
  intro a s distinct
  rw [updatesOf_eq distinct]
  cases find s.written a <;> simp

theorem posted_eq_deltas (run : Steps initial trace cfg) :
    ∀ row ∈ cfg.shared.tables.accounts,
      row.postedBalance = deltas cfg row.id BalanceUpdate.postedDelta :=
  column_eq_deltas run (fun _ _ => rfl) fun enrolls => enrolls.empty.1

theorem pending_eq_deltas (run : Steps initial trace cfg) :
    ∀ row ∈ cfg.shared.tables.accounts,
      row.pendingBalance = deltas cfg row.id BalanceUpdate.pendingDelta :=
  column_eq_deltas run (fun _ _ => rfl) fun enrolls => enrolls.empty.2.1

theorem version_eq_updaters (run : Steps initial trace cfg) :
    ∀ row ∈ cfg.shared.tables.accounts, row.version = updaters cfg row.id := by
  have one : ∀ (row : AccountRow) (update : BalanceUpdate),
      (row.bump update).version = row.version + 1 := fun _ _ => rfl
  refine column_steps run one (fun enrolls => enrolls.empty.2.2)
    (f := fun a s => if updatesOf a s = [] then 0 else 1) ?_
  intro a s distinct
  rw [updatesOf_eq distinct]
  cases find s.written a <;> simp

/-- In every run, no balance update conflicts, the version of each account counts the
    sessions that have updated it, and its balances are the sums of their deltas. -/
theorem updates_exact (run : Steps initial trace cfg) :
    (∀ (i : Nat) thread, cfg.threads[i]? = some thread → Unconflicted thread.own) ∧
    ∀ row ∈ cfg.shared.tables.accounts,
      row.version = updaters cfg row.id ∧
      row.postedBalance = deltas cfg row.id BalanceUpdate.postedDelta ∧
      row.pendingBalance = deltas cfg row.id BalanceUpdate.pendingDelta := by
  exact ⟨unconflicted_steps run, fun row member => ⟨version_eq_updaters run row member,
    posted_eq_deltas run row member, pending_eq_deltas run row member⟩⟩

theorem updates_exact_overlapping : ∃ trace cfg, Steps initial trace cfg ∧
    cfg.shared.tables.accounts.map AccountRow.version = [3, 3] ∧
    ∀ row ∈ cfg.shared.tables.accounts, row.version = updaters cfg row.id := by
  obtain ⟨trace, cfg, run, -, versions⟩ := reached (fun _ => true)
    (overlapping (.capture 1 5) (.capture 1 6))
    (fun cfg => cfg.shared.tables.accounts.map AccountRow.version) (a := [3, 3])
    (by decide +kernel)
  exact ⟨trace, cfg, run, versions, fun row member => ((updates_exact run).2 row member).1⟩

end Columns

section Touching

/-- The transactions that a session has made, and those it has settled. -/
def moved (s : Summary) : List TransactionId := s.authorized ++ s.settled.map Prod.fst

/-- A session has made or settled a transaction with an entry on the account. -/
def touches (t : Tables) (a : Int) (s : Summary) : Bool :=
  (moved s).any fun id => (t.entriesOf id.value).any fun e => e.accountId = a

private theorem touches_iff {t : Tables} {a : Int} {s : Summary} :
    touches t a s = true ↔ ∃ id ∈ moved s, ∃ line ∈ t.lines id.value, line.account = a := by
  simp [touches, Tables.lines, EntryRow.line]

/-- The book has the transactions that a session has moved, and it has updated their accounts. -/
private structure Moves (t : Tables) (s : Summary) : Prop where
  present : ∀ id ∈ moved s, ∃ row, t.transaction? id.value = some row
  accounts : ∀ a, (∃ update ∈ s.written, update.accountId.value = a) ↔
    ∃ id ∈ moved s, ∃ line ∈ t.lines id.value, line.account = a

private theorem Moves.of_none {t : Tables} {s : Summary} (none : moved s = [])
    (unwritten : s.written = []) : Moves t s where
  present := by simp [none]
  accounts := by simp [none, unwritten]

private theorem Moves.of_one {t : Tables} {s : Summary} (id : TransactionId)
    (one : moved s = [id]) (found : ∃ row, t.transaction? id.value = some row)
    (covers : ∀ a, (∃ update ∈ s.written, update.accountId.value = a) ↔
      ∃ line ∈ t.lines id.value, line.account = a) : Moves t s where
  present := by simpa [one] using found
  accounts := by simpa [one] using covers

private theorem moves_steps (run : Steps initial trace cfg) (i : Nat) (thread : Thread server)
    (there : cfg.threads[i]? = some thread) : Moves cfg.shared.tables thread.own.effects := by
  refine effects_invariant (T := fun w _ s => Moves w.tables s) (fun _ _ => .of_none rfl rfl) ?_ ?_
    run i thread there
  · intro w w' request s keeps moves
    have kept : ∀ id ∈ moved s, (∃ row, w'.tables.transaction? id.value = some row) ∧
        w'.tables.lines id.value = w.tables.lines id.value := by
      intro id member
      obtain ⟨row, found⟩ := moves.present id member
      obtain ⟨⟨row', found', -⟩, lines⟩ := keeps.lines id.value row found
      exact ⟨⟨row', found'⟩, lines⟩
    refine ⟨fun id member => (kept id member).1, fun a => (moves.accounts a).trans ?_⟩
    refine exists_congr fun id => and_congr_right fun member => ?_
    rw [(kept id member).2]
  · intro cfg next own safe commits
    have merged := commits.tables
    cases commits.ready with
    | reading _ summary | enrolling _ _ _ summary =>
        rw [summary]
        exact .of_none rfl rfl
    | @holding req now legs row rows updates _ _ _ _ _ holds _ versions summary =>
        rw [summary]
        rw [versions, merge_hold safe.inv holds] at merged
        refine .of_one ⟨row.id⟩ rfl ⟨row, ?_⟩ ?_
        · rw [merged, Tables.transaction?_hold, holds.fresh, if_pos rfl]
          rfl
        · rw [merged, Tables.lines, safe.inv.entriesOf_hold holds, if_pos rfl]
          exact holds.nets.covers
    | @settling id status postedAt row updates _ settles found versions summary =>
        rw [summary]
        rw [versions, merge_settle safe.inv settles found] at merged
        refine .of_one id rfl
          ⟨row.settled id.value (transactionStatusToI16 status) postedAt, ?_⟩ ?_
        · rw [merged, Tables.transaction?_settle, found]
          rfl
        · rw [merged, Consistent.lines_settle]
          exact settles.nets.covers

/-- The accounts that sessions have updated have entries. -/
theorem updated_used (run : Steps initial trace cfg) {i : Nat} {thread : Thread server}
    (there : cfg.threads[i]? = some thread) {update : BalanceUpdate}
    (written : update ∈ thread.own.effects.written) : ∃ id row,
      cfg.shared.tables.transaction? id = some row ∧
        ∃ line ∈ cfg.shared.tables.lines id, line.account = update.accountId.value := by
  have moves := moves_steps run i thread there
  obtain ⟨id, member, used⟩ := (moves.accounts _).mp ⟨update, written, rfl⟩
  obtain ⟨row, found⟩ := moves.present id member
  exact ⟨id.value, row, found, used⟩

/-- The version of an account counts the sessions that have made or settled a
    transaction on it. -/
theorem version_eq_touching (run : Steps initial trace cfg) :
    ∀ row ∈ cfg.shared.tables.accounts, row.version =
      cfg.threads.countP fun thread => touches cfg.shared.tables row.id thread.own.effects := by
  intro row member
  have same : ∀ thread ∈ cfg.threads, (if updatesOf row.id thread.own.effects = [] then 0 else 1) =
      if touches cfg.shared.tables row.id thread.own.effects then (1 : Int) else 0 := by
    intro thread inside
    obtain ⟨i, there⟩ := List.mem_iff_getElem?.mp inside
    have iff : touches cfg.shared.tables row.id thread.own.effects = true ↔
        updatesOf row.id thread.own.effects ≠ [] := by
      rw [touches_iff, ← (moves_steps run i thread there).accounts]
      simp [updatesOf]
    by_cases none : updatesOf row.id thread.own.effects = [] <;> simp [iff, none]
  rw [version_eq_updaters run row member, updaters, Config.total, List.map_congr_left same]
  exact Config.total_eq_countP cfg fun l : Session => touches cfg.shared.tables row.id l.effects

end Touching
end Fides.Ledger
