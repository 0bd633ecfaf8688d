import Fides.Ledger.Rules
import Fides.Ledger.Updates
import Mathlib.Data.List.Destutter

/-! # Locking accounts and updating their balances

The two loops every writing handler goes through: it locks the accounts of its
legs or entries in ascending order, and later updates the balances of the rows
it has locked, each of them once.
-/

namespace Fides.Ledger

open Domain Service Storage FixedWidth Relational

section LockOrder

private instance : IsTrans AccountId (fun a b => a.value ≤ b.value) := ⟨fun _ _ _ => le_trans⟩

private instance : Std.Total (fun a b : AccountId => a.value ≤ b.value) :=
  ⟨fun a b => le_total a.value b.value⟩

private instance : Std.Antisymm (fun a b : AccountId => a.value ≤ b.value) :=
  ⟨fun _ _ le ge => AccountId.ext_value (le_antisymm le ge)⟩

private theorem lockOrder_eq (ids : List AccountId) :
    lockOrder ids = (ids.insertionSort fun a b => a.value ≤ b.value).dedup :=
  (List.pairwise_insertionSort _ ids).destutter_eq_dedup

theorem mem_lockOrder {ids : List AccountId} {id : AccountId} : id ∈ lockOrder ids ↔ id ∈ ids := by
  rw [lockOrder_eq, List.mem_dedup, List.mem_insertionSort]

theorem lockOrder_increasing (ids : List AccountId) :
    (lockOrder ids).Pairwise fun a b => a.value < b.value := by
  rw [lockOrder_eq]
  have sorted := (List.pairwise_insertionSort (fun a b : AccountId => a.value ≤ b.value) ids).sublist
    (List.dedup_sublist _)
  have distinct := List.nodup_dedup (ids.insertionSort fun a b => a.value ≤ b.value)
  refine (sorted.and distinct).imp ?_
  rintro a b ⟨le, apart⟩
  exact lt_of_le_of_ne le fun same => apart (AccountId.ext_value same)

theorem findAccount_locked {accounts : List Account} {ids : List AccountId}
    (locked : accounts.map Account.id = lockOrder ids) {id : AccountId} (member : id ∈ ids) :
    ∃ account, findAccount accounts id = .ok account := by
  rw [← mem_lockOrder, ← locked] at member
  obtain ⟨account, inside, rfl⟩ := List.mem_map.mp member
  unfold findAccount
  cases found : accounts.find? fun other => other.id = account.id with
  | some other => exact ⟨other, rfl⟩
  | none =>
    have apart := List.find?_eq_none.mp found account inside
    simp at apart

end LockOrder

/-- A session that has gone on, keeping its locks. -/
structure Grown (l l' : Session) : Prop where
  request : l'.request = l.request
  history : ∀ answered ∈ l.history, answered ∈ l'.history
  held : ∀ r ∈ l.tx.held, r ∈ l'.tx.held

namespace Grown

variable {l l' l'' : Session}

theorem refl : Grown l l := ⟨rfl, fun _ => id, fun _ => id⟩

theorem trans (first : Grown l l') (second : Grown l' l'') : Grown l l'' where
  request := second.request.trans first.request
  history answered member := second.history answered (first.history answered member)
  held r member := second.held r (first.held r member)

theorem record {c : Call} {answer : c.Result} {tx : Tx} (held : ∀ r ∈ l.tx.held, r ∈ tx.held) :
    Grown l (l.record c answer tx) :=
  ⟨rfl, fun _ member => List.mem_append_left _ member, held⟩

end Grown

/-- The accounts are locked, and were read under the lock. -/
def Locked (w : World) (l : Session) (accounts : List Account) : Prop :=
  ∀ account ∈ accounts, .account account.id.value ∈ l.tx.held ∧
    ∃ row, w.tables.account? account.id.value = some row ∧ buildAccount row = .ok account

namespace Locked

variable {w w' : World} {l l' : Session} {accounts : List Account}

theorem stable (locked : Locked w l accounts) (keeps : Keeps l.tx.held w w') :
    Locked w' l accounts := by
  intro account member
  obtain ⟨held, row, there, built⟩ := locked account member
  exact ⟨held, row, (keeps.accounts _ held).trans there, built⟩

theorem grown (locked : Locked w l accounts) (grown : Grown l l') : Locked w l' accounts := by
  intro account member
  obtain ⟨held, rest⟩ := locked account member
  exact ⟨grown.held _ held, rest⟩

theorem knows (locked : Locked w l accounts) : Knows w.tables.normal accounts := by
  intro account member
  obtain ⟨-, row, there, built⟩ := locked account member
  rw [(buildAccount_ok built).2.2, Tables.normal, there]

end Locked

variable {w : World} {l : Session}

theorem rank_account_lt {a b : Int} (less : a < b) :
    (Resource.account a).rank < (Resource.account b).rank := by
  simpa [Resource.rank, Prod.Lex.toLex_lt_toLex] using less

/-- The accounts are locked one after the other, and nothing else is. -/
theorem meets_lockAccounts {ids : List AccountId} {next : List Account → Handler Response}
    (unwritten : Unwritten l) (increasing : ids.Pairwise fun a b => a.value < b.value)
    (below : ∀ h ∈ l.tx.held, ∀ id ∈ ids, h.rank < (Resource.account id.value).rank)
    (after : ∀ w' l' accounts, Keeps l.tx.held w w' → Unwritten l' → Grown l l' →
      Locked w' l' accounts → accounts.map Account.id = ids →
      (∀ r ∈ l'.tx.held, r ∈ l.tx.held ∨ ∃ id ∈ ids, r = .account id.value) →
      Meets (next accounts) w' l') :
    Meets (lockAccounts ids >>= next) w l := by
  induction ids generalizing w l next with
  | nil =>
      exact after w l [] .refl unwritten .refl nofun rfl fun r member => .inl member
  | cons id ids ih =>
      obtain ⟨first, rest⟩ := List.pairwise_cons.mp increasing
      rw [lockAccounts, bind_assoc]
      apply meets_getAccountForUpdate unwritten fun h held => below h held id List.mem_cons_self
      · intro w'
        exact promise_error (by rw [Session.summary_record]; exact unwritten.uncommitted)
      · intro w' row account book keeps there built
        have same : account.id = id := by
          apply AccountId.ext_value
          rw [(buildAccount_ok built).1]
          exact key_of_find there
        have grown : Grown l (l.record (.getAccountForUpdate id) (.ok (some account))
            (l.tx.lock [.account id.value])) :=
          .record fun r member => List.mem_append_left _ member
        change Meets ((lockAccounts ids >>= fun accounts => pure (account :: accounts)) >>= next) _ _
        rw [bind_assoc]
        apply ih _ rest
        · intro h held later member
          rcases List.mem_append.mp held with old | new
          · exact below h old later (List.mem_cons_of_mem _ member)
          · rw [List.mem_singleton.mp new]
            exact rank_account_lt (first later member)
        · intro w'' l' accounts keeps' unwritten' grown' locked ids_eq held
          rw [pure_bind]
          have mine : .account id.value ∈ l'.tx.held :=
            grown'.held _ (List.mem_append_right _ List.mem_cons_self)
          refine after w'' l' (account :: accounts) ?_ unwritten' (grown.trans grown') ?_ ?_ ?_
          · exact keeps.trans (keeps'.anti fun r member => List.mem_append_left _ member)
          · intro other member
            rcases List.mem_cons.mp member with rfl | inside
            · refine ⟨same ▸ mine, row, ?_, built⟩
              rw [same]
              have kept := keeps'.accounts id.value (List.mem_append_right _ List.mem_cons_self)
              exact kept.trans there
            · exact locked other inside
          · rw [List.map_cons, same, ids_eq]
          · intro r member
            rcases held r member with old | ⟨other, inside, rfl⟩
            · rcases List.mem_append.mp old with before | new
              · exact .inl before
              · exact .inr ⟨id, List.mem_cons_self, List.mem_singleton.mp new⟩
            · exact .inr ⟨other, List.mem_cons_of_mem _ inside, rfl⟩
        · exact ⟨unwritten.versions, by rw [Session.summary_record]; exact unwritten.summary⟩

theorem Applicable.stable {w' : World} {updates : List BalanceUpdate}
    (applicable : Applicable w.tables updates)
    (covered : ∀ update ∈ updates, .account update.accountId.value ∈ l.tx.held)
    (keeps : Keeps l.tx.held w w') : Applicable w'.tables updates := by
  intro update member
  obtain ⟨row, there, sound⟩ := applicable update member
  exact ⟨row, (keeps.accounts _ (covered update member)).trans there, sound⟩

/-- The ranges of the columns decide whether an update leaves a row that is sound. -/
theorem bump_sound {row : AccountRow} (sound : row.Sound) (update : BalanceUpdate) :
    (row.bump update).Sound ↔ Fits 64 (row.postedBalance + update.postedDelta) ∧
      Fits 64 (row.pendingBalance + update.pendingDelta) ∧ Fits 32 (row.version + 1) := by
  constructor
  · exact fun bumped => ⟨bumped.posted, bumped.pending, bumped.version.2⟩
  · rintro ⟨posted, pending, version⟩
    have nonneg := sound.version.1
    exact { sound with
      version := ⟨by simp only [AccountRow.bump]; omega, version⟩
      posted := posted
      pending := pending }

/-- One more update of a locked account that fits. -/
private theorem bump_applicable {w' : World} {done : List BalanceUpdate} {update : BalanceUpdate}
    {row : AccountRow} (book : Consistent w'.tables w'.sequences) (keeps : Keeps l.tx.held w w')
    (covered : ∀ update ∈ done, .account update.accountId.value ∈ l.tx.held)
    (applicable : Applicable w.tables done)
    (there : w'.tables.account? update.accountId.value = some row)
    (fitsPosted : Fits 64 (row.postedBalance + update.postedDelta))
    (fitsPending : Fits 64 (row.pendingBalance + update.pendingDelta))
    (fitsVersion : Fits 32 (row.version + 1)) : Applicable w'.tables (done ++ [update]) := by
  intro other member
  rcases List.mem_append.mp member with old | new
  · obtain ⟨before, found, sound⟩ := applicable other old
    exact ⟨before, (keeps.accounts _ (covered other old)).trans found, sound⟩
  · rw [List.mem_singleton.mp new]
    obtain ⟨sound, -⟩ := book.accountRows row (mem_of_find there)
    exact ⟨row, there, (bump_sound sound update).mpr ⟨fitsPosted, fitsPending, fitsVersion⟩⟩

/-- The balances of locked accounts are updated one after the other.  The versions
    the session leaves are those of the rows it has locked. -/
theorem meets_applyBalanceUpdates {accounts : List Account} (done : List BalanceUpdate)
    {updates : List BalanceUpdate} {next : Unit → Handler Response}
    (uncommitted : l.summary.committed = false)
    (locked : Locked w l accounts)
    (covered : ∀ update ∈ done, .account update.accountId.value ∈ l.tx.held)
    (versions : l.tx.versions.accounts = w.tables.bumped done)
    (distinct : Distinct (done ++ updates)) (applicable : Applicable w.tables done)
    (after : ∀ w' l', Keeps l.tx.held w w' → Grown l l' →
      l'.tx.versions = { l.tx.versions with accounts := w'.tables.bumped (done ++ updates) } →
      l'.summary = { l.summary with written := l.summary.written ++ updates } →
      (∀ update ∈ done ++ updates, .account update.accountId.value ∈ l'.tx.held) →
      Applicable w'.tables (done ++ updates) → Meets (next ()) w' l') :
    Meets (applyBalanceUpdates accounts updates >>= next) w l := by
  induction updates generalizing w l done with
  | nil =>
      simp only [List.append_nil] at after
      apply after w l .refl .refl ?_ rfl covered applicable
      rw [← versions]
  | cons update updates ih =>
      rw [applyBalanceUpdates, bind_assoc]
      cases found : findAccount accounts update.accountId with
      | error e => exact promise_error uncommitted
      | ok account =>
          obtain ⟨member, same⟩ := findAccount_ok found
          obtain ⟨held, row, there, built⟩ := locked account member
          rw [same] at held there
          change Meets ((updateAccountBalance update.accountId account.version update.postedDelta
            update.pendingDelta >>= fun _ => applyBalanceUpdates accounts updates) >>= next) w l
          rw [bind_assoc, (buildAccount_ok built).2.1]
          have once : ∀ version ∈ l.tx.versions.accounts, version.id ≠ update.accountId.value := by
            intro version inside equal
            rw [versions] at inside
            have keys : version.id ∈ done.map key := by
              rw [← bumped_keys applicable]
              exact List.mem_map_of_mem inside
            rw [Distinct, List.map_append, List.nodup_append] at distinct
            exact distinct.2.2 _ keys _ List.mem_cons_self equal
          apply meets_updateAccountBalance uncommitted held there once
          intro w' book' keeps fitsPosted fitsPending fitsVersion
          have there' := (keeps.accounts _ held).trans there
          have applicable' := bump_applicable book' keeps covered applicable there' fitsPosted
            fitsPending fitsVersion
          have grown : Grown l (l.record (.updateAccountBalance update.accountId row.version
              update.postedDelta update.pendingDelta) (.ok ()) (l.tx.writeAccount
                (row.bump update))) :=
            .record fun r member => List.mem_append_left _ member
          apply ih (done ++ [update]) (by rw [Session.summary_record]; exact uncommitted)
            ((locked.stable keeps).grown grown)
          · intro other member
            rcases List.mem_append.mp member with old | new
            · exact grown.held _ (covered other old)
            · rw [List.mem_singleton.mp new]
              exact grown.held _ held
          · rw [Tables.bumped_append, Tables.bumped_congr fun other member =>
              keeps.accounts _ (covered other member), ← versions]
            simp only [Tables.bumped, List.filterMap_cons, there', Option.map_some,
              List.filterMap_nil]
            rfl
          · rwa [← List.append_cons]
          · exact applicable'
          · intro w'' l' keeps' grown' versions' summary' held' applicable''
            rw [← List.append_cons] at versions' held' applicable''
            apply after w'' l' ?_ (grown.trans grown') versions' ?_ held' applicable''
            · exact keeps.trans (keeps'.anti grown.held)
            · rw [summary', Session.summary_record]
              simp only [Summary.add, List.append_assoc, List.singleton_append]

end Fides.Ledger
