import Fides.Concurrency.Credit
import Fides.Ledger.Locking
import Fides.Ledger.Runs

/-! # How many calls a request makes

The loops of the handlers go over the legs of a request or over the entries of a
transaction, and over lists of accounts and of updates that are no longer than those.
-/

namespace Fides.Ledger

open Domain Service Storage Concurrency

variable {cfg : Config server} {trace : List (Transition server)}

/-- What the answer to a call lets a settlement do: three calls for every entry that it is told
    of, to lock the account, to update its row and to update the cache. -/
def perEntry (c : Call) (answer : c.Result) : Nat :=
  match c, answer with
  | .getEntriesForTransaction _, .ok entries => 3 * entries.length
  | _, _ => 0

/-- Only settlements go over the entries that they are told of. -/
def gain (l : Session) (c : Call) (answer : c.Result) : Nat :=
  match l.request with
  | .capture _ _ | .void _ => perEntry c answer
  | _ => 0

/-- The calls that a request is good for as it arrives. -/
def basicCalls : Request → Nat
  | .createAccount _ _ => 5
  | .getAccount _ => 4
  | .getBalance _ => 1
  | .authorize req _ => 5 * req.legs.length + 5
  | .capture _ _ | .void _ => 7
  | .getEntries _ => 5

/-- The calls that a session is good for, with what it has been told so far. -/
def allowance (l : Session) : Nat :=
  basicCalls l.request + (l.history.map fun heard => gain l heard.call heard.result).sum

section Handlers

variable {g : (c : Call) → c.Result → Nat} {α : Type}

private theorem spends_orStorageError {k : Nat} (result : Except StorageError α) (n : Nat)
    (le : k ≤ n) : (orStorageError result).Spends (I := calls) g k (fun _ => 0) n := by
  cases result <;> exact le

private theorem spends_orReject (result : Except ServiceError α) (k : Nat) :
    (orReject result).Spends (I := calls) g k (fun _ => 0) k := by
  cases result <;> exact Nat.le_refl k

private theorem spends_findAccount (accounts : List Account) (id : AccountId) (k : Nat) :
    (.done (findAccount accounts id) : Handler Account).Spends g k (fun _ => 0) k := by
  cases findAccount accounts id <;> exact Nat.le_refl k

private theorem spends_commit (k : Nat) : commit.Spends (I := calls) g k (fun _ => 0) (k + 1) := by
  intro answer
  rcases answer with (e | message | _ | _) | value <;> exact Nat.le_add_right k _

/-- A transaction takes a call to begin, and has one in reserve to be rolled back. -/
private theorem spends_inTransaction {body : Handler α} {n : Nat}
    (inner : body.Spends g 1 (fun _ => 0) n) :
    (inTransaction body).Spends (I := calls) g 0 (fun _ => 0) (n + 1) := by
  refine .call_bind n spends_orStorageError (fun _ => ?_) (Nat.zero_le n)
  exact inner.onError (fun _ => Nat.zero_le _) (Nat.zero_le 1)

private theorem spends_lockAccounts (ids : List AccountId) (k : Nat) :
    (lockAccounts ids).Spends (I := calls) g k (fun _ => 0) (k + ids.length) := by
  induction ids with
  | nil => exact Nat.le_refl k
  | cons id ids ih =>
    refine .call_bind (k + ids.length) spends_orStorageError (fun found => ?_) (Nat.le_add_right k _)
    cases found with
    | none => exact Nat.le_add_right k _
    | some account => exact ih.bind (fun _ => Nat.le_refl k) (Nat.le_refl k)

private theorem spends_checkAvailable (accounts : List Account) (legs : List TransferLeg) (k : Nat) :
    (checkAvailable accounts legs).Spends (I := calls) g k (fun _ => 0) (k + legs.length) := by
  induction legs with
  | nil => exact Nat.le_refl k
  | cons leg legs ih =>
    refine (spends_findAccount accounts leg.accountId _).bind (fun account => ?_)
      (Nat.le_add_right k _)
    split
    · refine .call_bind (k + legs.length) (fun _ _ le => le) (fun found => ?_) (Nat.le_add_right k _)
      cases found with
      | none => exact Nat.le_add_right k _
      | some balance =>
        dsimp only
        split
        · exact ih
        · exact Nat.le_add_right k _
    · exact ih.mono (by simp)

private theorem length_accumulate (movement : Movement) (id : AccountId) (delta : Int)
    (updates : List BalanceUpdate) :
    (accumulate movement id delta updates).length ≤ updates.length + 1 := by
  induction updates with
  | nil => exact Nat.le_refl 1
  | cons update updates ih =>
    rw [accumulate]
    split
    · exact Nat.le_succ _
    · exact Nat.succ_le_succ ih

/-- The loop pays for the updates that it collects as well, for their rows and for the cache. -/
private theorem spends_createEntries (transactionId : TransactionId) (accounts : List Account)
    (now : Int) (legs : List TransferLeg) (entries : List Entry) (updates : List BalanceUpdate)
    (k : Nat) :
    (createEntries transactionId accounts now legs entries updates).Spends (I := calls) g k
      (fun made => 2 * made.2.length) (k + 3 * legs.length + 2 * updates.length) := by
  induction legs generalizing entries updates with
  | nil => exact Nat.le_refl _
  | cons leg legs ih =>
    refine (spends_findAccount accounts leg.accountId _).bind (fun account => ?_) (by omega)
    have collected := length_accumulate .hold leg.accountId
      (computeBalanceDelta account.normalBalance leg.entryType leg.amount) updates
    have paid : k + 3 * (leg :: legs).length + 2 * updates.length =
        k + 3 * legs.length + 2 * (updates.length + 1) + 1 := by
      rw [List.length_cons]
      omega
    rw [Nat.add_zero, paid]
    refine .call_bind _ spends_orStorageError (fun entryId => ?_) (by omega)
    refine (spends_orReject _ _).bind (fun entry => ?_) (by omega)
    exact (ih _ _).mono (by omega)

private theorem spends_applyBalanceUpdates (accounts : List Account) (updates : List BalanceUpdate)
    (k : Nat) : (applyBalanceUpdates accounts updates).Spends (I := calls) g k (fun _ => 0)
      (k + updates.length) := by
  induction updates with
  | nil => exact Nat.le_refl k
  | cons update updates ih =>
    refine (spends_findAccount accounts update.accountId _).bind (fun account => ?_)
      (Nat.le_add_right k _)
    exact .call_bind (k + updates.length) spends_orStorageError (fun _ => ih) (Nat.le_add_right k _)

private theorem spends_updateCache (updates : List BalanceUpdate) (k : Nat) :
    (updateCache updates).Spends (I := calls) g k (fun _ => 0) (k + updates.length) := by
  induction updates with
  | nil => exact Nat.le_refl k
  | cons update updates ih =>
    exact .call_bind (k + updates.length) (fun _ _ le => le) (fun _ => ih) (Nat.le_add_right k _)

private theorem length_lockOrder (ids : List AccountId) : (lockOrder ids).length ≤ ids.length := by
  refine (List.destutter_sublist _ _).length_le.trans ?_
  rw [List.length_insertionSort]

private theorem spends_authorizeNew (req : AuthorizeRequest) (now : Int) (metadata : JsonValue)
    (legs : List TransferLeg) : (authorizeNew req now metadata legs).Spends (I := calls) g 1
      (fun _ => 0) (5 * legs.length + 3) := by
  have locks := length_lockOrder (legs.map TransferLeg.accountId)
  rw [List.length_map] at locks
  refine ((spends_lockAccounts _ (4 * legs.length + 3)).bind (fun accounts => ?_)
    (by omega)).mono (by omega)
  refine ((spends_checkAvailable accounts legs (3 * legs.length + 3)).bind (fun _ => ?_)
    (by omega)).mono (by omega)
  refine .call_bind (3 * legs.length + 2) spends_orStorageError (fun transactionId => ?_) (by omega)
  refine ((spends_createEntries transactionId accounts now legs [] [] 2).bind (fun made => ?_)
    (by omega)).mono (by rw [List.length_nil]; omega)
  obtain ⟨entries, updates⟩ := made
  refine ((spends_applyBalanceUpdates accounts updates (updates.length + 2)).bind (fun _ => ?_)
    (by omega)).mono (show updates.length + 2 + updates.length ≤ 2 + 2 * updates.length by omega)
  refine (spends_commit (updates.length + 1)).bind (fun _ => ?_) (by omega)
  refine ((spends_updateCache updates 1).bind (fun _ => ?_) (by omega)).mono (by omega)
  exact (spends_orReject _ 1).bind (fun _ => Nat.le_refl 1) (Nat.le_refl 1)

private theorem spends_authorize (req : AuthorizeRequest) (now : Int) :
    (authorize req now).Spends (I := calls) g 0 (fun _ => 0) (5 * req.legs.length + 5) := by
  unfold authorize
  split
  · exact Nat.zero_le _
  refine (spends_orReject _ _).bind (fun metadata => ?_) (Nat.zero_le _)
  cases parsed : parseTransferLegs req.legs with
  | error e => exact Nat.zero_le _
  | ok legs =>
    have same : legs.length = req.legs.length := by
      rw [← (parseTransferLegs_iff.mp parsed).2, List.length_map]
    rw [← same]
    change Prog.Spends (I := calls) g 0 _ (orReject ((validateTransactionBalance legs).mapError
      .ofValidation) >>= fun _ => inTransaction _) _
    refine (spends_orReject _ _).bind (fun _ => ?_) (Nat.zero_le _)
    apply spends_inTransaction
    refine .call_bind (5 * legs.length + 3) spends_orStorageError (fun found => ?_) (by omega)
    cases found with
    | none => exact spends_authorizeNew req now metadata legs
    | some existing =>
      refine Prog.Spends.mono ?_ (show 3 ≤ _ by omega)
      refine .call_bind 2 spends_orStorageError (fun entries => ?_) (by omega)
      exact (spends_commit 1).bind (fun _ => Nat.le_refl 1) (Nat.le_refl 1)

private theorem length_collectUpdates {movement : Movement} {accounts : List Account}
    {entries : List Entry} {updates updates' : List BalanceUpdate}
    (collected : collectUpdates movement accounts entries updates = .ok updates') :
    updates'.length ≤ updates.length + entries.length := by
  induction entries generalizing updates with
  | nil =>
    cases collected
    exact Nat.le_refl _
  | cons entry entries ih =>
    rw [collectUpdates] at collected
    split at collected
    · cases collected
    · rename_i account _
      have first := length_accumulate movement entry.accountId
        (computeBalanceDelta account.normalBalance entry.entryType entry.amount) updates
      have rest := ih collected
      rw [List.length_cons]
      omega

private theorem spends_settlePending (kind : Settlement) (transaction : Transaction)
    (id : TransactionId) : (settlePending kind transaction id).Spends (I := calls) perEntry 1
      (fun _ => 0) 5 := by
  have told : (Service.getEntriesForTransaction id).Spends (I := calls) perEntry 4
      (fun entries => 3 * entries.length) 5 := by
    intro answer
    cases answer <;> exact Nat.le_refl _
  refine told.bind (fun entries => ?_) (by omega)
  have locks := length_lockOrder (entries.map Entry.accountId)
  rw [List.length_map] at locks
  refine ((spends_lockAccounts _ (4 + 2 * entries.length)).bind (fun accounts => ?_)
    (by omega)).mono (by omega)
  cases collected : collectUpdates kind.movement accounts entries [] with
  | error e => exact (show 1 ≤ 4 + 2 * entries.length + 0 by omega)
  | ok updates =>
    have few := length_collectUpdates collected
    rw [List.length_nil, Nat.zero_add] at few
    refine Prog.Spends.mono ?_ (show 2 * updates.length + 4 ≤ _ by omega)
    refine .call_bind (2 * updates.length + 3) spends_orStorageError (fun _ => ?_) (by omega)
    refine .call_bind (2 * updates.length + 2) spends_orStorageError (fun _ => ?_) (by omega)
    refine ((spends_applyBalanceUpdates accounts updates (updates.length + 2)).bind (fun _ => ?_)
      (by omega)).mono (by omega)
    refine (spends_commit (updates.length + 1)).bind (fun _ => ?_) (by omega)
    refine ((spends_updateCache updates 1).bind (fun _ => ?_) (by omega)).mono (by omega)
    exact (spends_orReject _ 1).bind (fun _ => Nat.le_refl 1) (Nat.le_refl 1)

private theorem spends_settle (kind : Settlement) (id : Int) :
    (settle kind id).Spends (I := calls) perEntry 0 (fun _ => 0) 7 := by
  refine (spends_orReject _ 7).bind (fun transactionId => ?_) (Nat.zero_le 7)
  apply spends_inTransaction
  refine .call_bind 5 spends_orStorageError (fun found => ?_) (by omega)
  cases found with
  | none => exact Nat.le_add_left 1 4
  | some transaction =>
    change Prog.Spends (I := calls) perEntry 1 _ (if _ then _ else _) 5
    split
    · refine Prog.Spends.mono ?_ (show 2 ≤ 5 by omega)
      exact (spends_commit 1).bind (fun _ => Nat.le_refl 1) (Nat.le_refl 1)
    split
    · exact Nat.le_add_left 1 4
    · exact spends_settlePending kind transaction transactionId

private theorem spends_createAccount (req : CreateAccountRequest) (now : Int) :
    (createAccount req now).Spends (I := calls) g 0 (fun _ => 0) 5 := by
  refine (spends_orReject _ 5).bind (fun accountType => ?_) (Nat.zero_le 5)
  dsimp only
  split
  · exact Nat.zero_le 5
  split
  · exact Nat.zero_le 5
  apply spends_inTransaction
  refine .call_bind 3 spends_orStorageError (fun id => ?_) (by omega)
  refine (spends_commit 2).bind (fun _ => ?_) (by omega)
  refine .call_bind 1 (fun _ _ le => le) (fun _ => ?_) (Nat.le_refl 1)
  exact (spends_orReject _ 1).bind (fun _ => Nat.le_refl 1) (Nat.le_refl 1)

private theorem spends_getAccount (id : Int) :
    (getAccount id).Spends (I := calls) g 0 (fun _ => 0) 4 := by
  refine (spends_orReject _ 4).bind (fun id => ?_) (Nat.zero_le 4)
  apply spends_inTransaction
  refine .call_bind 2 spends_orStorageError (fun found => ?_) (by omega)
  cases found with
  | none => exact Nat.le_add_left 1 1
  | some account => exact (spends_commit 1).bind (fun _ => Nat.le_refl 1) (Nat.le_refl 1)

private theorem spends_getBalance (id : Int) :
    (getBalance id).Spends (I := calls) g 0 (fun _ => 0) 1 := by
  refine (spends_orReject _ 1).bind (fun id => ?_) (Nat.zero_le 1)
  refine .call_bind 0 (fun _ _ le => le) (fun found => ?_) (Nat.le_refl 0)
  cases found <;> exact Nat.le_refl 0

private theorem spends_getEntries (id : Int) :
    (getEntries id).Spends (I := calls) g 0 (fun _ => 0) 5 := by
  refine (spends_orReject _ 5).bind (fun id => ?_) (Nat.zero_le 5)
  apply spends_inTransaction
  refine .call_bind 3 spends_orStorageError (fun found => ?_) (by omega)
  cases found with
  | none => exact Nat.le_add_left 1 2
  | some account =>
    refine .call_bind 2 spends_orStorageError (fun entries => ?_) (by omega)
    exact (spends_commit 1).bind (fun _ => Nat.le_refl 1) (Nat.le_refl 1)

private theorem spends_handler (r : Request) :
    (handler r).Spends (I := calls) (gain (server.arrive r)) 0 (fun _ => 0) (basicCalls r) := by
  cases r with
  | createAccount req now => exact spends_createAccount req now
  | getAccount id => exact spends_getAccount id
  | getBalance id => exact spends_getBalance id
  | authorize req now => exact spends_authorize req now
  | capture id now => exact spends_settle (.capture now) id
  | void id => exact spends_settle .void id
  | getEntries id => exact spends_getEntries id

end Handlers

/-- A call counts, and its answer adds to what the session is good for. -/
private theorem exec_allowance {weather : Weather} {c : Call} {w w' : World} {l l' : Session}
    {answer : c.Result} (ran : exec weather c w l = some (answer, w', l')) :
    gain l' = gain l ∧ l'.history.length = l.history.length + 1 ∧
      allowance l' = allowance l + gain l c answer := by
  obtain ⟨tx, -, rfl⟩ := exec_eq_some ran
  refine ⟨rfl, by simp [Session.record], ?_⟩
  change basicCalls l.request + ((l.history ++ [(⟨c, answer⟩ : Answered)]).map fun heard =>
    gain l heard.call heard.result).sum = _
  rw [List.map_append, List.sum_append, ← Nat.add_assoc]
  rfl

/-- In every run no request makes more calls than it is good for: a fixed number, and five for every
    leg of an authorization or three for every entry that a settlement is told of.  The calls of
    the whole run are within the sum of that over its requests. -/
theorem calls_bounded (run : Steps initial trace cfg) :
    (∀ (i : Nat) thread, cfg.threads[i]? = some thread →
      thread.own.history.length ≤ allowance thread.own) ∧
    (trace.countP Transition.calls : Int) ≤ cfg.total fun l => allowance l := by
  have each : ∀ (i : Nat) thread, cfg.threads[i]? = some thread →
      thread.own.history.length ≤ allowance thread.own := by
    intro i thread there
    obtain ⟨credit, -, bound⟩ := Config.inCredit_steps gain (fun l : Session => l.history.length)
      allowance (fun r => ⟨rfl, spends_handler r⟩) (fun l => ⟨rfl, rfl⟩) exec_allowance
      (fun i thread absent => by cases absent) run i thread there
    exact Nat.le_of_add_right_le bound
  refine ⟨each, ?_⟩
  have counted := Config.calls_eq_total (fun l : Session => l.history.length) (fun r => rfl)
    (fun l => rfl) (fun ran => (exec_allowance ran).2.1) run
  have start : initial.total (fun l : Session => (l.history.length : Int)) = 0 := rfl
  rw [start, zero_add] at counted
  rw [counted]
  refine List.sum_le_sum fun thread member => ?_
  obtain ⟨i, there⟩ := List.mem_iff_getElem?.mp member
  exact Int.ofNat_le.mpr (each i thread there)

/-- Two accounts are opened, and a deposit of two legs is made and captured. -/
theorem calls_bounded_capture : ∃ trace cfg thread, Steps initial trace cfg ∧
    cfg.threads[3]? = some thread ∧ thread.own.history.length = 12 ∧ allowance thread.own = 13 ∧
    trace.countP Transition.calls ≤ 38 := by
  obtain ⟨trace, cfg, run, -, computed⟩ := reached (fun _ => true)
    (deposit ("USD", "USD") ++ .request (.capture 1 5) :: turns 3 12)
    (fun cfg => (cfg.threads[3]?.map (fun thread : Thread server =>
      (thread.own.history.length, allowance thread.own)), cfg.total fun l => allowance l))
    (a := (some (12, 13), 38)) (by decide +kernel)
  obtain ⟨capture, sum⟩ := Prod.mk.inj computed
  obtain ⟨thread, there, counts⟩ := Option.map_eq_some_iff.mp capture
  obtain ⟨made, good⟩ := Prod.mk.inj counts
  have bound := (calls_bounded run).2
  rw [sum] at bound
  exact ⟨trace, cfg, thread, run, there, made, good, by omega⟩

end Fides.Ledger
