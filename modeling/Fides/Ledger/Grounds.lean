import Fides.Ledger.Admission
import Fides.Ledger.Locking
import Fides.Ledger.Updates

/-! # What a refusal stands on

A handler refuses a request because of the request alone, before it has made any
call, or because of what one of its calls was answered.
-/

namespace Fides.Ledger

open Domain Service Storage FixedWidth Relational Concurrency

variable {cfg : Config server} {trace : List (Transition server)}

section Grounds

/-- Right after these calls the session made one more, with this answer. -/
def Heard (l : Session) (earlier : List Answered) (answered : Answered) : Prop :=
  earlier ++ [answered] <+: l.history

/-- The answer says that the account is not there. -/
inductive Missing (a : Int) : Answered → Prop where
  | account : Missing a ⟨.getAccount ⟨a⟩, .ok none⟩
  | locked : Missing a ⟨.getAccountForUpdate ⟨a⟩, .ok none⟩
  | cached : Missing a ⟨.cacheGet ⟨a⟩, none⟩

/-- The accounts that a request names. -/
def Names : Request → Int → Prop
  | .getAccount id, a | .getBalance id, a | .getEntries id, a => id = a
  | .authorize req _, a => ∃ leg ∈ req.legs, leg.accountId = a
  | .createAccount .., _ | .capture .., _ | .void _, _ => False

/-- An entry on the account is among those that were read. -/
def Booked (earlier : List Answered) (a : AccountId) : Prop :=
  ∃ id entries, (⟨.getEntriesForTransaction id, .ok entries⟩ : Answered) ∈ earlier ∧
    ∃ entry ∈ entries, entry.accountId = a

/-- A handler locks an account that its request names, or that an entry is on which it has read. -/
def Known (l : Session) (a : AccountId) : Prop := Names l.request a.value ∨ Booked l.history a

/-- The settlement that a request attempts. -/
inductive Attempts : Request → TransactionId → Settlement → Prop where
  | capture (id now : Int) : Attempts (.capture id now) ⟨id⟩ (.capture now)
  | void (id : Int) : Attempts (.void id) ⟨id⟩ .void

def inserts : Call → Bool
  | .createTransaction .. => true
  | _ => false

/-- The call has left a version of a transaction row. -/
def stores : Answered → Bool
  | ⟨.createTransaction .., .ok _⟩ | ⟨.updateTransactionStatus .., .ok _⟩ => true
  | _ => false

/-- What a failure stands on that a session ends with after it has made calls.  That it
    fails after the commit is ruled out later. -/
inductive Grounds (l : Session) : Failure → Prop where
  | account {a : Int} {earlier answered} (named : Names l.request a)
      (heard : Heard l earlier answered) (missing : Missing a answered) :
      Grounds l (.error (.accountNotFound a))
  | booked {a : AccountId} {earlier} (booked : Booked earlier a)
      (heard : Heard l earlier ⟨.getAccountForUpdate a, .ok none⟩) :
      Grounds l (.error (.accountNotFound a.value))
  | transaction {id kind earlier} (attempts : Attempts l.request id kind)
      (heard : Heard l earlier ⟨.getTransaction id, .ok none⟩) :
      Grounds l (.error (.transactionNotFound id.value))
  | funds {req now legs leg account balance earlier} (request : l.request = .authorize req now)
      (parsed : parseTransferLegs req.legs = .ok legs) (asked : leg ∈ legs)
      (read : (⟨.getAccountForUpdate leg.accountId, .ok (some account)⟩ : Answered) ∈ earlier)
      (reduces : reducesBalance account.normalBalance leg.entryType = true)
      (heard : Heard l earlier ⟨.cacheGet leg.accountId, some balance⟩)
      (short : balance.hasAvailable leg.amount = false) :
      Grounds l (.error
        (.insufficientFunds leg.accountId.value balance.available leg.amount.value))
  | state {id kind transaction earlier} (attempts : Attempts l.request id kind)
      (heard : Heard l earlier ⟨.getTransaction id, .ok (some transaction)⟩)
      (other : transaction.status ≠ kind.status) (settled : transaction.status ≠ .pending) :
      Grounds l (.error (.invalidTransactionState id.value transaction.status kind.attempted))
  | storage {earlier answered e} (heard : Heard l earlier answered)
      (failed : answered.error = some e)
      (first : inserts answered.call = true → (∀ before ∈ earlier, stores before = false) ∧
        ∃ req now, l.request = .authorize req now ∧
          ∃ metadata, answered.call = .createTransaction req.idempotencyKey .pending metadata now none) :
      Grounds l (.error (.ofStorage e))
  | late {e} (committed : l.summary.committed = true) : Grounds l e

variable {l l' : Session}

/-- The session has gone on from one state to the other. -/
structure Onward (l l' : Session) : Prop where
  request : l'.request = l.request
  history : l.history <+: l'.history

theorem Onward.refl (l : Session) : Onward l l := ⟨rfl, List.prefix_refl _⟩

theorem Onward.trans {l'' : Session} (first : Onward l l') (second : Onward l' l'') :
    Onward l l'' :=
  ⟨second.request.trans first.request, first.history.trans second.history⟩

theorem Onward.record (l : Session) (c : Call) (answer : c.Result) (tx : Tx) :
    Onward l (l.record c answer tx) :=
  ⟨rfl, List.prefix_append _ _⟩

/-- Whatever a program does, the session goes on. -/
theorem ensures_onward {α : Type} (p : Handler α) (l : Session) :
    server.Ensures (fun _ l' => Onward l l') p l := by
  induction p generalizing l with
  | done outcome => exact .refl l
  | call c rest ih =>
    intro weather w answer w' l' ran
    obtain ⟨tx, -, rfl⟩ := exec_eq_some ran
    exact (ih answer _).mono fun _ _ onward => (Onward.record l c answer tx).trans onward

theorem onward_steps {cfg' : Config server} (later : Steps cfg trace cfg') {i : Nat}
    {thread : Thread server} (there : cfg.threads[i]? = some thread) :
    ∃ thread', cfg'.threads[i]? = some thread' ∧ Onward thread.own thread'.own := by
  refine Config.thread_steps .refl .trans ?_ (fun l => ⟨rfl, List.prefix_rfl⟩) later there
  intro weather c w l answer w' l' ran
  obtain ⟨tx, -, rfl⟩ := exec_eq_some ran
  exact .record l c answer tx

/-- What every handler ends with, whatever the others do, every request ends with. -/
theorem ensured_run {Q : Except Failure Response → Session → Prop}
    (handlers : ∀ r, server.Ensures Q (handler r) (server.arrive r)) (run : Steps initial trace cfg)
    {i : Nat} {own : Session} {outcome : Except Failure Response}
    (ended : cfg.threads[i]? = some ⟨some (.done outcome), own⟩) : Q outcome own := by
  have all : ∀ (i : Nat) thread, cfg.threads[i]? = some thread →
      thread.prog.elim True fun p => server.Ensures Q p thread.own :=
    @Steps.invariant _ server _ _ _ _ (fun _ => True) (fun _ _ _ all stepped _ =>
      Config.ensured_step (R := fun _ => True) handlers (fun _ => trivial) all stepped)
      (by simp [initial]) run fun _ _ => trivial
  exact all i _ ended

/-- It has stored no transaction row on the way. -/
structure Looked (l l' : Session) : Prop extends Onward l l' where
  plain : (∀ before ∈ l.history, stores before = false) →
    ∀ before ∈ l'.history, stores before = false

theorem Looked.refl (l : Session) : Looked l l := ⟨.refl l, fun plain => plain⟩

theorem Looked.trans {l'' : Session} (first : Looked l l') (second : Looked l' l'') :
    Looked l l'' :=
  ⟨first.toOnward.trans second.toOnward, fun plain => second.plain (first.plain plain)⟩

theorem Looked.record (l : Session) {c : Call} {answer : c.Result}
    (reads : stores ⟨c, answer⟩ = false) (tx : Tx) : Looked l (l.record c answer tx) := by
  refine ⟨.record l c answer tx, fun plain before member => ?_⟩
  rcases List.mem_append.mp member with old | new
  · exact plain before old
  · rw [List.mem_singleton.mp new]
    exact reads

theorem Known.onward {a : AccountId} (known : Known l a) (onward : Onward l l') : Known l' a := by
  rw [Known, onward.request]
  refine known.imp_right ?_
  rintro ⟨id, entries, read, entry⟩
  exact ⟨id, entries, onward.history.subset read, entry⟩

theorem heard_last (l : Session) (c : Call) (answer : c.Result) (tx : Tx) :
    Heard (l.record c answer tx) l.history ⟨c, answer⟩ :=
  List.prefix_refl _

/-- The rollback at the end takes nothing from it. -/
private theorem Grounds.rollback {e : Failure} (grounds : Grounds l e) (tx : Tx) :
    Grounds (l.record .rollback () tx) e := by
  have longer : ∀ {earlier answered}, Heard l earlier answered →
      Heard (l.record .rollback () tx) earlier answered := fun heard =>
    heard.trans (List.prefix_append _ _)
  cases grounds with
  | account named heard missing => exact .account named (longer heard) missing
  | booked booked heard => exact .booked booked (longer heard)
  | transaction attempts heard => exact .transaction attempts (longer heard)
  | funds request parsed asked read reduces heard short =>
    exact .funds request parsed asked read reduces (longer heard) short
  | state attempts heard other settled => exact .state attempts (longer heard) other settled
  | storage heard failed first => exact .storage (longer heard) failed first
  | late committed => exact .late (by simpa [Summary.add] using committed)

end Grounds

section Programs

variable {α β : Type} {Q : α → Session → Prop} {l : Session}

def Grounded (Q : α → Session → Prop) : Except Failure α → Session → Prop
  | .ok value, l => Q value l
  | .error e, l => Grounds l e

/-- The program succeeds with what is stated, or fails for a reason it has heard. -/
def Refuses (Q : α → Session → Prop) (p : Handler α) (l : Session) : Prop :=
  server.Ensures (Grounded Q) p l

theorem Refuses.bind {R : β → Session → Prop} {p : Handler α} {next : α → Handler β}
    (first : Refuses Q p l) (last : ∀ value l', Q value l' → Refuses R (next value) l') :
    Refuses R (p >>= next) l :=
  System.Ensures.bind first (fun _ _ grounds => grounds) last

theorem Refuses.ok_bind {R : β → Session → Prop} {value : α} {next : α → Handler β}
    (rest : Refuses R (next value) l) : Refuses R (Prog.done (.ok value) >>= next) l :=
  rest

theorem Refuses.mono {R : α → Session → Prop} {p : Handler α} (refuses : Refuses Q p l)
    (weaker : ∀ value l', Q value l' → R value l') : Refuses R p l := by
  refine System.Ensures.mono (fun outcome l' grounded => ?_) refuses
  cases outcome with
  | ok value => exact weaker value l' grounded
  | error e => exact grounded

/-- A storage call whose failure is passed on. -/
theorem refuses_storage {c : Call} (read : c.Result → Except StorageError α)
    (errors : ∀ answer, (⟨c, answer⟩ : Answered).error = failure (read answer))
    (other : inserts c = false)
    (after : ∀ {weather w answer value w' tx},
      exec weather c w l = some (answer, w', l.record c answer tx) → read answer = .ok value →
      Q value (l.record c answer tx)) :
    Refuses Q (.call c fun answer => orStorageError (read answer)) l := by
  intro weather w answer w' l' ran
  obtain ⟨tx, -, rfl⟩ := exec_eq_some ran
  change server.Ensures (Grounded Q) (orStorageError (read answer)) _
  cases said : read answer with
  | ok value => exact after ran said
  | error e =>
    refine .storage (heard_last l c answer tx) (by rw [errors, said]; rfl) fun inserting => ?_
    rw [other] at inserting
    cases inserting

theorem refuses_inTransaction {Q : Response → Session → Prop} {body : Handler Response}
    (inner : ∀ tx, Refuses Q body (l.record .begin (.ok ()) tx)) :
    Refuses Q (inTransaction body) l := by
  refine .bind (Q := fun _ l' => ∃ tx, l' = l.record .begin (.ok ()) tx)
    (refuses_storage _ (fun _ => rfl) rfl fun {_ _ _ _ _ tx} _ said => ⟨tx, by cases said; rfl⟩) ?_
  rintro _ _ ⟨tx, rfl⟩
  refine System.Ensures.onError (inner tx) (fun _ _ holds => holds) ?_
  intro e l grounds weather w answer w' l' ran
  obtain ⟨tx, -, rfl⟩ := exec_eq_some ran
  exact Grounds.rollback grounds tx

/-- What comes after the commit does not matter. -/
theorem refuses_commit {next : Handler α}
    (after : ∀ l', l'.summary.committed = true → Refuses Q next l') :
    Refuses Q (commit >>= fun _ => next) l := by
  intro weather w answer w' l' ran
  obtain ⟨tx, -, rfl⟩ := exec_eq_some ran
  cases answer with
  | ok value => exact after _ (by simp [Summary.add])
  | error e =>
    have grounds : Grounds (l.record .commit (.error e) tx) (.error (.ofStorage e)) :=
      .storage (heard_last l _ _ tx) rfl (by simp [inserts])
    cases e <;> exact grounds

theorem refuses_late {result : Except ServiceError α} {response : α → Response}
    (committed : l.summary.committed = true) :
    Refuses (fun _ _ => True) (orReject result >>= fun value => pure (response value)) l := by
  cases result with
  | ok value => trivial
  | error e => exact .late committed

private theorem refuses_updateCache {next : Handler Response} (updates : List BalanceUpdate)
    (after : ∀ l', l'.summary.committed = true → Refuses (fun _ _ => True) next l')
    (committed : l.summary.committed = true) :
    Refuses (fun _ _ => True) (updateCache updates >>= fun _ => next) l := by
  induction updates generalizing l with
  | nil => exact after l committed
  | cons update updates ih =>
    intro weather w answer w' l' ran
    obtain ⟨tx, -, rfl⟩ := exec_eq_some ran
    exact ih (by simpa [Summary.add] using committed)

/-- What a session has when it has read these accounts under lock. -/
structure Got (l : Session) (ids : List AccountId) (accounts : List Account) (l' : Session) :
    Prop where
  looked : Looked l l'
  ids : accounts.map Account.id = ids
  read : ∀ account ∈ accounts,
    (⟨.getAccountForUpdate account.id, .ok (some account)⟩ : Answered) ∈ l'.history

private theorem getAccountForUpdate_id {weather : Weather} {w w' : World} {l' : Session}
    {id : AccountId} {account : Account}
    (ran : exec weather (.getAccountForUpdate id) w l = some (.ok (some account), w', l')) :
    account.id = id := by
  obtain ⟨tx, out, -⟩ := exec_eq_some (exec_fair ran rfl)
  obtain ⟨database, replied, -⟩ := storing_eq (Storage.getAccountForUpdate id) (Option.some.inj out)
  rw [getAccountForUpdate_eq] at replied
  obtain ⟨row, found, built⟩ := lookup_eq_some.mp (Prod.mk.inj replied).1
  have same : row.id = id.value := key_of_find found
  exact AccountId.ext_value ((buildAccount_ok built).1.trans same)

theorem refuses_lockAccounts {ids : List AccountId}
    (known : ∀ id ∈ ids, Known l id) :
    Refuses (Got l ids) (lockAccounts ids) l := by
  induction ids generalizing l with
  | nil => exact ⟨.refl l, rfl, by simp⟩
  | cons id ids ih =>
    refine .bind (Q := fun found l' => ∃ tx, l' = l.record (.getAccountForUpdate id) (.ok found) tx ∧
        ∀ account, found = some account → account.id = id)
      (refuses_storage _ (fun _ => rfl) rfl ?_) ?_
    · intro weather w answer value w' tx ran said
      cases said
      exact ⟨tx, rfl, fun account same => getAccountForUpdate_id (same ▸ ran)⟩
    rintro found _ ⟨tx, rfl, same⟩
    cases found with
    | none =>
      rcases known id List.mem_cons_self with named | booked
      · exact .account named (heard_last l _ _ tx) .locked
      · exact .booked booked (heard_last l _ _ tx)
    | some account =>
      have looked : Looked l (l.record (.getAccountForUpdate id) (.ok (some account)) tx) :=
        .record l rfl tx
      refine .bind (ih fun other member =>
        (known other (List.mem_cons_of_mem _ member)).onward looked.toOnward) ?_
      intro accounts l' got
      refine ⟨looked.trans got.looked, ?_, ?_⟩
      · rw [List.map_cons, same account rfl, got.ids]
      · rintro other (_ | ⟨_, member⟩)
        · rw [same account rfl]
          exact got.looked.history.subset (List.mem_append_right _ List.mem_cons_self)
        · exact got.read other member

section Legs

variable {all legs : List TransferLeg} {accounts : List Account}

theorem refuses_checkAvailable {req : AuthorizeRequest} {now : Int}
    (request : l.request = .authorize req now) (parsed : parseTransferLegs req.legs = .ok all)
    (within : ∀ leg ∈ legs, leg ∈ all)
    (ids : accounts.map Account.id = lockOrder (all.map TransferLeg.accountId))
    (read : ∀ account ∈ accounts,
      (⟨.getAccountForUpdate account.id, .ok (some account)⟩ : Answered) ∈ l.history) :
    Refuses (fun _ l' => Looked l l') (checkAvailable accounts legs) l := by
  induction legs generalizing l with
  | nil => exact .refl l
  | cons leg legs ih =>
    have asked := within leg List.mem_cons_self
    have rest : ∀ leg ∈ legs, leg ∈ all := fun other member =>
      within other (List.mem_cons_of_mem _ member)
    obtain ⟨account, found⟩ := findAccount_locked ids
      (List.mem_map_of_mem (f := TransferLeg.accountId) asked)
    unfold checkAvailable
    rw [found]
    change Refuses _ (if _ then _ else _) l
    split
    · rename_i reduces
      intro weather w answer w' l' ran
      obtain ⟨tx, -, rfl⟩ := exec_eq_some ran
      obtain ⟨member, same⟩ := findAccount_ok found
      have seen := read account member
      rw [same] at seen
      cases answer with
      | none =>
        refine .account ?_ (heard_last l _ _ tx) .cached
        rw [Session.request_record, request]
        exact ⟨legToProto leg, (parseTransferLegs_iff.mp parsed).2 ▸ List.mem_map_of_mem asked, rfl⟩
      | some balance =>
        change Refuses _ (if _ then _ else _) _
        split
        · have looked : Looked l (l.record (.cacheGet leg.accountId) (some balance) tx) :=
            .record l rfl tx
          refine Refuses.mono (ih (looked.request.trans request) rest fun account member =>
            looked.history.subset (read account member)) fun _ _ further => looked.trans further
        · rename_i short
          exact .funds request parsed asked seen reduces (heard_last l _ _ tx) (by simpa using short)
    · exact ih request rest read

/-- Every update is of an account that a delta was accumulated for. -/
private theorem accumulate_among {movement : Movement} {ids : List AccountId} {a : AccountId}
    (delta : Int) {updates : List BalanceUpdate} (member : a ∈ ids)
    (among : ∀ update ∈ updates, update.accountId ∈ ids) :
    ∀ update ∈ accumulate movement a delta updates, update.accountId ∈ ids := by
  induction updates with
  | nil => simpa [accumulate] using member
  | cons first updates ih =>
    obtain ⟨here, later⟩ := List.forall_mem_cons.mp among
    unfold accumulate
    split
    · exact List.forall_mem_cons.mpr ⟨member, later⟩
    · exact List.forall_mem_cons.mpr ⟨here, ih later⟩

theorem refuses_createEntries {transactionId : TransactionId} {now : Int}
    (within : ∀ leg ∈ legs, leg ∈ all)
    (ids : accounts.map Account.id = lockOrder (all.map TransferLeg.accountId))
    {entries : List Entry} {updates : List BalanceUpdate}
    (among : ∀ update ∈ updates, update.accountId ∈ all.map TransferLeg.accountId) :
    Refuses (fun made _ => ∀ update ∈ made.2, update.accountId ∈ all.map TransferLeg.accountId)
      (createEntries transactionId accounts now legs entries updates) l := by
  induction legs generalizing l entries updates with
  | nil => exact among
  | cons leg legs ih =>
    have named := List.mem_map_of_mem (f := TransferLeg.accountId) (within leg List.mem_cons_self)
    obtain ⟨account, found⟩ := findAccount_locked ids named
    unfold createEntries
    rw [found]
    refine .ok_bind (.bind (Q := fun _ _ => 0 < leg.amount.value ∧ 0 < now)
      (refuses_storage _ (fun _ => rfl) rfl ?_) ?_)
    · intro weather w answer value w' tx ran said
      cases said
      obtain ⟨tx, out, -⟩ := exec_eq_some (exec_fair ran rfl)
      obtain ⟨database, replied, -⟩ := storing_eq (Storage.createEntry transactionId leg.accountId
        leg.entryType leg.amount .pending now) (Option.some.inj out)
      obtain ⟨-, -, row, rfl, checked, -⟩ := createEntry_ok replied
      obtain ⟨-, amount, created, -⟩ := EntryRow.check_ok checked
      exact ⟨amount, created⟩
    · rintro id l' ⟨amount, created⟩
      obtain ⟨entry, built⟩ := Entry.new_ok id transactionId leg.accountId leg.entryType .pending
        amount created
      rw [built]
      exact ih (fun other member => within other (List.mem_cons_of_mem _ member))
        (accumulate_among _ named among)

end Legs

theorem refuses_applyBalanceUpdates {ids : List AccountId} {accounts : List Account}
    (locked : accounts.map Account.id = lockOrder ids) {updates : List BalanceUpdate}
    (among : ∀ update ∈ updates, update.accountId ∈ ids) :
    Refuses (fun _ _ => True) (applyBalanceUpdates accounts updates) l := by
  induction updates generalizing l with
  | nil => trivial
  | cons update updates ih =>
    obtain ⟨here, later⟩ := List.forall_mem_cons.mp among
    obtain ⟨account, found⟩ := findAccount_locked locked here
    unfold applyBalanceUpdates
    rw [found]
    exact .ok_bind (.bind (refuses_storage (Q := fun _ _ => True) _ (fun _ => rfl) rfl
      fun _ _ => trivial) fun _ _ _ => ih later)

private theorem collectUpdates_among {movement : Movement} {ids : List AccountId}
    {accounts : List Account} {entries : List Entry} {updates result : List BalanceUpdate}
    (within : ∀ entry ∈ entries, entry.accountId ∈ ids)
    (among : ∀ update ∈ updates, update.accountId ∈ ids)
    (collected : collectUpdates movement accounts entries updates = .ok result) :
    ∀ update ∈ result, update.accountId ∈ ids := by
  induction entries generalizing updates with
  | nil =>
    cases collected
    exact among
  | cons entry entries ih =>
    obtain ⟨here, later⟩ := List.forall_mem_cons.mp within
    unfold collectUpdates at collected
    split at collected
    · cases collected
    · exact ih later (accumulate_among _ here among) collected

end Programs

section Handlers

variable {l : Session}

private theorem refuses_authorizeNew {req : AuthorizeRequest} {now : Int} {metadata : JsonValue}
    {legs : List TransferLeg} (request : l.request = .authorize req now)
    (parsed : parseTransferLegs req.legs = .ok legs)
    (plain : ∀ before ∈ l.history, stores before = false) :
    Refuses (fun _ _ => True) (authorizeNew req now metadata legs) l := by
  have known : ∀ id ∈ lockOrder (legs.map TransferLeg.accountId), Known l id := by
    intro id member
    obtain ⟨leg, asked, rfl⟩ := List.mem_map.mp (mem_lockOrder.mp member)
    rw [Known, request]
    exact .inl ⟨legToProto leg, (parseTransferLegs_iff.mp parsed).2 ▸ List.mem_map_of_mem asked, rfl⟩
  refine .bind (refuses_lockAccounts known) fun accounts l₁ got => ?_
  refine .bind (refuses_checkAvailable (got.looked.request.trans request) parsed
    (fun _ member => member) got.ids got.read) fun _ l₂ looked => ?_
  have far := got.looked.trans looked
  intro weather w answer w' l' ran
  obtain ⟨tx, -, rfl⟩ := exec_eq_some ran
  cases answer with
  | error e =>
    exact .storage (heard_last l₂ _ _ tx) rfl fun _ =>
      ⟨far.plain plain, req, now, far.request.trans request, metadata, rfl⟩
  | ok id =>
    have none : ∀ update ∈ ([] : List BalanceUpdate),
        update.accountId ∈ legs.map TransferLeg.accountId := by simp
    change Refuses _ (createEntries id accounts now legs [] [] >>= _) _
    refine .bind (refuses_createEntries (fun _ member => member) got.ids none) ?_
    intro made _ among
    refine .bind (refuses_applyBalanceUpdates got.ids among) fun _ _ _ => ?_
    exact refuses_commit fun _ committed =>
      refuses_updateCache _ (fun _ committed => refuses_late committed) committed

private theorem refuses_settlePending {kind : Settlement} {transaction : Transaction}
    {id : TransactionId} : Refuses (fun _ _ => True) (settlePending kind transaction id) l := by
  refine .bind (Q := fun entries l' => (⟨.getEntriesForTransaction id, .ok entries⟩ : Answered) ∈
    l'.history) (refuses_storage _ (fun _ => rfl) rfl ?_) fun entries l₁ read => ?_
  · intro weather w answer entries w' tx ran said
    cases said
    exact List.mem_append_right _ List.mem_cons_self
  have known : ∀ a ∈ lockOrder (entries.map Entry.accountId), Known l₁ a := by
    intro a member
    obtain ⟨entry, listed, rfl⟩ := List.mem_map.mp (mem_lockOrder.mp member)
    exact .inr ⟨id, entries, read, entry, listed, rfl⟩
  refine .bind (refuses_lockAccounts known) fun accounts l₂ got => ?_
  have within : ∀ entry ∈ entries, entry.accountId ∈ entries.map Entry.accountId :=
    fun entry => List.mem_map_of_mem
  obtain ⟨updates, collected⟩ := collectUpdates_total kind.movement
    (fun entry member => findAccount_locked got.ids (within entry member)) []
  rw [collected]
  have among := collectUpdates_among within (by simp) collected
  have silent : ∀ {α : Type} {c : Call} {l : Session} (read : c.Result → Except StorageError α),
      (∀ answer, (⟨c, answer⟩ : Answered).error = failure (read answer)) → inserts c = false →
      Refuses (fun _ _ => True) (.call c fun answer => orStorageError (read answer)) l :=
    fun read errors other => refuses_storage read errors other fun _ _ => trivial
  refine .ok_bind (.bind (silent _ (fun _ => rfl) rfl) fun _ _ _ => ?_)
  refine .bind (silent _ (fun _ => rfl) rfl) fun _ _ _ => ?_
  refine .bind (refuses_applyBalanceUpdates got.ids among) fun _ _ _ => ?_
  exact refuses_commit fun _ committed =>
    refuses_updateCache _ (fun _ committed => refuses_late committed) committed

/-- A request that is turned down as it is. -/
def Malformed : Request → Prop
  | .createAccount req _ =>
      ¬ (1 ≤ req.accountType ∧ req.accountType ≤ 5) ∨ req.assetCode = "" ∨ 18 < req.assetScale % 256
  | .getAccount id | .getBalance id | .getEntries id | .capture id _ | .void id => id ≤ 0
  | .authorize req _ =>
      req.idempotencyKey = "" ∨ (req.metadata.text ≠ "" ∧ ∃ e, req.metadata.parsed = .error e) ∨
        (∃ leg ∈ req.legs, ¬ leg.Valid) ∨ req.legs.length < 2

/-- What a request can be refused for without any call. -/
inductive Unfit : Request → ServiceError → Prop where
  | malformed {r message} (malformed : Malformed r) : Unfit r (.invalidArgument message)
  | unbalanced {req now} (apart : typeTotal 1 req.legs ≠ typeTotal 2 req.legs) :
      Unfit (.authorize req now)
        (.unbalancedTransaction (typeTotal 1 req.legs) (typeTotal 2 req.legs))
  | overflow {req now} (large : hi 64 < typeTotal 1 req.legs ∨ hi 64 < typeTotal 2 req.legs) :
      Unfit (.authorize req now) (.internal ValidationError.sumOverflow.toString)

/-- An error is about the request alone, or about what the session has heard. -/
def Explained (outcome : Except Failure Response) (l : Session) : Prop :=
  ∀ e, outcome = .error e →
    (l.history = [] ∧ ∃ refusal, e = .error refusal ∧ Unfit l.request refusal) ∨ Grounds l e

private theorem explained_of_refuses {p : Handler Response} (refuses : Refuses (fun _ _ => True) p l) :
    server.Ensures Explained p l := by
  refine System.Ensures.mono (fun outcome l' grounded e same => ?_) refuses
  subst same
  exact .inr grounded

private theorem explained_early {refusal : ServiceError} (unasked : l.history = [])
    (unfit : Unfit l.request refusal) : Explained (.error (.error refusal)) l := by
  intro e same
  cases same
  exact .inl ⟨unasked, refusal, rfl, unfit⟩

private theorem explained_orReject {α : Type} {result : Except ServiceError α}
    {next : α → Handler Response} (unasked : l.history = [])
    (unfit : ∀ e, result = .error e → Unfit l.request e)
    (rest : ∀ value, result = .ok value → server.Ensures Explained (next value) l) :
    server.Ensures Explained (orReject result >>= next) l := by
  cases result with
  | error e => exact explained_early unasked (unfit e rfl)
  | ok value => exact rest value rfl

private theorem accountId_unfit {r : Request} {id : Int} (named : id ≤ 0 → Malformed r)
    {e : ServiceError} (refused : (AccountId.new id).mapError .ofAccount = .error e) :
    Unfit r e := by
  unfold AccountId.new at refused
  split at refused
  · rename_i low
    cases refused
    exact .malformed (named low)
  · cases refused

private theorem transactionId_unfit {r : Request} {id : Int} (named : id ≤ 0 → Malformed r)
    {e : ServiceError} (refused : (TransactionId.new id).mapError .ofTransaction = .error e) :
    Unfit r e := by
  unfold TransactionId.new at refused
  split at refused
  · rename_i low
    cases refused
    exact .malformed (named low)
  · cases refused

private theorem accountType_unfit {req : CreateAccountRequest} {now : Int} {e : ServiceError}
    (refused : protoToAccountType req.accountType = .error e) :
    Unfit (.createAccount req now) e := by
  unfold protoToAccountType at refused
  repeat (split at refused; · cases refused)
  cases refused
  refine .malformed (.inl ?_)
  omega

private theorem metadata_unfit {req : AuthorizeRequest} {now : Int} {e : ServiceError}
    (refused : parseMetadata req.metadata = .error e) : Unfit (.authorize req now) e := by
  unfold parseMetadata at refused
  split at refused
  · cases refused
  · rename_i filled
    cases parsed : req.metadata.parsed with
    | ok value =>
      rw [parsed] at refused
      cases refused
    | error message =>
      rw [parsed] at refused
      cases refused
      exact .malformed (.inr (.inl ⟨filled, message, parsed⟩))

/-- A leg that does not parse is an invalid argument. -/
private theorem parseTransferLeg_error {proto : ProtoTransferLeg} {e : ServiceError}
    (refused : parseTransferLeg proto = .error e) : ∃ message, e = .invalidArgument message := by
  unfold parseTransferLeg at refused
  split at refused
  · cases refused
    exact ⟨_, rfl⟩
  split at refused
  · rename_i failed
    cases refused
    unfold protoToEntryType at failed
    repeat (split at failed; · cases failed)
    cases failed
    exact ⟨_, rfl⟩
  split at refused
  · cases refused
    exact ⟨_, rfl⟩
  split at refused <;> cases refused
  exact ⟨_, rfl⟩

private theorem parseTransferLegs_error {protos : List ProtoTransferLeg} {e : ServiceError}
    (refused : parseTransferLegs protos = .error e) : ∃ message, e = .invalidArgument message := by
  induction protos with
  | nil => cases refused
  | cons proto protos ih =>
    unfold parseTransferLegs at refused
    split at refused
    · rename_i failed
      cases refused
      exact parseTransferLeg_error failed
    · split at refused
      · rename_i failed
        cases refused
        exact ih failed
      · cases refused

private theorem legs_unfit {req : AuthorizeRequest} {now : Int} {e : ServiceError}
    (refused : parseTransferLegs req.legs = .error e) : Unfit (.authorize req now) e := by
  obtain ⟨message, rfl⟩ := parseTransferLegs_error refused
  refine .malformed (.inr (.inr (.inl ?_)))
  by_contra valid
  push Not at valid
  obtain ⟨legs, parsed⟩ := exists_parsed valid
  cases parsed.symm.trans refused

private theorem balance_unfit {req : AuthorizeRequest} {now : Int} {legs : List TransferLeg}
    {e : ServiceError} (parsed : parseTransferLegs req.legs = .ok legs)
    (refused : (validateTransactionBalance legs).mapError .ofValidation = .error e) :
    Unfit (.authorize req now) e := by
  rw [validate_parsed parsed] at refused
  split at refused
  · rename_i few
    cases refused
    exact .malformed (.inr (.inr (.inr few)))
  split at refused
  · rename_i large
    cases refused
    exact .overflow large
  split at refused
  · rename_i apart
    cases refused
    exact .unbalanced apart
  · cases refused

private theorem refuses_read {α : Type} {c : Call} {next : α → Handler Response}
    (read : c.Result → Except StorageError α)
    (errors : ∀ answer, (⟨c, answer⟩ : Answered).error = failure (read answer))
    (other : inserts c = false)
    (after : ∀ answer value tx, read answer = .ok value →
      Refuses (fun _ _ => True) (next value) (l.record c answer tx)) :
    Refuses (fun _ _ => True) (.call c (fun answer => orStorageError (read answer)) >>= next) l :=
  .bind (Q := fun value l' => Refuses (fun _ _ => True) (next value) l')
    (refuses_storage read errors other fun _ said => after _ _ _ said) fun _ _ rest => rest

private theorem explained_createAccount (req : CreateAccountRequest) (now : Int)
    (request : l.request = .createAccount req now) (unasked : l.history = []) :
    server.Ensures Explained (createAccount req now) l := by
  refine explained_orReject unasked (fun e refused => request ▸ accountType_unfit refused) ?_
  intro accountType _
  dsimp only
  split
  · rename_i empty
    exact explained_early unasked (request ▸ .malformed (.inr (.inl empty)))
  split
  · rename_i large
    exact explained_early unasked (request ▸ .malformed (.inr (.inr (by omega))))
  · apply explained_of_refuses
    refine refuses_inTransaction fun tx => ?_
    refine refuses_read _ (fun _ => rfl) rfl fun answer id tx said => ?_
    refine refuses_commit fun l' committed => ?_
    intro weather w answer w' l'' ran
    obtain ⟨tx, -, rfl⟩ := exec_eq_some ran
    exact refuses_late (by simpa [Summary.add] using committed)

/-- A request that only names an account goes on if the id can be one. -/
private theorem explained_named {id : Int} {next : AccountId → Handler Response}
    (malformed : id ≤ 0 → Malformed l.request) (unasked : l.history = [])
    (refuses : Refuses (fun _ _ => True) (next ⟨id⟩) l) : server.Ensures Explained
      (orReject ((AccountId.new id).mapError .ofAccount) >>= next) l := by
  refine explained_orReject unasked (fun e refused => accountId_unfit malformed refused) ?_
  intro a built
  cases AccountId.new_eq_ok (mapError_eq_ok.mp built)
  exact explained_of_refuses refuses

/-- A request that first reads the account it names is refused if there is none. -/
private theorem refuses_unknown {id : Int} {next : Option Account → Handler Response}
    (named : Names l.request id) (missing : next none = reject (.accountNotFound id))
    (known : ∀ account l', Refuses (fun _ _ => True) (next (some account)) l') :
    Refuses (fun _ _ => True) (inTransaction (getAccountRow ⟨id⟩ >>= next)) l := by
  refine refuses_inTransaction fun tx => ?_
  refine refuses_read _ (fun _ => rfl) rfl fun answer found tx' said => ?_
  cases said
  cases found with
  | none =>
    rw [missing]
    exact .account named (heard_last _ _ _ tx') .account
  | some account => exact known account _

private theorem explained_getAccount (id : Int) (request : l.request = .getAccount id)
    (unasked : l.history = []) : server.Ensures Explained (getAccount id) l := by
  refine explained_named (by simp [request, Malformed]) unasked ?_
  refine refuses_unknown (by simp [request, Names]) rfl fun account l' => ?_
  exact refuses_commit fun _ _ => trivial

private theorem explained_getEntries (id : Int) (request : l.request = .getEntries id)
    (unasked : l.history = []) : server.Ensures Explained (getEntries id) l := by
  refine explained_named (by simp [request, Malformed]) unasked ?_
  refine refuses_unknown (by simp [request, Names]) rfl fun account l' => ?_
  exact refuses_read _ (fun _ => rfl) rfl fun _ _ _ _ => refuses_commit fun _ _ => trivial

private theorem explained_getBalance (id : Int) (request : l.request = .getBalance id)
    (unasked : l.history = []) : server.Ensures Explained (getBalance id) l := by
  refine explained_named (by simp [request, Malformed]) unasked fun weather w answer w' l' ran => ?_
  obtain ⟨tx, -, rfl⟩ := exec_eq_some ran
  cases answer with
  | none => exact .account (by simp [request, Names]) (heard_last _ _ _ tx) .cached
  | some balance => trivial

private theorem explained_authorize (req : AuthorizeRequest) (now : Int)
    (request : l.request = .authorize req now) (unasked : l.history = []) :
    server.Ensures Explained (authorize req now) l := by
  unfold authorize
  split
  · rename_i empty
    exact explained_early unasked (request ▸ .malformed (.inl empty))
  refine explained_orReject unasked (fun e refused => request ▸ metadata_unfit refused) ?_
  intro metadata _
  refine explained_orReject unasked (fun e refused => request ▸ legs_unfit refused) ?_
  intro legs parsed
  refine explained_orReject unasked (fun e refused => request ▸ balance_unfit parsed refused) ?_
  intro _ _
  refine explained_of_refuses (refuses_inTransaction fun tx => ?_)
  refine refuses_read _ (fun _ => rfl) rfl fun answer found tx' said => ?_
  cases said
  cases found with
  | none =>
    refine refuses_authorizeNew request parsed fun before member => ?_
    rw [Session.history_record, Session.history_record, unasked] at member
    rcases member with _ | ⟨_, _ | ⟨_, none⟩⟩
    · rfl
    · rfl
    · cases none
  | some existing =>
    exact refuses_read _ (fun _ => rfl) rfl fun _ _ _ _ => refuses_commit fun _ _ => trivial

private theorem explained_settle {kind : Settlement} {id : Int}
    (attempts : Attempts l.request ⟨id⟩ kind) (malformed : id ≤ 0 → Malformed l.request)
    (unasked : l.history = []) : server.Ensures Explained (settle kind id) l := by
  refine explained_orReject unasked (fun e refused => transactionId_unfit malformed refused) ?_
  intro a built
  cases TransactionId.new_eq_ok (mapError_eq_ok.mp built)
  refine explained_of_refuses (refuses_inTransaction fun tx => ?_)
  refine refuses_read _ (fun _ => rfl) rfl fun answer found tx' said => ?_
  cases said
  cases found with
  | none => exact .transaction attempts (heard_last _ _ _ tx')
  | some transaction =>
    change Refuses _ (if _ then _ else _) _
    split
    · exact refuses_commit fun _ _ => trivial
    rename_i other
    split
    · rename_i settled
      exact .state attempts (heard_last _ _ _ tx') other settled
    · exact refuses_settlePending

private theorem explained_handler (r : Request) :
    server.Ensures Explained (handler r) (server.arrive r) := by
  cases r with
  | createAccount req now => exact explained_createAccount req now rfl rfl
  | getAccount id => exact explained_getAccount id rfl rfl
  | getBalance id => exact explained_getBalance id rfl rfl
  | authorize req now => exact explained_authorize req now rfl rfl
  | capture id now => exact explained_settle (.capture id now) (fun low => low) rfl
  | void id => exact explained_settle (.void id) (fun low => low) rfl
  | getEntries id => exact explained_getEntries id rfl rfl

theorem explained_run (run : Steps initial trace cfg) {i : Nat} {own : Session}
    {outcome : Except Failure Response}
    (ended : cfg.threads[i]? = some ⟨some (.done outcome), own⟩) : Explained outcome own :=
  ensured_run explained_handler run ended

end Handlers

end Fides.Ledger
