import Fides.Service.Calls

/-! # The handlers of the ledger service

Each handler is the program of one RPC, call by call.  The database transaction
of a handler that returns early or fails is dropped, which rolls it back.
-/

namespace Fides.Service

open Domain Storage Concurrency FixedWidth

abbrev Handler := Prog calls Failure

def reject {α : Type} (e : ServiceError) : Handler α := .fail (.error e)

/-- `?` on a result that already carries a service error. -/
def orReject {α : Type} : Except ServiceError α → Handler α
  | .ok value => .done (.ok value)
  | .error e => reject e

/-- `.map_err(ServiceError::from)?` on the answer of a storage call. -/
def orStorageError {α : Type} : Except StorageError α → Handler α
  | .ok value => .done (.ok value)
  | .error e => reject (.ofStorage e)

def begin : Handler Unit := .call .begin orStorageError

def createAccountRow (accountType : AccountType) (assetCode : String) (assetScale : Nat)
    (createdAt : Int) : Handler AccountId :=
  .call (.createAccount accountType assetCode assetScale createdAt) orStorageError

def getAccountRow (id : AccountId) : Handler (Option Account) :=
  .call (.getAccount id) orStorageError

def getAccountForUpdate (id : AccountId) : Handler (Option Account) :=
  .call (.getAccountForUpdate id) orStorageError

def createTransaction (idempotencyKey : String) (status : TransactionStatus)
    (metadata : JsonValue) (createdAt : Int) (postedAt : Option Int) : Handler TransactionId :=
  .call (.createTransaction idempotencyKey status metadata createdAt postedAt) orStorageError

def getTransaction (id : TransactionId) : Handler (Option Transaction) :=
  .call (.getTransaction id) orStorageError

def findTransactionByKey (idempotencyKey : String) : Handler (Option Transaction) :=
  .call (.findTransactionByKey idempotencyKey) orStorageError

def updateTransactionStatus (id : TransactionId) (status : TransactionStatus)
    (postedAt : Option Int) : Handler Unit :=
  .call (.updateTransactionStatus id status postedAt) orStorageError

def createEntry (transactionId : TransactionId) (accountId : AccountId) (entryType : EntryType)
    (amount : Amount) (status : EntryStatus) (createdAt : Int) : Handler EntryId :=
  .call (.createEntry transactionId accountId entryType amount status createdAt) orStorageError

def getEntriesForTransaction (id : TransactionId) : Handler (List Entry) :=
  .call (.getEntriesForTransaction id) orStorageError

def getEntriesForAccount (id : AccountId) : Handler (List Entry) :=
  .call (.getEntriesForAccount id) orStorageError

def updateEntryStatusByTransaction (id : TransactionId) (status : EntryStatus) : Handler Nat :=
  .call (.updateEntryStatusByTransaction id status) orStorageError

def updateAccountBalance (id : AccountId) (expectedVersion deltaPosted deltaPending : Int) :
    Handler Unit :=
  .call (.updateAccountBalance id expectedVersion deltaPosted deltaPending) orStorageError

def commit : Handler Unit := .call .commit fun
  | .ok () => .done (.ok ())
  | .error (.database e) => reject (.internal e.toString)
  | .error e => reject (.ofStorage e)

def rollback : Handler Unit := .call .rollback fun () => .done (.ok ())

def cacheGet (id : AccountId) : Handler (Option AccountBalance) :=
  .call (.cacheGet id) fun balance => .done (.ok balance)

def cacheApplyDelta (id : AccountId) (deltaPosted deltaPending : Int) : Handler Unit :=
  .call (.cacheApplyDelta id deltaPosted deltaPending) fun () => .done (.ok ())

def cacheSet (id : AccountId) (posted pending : Int) : Handler Unit :=
  .call (.cacheSet id posted pending) fun () => .done (.ok ())

/-- The scope of a database transaction: leaving it with an error drops it. -/
def inTransaction {α : Type} (body : Handler α) : Handler α := do
  begin
  body.onError rollback

/-- `accounts.iter().find(..).unwrap()` -/
def findAccount (accounts : List Account) (id : AccountId) : Except Failure Account :=
  match accounts.find? fun account => account.id = id with
  | some account => .ok account
  | none => .error (.panic "called Option::unwrap() on a None value")

/-- The account ids a handler locks: sorted, without repetitions. -/
def lockOrder (ids : List AccountId) : List AccountId :=
  (ids.insertionSort fun a b => a.value ≤ b.value).destutter (· ≠ ·)

def lockAccounts : List AccountId → Handler (List Account)
  | [] => .done (.ok [])
  | id :: ids => do
      match ← getAccountForUpdate id with
      | none => reject (.accountNotFound id.value)
      | some account => do
          let accounts ← lockAccounts ids
          return account :: accounts

structure BalanceUpdate where
  accountId : AccountId
  postedDelta : Int
  pendingDelta : Int
  deriving DecidableEq, Repr

/-- How a handler accumulates the delta of one leg or entry: what it pushes for
    the first one of an account, and what it makes of the totals afterwards. -/
structure Movement where
  first : Int → Int × Int
  more : Int × Int → Int → Int × Int

/-- A new hold adds to pending. -/
def Movement.hold : Movement where
  first delta := (0, delta)
  more totals delta := (totals.1, wrap 64 (totals.2 + delta))

/-- A capture moves from pending to posted. -/
def Movement.capture : Movement where
  first delta := (delta, wrap 64 (-delta))
  more totals delta := (wrap 64 (totals.1 + delta), wrap 64 (totals.2 - delta))

/-- A void removes from pending. -/
def Movement.void : Movement where
  first delta := (0, wrap 64 (-delta))
  more totals delta := (totals.1, wrap 64 (totals.2 - delta))

def accumulate (movement : Movement) (accountId : AccountId) (delta : Int) :
    List BalanceUpdate → List BalanceUpdate
  | [] => [⟨accountId, (movement.first delta).1, (movement.first delta).2⟩]
  | update :: updates =>
      if update.accountId = accountId then
        let totals := movement.more (update.postedDelta, update.pendingDelta) delta
        ⟨accountId, totals.1, totals.2⟩ :: updates
      else update :: accumulate movement accountId delta updates

def applyBalanceUpdates (accounts : List Account) : List BalanceUpdate → Handler Unit
  | [] => .done (.ok ())
  | update :: updates => do
      let account ← .done (findAccount accounts update.accountId)
      updateAccountBalance update.accountId account.version update.postedDelta update.pendingDelta
      applyBalanceUpdates accounts updates

def updateCache : List BalanceUpdate → Handler Unit
  | [] => .done (.ok ())
  | update :: updates => do
      cacheApplyDelta update.accountId update.postedDelta update.pendingDelta
      updateCache updates

def createAccount (req : CreateAccountRequest) (now : Int) : Handler Response := do
  let accountType ← orReject (protoToAccountType req.accountType)
  let assetScale := (req.assetScale % 256).toNat
  if req.assetCode = "" then
    reject (.invalidArgument "asset_code is required")
  else if assetScale > 18 then
    reject (.invalidArgument ("asset_scale " ++ toString assetScale ++ " exceeds max 18"))
  else inTransaction do
    let accountId ← createAccountRow accountType req.assetCode assetScale now
    commit
    cacheSet accountId 0 0
    let account ← orReject
      ((Account.new accountId accountType req.assetCode assetScale 0 now).mapError .ofAccount)
    return .account (accountToProto account)

def getAccount (accountId : Int) : Handler Response := do
  let id ← orReject ((AccountId.new accountId).mapError .ofAccount)
  inTransaction do
    match ← getAccountRow id with
    | none => reject (.accountNotFound id.value)
    | some account => do
        commit
        return .account (accountToProto account)

def getBalance (accountId : Int) : Handler Response := do
  let id ← orReject ((AccountId.new accountId).mapError .ofAccount)
  match ← cacheGet id with
  | none => reject (.accountNotFound id.value)
  | some balance => return .balance balance.posted balance.pending balance.available

def parseMetadata (metadata : MetadataText) : Except ServiceError JsonValue :=
  if metadata.text = "" then .ok ⟨"\x7b\x7d"⟩
  else metadata.parsed.mapError fun e => .invalidArgument ("invalid metadata json: " ++ e)

/-- The legs that take money out of the account. -/
def reducesBalance (normal : NormalBalance) (entryType : EntryType) : Bool :=
  match normal, entryType with
  | .debit, .credit => true
  | .credit, .debit => true
  | _, _ => false

def checkAvailable (accounts : List Account) : List TransferLeg → Handler Unit
  | [] => .done (.ok ())
  | leg :: legs => do
      let account ← .done (findAccount accounts leg.accountId)
      if reducesBalance account.normalBalance leg.entryType then
        match ← cacheGet leg.accountId with
        | none => reject (.accountNotFound leg.accountId.value)
        | some balance =>
            if balance.hasAvailable leg.amount then checkAvailable accounts legs
            else reject (.insufficientFunds leg.accountId.value balance.available leg.amount.value)
      else checkAvailable accounts legs

/-- The loop of `authorize` that stores the legs as pending entries and collects
    the balance updates. -/
def createEntries (transactionId : TransactionId) (accounts : List Account) (now : Int) :
    List TransferLeg → List Entry → List BalanceUpdate →
      Handler (List Entry × List BalanceUpdate)
  | [], entries, updates => .done (.ok (entries, updates))
  | leg :: legs, entries, updates => do
      let account ← .done (findAccount accounts leg.accountId)
      let entryId ← createEntry transactionId leg.accountId leg.entryType leg.amount .pending now
      let entry ← orReject ((Entry.new entryId transactionId leg.accountId leg.entryType leg.amount
        .pending now).mapError .ofEntry)
      let delta := computeBalanceDelta account.normalBalance leg.entryType leg.amount
      createEntries transactionId accounts now legs (entries ++ [entry])
        (accumulate .hold leg.accountId delta updates)

/-- The part of `authorize` after the idempotency check found nothing. -/
def authorizeNew (req : AuthorizeRequest) (now : Int) (metadata : JsonValue)
    (legs : List TransferLeg) : Handler Response := do
  let accounts ← lockAccounts (lockOrder (legs.map TransferLeg.accountId))
  checkAvailable accounts legs
  let transactionId ← createTransaction req.idempotencyKey .pending metadata now none
  let (entries, updates) ← createEntries transactionId accounts now legs [] []
  applyBalanceUpdates accounts updates
  commit
  updateCache updates
  let transaction ← orReject ((Transaction.new transactionId req.idempotencyKey .pending metadata
    now 0).mapError .ofTransaction)
  return .authorized (transactionToProto transaction) (entries.map entryToProto)

def authorize (req : AuthorizeRequest) (now : Int) : Handler Response := do
  if req.idempotencyKey = "" then
    reject (.invalidArgument "idempotency_key is required")
  else do
    let metadata ← orReject (parseMetadata req.metadata)
    let legs ← orReject (parseTransferLegs req.legs)
    orReject ((validateTransactionBalance legs).mapError .ofValidation)
    inTransaction do
      match ← findTransactionByKey req.idempotencyKey with
      | some existing => do
          let entries ← getEntriesForTransaction existing.id
          commit
          return .authorized (transactionToProto existing) (entries.map entryToProto)
      | none => authorizeNew req now metadata legs

/-- The balance updates of a settlement, from the stored entries. -/
def collectUpdates (movement : Movement) (accounts : List Account) :
    List Entry → List BalanceUpdate → Except Failure (List BalanceUpdate)
  | [], updates => .ok updates
  | entry :: entries, updates =>
      match findAccount accounts entry.accountId with
      | .error e => .error e
      | .ok account =>
          let delta := computeBalanceDelta account.normalBalance entry.entryType entry.amount
          collectUpdates movement accounts entries
            (accumulate movement entry.accountId delta updates)

/-- What `capture` and `void` differ in. -/
structure Settlement where
  movement : Movement
  status : TransactionStatus
  entryStatus : EntryStatus
  postedAt : Option Int
  attempted : String

def Settlement.capture (now : Int) : Settlement where
  movement := .capture
  status := .posted
  entryStatus := .posted
  postedAt := some now
  attempted := "capture"

def Settlement.void : Settlement where
  movement := .void
  status := .voided
  entryStatus := .voided
  postedAt := none
  attempted := "void"

/-- The part of a settlement after the transaction was read as pending. -/
def settlePending (kind : Settlement) (transaction : Transaction) (transactionId : TransactionId) :
    Handler Response := do
  let entries ← getEntriesForTransaction transactionId
  let accounts ← lockAccounts (lockOrder (entries.map Entry.accountId))
  let updates ← .done (collectUpdates kind.movement accounts entries [])
  updateTransactionStatus transactionId kind.status kind.postedAt
  let _ ← updateEntryStatusByTransaction transactionId kind.entryStatus
  applyBalanceUpdates accounts updates
  commit
  updateCache updates
  let updated ← orReject ((Transaction.new transactionId transaction.idempotencyKey kind.status
    transaction.metadata transaction.createdAt (kind.postedAt.getD 0)).mapError .ofTransaction)
  return .settled (transactionToProto updated)

def settle (kind : Settlement) (id : Int) : Handler Response := do
  let transactionId ← orReject ((TransactionId.new id).mapError .ofTransaction)
  inTransaction do
    match ← getTransaction transactionId with
    | none => reject (.transactionNotFound transactionId.value)
    | some transaction =>
        if transaction.status = kind.status then do
          commit
          return .settled (transactionToProto transaction)
        else if transaction.status ≠ .pending then
          reject (.invalidTransactionState transactionId.value transaction.status kind.attempted)
        else settlePending kind transaction transactionId

def capture (id now : Int) : Handler Response := settle (.capture now) id

def void (id : Int) : Handler Response := settle .void id

/-- The stream is filled from the list read in one query. -/
def getEntries (accountId : Int) : Handler Response := do
  let id ← orReject ((AccountId.new accountId).mapError .ofAccount)
  inTransaction do
    match ← getAccountRow id with
    | none => reject (.accountNotFound id.value)
    | some _ => do
        let entries ← getEntriesForAccount id
        commit
        return .entries (entries.map entryToProto)

def handler : Request → Handler Response
  | .createAccount req now => createAccount req now
  | .getAccount id => getAccount id
  | .getBalance id => getBalance id
  | .authorize req now => authorize req now
  | .capture id now => capture id now
  | .void id => void id
  | .getEntries id => getEntries id

/-- A restarted process fills an empty cache from the accounts table. -/
def restart (w : World) : World :=
  { w with cache := BalanceCache.new.rehydrate (loadAllBalances w.database) }

/-- The ledger server over its database. -/
@[reducible] def server : System calls where
  Shared := World
  Local := Session
  Request := Request
  Error := Failure
  Response := Response
  Choice := Weather
  exec := exec
  waits := waits
  handler := handler
  arrive request := ⟨request, .idle, []⟩
  restart := restart
  lost s := { s with tx := .idle }

/-- The server as it first starts, on an empty ledger. -/
def initial : Config server := ⟨.initial, []⟩

end Fides.Service
