import Fides.Ledger.Authorizing

/-! # What a request means

The ledger as its clients may think of it while requests come one at a time: each
request looks at the tables and the cache, and is refused or makes one move of the
book.  There are no database transactions, row versions or locks here, and a new
hold or a settlement changes every balance by its net delta at once.  What a refusal
does to the sequences is left open: ids may have been drawn for it, and are skipped.
-/

namespace Fides.Contract

open Domain Storage FixedWidth Relational Bookkeeping Ledger
open Service hiding createAccount getAccount getBalance getEntries authorize authorizeNew settle

/-- The answer to a request, and the world after it. -/
abbrev Meaning := Except Failure Response × World

def refused (e : ServiceError) (w : World) : Meaning := (.error (.error e), w)

/-- A statement fails in the database. -/
def failing (e : SqlError) (w : World) : Meaning := refused (.ofStorage (.ofSqlx e)) w

/-- The columns of an account row as a response has them. -/
def accountProto (row : AccountRow) : ProtoAccount where
  id := row.id
  accountType := row.accountType
  normalBalance := match row.side with
    | .debit => 1
    | .credit => 2
  assetCode := row.assetCode
  assetScale := row.assetScale
  version := row.version
  createdAt := row.createdAt

def createAccount (req : CreateAccountRequest) (now : Int) (w : World) : Meaning :=
  match protoToAccountType req.accountType with
  | .error e => refused e w
  | .ok accountType =>
      let scale := (req.assetScale % 256).toNat
      if req.assetCode = "" then refused (.invalidArgument "asset_code is required") w
      else if scale > 18 then
        refused (.invalidArgument ("asset_scale " ++ toString scale ++ " exceeds max 18")) w
      else match varchar 16 req.assetCode with
        | .error e => failing e w
        | .ok code =>
            if hi 64 ≤ w.sequences.accounts then failing .sequenceExhausted w
            else if now ≤ 0 then failing (.checkViolation "chk_created_at") w
            else
              let id := w.sequences.accounts + 1
              let row : AccountRow := ⟨id, accountTypeToI16 accountType, code, scale, 0, 0, 0, now⟩
              (.ok (.account { accountProto row with assetCode := req.assetCode }),
                ⟨⟨w.tables.enroll row, { w.sequences with accounts := id }⟩, w.cache.set ⟨id⟩ 0 0⟩)

def getAccount (a : Int) (w : World) : Meaning :=
  if a ≤ 0 then refused (.ofAccount (.invalidId a)) w
  else match w.tables.account? a with
    | none => refused (.accountNotFound a) w
    | some row => (.ok (.account (accountProto row)), w)

def getBalance (a : Int) (w : World) : Meaning :=
  if a ≤ 0 then refused (.ofAccount (.invalidId a)) w
  else match w.cache.get ⟨a⟩ with
    | none => refused (.accountNotFound a) w
    | some balance => (.ok (.balance balance.posted balance.pending balance.available), w)

def getEntries (a : Int) (w : World) : Meaning :=
  if a ≤ 0 then refused (.ofAccount (.invalidId a)) w
  else match w.tables.account? a with
    | none => refused (.accountNotFound a) w
    | some _ => (.ok (.entries
        ((w.tables.entries.filter fun e => e.accountId = a).map EntryRow.proto)), w)

/-- The least account that the legs name and the book does not have. -/
def missingAccount (t : Tables) (legs : List TransferLeg) : Option Int :=
  ((legs.map fun leg => leg.accountId.value).filter fun a => (t.account? a).isNone).min?

/-- The first leg that takes out more than the cache shows to be available. -/
def shortfall (t : Tables) (cache : BalanceCache) (legs : List TransferLeg) : Option ServiceError :=
  legs.findSome? fun leg =>
    if t.normal leg.accountId.value = leg.entryType.side then none
    else match cache.get leg.accountId with
      | none => some (.accountNotFound leg.accountId.value)
      | some balance =>
          if leg.amount.value ≤ balance.available then none
          else some
            (.insufficientFunds leg.accountId.value balance.available leg.amount.value)

/-- What does not fit when the update is made on the row. -/
def misfit (row : AccountRow) (update : BalanceUpdate) : Option SqlError :=
  if ¬ (Fits 64 (row.postedBalance + update.postedDelta) ∧
      Fits 64 (row.pendingBalance + update.pendingDelta)) then some (.outOfRange "bigint")
  else if ¬ Fits 32 (row.version + 1) then some (.outOfRange "integer")
  else none

/-- The first update that leaves the range of a column. -/
def overflow (t : Tables) (updates : List BalanceUpdate) : Option SqlError :=
  updates.findSome? fun update => (t.account? update.accountId.value).bind (misfit · update)

def applied (cache : BalanceCache) (updates : List BalanceUpdate) : BalanceCache :=
  updates.foldl (fun cache update =>
    cache.applyDelta update.accountId update.postedDelta update.pendingDelta) cache

/-- The rows of the entries of a new transaction, with the next ids. -/
def entryRows (row : TransactionRow) (now : Int) : Int → List TransferLeg → List EntryRow
  | _, [] => []
  | last, leg :: legs => entryFor row leg now (last + 1) :: entryRows row now (last + 1) legs

/-- A new transaction is held. -/
def holding (req : AuthorizeRequest) (now : Int) (metadata : JsonValue) (legs : List TransferLeg)
    (w : World) : Meaning :=
  match jsonb metadata, varchar 64 req.idempotencyKey with
  | .error e, _ => failing e w
  | .ok _, .error e => failing e w
  | .ok metadata, .ok key =>
      if hi 64 ≤ w.sequences.transactions then failing .sequenceExhausted w
      else if now ≤ 0 then failing (.checkViolation "chk_created_at") w
      else if (w.tables.byKey? key).isSome then failing (.uniqueViolation (duplicateDetail key)) w
      else if hi 64 < w.sequences.entries + legs.length then failing .sequenceExhausted w
      else
        let id := w.sequences.transactions + 1
        let ids := ⟨w.sequences.accounts, id, w.sequences.entries + legs.length⟩
        let row : TransactionRow := ⟨id, key, 1, metadata, now, none⟩
        let rows := entryRows row now w.sequences.entries legs
        let updates := netted w.tables.normal 0 1 (legs.map TransferLeg.line)
        match overflow w.tables updates with
        | some e => failing e w
        | none =>
            (.ok (.authorized ⟨id, req.idempotencyKey, 1, now, 0⟩ (rows.map EntryRow.proto)),
              ⟨⟨w.tables.hold row rows updates, ids⟩, applied w.cache updates⟩)

/-- An authorization under a key that is not in use. -/
def authorizeNew (req : AuthorizeRequest) (now : Int) (metadata : JsonValue)
    (legs : List TransferLeg) (w : World) : Meaning :=
  match missingAccount w.tables legs with
  | some a => refused (.accountNotFound a) w
  | none => match shortfall w.tables w.cache legs with
      | some e => refused e w
      | none => holding req now metadata legs w

def authorize (req : AuthorizeRequest) (now : Int) (w : World) : Meaning :=
  if req.idempotencyKey = "" then refused (.invalidArgument "idempotency_key is required") w
  else match parseMetadata req.metadata with
    | .error e => refused e w
    | .ok metadata => match parseTransferLegs req.legs with
        | .error e => refused e w
        | .ok legs => match validateTransactionBalance legs with
            | .error e => refused (.ofValidation e) w
            | .ok () =>
                if req.idempotencyKey.toList.any (· = Char.ofNat 0) then
                  failing .invalidByteSequence w
                else match w.tables.byKey? req.idempotencyKey with
                  | some row => (.ok (.authorized row.proto
                      ((w.tables.entriesOf row.id).map EntryRow.proto)), w)
                  | none => authorizeNew req now metadata legs w

/-- What a status column stands for. -/
def statusOf (code : Int) : TransactionStatus :=
  if code = 1 then .pending else if code = 2 then .posted else if code = 3 then .voided else .failed

/-- A transaction is settled, by the share `p` of its deltas that goes to posted. -/
def settle (status : TransactionStatus) (p : Int) (postedAt : Option Int) (attempted : String)
    (id : Int) (w : World) : Meaning :=
  if id ≤ 0 then refused (.ofTransaction (.invalidId id)) w
  else match w.tables.transaction? id with
    | none => refused (.transactionNotFound id) w
    | some row =>
        let code := transactionStatusToI16 status
        if row.status = code then (.ok (.settled row.proto), w)
        else if row.status ≠ 1 then
          refused (.invalidTransactionState id (statusOf row.status) attempted) w
        else if ¬ ∀ time ∈ postedAt, 0 < time then
          failing (.checkViolation "chk_posted_at") w
        else
          let updates := netted w.tables.normal p (-1) (w.tables.lines id)
          match overflow w.tables updates with
          | some e => failing e w
          | none =>
              (.ok (.settled (row.settled id code postedAt).proto),
                ⟨⟨w.tables.settle id code postedAt updates, w.sequences⟩, applied w.cache updates⟩)

/-- The meaning of each request. -/
def meaning : Request → World → Meaning
  | .createAccount req now => createAccount req now
  | .getAccount a => getAccount a
  | .getBalance a => getBalance a
  | .authorize req now => authorize req now
  | .capture id now => settle .posted 1 (some now) "capture" id
  | .void id => settle .voided 0 none "void" id
  | .getEntries a => getEntries a

/-- One end of a request is as another one, unless it is refused up to the ids that were drawn. -/
structure Like (ended meant : Meaning) : Prop where
  outcome : ended.1 = meant.1
  tables : ended.2.tables = meant.2.tables
  cache : ended.2.cache = meant.2.cache
  sequences : ∀ response, meant.1 = .ok response → ended.2.sequences = meant.2.sequences

protected theorem Like.refl (m : Meaning) : Like m m := ⟨rfl, rfl, rfl, fun _ _ => rfl⟩

/-- The request ends in this way, and leaves this world. -/
def Serves (r : Request) (w : World) (outcome : Except Failure Response) (w' : World) : Prop :=
  Like (outcome, w') (meaning r w)

end Fides.Contract
