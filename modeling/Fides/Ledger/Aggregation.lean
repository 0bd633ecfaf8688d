import Fides.Ledger.Locking

/-! # Aggregating the deltas of a transaction

`authorize` aggregates the deltas of its legs, `capture` and `void` those of the
stored entries, in three copies of one loop.  The three lists of updates name
the same accounts in the same order and differ in what they make of one exact
sum per account.
-/

namespace Fides.Ledger

open Domain Service Storage FixedWidth Bookkeeping Concurrency

/-- The exact sum of the deltas of the account's legs. -/
def netDelta (types : AccountId → AccountType) (legs : List TransferLeg) (a : AccountId) : Int :=
  ((legs.filter fun leg => leg.accountId = a).map fun leg =>
    computeBalanceDelta (types a).normalBalance leg.entryType leg.amount).sum

/-- The normal sides that the account types give. -/
private def sides (types : AccountId → AccountType) (a : Int) : Side :=
  (types ⟨a⟩).normalBalance.side

private theorem netDelta_eq (types : AccountId → AccountType) {legs : List TransferLeg}
    (small : ∀ leg ∈ legs, 0 < leg.amount.value ∧ leg.amount.value ≤ hi 64) (a : AccountId) :
    netDelta types legs a = balance (sides types) (legs.map TransferLeg.line) a.value := by
  induction legs with
  | nil => rfl
  | cons leg legs ih =>
    obtain ⟨positive, bounded⟩ := small leg List.mem_cons_self
    have rest := ih fun leg member => small leg (List.mem_cons_of_mem _ member)
    rw [List.map_cons, balance_cons, ← rest, netDelta, List.filter_cons]
    by_cases here : leg.accountId = a
    · subst here
      have same : leg.line.account = leg.accountId.value := rfl
      rw [if_pos (by simp), if_pos same, List.map_cons, List.sum_cons, netDelta,
        computeBalanceDelta_eq positive.le bounded]
      rfl
    · have apart : leg.line.account ≠ a.value := fun same => here (AccountId.ext_value same)
      rw [if_neg (by simpa using here), if_neg apart, zero_add, netDelta]

section Accounts

variable {types : AccountId → AccountType} {accounts : List Account}

private theorem knows_typed (typed : ∀ account ∈ accounts, account.accountType = types account.id) :
    Knows (sides types) accounts := by
  intro account member
  rw [Account.normalBalance, typed account member]
  rfl

end Accounts

section Entering

variable {α : Type} {normal : Int → Side} {accounts : List Account}

private theorem orReject_ends {result : Except ServiceError α} {outcome : Except Failure α}
    (ends : (orReject result).Ends outcome) :
    (∃ e, outcome = .error (.error e)) ∨ ∃ value, outcome = .ok value ∧ result = .ok value := by
  cases result with
  | ok value => exact .inr ⟨value, ends.of_done, rfl⟩
  | error e => exact .inl ⟨e, ends.of_done⟩

private theorem createEntry_ends {transactionId accountId entryType amount status now}
    {outcome : Except Failure EntryId}
    (ends : (Service.createEntry transactionId accountId entryType amount status now).Ends outcome) :
    (∃ e, outcome = .error (.error e)) ∨ ∃ value, outcome = .ok value := by
  cases ends with
  | call answer ends =>
    cases answer with
    | ok value => exact .inr ⟨value, ends.of_done⟩
    | error e => exact .inl ⟨.ofStorage e, ends.of_done⟩

/-- Whatever the database answers, the loop of `authorize` ends with an error of
    the database or with the exact updates. -/
private theorem createEntries_ends (knows : Knows normal accounts) {transactionId now}
    {legs : List TransferLeg}
    (found : ∀ leg ∈ legs, ∃ account, findAccount accounts leg.accountId = .ok account)
    (before : List (Line Int)) (bounded : Bounded (before ++ legs.map TransferLeg.line))
    {entries : List Entry} {outcome : Except Failure (List Entry × List BalanceUpdate)}
    (ends : (createEntries transactionId accounts now legs entries (netted normal 0 1 before)).Ends
      outcome) :
    (∃ e, outcome = .error (.error e)) ∨
      ∃ made, made.map Entry.line = entries.map Entry.line ++ legs.map TransferLeg.line ∧
        outcome = .ok (made, netted normal 0 1 (before ++ legs.map TransferLeg.line)) := by
  induction legs generalizing before entries with
  | nil =>
    refine .inr ⟨entries, ?_⟩
    rw [List.map_nil, List.append_nil, List.append_nil]
    exact ⟨rfl, ends.of_done⟩
  | cons leg legs ih =>
    obtain ⟨account, here⟩ := found leg List.mem_cons_self
    have member : leg.line ∈ before ++ (leg :: legs).map TransferLeg.line := by simp
    have positive := bounded.positive _ member
    have small := bounded.amount_le member
    rw [List.map_cons, List.append_cons] at bounded
    rw [List.map_cons, List.append_cons (entries.map Entry.line), List.append_cons before]
    have added := accumulate_netted normal hold_scales bounded.front
    rw [createEntries, here] at ends
    rcases ends.of_bind with ⟨e, impossible, -⟩ | ⟨_, first, ends⟩
    · cases impossible
    cases first
    rcases ends.of_bind with ⟨e, failed, rfl⟩ | ⟨entryId, -, ends⟩
    · simpa using createEntry_ends failed
    rcases ends.of_bind with ⟨e, failed, rfl⟩ | ⟨entry, entered, ends⟩
    · simpa using orReject_ends failed
    have line : entry.line = leg.line := by
      rcases orReject_ends entered with ⟨e, failed⟩ | ⟨_, same, built⟩
      · cases failed
      · cases same
        obtain ⟨-, -, account, kind, amount, -⟩ := Entry.new_eq_ok (mapError_eq_ok.mp built)
        rw [Entry.line, account, kind, amount, TransferLeg.line]
    dsimp only at ends
    rw [delta_eq knows here positive.le small] at ends
    have rest := ih (fun leg member => found leg (List.mem_cons_of_mem _ member)) _ bounded
      (added ▸ ends)
    rwa [List.map_append, List.map_singleton, line] at rest

/-- A database that takes every entry lets the loop of `authorize` finish. -/
private theorem createEntries_total (accounts : List Account) (transactionId : TransactionId)
    {now : Int} (started : 0 < now) {legs : List TransferLeg}
    (found : ∀ leg ∈ legs, ∃ account, findAccount accounts leg.accountId = .ok account)
    (positive : ∀ leg ∈ legs, 0 < leg.amount.value) (entries : List Entry)
    (updates : List BalanceUpdate) :
    ∃ result, (createEntries transactionId accounts now legs entries updates).Ends (.ok result) := by
  induction legs generalizing entries updates with
  | nil => exact ⟨(entries, updates), .done _⟩
  | cons leg legs ih =>
    obtain ⟨account, here⟩ := found leg List.mem_cons_self
    obtain ⟨entry, built⟩ := Entry.new_ok ⟨1⟩ transactionId leg.accountId leg.entryType .pending
      (positive leg List.mem_cons_self) started
    obtain ⟨result, ends⟩ := ih (fun leg member => found leg (List.mem_cons_of_mem _ member))
      (fun leg member => positive leg (List.mem_cons_of_mem _ member)) (entries ++ [entry])
      (accumulate .hold leg.accountId
        (computeBalanceDelta account.normalBalance leg.entryType leg.amount) updates)
    refine ⟨result, ?_⟩
    rw [createEntries, here]
    refine Prog.Ends.bind (.done _) (Prog.Ends.bind (.call (.ok ⟨1⟩) (.done _)) ?_)
    rw [built]
    exact Prog.Ends.bind (.done _) ends

end Entering

section Prefixes

variable {legs : List TransferLeg}

private theorem take_bounded (bounded : Bounded (legs.map TransferLeg.line)) (n : Nat) :
    Bounded ((legs.take n).map TransferLeg.line) := by
  rw [← List.take_append_drop n legs, List.map_append] at bounded
  exact bounded.front

private theorem legs_small (bounded : Bounded (legs.map TransferLeg.line)) :
    ∀ leg ∈ legs, 0 < leg.amount.value ∧ leg.amount.value ≤ hi 64 := by
  intro leg member
  have listed : leg.line ∈ legs.map TransferLeg.line := List.mem_map_of_mem member
  exact ⟨bounded.positive _ listed, bounded.amount_le listed⟩

private theorem netted_legs (types : AccountId → AccountType)
    (bounded : Bounded (legs.map TransferLeg.line)) (p q : Int) :
    netted (sides types) p q (legs.map TransferLeg.line) =
      (firstAppearances (legs.map fun leg => leg.accountId.value)).map fun a =>
        ⟨⟨a⟩, p * netDelta types legs ⟨a⟩, q * netDelta types legs ⟨a⟩⟩ := by
  rw [netted, List.map_map]
  refine List.map_congr_left fun a _ => ?_
  rw [netDelta_eq types (legs_small bounded)]

private theorem fits_of_abs {x : Int} (small : |x| ≤ hi 64) : Fits 64 x ∧ Fits 64 (-x) := by
  rw [abs_le] at small
  simp only [hi] at small
  constructor <;> rw [fits_iff_64] <;> omega

end Prefixes

/-- The three loops aggregate the deltas of validated legs exactly: after any number of
    legs the updates name each account so far once, in the order of first appearance,
    with the sum `d` of its deltas as `(0, d)`, `(d, -d)` and `(0, -d)`.  No sum or
    negation on the way leaves an `i64`, and no account is looked up in vain. -/
theorem deltas_aggregated {protos : List ProtoTransferLeg} {legs : List TransferLeg}
    (parsed : parseTransferLegs protos = .ok legs)
    (valid : validateTransactionBalance legs = .ok ()) (types : AccountId → AccountType)
    {accounts : List Account}
    (locked : accounts.map Account.id = lockOrder (legs.map TransferLeg.accountId))
    (typed : ∀ account ∈ accounts, account.accountType = types account.id)
    {entries : List Entry} (stored : entries.map Entry.line = legs.map TransferLeg.line) :
    (∀ leg ∈ legs, (∃ account, findAccount accounts leg.accountId = .ok account) ∧
      Fits 64 leg.amount.value ∧ Fits 64 (-leg.amount.value)) ∧
    ∀ n, (∀ a, Fits 64 (netDelta types (legs.take n) a) ∧
        Fits 64 (-netDelta types (legs.take n) a)) ∧
      (∀ transactionId now,
        (∀ outcome, (createEntries transactionId accounts now (legs.take n) [] []).Ends outcome →
          (∃ e, outcome = .error (.error e)) ∨
          ∃ made, made.map Entry.line = (legs.take n).map TransferLeg.line ∧ outcome = .ok (made,
            (firstAppearances ((legs.take n).map fun leg => leg.accountId.value)).map fun a =>
              ⟨⟨a⟩, 0, netDelta types (legs.take n) ⟨a⟩⟩)) ∧
        (0 < now → ∃ result,
          (createEntries transactionId accounts now (legs.take n) [] []).Ends (.ok result))) ∧
      collectUpdates .capture accounts (entries.take n) [] = .ok
        ((firstAppearances ((legs.take n).map fun leg => leg.accountId.value)).map fun a =>
          ⟨⟨a⟩, netDelta types (legs.take n) ⟨a⟩, -netDelta types (legs.take n) ⟨a⟩⟩) ∧
      collectUpdates .void accounts (entries.take n) [] = .ok
        ((firstAppearances ((legs.take n).map fun leg => leg.accountId.value)).map fun a =>
          ⟨⟨a⟩, 0, -netDelta types (legs.take n) ⟨a⟩⟩) := by
  have bounded := (validated parsed valid).toBounded
  have knows := knows_typed typed
  have found : ∀ leg ∈ legs, ∃ account, findAccount accounts leg.accountId = .ok account :=
    fun leg member => findAccount_locked locked (List.mem_map_of_mem member)
  refine ⟨fun leg member => ⟨found leg member, fits_of_abs ?_⟩, fun n => ?_⟩
  · obtain ⟨positive, small⟩ := legs_small bounded leg member
    rwa [abs_of_pos positive]
  have front := take_bounded bounded n
  have same : (entries.take n).map Entry.line = (legs.take n).map TransferLeg.line := by
    rw [List.map_take, List.map_take, stored]
  have settles : ∀ movement p q, Scales movement p q →
      collectUpdates movement accounts (entries.take n) [] =
        .ok ((firstAppearances ((legs.take n).map fun leg => leg.accountId.value)).map fun a =>
          ⟨⟨a⟩, p * netDelta types (legs.take n) ⟨a⟩, q * netDelta types (legs.take n) ⟨a⟩⟩) := by
    intro movement p q scales
    have there : ∀ entry ∈ entries.take n,
        ∃ account, findAccount accounts entry.accountId = .ok account := by
      intro entry member
      have listed : entry.line ∈ legs.map TransferLeg.line :=
        stored ▸ List.mem_map_of_mem (List.mem_of_mem_take member)
      obtain ⟨leg, inside, equal⟩ := List.mem_map.mp listed
      have account : leg.accountId = entry.accountId :=
        AccountId.ext_value (congrArg Line.account equal)
      exact account ▸ found leg inside
    obtain ⟨result, collected⟩ := collectUpdates_total movement there []
    have nets := collectUpdates_netted scales knows [] (same ▸ front) collected
    rw [collected, nets, List.nil_append, same, netted_legs types front]
  have there : ∀ leg ∈ legs.take n, ∃ account, findAccount accounts leg.accountId = .ok account :=
    fun leg member => found leg (List.mem_of_mem_take member)
  refine ⟨fun a => fits_of_abs ?_,
    fun transactionId now => ⟨fun outcome ends => ?_, fun started => ?_⟩,
    ?_, ?_⟩
  · rw [netDelta_eq types (legs_small front)]
    exact front.balance_le _ _
  · have result := createEntries_ends knows there [] front ends
    rw [List.map_nil, List.nil_append, netted_legs types front] at result
    simpa only [zero_mul, one_mul] using result
  · exact createEntries_total accounts transactionId started there
      (fun leg member => (legs_small front leg member).1) [] []
  · simpa only [one_mul, neg_one_mul] using settles .capture 1 (-1) capture_scales
  · simpa only [zero_mul, neg_one_mul] using settles .void 0 (-1) void_scales

/-- Three legs that reach the limit of an `i64` in two steps. -/
private def limitLegs : List TransferLeg :=
  [⟨⟨1⟩, .debit, ⟨2 ^ 63 - 2⟩, by decide⟩, ⟨⟨2⟩, .credit, ⟨2 ^ 63 - 1⟩, by decide⟩,
    ⟨⟨1⟩, .debit, ⟨1⟩, by decide⟩]

private def limitEntries : List Entry :=
  limitLegs.filterMap fun leg =>
    (Entry.new ⟨1⟩ ⟨1⟩ leg.accountId leg.entryType leg.amount .pending 1).toOption

private def limitAccounts : List Account :=
  [(1, AccountType.asset), (2, .liability)].filterMap fun account =>
    (Account.new ⟨account.1⟩ account.2 "USD" 2 0 1).toOption

theorem deltas_aggregated_limit :
    parseTransferLegs [⟨1, 1, 2 ^ 63 - 2⟩, ⟨2, 2, 2 ^ 63 - 1⟩, ⟨1, 1, 1⟩] = .ok limitLegs ∧
      collectUpdates .capture limitAccounts (limitEntries.take 3) [] =
        .ok [⟨⟨1⟩, 2 ^ 63 - 1, -(2 ^ 63 - 1)⟩, ⟨⟨2⟩, 2 ^ 63 - 1, -(2 ^ 63 - 1)⟩] := by
  have parsed : parseTransferLegs [⟨1, 1, 2 ^ 63 - 2⟩, ⟨2, 2, 2 ^ 63 - 1⟩, ⟨1, 1, 1⟩] =
      .ok limitLegs := rfl
  have aggregated := deltas_aggregated parsed (by decide)
    (fun id => if id.value = 1 then .asset else .liability)
    (show limitAccounts.map Account.id = lockOrder (limitLegs.map TransferLeg.accountId) by decide)
    (by decide)
    (show limitEntries.map Entry.line = limitLegs.map TransferLeg.line from rfl)
  exact ⟨parsed, (aggregated.2 3).2.2.1⟩

end Fides.Ledger
