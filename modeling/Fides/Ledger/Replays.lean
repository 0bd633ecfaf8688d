import Fides.Ledger.Audit
import Fides.Ledger.Caching
import Fides.Ledger.Conformance
import Fides.Ledger.Idempotency

/-! # Requests that are repeated

A response is built from the request, or from the rows a session has read.  Apart
from statuses, the rows of a transaction never change, so the book keeps what any
response has said.  A request that is repeated finds these rows, answers from them
and changes nothing.
-/

namespace Fides.Ledger

open Domain Service Storage FixedWidth Relational Concurrency

variable {cfg next : Config server} {trace : List (Transition server)}

/-- A response transaction but for what a settlement changes. -/
def withoutSettlement (transaction : ProtoTransaction) : ProtoTransaction :=
  { transaction with status := 0, postedAt := 0 }

section Memory

/-- What an answer has said of a transaction is, but for settlements, what the book has. -/
def Remembered (w : World) : Answered → Prop
  | ⟨.findTransactionByKey key, .ok (some transaction)⟩ =>
      ∃ row, w.tables.transaction? transaction.id.value = some row ∧ row.idempotencyKey = key ∧
        withoutSettlement row.proto = withoutSettlement (transactionToProto transaction)
  | ⟨.getTransaction id, .ok (some transaction)⟩ =>
      ∃ row, w.tables.transaction? id.value = some row ∧
        withoutSettlement row.proto = withoutSettlement (transactionToProto transaction)
  | ⟨.getEntriesForTransaction id, .ok entries⟩ =>
      (∃ row, w.tables.transaction? id.value = some row) ∧
        (w.tables.entriesOf id.value).map (withoutStatus ∘ EntryRow.proto) =
          entries.map (withoutStatus ∘ entryToProto)
  | _ => True

/-- What others leave of a transaction. -/
private theorem kept_transaction {w w' : World} (keeps : Keeps [] w w') {id : Int}
    {row : TransactionRow} (found : w.tables.transaction? id = some row) :
    (∃ row', w'.tables.transaction? id = some row' ∧ row'.idempotencyKey = row.idempotencyKey ∧
      withoutSettlement row'.proto = withoutSettlement row.proto) ∧
    (w'.tables.entriesOf id).map (withoutStatus ∘ EntryRow.proto) =
      (w.tables.entriesOf id).map (withoutStatus ∘ EntryRow.proto) := by
  obtain ⟨⟨row', found', columns⟩, same⟩ := keeps.fixed id row found
  refine ⟨⟨row', found', ?_, ?_⟩, ?_⟩
  · have key : row'.fixed.idempotencyKey = row.fixed.idempotencyKey := by rw [columns]
    exact key
  · exact congrArg TransactionRow.proto columns
  · rw [withoutStatus_proto, ← List.map_map, ← List.map_map, same]

private theorem Remembered.stable {w w' : World} {answered : Answered} (keeps : Keeps [] w w')
    (remembered : Remembered w answered) : Remembered w' answered := by
  unfold Remembered at remembered ⊢
  split at remembered
  · obtain ⟨row, found, rfl, same⟩ := remembered
    obtain ⟨⟨row', found', key, columns⟩, -⟩ := kept_transaction keeps found
    exact ⟨row', found', key, columns.trans same⟩
  · obtain ⟨row, found, same⟩ := remembered
    obtain ⟨⟨row', found', -, columns⟩, -⟩ := kept_transaction keeps found
    exact ⟨row', found', columns.trans same⟩
  · obtain ⟨⟨row, found⟩, same⟩ := remembered
    obtain ⟨⟨row', found', -⟩, entries⟩ := kept_transaction keeps found
    exact ⟨⟨row', found'⟩, entries.trans same⟩
  · trivial

private theorem find_remembered {weather : Weather} {key : String} {transaction : Transaction}
    {w w' : World} {l l' : Session} (book : Consistent w.tables w.sequences)
    (unwritten : l.tx.versions.transactions = [])
    (ran : exec weather (.findTransactionByKey key) w l = some (.ok (some transaction), w', l')) :
    Remembered w' ⟨.findTransactionByKey key, .ok (some transaction)⟩ := by
  obtain ⟨read, rfl⟩ := findTransactionByKey_answer unwritten ran
  obtain ⟨row, found, built⟩ := lookup_eq_some.mp read
  refine ⟨row, ?_, by simpa using List.find?_some found, by rw [transactionToProto_build built]⟩
  rw [(buildTransaction_ok built).1]
  exact book.transaction?_of_mem (List.mem_of_find?_eq_some found)

private theorem entries_remembered {weather : Weather} {id : TransactionId} {entries : List Entry}
    {w w' : World} {l l' : Session} (book : Consistent w.tables w.sequences)
    (unwritten : l.tx.versions.entries = [])
    (present : ∃ row, w.tables.transaction? id.value = some row)
    (ran : exec weather (.getEntriesForTransaction id) w l = some (.ok entries, w', l')) :
    Remembered w' ⟨.getEntriesForTransaction id, .ok entries⟩ := by
  obtain ⟨built, rfl⟩ := getEntriesForTransaction_answer book unwritten ran
  refine ⟨present, ?_⟩
  rw [← List.map_map, ← List.map_map, buildEntries_proto built]

private theorem exec_remembered {weather : Weather} {c : Call} {answer : c.Result} {w w' : World}
    {l l' : Session} (book : Consistent w.tables w.sequences) (allowed : Allowed w l c)
    (ran : exec weather c w l = some (answer, w', l')) : Remembered w' ⟨c, answer⟩ := by
  cases c with
  | findTransactionByKey key =>
      cases answer with
      | error => trivial
      | ok found =>
          cases found with
          | none => trivial
          | some transaction => exact find_remembered book allowed ran
  | getTransaction id =>
      cases answer with
      | error => trivial
      | ok found =>
          cases found with
          | none => trivial
          | some transaction =>
              obtain ⟨row, found, built⟩ := row_of_read allowed ran
              exact ⟨row, found, by rw [transactionToProto_build built]⟩
  | getEntriesForTransaction id =>
      cases answer with
      | error => trivial
      | ok entries => exact entries_remembered book allowed.1 allowed.2 ran
  | _ => trivial

/-- All that sessions were told about transactions is in the book. -/
theorem history_remembered (run : Steps initial trace cfg) :
    ∀ (i : Nat) thread, cfg.threads[i]? = some thread → ∀ answered ∈ thread.own.history,
      Remembered cfg.shared answered :=
  history_invariant (fun _ _ _ keeps remembered => remembered.stable keeps) exec_remembered run

/-- The rows of a transaction that a session has inserted. -/
theorem inserted_stored (run : Steps initial trace cfg) {i : Nat} {thread : Thread server}
    (there : cfg.threads[i]? = some thread) {req : AuthorizeRequest} {now : Int}
    (asked : thread.own.request = .authorize req now) {id : TransactionId}
    (inserted : id ∈ thread.own.effects.authorized) :
    ∃ row, cfg.shared.tables.transaction? id.value = some row ∧
      varchar 64 req.idempotencyKey = .ok row.idempotencyKey ∧ row.createdAt = now ∧
      (cfg.shared.tables.entriesOf id.value).map EntryRow.fixed =
        thread.own.effects.entered.map EntryRow.fixed := by
  refine effects_invariant (T := fun w request s => ∀ req now, request = .authorize req now →
    ∀ id ∈ s.authorized, ∃ row, w.tables.transaction? id.value = some row ∧
      varchar 64 req.idempotencyKey = .ok row.idempotencyKey ∧ row.createdAt = now ∧
      (w.tables.entriesOf id.value).map EntryRow.fixed = s.entered.map EntryRow.fixed)
    (fun _ _ _ _ _ _ => nofun) ?_ ?_ run i thread there req now asked id inserted
  · intro w w' request s keeps holds req now asked id inserted
    obtain ⟨row, found, key, created, entries⟩ := holds req now asked id inserted
    obtain ⟨⟨row', found', columns⟩, same⟩ := keeps.fixed id.value row found
    have key' : row'.fixed.idempotencyKey = row.fixed.idempotencyKey := by rw [columns]
    have created' : row'.fixed.createdAt = row.fixed.createdAt := by rw [columns]
    exact ⟨row', found', key.trans (congrArg Except.ok key'.symm), created'.trans created,
      same.trans entries⟩
  · intro cfg next own safe commits req now asked id inserted
    have merged := commits.tables
    cases commits.ready with
    | reading _ summary | enrolling _ _ _ summary | settling _ _ _ _ summary =>
        rw [summary] at inserted
        cases inserted
    | @holding _ _ _ row rows updates request parsed key lines _ holds _ versions summary created =>
        rw [request] at asked
        cases asked
        rw [summary] at inserted ⊢
        cases List.mem_singleton.mp inserted
        rw [versions, merge_hold safe.inv holds] at merged
        refine ⟨row, ?_, key, created, ?_⟩
        · rw [merged, Tables.transaction?_hold, holds.fresh, if_pos rfl]
          rfl
        · rw [merged, safe.inv.entriesOf_hold holds, if_pos rfl]

/-- The book has the answer to an authorization, but for settlements. -/
structure Recorded (w : World) (key : String) (transaction : ProtoTransaction)
    (entries : List ProtoEntry) : Prop where
  row : ∃ row, w.tables.transaction? transaction.id = some row ∧ row.idempotencyKey = key ∧
    withoutSettlement row.proto = withoutSettlement transaction
  entries : (w.tables.entriesOf transaction.id).map (withoutStatus ∘ EntryRow.proto) =
    entries.map withoutStatus

theorem Recorded.stable {w w' : World} {key : String} {transaction : ProtoTransaction}
    {entries : List ProtoEntry} (keeps : Keeps [] w w')
    (recorded : Recorded w key transaction entries) : Recorded w' key transaction entries := by
  obtain ⟨row, found, rfl, same⟩ := recorded.row
  obtain ⟨⟨row', found', key, columns⟩, entries⟩ := kept_transaction keeps found
  exact ⟨⟨row', found', key, columns.trans same⟩, entries.trans recorded.entries⟩

/-- Whatever an authorization has answered is in the book. -/
theorem authorized_recorded (run : Steps initial trace cfg) {i : Nat} {response : Response}
    {own : Session} (found : cfg.threads[i]? = some ⟨some (.done (.ok response)), own⟩)
    {req : AuthorizeRequest} {now : Int} (asked : own.request = .authorize req now)
    (short : req.idempotencyKey.length ≤ 64) :
    ∃ transaction entries, response = .authorized transaction entries ∧
      Recorded cfg.shared req.idempotencyKey transaction entries := by
  have known := history_remembered run i _ found
  have answer := (((safe run).post found).2.1 response rfl).authorized req now asked
  cases answer with
  | replayed seen read =>
      refine ⟨_, _, rfl, known _ seen, ?_⟩
      obtain ⟨-, same⟩ := known _ read
      rw [List.map_map]
      exact same
  | @made id committed inserted =>
      have listed : id ∈ own.effects.authorized := by
        simp [Session.effects, committed, inserted]
      have entered : own.effects.entered = own.summary.entered := by
        simp [Session.effects, committed]
      obtain ⟨row, there, key, created, same⟩ := inserted_stored run found asked listed
      have here : row.id = id.value := key_of_find there
      refine ⟨_, _, rfl, ⟨row, there, varchar_short short key, ?_⟩, ?_⟩
      · simp [withoutSettlement, TransactionRow.proto, here, varchar_short short key, created]
      · rw [entered] at same
        rw [List.map_map, withoutStatus_proto, ← List.map_map, same, List.map_map]

end Memory

section Serving

/-- A request that is served alone and without faults ends so, and changes nothing. -/
def Answers (cfg : Config server) (r : Request) (outcome : Except Failure Response) : Prop :=
  ∃ calls next own, cfg.play serial (cfg.serving r (List.replicate calls .fair)) = some next ∧
    next.threads[cfg.threads.length]? = some ⟨some (.done outcome), own⟩ ∧
    next.shared = cfg.shared

theorem answers_of_visible (run : Steps initial trace cfg) (quiet : cfg.quiet = true) {r : Request}
    {outcome : Except Failure Response}
    (alone : visible (handler r) cfg.shared .empty = (outcome, cfg.shared)) :
    Answers cfg r outcome := by
  obtain ⟨own, ran⟩ := runs_alone r cfg.shared
  rw [alone] at ran
  obtain ⟨calls, played⟩ := served_of_runs run quiet ran
  exact ⟨calls, _, own, played, List.getElem?_concat_length, rfl⟩

/-- Legs and metadata of the request pass parsing and validation. -/
def Passes (req : AuthorizeRequest) : Prop :=
  ∃ metadata legs, parseMetadata req.metadata = .ok metadata ∧
    parseTransferLegs req.legs = .ok legs ∧ validateTransactionBalance legs = .ok ()

/-- A key that is in use is a text that the column can hold. -/
theorem storable_key (run : Steps initial trace cfg) {row : TransactionRow}
    (member : row ∈ cfg.shared.tables.transactions) : Storable row.idempotencyKey := by
  obtain ⟨_, _, req, _, -, -, authored⟩ := exists_author run member
  exact varchar_storable authored.key

end Serving
end Fides.Ledger
