import Fides.Ledger.Replays

/-! # Retries that overlap

An authorization looks its key up before it waits for any lock, and does not look
again.  A retry that looks after the first attempt has committed is answered from
the book.  One that looked before goes on as if it were new and fails: on the
unique key, or for lack of funds that the first attempt has reserved.
-/

namespace Fides.Ledger

open Domain Service Storage Relational Concurrency

variable {cfg next : Config server} {event : Event server} {trace : List (Transition server)}

/-- The key was looked up and not found. -/
def foundUnused (key : String) (history : List Answered) : Bool :=
  history.any fun
    | ⟨.findTransactionByKey asked, .ok none⟩ => asked = key
    | _ => false

/-- When an authorization commits, no other session has found its key unused. -/
def uncontested (moved : Transition server) : Bool :=
  match moved.event with
  | .call i _ => match moved.before.threads[i]? with
      | some ⟨some (.call .commit _), own⟩ => match own.request, own.summary.authorized with
          | .authorize req _, _ :: _ => match varchar 64 req.idempotencyKey with
              | .ok key => moved.before.threads.zipIdx.all fun (other, j) =>
                  i = j || !foundUnused key other.own.history
              | .error _ => true
          | _, _ => true
      | _ => true
  | _ => true

/-- No storage call of an authorization fails. -/
def undisturbed (moved : Transition server) : Bool :=
  match moved.event with
  | .call i (.fault _) => match moved.before.threads[i]? with
      | some ⟨_, ⟨.authorize .., _, _⟩⟩ => false
      | _ => true
  | _ => true

section Lookups

/-- A session that has found a key unused has inserted the transaction that now has it. -/
def Aware (w : World) (l : Session) : Prop :=
  ∀ row ∈ w.tables.transactions, (⟨row.id⟩ : TransactionId) ∉ l.effects.authorized →
    foundUnused row.idempotencyKey l.history = false

/-- A call that does not commit keeps a session aware. -/
private theorem Aware.record {weather : Weather} {c : Call} {answer : c.Result} {w w' : World}
    {l : Session} {tx : Tx} (book : Consistent w.tables w.sequences) (allowed : Allowed w l c)
    (aware : Aware w l) (other : (⟨c, answer⟩ : Answered) ≠ ⟨.commit, .ok ()⟩)
    (ran : exec weather c w l = some (answer, w', l.record c answer tx)) :
    Aware w (l.record c answer tx) := by
  intro row member absent
  rw [effects_record tx allowed other] at absent
  rw [Session.history_record, foundUnused, List.any_append]
  have before := aware row member absent
  rw [foundUnused] at before
  rw [before, Bool.false_or, List.any_cons, List.any_nil, Bool.or_false]
  split
  · rename_i asked same
    cases same
    have none := lookup_eq_none.mp (findTransactionByKey_answer allowed ran).1
    rw [decide_eq_false_iff_not]
    rintro rfl
    rw [book.byKey?_of_mem member] at none
    cases none
  · rfl

private theorem Aware.of_tables {w w' : World} {l : Session} (aware : Aware w l)
    (same : w'.tables = w.tables) : Aware w' l := by
  rw [Aware, same]
  exact aware

/-- A transaction that is in the book after a commit was there before, or is new. -/
private theorem committed_rows {own : Session} (safe : protocol.Safe cfg)
    (commits : Commits cfg next own) : ∀ row ∈ next.shared.tables.transactions,
      (∃ old ∈ cfg.shared.tables.transactions, old.id = row.id ∧
        old.idempotencyKey = row.idempotencyKey) ∨
      (⟨row.id⟩ : TransactionId) ∈ own.summary.authorized ∧
        ∃ req now, own.request = .authorize req now ∧
          varchar 64 req.idempotencyKey = .ok row.idempotencyKey := by
  intro row member
  have merged := commits.tables
  cases commits.ready with
  | reading versions =>
      rw [merged, versions] at member
      exact .inl ⟨row, member, rfl, rfl⟩
  | enrolling _ enrolls versions =>
      rw [merged, versions, merge_enroll enrolls] at member
      exact .inl ⟨row, member, rfl, rfl⟩
  | holding request _ key _ _ holds _ versions summary =>
      rw [merged, versions, merge_hold safe.inv holds] at member
      rcases List.mem_append.mp member with old | new
      · exact .inl ⟨row, old, rfl, rfl⟩
      · cases List.mem_singleton.mp new
        rw [summary]
        exact .inr ⟨List.mem_cons_self, _, _, request, key⟩
  | settling _ settles found versions =>
      rw [merged, versions, merge_settle safe.inv settles found] at member
      obtain ⟨old, inside, rfl⟩ := List.mem_map.mp member
      exact .inl ⟨old, inside, by simp, by simp⟩

/-- What an uncontested commit says about the other sessions. -/
private theorem uncontested_commit {i : Nat} {weather : Weather} {rest} {own : Session}
    {req : AuthorizeRequest} {now : Int} {key : String} {id : TransactionId}
    (calm : uncontested ⟨cfg, .call i weather, next⟩ = true)
    (found : cfg.threads[i]? = some ⟨some (.call .commit rest), own⟩)
    (request : own.request = .authorize req now) (inserted : id ∈ own.summary.authorized)
    (stored : varchar 64 req.idempotencyKey = .ok key) {j : Nat} {other : Thread server}
    (different : i ≠ j) (there : cfg.threads[j]? = some other) :
    foundUnused key other.own.history = false := by
  obtain ⟨first, rest, authorized⟩ := List.exists_cons_of_ne_nil (List.ne_nil_of_mem inserted)
  simp only [uncontested, found, request, authorized, stored, List.all_eq_true] at calm
  have pair : (other, j) ∈ cfg.threads.zipIdx := List.mem_zipIdx_iff_getElem?.mpr there
  simpa [different] using calm (other, j) pair

private theorem Aware.step (safe : protocol.Safe cfg)
    (all : ∀ (i : Nat) thread, cfg.threads[i]? = some thread → Aware cfg.shared thread.own)
    (stepped : cfg.step event = some next) (calm : uncontested ⟨cfg, event, next⟩ = true) :
    ∀ (i : Nat) thread, next.threads[i]? = some thread → Aware next.shared thread.own := by
  have lost : ∀ l, Aware cfg.shared l → Aware cfg.shared (server.lost l) :=
    fun l aware row member absent => aware row member (by rwa [effects_lost] at absent)
  refine Config.all_step all stepped (fun _ _ _ _ => rfl) lost lost ?_
  rintro i weather c rest own answer shared own' rfl found ran rfl
  have allowed := (safe.pre found).2
  obtain ⟨tx, -, rfl⟩ := exec_does ran
  rcases call_commits safe stepped found ran with ⟨other, tables⟩ | ⟨made, commits⟩
  · refine ⟨?_, fun j thread _ _ aware => aware.of_tables tables⟩
    exact ((all i _ found).record safe.inv allowed other ran).of_tables tables
  · cases made
    obtain ⟨before, after⟩ := Ready.effects allowed tx
    refine ⟨fun row member absent => ?_, fun j other different there aware row member absent => ?_⟩
    · rw [after] at absent
      rcases committed_rows safe commits row member with ⟨old, inside, id, key⟩ | ⟨new, -⟩
      · have unseen := all i _ found old inside (by rw [before]; exact List.not_mem_nil)
        rw [← key, Session.history_record, foundUnused, List.any_append]
        rw [foundUnused] at unseen
        rw [unseen]
        rfl
      · exact absurd new absent
    · rcases committed_rows safe commits row member with
        ⟨old, inside, id, key⟩ | ⟨new, req, now, request, stored⟩
      · rw [← id] at absent
        rw [← key]
        exact aware old inside absent
      · exact uncontested_commit calm found request new stored different there

/-- In uncontested runs, whoever has found a key unused has inserted what is under it. -/
theorem aware_steps (run : Steps initial trace cfg)
    (calm : ∀ moved ∈ trace, uncontested moved = true) :
    ∀ (i : Nat) thread, cfg.threads[i]? = some thread → Aware cfg.shared thread.own :=
  run_invariant (fun moved => uncontested moved = true) (P := fun cfg => ∀ (i : Nat) thread,
    cfg.threads[i]? = some thread → Aware cfg.shared thread.own) (by simp [initial])
    (fun _ _ _ safe all stepped calm => Aware.step safe all stepped calm) run calm

end Lookups

section Outcomes

/-- Whatever its calls are answered, the program ends with an outcome that fits them. -/
def Ends (fits : Except Failure Response → List Answered → Prop) :
    Handler Response → List Answered → Prop
  | .done outcome, history => fits outcome history
  | .call c rest, history =>
      ∀ answer : c.Result, Ends fits (rest answer) (history ++ [⟨c, answer⟩])

theorem Ends.call {fits} {c : Call} {rest : c.Result → Handler Response} {own own' : Session}
    {weather : Weather} {answer : c.Result} {w w' : World}
    (ends : Ends fits (.call c rest) own.history)
    (ran : exec weather c w own = some (answer, w', own')) :
    Ends fits (rest answer) own'.history := by
  obtain ⟨tx, -, rfl⟩ := exec_eq_some ran
  exact ends answer

/-- What fits a history and all that can be added to it fits any end. -/
theorem Ends.of_settled {fits} {prog : Handler Response} {history : List Answered}
    (settled : ∀ outcome more, fits outcome (history ++ more)) : Ends fits prog history := by
  induction prog generalizing history with
  | done outcome =>
      have here := settled outcome []
      rwa [List.append_nil] at here
  | call c rest ih =>
      intro answer
      refine ih answer fun outcome more => ?_
      rw [List.append_assoc]
      exact settled outcome _

/-- An answer that a replay cannot go on with. -/
def Broken : Answered → Prop
  | ⟨.begin, .error _⟩ | ⟨.getEntriesForTransaction _, .error _⟩ | ⟨.commit, .error _⟩ => True
  | ⟨.findTransactionByKey key, .error _⟩ => Storable key
  | _ => False

/-- A failure that comes from a key found unused, or from a broken answer. -/
def Excused (key : String) (outcome : Except Failure Response) (history : List Answered) : Prop :=
  ∀ e, outcome = .error e → foundUnused key history = true ∨ ∃ answered ∈ history, Broken answered

private theorem ends_unused {key : String} {prog : Handler Response} {history : List Answered}
    (unused : foundUnused key history = true) : Ends (Excused key) prog history := by
  refine .of_settled fun outcome more e _ => .inl ?_
  rw [foundUnused, List.any_append, ← foundUnused, unused, Bool.true_or]

private theorem ends_broken {key : String} {prog : Handler Response} {history : List Answered}
    {answered : Answered} (member : answered ∈ history) (broken : Broken answered) :
    Ends (Excused key) prog history :=
  .of_settled fun _ _ _ _ => .inr ⟨answered, List.mem_append_left _ member, broken⟩

/-- The idempotency check of `authorize`, and what comes after it. -/
private def checkKey (req : AuthorizeRequest) (new : Handler Response) : Handler Response := do
  match ← findTransactionByKey req.idempotencyKey with
  | some existing => do
      let entries ← getEntriesForTransaction existing.id
      commit
      return .authorized (transactionToProto existing) (entries.map entryToProto)
  | none => new

private theorem authorize_passed {req : AuthorizeRequest} (filled : req.idempotencyKey ≠ "")
    (passes : Passes req) (now : Int) :
    ∃ new, authorize req now = inTransaction (checkKey req new) := by
  obtain ⟨metadata, legs, read, parsed, valid⟩ := passes
  refine ⟨authorizeNew req now metadata legs, ?_⟩
  rw [authorize, if_neg filled, read, parsed]
  change (orReject ((validateTransactionBalance legs).mapError .ofValidation) >>= fun _ =>
    inTransaction (checkKey req (authorizeNew req now metadata legs))) = _
  rw [valid]
  rfl

private theorem checkKey_ends {req : AuthorizeRequest} (storable : Storable req.idempotencyKey)
    (new : Handler Response) :
    Ends (Excused req.idempotencyKey) (inTransaction (checkKey req new)) [] := by
  intro begun
  cases begun with
  | error e => exact ends_broken List.mem_cons_self trivial
  | ok done =>
      intro found
      cases found with
      | error e => exact ends_broken (List.mem_append_right _ List.mem_cons_self) storable
      | ok found =>
          cases found with
          | none => exact ends_unused (by simp [foundUnused])
          | some existing =>
              intro read
              cases read with
              | error e => exact ends_broken (List.mem_append_right _ List.mem_cons_self) trivial
              | ok entries =>
                  intro committed
                  cases committed with
                  | error e => exact ends_broken (List.mem_append_right _ List.mem_cons_self) trivial
                  | ok done =>
                      intro e failed
                      cases failed

/-- A request that is not turned down at once has a key and passes all checks. -/
private theorem authorize_started {req : AuthorizeRequest} {now : Int} {c : Call} {rest}
    (program : authorize req now = .call c rest) : req.idempotencyKey ≠ "" ∧ Passes req := by
  unfold authorize at program
  split at program
  · cases program
  rename_i filled
  refine ⟨filled, ?_⟩
  cases read : parseMetadata req.metadata with
  | error e =>
      rw [read] at program
      cases program
  | ok metadata =>
      cases parsed : parseTransferLegs req.legs with
      | error e =>
          rw [read, parsed] at program
          cases program
      | ok legs =>
          rw [read, parsed] at program
          cases valid : validateTransactionBalance legs with
          | ok => exact ⟨metadata, legs, read, parsed, valid⟩
          | error e =>
              change (orReject ((validateTransactionBalance legs).mapError .ofValidation) >>=
                fun _ => _) = _ at program
              rw [valid] at program
              cases program

/-- An authorization that passes all checks and fails has an excuse. -/
private theorem excused (run : Steps initial trace cfg) {i : Nat} {outcome} {own : Session}
    (found : cfg.threads[i]? = some ⟨some (.done outcome), own⟩) {req : AuthorizeRequest}
    {now : Int} (asked : own.request = .authorize req now) (filled : req.idempotencyKey ≠ "")
    (passes : Passes req) (storable : Storable req.idempotencyKey) :
    Excused req.idempotencyKey outcome own.history := by
  have all : ∀ (i : Nat) thread, cfg.threads[i]? = some thread → ∀ now prog,
      thread.own.request = .authorize req now → thread.prog = some prog →
        Ends (Excused req.idempotencyKey) prog thread.own.history := by
    refine run.invariant (P := fun cfg : Config server => ∀ (i : Nat) thread,
      cfg.threads[i]? = some thread → ∀ now prog, thread.own.request = .authorize req now →
        thread.prog = some prog → Ends (Excused req.idempotencyKey) prog thread.own.history) ?_
      (by simp [initial]) fun _ _ => trivial
    intro before event after all stepped _
    refine Config.each_step all stepped ?_ (by simp) ?_
    · intro r now prog asked same
      cases same
      obtain ⟨new, program⟩ := authorize_passed filled passes now
      change r = _ at asked
      rw [asked]
      change Ends _ (authorize req now) []
      rw [program]
      exact checkKey_ends storable new
    · intro weather c rest own answer w w' own' ends ran now prog asked same
      cases same
      refine (ends now _ ?_ rfl).call ran
      obtain ⟨tx, -, rfl⟩ := exec_eq_some ran
      exact asked
  exact all i _ found now _ asked rfl

/-- Without faults, no call of an authorization is answered so that a replay breaks. -/
private theorem exec_unbroken {c : Call} {answer : c.Result} {w w' : World} {l l' : Session}
    (book : Consistent w.tables w.sequences) (allowed : Allowed w l c)
    (ran : exec .fair c w l = some (answer, w', l')) : ¬ Broken ⟨c, answer⟩ := by
  cases c with
  | begin | commit =>
      cases ran
      exact False.elim
  | getEntriesForTransaction id =>
      obtain ⟨entries, built⟩ := book.decodes_entriesOf id.value
      rw [exec_getEntriesForTransaction book allowed.1, built] at ran
      cases ran
      exact False.elim
  | findTransactionByKey key =>
      by_cases storable : Storable key
      · obtain ⟨found, read⟩ := lookup_ok fun row (there : w.tables.byKey? key = some row) =>
          buildTransaction_of_sound (book.transactionRows row (List.mem_of_find?_eq_some there)).1
        rw [exec_findTransactionByKey storable allowed, read] at ran
        cases ran
        exact False.elim
      · cases answer with
        | ok => exact False.elim
        | error => exact storable
  | _ => exact False.elim

private theorem unbroken (run : Steps initial trace cfg)
    (calm : ∀ moved ∈ trace, undisturbed moved = true) {i : Nat} {thread : Thread server}
    (there : cfg.threads[i]? = some thread) {req : AuthorizeRequest} {now : Int}
    (asked : thread.own.request = .authorize req now) :
    ∀ answered ∈ thread.own.history, ¬ Broken answered := by
  refine run_invariant (fun moved => undisturbed moved = true) (P := fun cfg => ∀ (i : Nat) thread,
    cfg.threads[i]? = some thread → ∀ req now, thread.own.request = .authorize req now →
      ∀ answered ∈ thread.own.history, ¬ Broken answered) (by simp [initial]) ?_ run calm
    i thread there req now asked
  intro before event after safe all stepped calm
  refine Config.all_step (T := fun (_ : World) (l : Session) => ∀ req now,
    l.request = .authorize req now → ∀ answered ∈ l.history, ¬ Broken answered) all stepped
    (fun _ _ _ _ _ member => absurd member List.not_mem_nil) (fun _ holds => holds)
    (fun _ holds => holds) ?_
  rintro i weather c rest own answer shared own' rfl found ran -
  refine ⟨fun req now asked answered member => ?_, fun _ _ _ _ holds => holds⟩
  have unbroken : weather = .fair → ¬ Broken ⟨c, answer⟩ := fun fair =>
    exec_unbroken safe.inv (safe.pre found).2 (fair ▸ ran)
  obtain ⟨tx, -, rfl⟩ := exec_eq_some ran
  rcases List.mem_append.mp member with old | new
  · exact all i _ found req now asked answered old
  · cases List.mem_singleton.mp new
    refine unbroken ?_
    cases weather with
    | fair => rfl
    | fault message =>
        obtain ⟨request, _, _⟩ := own
        cases (show request = _ from asked)
        simp [undisturbed, found] at calm

/-- An authorization that has committed or was answered with success has made a call. -/
private theorem made_calls (run : Steps initial trace cfg) {i : Nat} {thread : Thread server}
    (there : cfg.threads[i]? = some thread) {req : AuthorizeRequest} {now : Int}
    (asked : thread.own.request = .authorize req now)
    (made : (∃ id, id ∈ thread.own.effects.authorized) ∨
      ∃ response, thread.prog = some (.done (.ok response))) : thread.own.history ≠ [] := by
  intro none
  have blank : thread.own.summary = .blank := by simp [Session.summary, none]
  rcases made with ⟨id, inserted⟩ | ⟨response, ended⟩
  · simp [Session.effects, blank, Summary.blank] at inserted
  · obtain ⟨prog, own⟩ := thread
    cases ended
    have answer := (((safe run).post there).2.1 response rfl).authorized req now asked
    cases answer with
    | replayed seen =>
        rw [show own.history = [] from none] at seen
        cases seen
    | made committed =>
        rw [show own.summary = .blank from blank] at committed
        cases committed

/-- A request that was committed, or answered with success, has a row under its key. -/
private theorem stored_row (run : Steps initial trace cfg) {i : Nat} {thread : Thread server}
    (there : cfg.threads[i]? = some thread) {req : AuthorizeRequest} {now : Int}
    (asked : thread.own.request = .authorize req now) (short : req.idempotencyKey.length ≤ 64)
    (made : (∃ id, id ∈ thread.own.effects.authorized) ∨
      ∃ response, thread.prog = some (.done (.ok response))) :
    ∃ row ∈ cfg.shared.tables.transactions, row.idempotencyKey = req.idempotencyKey := by
  rcases made with ⟨id, inserted⟩ | ⟨response, ended⟩
  · obtain ⟨row, stored, kept, -⟩ := inserted_stored run there asked inserted
    exact ⟨row, mem_of_find stored, varchar_short short kept⟩
  · obtain ⟨prog, own⟩ := thread
    cases ended
    obtain ⟨_, _, -, recorded⟩ := authorized_recorded run there asked short
    obtain ⟨row, stored, kept, -⟩ := recorded.row
    exact ⟨row, mem_of_find stored, kept⟩

/-- A request that passes all checks does not fail once its key has a row. -/
private theorem retry_ok (run : Steps initial trace cfg)
    (calm : ∀ moved ∈ trace, undisturbed moved = true ∧ uncontested moved = true)
    {row : TransactionRow} (member : row ∈ cfg.shared.tables.transactions) {i : Nat} {outcome}
    {own : Session} (found : cfg.threads[i]? = some ⟨some (.done outcome), own⟩)
    {req : AuthorizeRequest} {now : Int} (asked : own.request = .authorize req now)
    (key : row.idempotencyKey = req.idempotencyKey) (filled : req.idempotencyKey ≠ "")
    (passes : Passes req) : ∃ response, outcome = .ok response := by
  cases outcome with
  | ok response => exact ⟨response, rfl⟩
  | error e =>
      have storable : Storable req.idempotencyKey := key ▸ storable_key run member
      rcases excused run found asked filled passes storable e rfl with
        unused | ⟨answered, told, broken⟩
      · have absent : (⟨row.id⟩ : TransactionId) ∉ own.effects.authorized := by
          have uncommitted := ((safe run).post found).2.2 e rfl
          simp [Session.effects, uncommitted, Summary.blank]
        have aware := aware_steps run (fun moved inside => (calm moved inside).2) i _ found row
          member absent
        rw [key, unused] at aware
        cases aware
      · exact absurd broken
          (unbroken run (fun moved inside => (calm moved inside).1) found asked answered told)

/-- If all who look up a key look after the authorization under it has committed, or insert
    it themselves, then all retries of a request that was committed, or answered with
    success, answer with the same transaction. -/
theorem retries_succeed (run : Steps initial trace cfg)
    (calm : ∀ moved ∈ trace, (undisturbed moved && uncontested moved) = true) {i : Nat}
    {thread : Thread server} (there : cfg.threads[i]? = some thread) {req : AuthorizeRequest}
    {now : Int} (asked : thread.own.request = .authorize req now)
    (short : req.idempotencyKey.length ≤ 64)
    (made : (∃ id, id ∈ thread.own.effects.authorized) ∨
      ∃ response, thread.prog = some (.done (.ok response))) :
    ∃ id : TransactionId, (∀ other ∈ thread.own.effects.authorized, other = id) ∧
      ∀ (j : Nat) outcome own now', cfg.threads[j]? = some ⟨some (.done outcome), own⟩ →
        own.request = .authorize req now' → ∃ transaction entries,
          outcome = .ok (.authorized transaction entries) ∧ transaction.id = id.value := by
  simp only [Bool.and_eq_true] at calm
  have book : Consistent cfg.shared.tables cfg.shared.sequences := (safe run).inv
  -- the transaction under the key, whoever has inserted it
  obtain ⟨row, member, key⟩ := stored_row run there asked short made
  have unique : ∀ other ∈ cfg.shared.tables.transactions,
      other.idempotencyKey = req.idempotencyKey → other = row := fun other inside same =>
    List.inj_on_of_nodup_map book.keys inside member (same.trans key.symm)
  refine ⟨⟨row.id⟩, fun id inserted => ?_, fun j outcome own now' found again => ?_⟩
  · obtain ⟨other, stored, kept, -⟩ := inserted_stored run there asked inserted
    have same := unique other (mem_of_find stored) (varchar_short short kept)
    have here : other.id = id.value := key_of_find stored
    rw [← same, here]
  · obtain ⟨c, rest, program⟩ := started run there (made_calls run there asked made)
    rw [asked] at program
    obtain ⟨filled, passes⟩ := authorize_started program
    obtain ⟨response, rfl⟩ := retry_ok run calm member found again key filled passes
    obtain ⟨transaction, entries, rfl, recorded⟩ := authorized_recorded run found again short
    obtain ⟨other, stored, kept, -⟩ := recorded.row
    have same := unique other (mem_of_find stored) kept
    have here : other.id = transaction.id := key_of_find stored
    exact ⟨transaction, entries, rfl, by rw [← here, same]⟩

/-- A retry that arrives before the commit and looks its key up after it. -/
theorem retries_succeed_late : ∃ trace cfg own transaction entries, Steps initial trace cfg ∧
    (∀ moved ∈ trace, (undisturbed moved && uncontested moved) = true) ∧
    cfg.threads[3]? = some ⟨some (.done (.ok (.authorized transaction entries))), own⟩ ∧
    own.request = depositing ∧ transaction.id = 1 := by
  obtain ⟨trace, cfg, run, calm, computed⟩ := reached
    (fun moved => undisturbed moved && uncontested moved)
    ((deposit ("USD", "USD")).take 10 ++ .request depositing :: turns 2 9 ++
      .request depositing :: turns 3 1 ++ turns 2 3 ++ turns 3 3)
    (fun cfg => (succeeded cfg 3, (cfg.threads[2]?).map fun thread =>
      (thread.own.request, thread.own.effects.authorized)))
    (a := (some depositing, some (depositing, [⟨1⟩]))) (by decide +kernel)
  simp only [Prod.mk.injEq, Option.map_eq_some_iff] at computed
  obtain ⟨retried, thread, there, asked, authorized⟩ := computed
  obtain ⟨response, own, found, again⟩ := succeeded_eq_some retried
  obtain ⟨id, same, all⟩ := retries_succeed run calm there asked (by decide)
    (.inl ⟨⟨1⟩, by simp [authorized]⟩)
  obtain ⟨transaction, entries, answer, here⟩ := all 3 _ own 2 found again
  cases answer
  refine ⟨trace, cfg, own, transaction, entries, run, calm, found, again, ?_⟩
  rw [here, ← same ⟨1⟩ (by simp [authorized])]

/-- The request that a thread has turned down because its key is in use. -/
def duplicated (cfg : Config server) (i : Nat) : Option Request :=
  match cfg.threads[i]? with
  | some ⟨some (.done (.error (.error (.duplicateTransaction _)))), own⟩ => some own.request
  | _ => none

/-- A retry that has looked its key up before the commit fails. -/
theorem retry_fails : ∃ trace cfg, Steps initial trace cfg ∧
    (∀ moved ∈ trace, undisturbed moved = true) ∧ succeeded cfg 2 = some depositing ∧
    duplicated cfg 3 = some depositing := by
  obtain ⟨trace, cfg, run, calm, computed⟩ := reached undisturbed
    ((deposit ("USD", "USD")).take 10 ++ .request depositing :: turns 2 2 ++
      .request depositing :: turns 3 2 ++ turns 2 10 ++ turns 3 4)
    (fun cfg => (succeeded cfg 2, duplicated cfg 3)) (a := (some depositing, some depositing))
    (by decide +kernel)
  obtain ⟨succeeds, fails⟩ := Prod.mk.inj computed
  exact ⟨trace, cfg, run, calm, succeeds, fails⟩

end Outcomes
end Fides.Ledger
