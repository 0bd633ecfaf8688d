import Fides.Ledger.Conformance
import Fides.Ledger.Progress
import Fides.Ledger.Refusals

/-! # Reads at one moment

Calls of other requests come between the calls that are made for a request.  A request
that only reads is nevertheless answered as if it had been served at once, at one of its
calls: its answer is the one that the contract gives in the world of that call.
-/

namespace Fides.Ledger

open Domain Service Storage Relational Concurrency

variable {cfg : Config server} {trace : List (Transition server)}

section Invisible

variable {weather : Weather} {w w' : World} {l l' : Session}

private theorem storing_of_read {α : Type} {call : Database → Tx → Reply α}
    {said answer : Except StorageError α} {tx tx' : Tx}
    (reads : call w.database tx = (said, w.database, tx))
    (ran : storing call w tx = (answer, w', tx')) : w' = w ∧ tx' = tx := by
  rw [storing, reads] at ran
  cases ran
  exact ⟨rfl, rfl⟩

private theorem perform_of_looks {c : Call} {answer : c.Result} {tx : Tx} (looking : looks c = true)
    (ran : c.perform w .idle = (answer, w', tx)) : w' = w ∧ tx = .idle := by
  cases c with
  | begin | rollback | commit | cacheGet =>
    cases ran
    exact ⟨rfl, rfl⟩
  | getAccount id => exact storing_of_read (getAccount_eq id _ _) ran
  | getTransaction id => exact storing_of_read (getTransaction_eq id _ _) ran
  | findTransactionByKey key =>
    by_cases storable : Storable key
    · exact storing_of_read (findTransactionByKey_eq storable _ _) ran
    · exact storing_of_read (findTransactionByKey_null storable _ _) ran
  | getEntriesForTransaction id =>
    exact storing_of_read (show Storage.getEntriesForTransaction id _ _ = _ from rfl) ran
  | getEntriesForAccount id =>
    exact storing_of_read (show Storage.getEntriesForAccount id _ _ = _ from rfl) ran
  | _ => cases looking

/-- A look changes nothing, also when it fails. -/
private theorem exec_of_looks {c : Call} {answer : c.Result} (looking : looks c = true)
    (idle : l.tx = .idle) (ran : exec weather c w l = some (answer, w', l')) :
    w' = w ∧ l'.tx = .idle := by
  obtain ⟨tx, out, rfl⟩ := exec_eq_some ran
  rw [idle] at out
  cases weather with
  | fair => exact perform_of_looks looking (Option.some.inj out)
  | fault message =>
    cases c <;> cases out <;> exact ⟨rfl, rfl⟩

/-- A request that only reads has only looks left to make, and holds nothing. -/
private def Quiet (thread : Thread server) : Prop :=
  Reads thread.own.request → thread.own.tx = .idle ∧
    ∀ p, thread.prog = some p → p.Makes (looks · = true)

private theorem quiet_steps (run : Steps initial trace cfg) :
    ∀ (i : Nat) thread, cfg.threads[i]? = some thread → Quiet thread := by
  refine run.invariant (P := fun cfg : Config server => ∀ (i : Nat) thread,
    cfg.threads[i]? = some thread → Quiet thread) ?_ (by simp [initial]) fun _ _ => trivial
  intro before event after all stepped _
  refine Config.each_step all stepped ?_ ?_ ?_
  · rintro r reads
    refine ⟨rfl, ?_⟩
    rintro p ⟨⟩
    exact looks_of_reads reads
  · rintro prog own quiet reads
    exact ⟨rfl, by simp⟩
  · rintro weather c rest own answer w w' own' quiet ran reads
    obtain ⟨tx, -, rfl⟩ := exec_eq_some ran
    obtain ⟨idle, makes⟩ := quiet reads
    obtain ⟨looking, later⟩ := makes _ rfl
    refine ⟨(exec_of_looks looking idle ran).2, ?_⟩
    rintro p ⟨⟩
    exact later answer

/-- A step that is made for a request that only reads changes nothing that is shared. -/
theorem reads_invisible (run : Steps initial trace cfg) {i : Nat} {thread : Thread server}
    (there : cfg.threads[i]? = some thread) (reads : Reads thread.own.request)
    {weather : Weather} {next : Config server} (stepped : cfg.step (.call i weather) = some next) :
    next.shared = cfg.shared := by
  obtain ⟨idle, makes⟩ := quiet_steps run i thread there reads
  obtain ⟨c, rest, own, answer, w', own', found, ran, rfl⟩ := Config.step_call stepped
  cases there.symm.trans found
  exact (exec_of_looks (makes _ rfl).1 idle ran).1

end Invisible

/-- How the contract accounts for the outcome of request `i`: it ends so wherever it is served,
    and no call was made for it; or it ends so when it is served at one of its calls, which has moved
    the database as the contract says; or the database has failed. -/
inductive Linearized (trace : List (Transition server)) (i : Nat) (own : Session)
    (outcome : Except Failure Response) : Prop where
  | always (unasked : own.history = [])
      (meant : ∀ w, Contract.meaning own.request w = (outcome, w)) : Linearized trace i own outcome
  | moment {moved} (member : moved ∈ trace) (called : ∃ weather, moved.event = .call i weather)
      (answer : (Contract.meaning own.request moved.before.shared).1 = outcome)
      (effect : moved.after.shared.database =
        (Contract.meaning own.request moved.before.shared).2.database) :
      Linearized trace i own outcome
  | database {earlier answered moved l e} (made : Made trace i earlier answered moved l)
      (failed : answered.error = some (.database e))
      (reported : outcome = .error (.error (.internal e.toString))) :
      Linearized trace i own outcome

section Reads

/-- What a request that only reads ends with after it has made calls. -/
private inductive Finds : Except Failure Response → Session → Prop where
  | account {a earlier found l} (request : l.request = .getAccount a) (valid : ¬ a ≤ 0)
      (heard : Heard l earlier ⟨.getAccount ⟨a⟩, .ok found⟩) :
      Finds (found.elim (.error (.error (.accountNotFound a))) fun account =>
        .ok (.account (accountToProto account))) l
  | balance {a earlier found l} (request : l.request = .getBalance a) (valid : ¬ a ≤ 0)
      (heard : Heard l earlier ⟨.cacheGet ⟨a⟩, found⟩) :
      Finds (found.elim (.error (.error (.accountNotFound a))) fun balance =>
        .ok (.balance balance.posted balance.pending balance.available)) l
  | unlisted {a earlier l} (request : l.request = .getEntries a) (valid : ¬ a ≤ 0)
      (heard : Heard l earlier ⟨.getAccount ⟨a⟩, .ok none⟩) :
      Finds (.error (.error (.accountNotFound a))) l
  | listed {a earlier entries l} (request : l.request = .getEntries a) (valid : ¬ a ≤ 0)
      (present : ∃ account, (⟨.getAccount ⟨a⟩, .ok (some account)⟩ : Answered) ∈ earlier)
      (heard : Heard l earlier ⟨.getEntriesForAccount ⟨a⟩, .ok entries⟩) :
      Finds (.ok (.entries (entries.map entryToProto))) l
  | failed {earlier answered e l} (heard : Heard l earlier answered)
      (failed : answered.error = some e) (other : inserts answered.call = false) :
      Finds (.error (.error (.ofStorage e))) l

variable {l l' : Session}

private theorem Finds.onward {outcome : Except Failure Response} (finds : Finds outcome l)
    (onward : Onward l l') : Finds outcome l' := by
  cases finds with
  | account request valid heard =>
    exact .account (onward.request.trans request) valid (heard.trans onward.history)
  | balance request valid heard =>
    exact .balance (onward.request.trans request) valid (heard.trans onward.history)
  | unlisted request valid heard =>
    exact .unlisted (onward.request.trans request) valid (heard.trans onward.history)
  | listed request valid present heard =>
    exact .listed (onward.request.trans request) valid present (heard.trans onward.history)
  | failed heard failed other => exact .failed (heard.trans onward.history) failed other

private theorem finds_storage {α : Type} {c : Call} {next : α → Handler Response}
    (read : c.Result → Except StorageError α)
    (errors : ∀ answer, (⟨c, answer⟩ : Answered).error = failure (read answer))
    (other : inserts c = false)
    (after : ∀ answer value tx, read answer = .ok value →
      server.Ensures Finds (next value) (l.record c answer tx)) :
    server.Ensures Finds (.call c (fun answer => orStorageError (read answer)) >>= next) l := by
  intro weather w answer w' l' ran
  obtain ⟨tx, -, rfl⟩ := exec_eq_some ran
  change server.Ensures Finds (orStorageError (read answer) >>= next) _
  cases said : read answer with
  | ok value => exact after answer value tx said
  | error e => exact .failed (heard_last l c answer tx) (by rw [errors, said]; rfl) other

private theorem finds_commit {response : Response} (finds : Finds (.ok response) l) :
    server.Ensures Finds (commit >>= fun _ => pure response) l := by
  intro weather w answer w' l' ran
  obtain ⟨tx, -, rfl⟩ := exec_eq_some ran
  cases answer with
  | ok value => exact finds.onward (.record l _ _ tx)
  | error e =>
    have failed : Finds (.error (.error (.ofStorage e))) (l.record .commit (.error e) tx) :=
      .failed (heard_last l _ _ tx) rfl rfl
    cases e <;> exact failed

private theorem finds_inTransaction {body : Handler Response}
    (inner : ∀ tx, server.Ensures Finds body (l.record .begin (.ok ()) tx)) :
    server.Ensures Finds (inTransaction body) l := by
  refine finds_storage _ (fun _ => rfl) rfl fun answer value tx said => ?_
  cases said
  refine System.Ensures.onError (inner tx) (fun _ _ finds => finds) ?_
  intro e l finds weather w answer w' l' ran
  obtain ⟨tx, -, rfl⟩ := exec_eq_some ran
  exact Finds.onward finds (.record l _ _ tx)

private theorem finds_getAccount {a : Int} (request : l.request = .getAccount a) (valid : ¬ a ≤ 0) :
    server.Ensures Finds (getAccount a) l := by
  unfold Service.getAccount AccountId.new
  rw [if_neg valid]
  refine finds_inTransaction fun tx => finds_storage _ (fun _ => rfl) rfl fun answer found tx' said => ?_
  cases said
  have finds := Finds.account (l := (l.record .begin (.ok ()) tx).record (.getAccount ⟨a⟩) (.ok found) tx')
    request valid (heard_last _ _ _ tx')
  cases found with
  | none => exact finds
  | some account => exact finds_commit finds

private theorem finds_getBalance {a : Int} (request : l.request = .getBalance a) (valid : ¬ a ≤ 0) :
    server.Ensures Finds (getBalance a) l := by
  unfold getBalance AccountId.new
  rw [if_neg valid]
  intro weather w found w' l' ran
  obtain ⟨tx, -, rfl⟩ := exec_eq_some ran
  have finds := Finds.balance (l := l.record (.cacheGet ⟨a⟩) found tx) request valid
    (heard_last _ _ _ tx)
  cases found <;> exact finds

private theorem finds_getEntries {a : Int} (request : l.request = .getEntries a) (valid : ¬ a ≤ 0) :
    server.Ensures Finds (getEntries a) l := by
  unfold getEntries AccountId.new
  rw [if_neg valid]
  refine finds_inTransaction fun tx => finds_storage _ (fun _ => rfl) rfl fun answer found tx' said => ?_
  cases said
  cases found with
  | none => exact .unlisted request valid (heard_last _ _ _ tx')
  | some account =>
    refine finds_storage _ (fun _ => rfl) rfl fun answer entries tx'' said => ?_
    cases said
    refine finds_commit (.listed request valid ?_ (heard_last _ _ _ tx''))
    exact ⟨account, List.mem_append_right _ List.mem_cons_self⟩

/-- A request that only reads is turned down as it is, or ends with what it has found. -/
private def Observes (outcome : Except Failure Response) (l : Session) : Prop :=
  Reads l.request →
    (l.history = [] ∧ ∀ w, Contract.meaning l.request w = (outcome, w)) ∨ Finds outcome l

private theorem observes_handler (r : Request) :
    server.Ensures Observes (handler r) (server.arrive r) := by
  by_cases reads : Reads r
  · have found {p : Handler Response} (finds : server.Ensures Finds p (server.arrive r)) :
        server.Ensures Observes p (server.arrive r) := finds.mono fun _ _ finds _ => .inr finds
    cases reads with
    | account a =>
      by_cases valid : a ≤ 0
      · simp only [handler, Service.getAccount, AccountId.new, if_pos valid]
        exact fun _ => .inl ⟨rfl, fun w => by simp [Contract.meaning, Contract.getAccount, valid]; rfl⟩
      · exact found (finds_getAccount rfl valid)
    | balance a =>
      by_cases valid : a ≤ 0
      · simp only [handler, Service.getBalance, AccountId.new, if_pos valid]
        exact fun _ => .inl ⟨rfl, fun w => by simp [Contract.meaning, Contract.getBalance, valid]; rfl⟩
      · exact found (finds_getBalance rfl valid)
    | entries a =>
      by_cases valid : a ≤ 0
      · simp only [handler, Service.getEntries, AccountId.new, if_pos valid]
        exact fun _ => .inl ⟨rfl, fun w => by simp [Contract.meaning, Contract.getEntries, valid]; rfl⟩
      · exact found (finds_getEntries rfl valid)
  · refine (ensures_onward _ _).mono fun outcome l onward asked => absurd ?_ reads
    rw [onward.request] at asked
    exact asked

variable {i : Nat} {earlier : List Answered} {answered : Answered} {own : Session}
  {outcome : Except Failure Response}

/-- The session that has made the call is the one that has ended. -/
theorem Made.onward (run : Steps initial trace cfg) {moved : Transition server}
    {thread : Thread server} (made : Made trace i earlier answered moved l)
    (there : cfg.threads[i]? = some thread) : Onward l thread.own := by
  obtain ⟨-, later, rest⟩ := made.split run
  obtain ⟨_, found⟩ := made.there
  obtain ⟨thread', there', onward⟩ := onward_steps rest found
  cases there.symm.trans there'
  exact onward

/-- The contract gives the outcome in the world of a look. -/
private theorem Made.linearized (run : Steps initial trace cfg) {moved : Transition server}
    (made : Made trace i earlier answered moved l) (idle : l.tx = .idle)
    (looking : looks answered.call = true)
    (meant : Contract.meaning own.request moved.before.shared = (outcome, moved.before.shared)) :
    Linearized trace i own outcome := by
  obtain ⟨weather, l', ran⟩ := made.exec run
  obtain ⟨called, same, -⟩ := made.called
  refine .moment made.member ⟨called, same⟩ (by rw [meant]) ?_
  rw [meant, (exec_of_looks looking idle ran).1]

/-- What a look at an account that was read has found. -/
private theorem Made.account (run : Steps initial trace cfg) {moved : Transition server} {a : Int}
    {found : Option Account} (made : Made trace i earlier ⟨.getAccount ⟨a⟩, .ok found⟩ moved l)
    (idle : l.tx = .idle) :
    lookup buildAccount (moved.before.shared.tables.account? a) = .ok found := by
  obtain ⟨weather, l', ran⟩ := made.exec run
  have fair := exec_fair ran rfl
  rw [exec_getAccount (by rw [idle]; rfl)] at fair
  exact (Prod.mk.inj (Option.some.inj fair)).1

/-- A request that only reads holds nothing at its calls. -/
private theorem Made.idle (run : Steps initial trace cfg) {moved : Transition server}
    {thread : Thread server} (made : Made trace i earlier answered moved l)
    (there : cfg.threads[i]? = some thread) (reads : Reads thread.own.request) : l.tx = .idle := by
  obtain ⟨⟨before, reached⟩, -⟩ := made.split run
  obtain ⟨rest, at_call⟩ := made.there
  exact (quiet_steps reached i _ at_call ((made.onward run there).request ▸ reads)).1

/-- An account that was read is there. -/
private theorem account_of_seen (run : Steps initial trace cfg) {thread : Thread server}
    (there : cfg.threads[i]? = some thread) (reads : Reads thread.own.request) {a : Int}
    {account : Account}
    (seen : (⟨.getAccount ⟨a⟩, .ok (some account)⟩ : Answered) ∈ thread.own.history) :
    (cfg.shared.tables.account? a).isSome := by
  obtain ⟨earlier, later, split⟩ := List.append_of_mem seen
  have heard : Heard thread.own earlier ⟨.getAccount ⟨a⟩, .ok (some account)⟩ :=
    ⟨later, by rw [split, List.append_assoc]; rfl⟩
  obtain ⟨moved, l, made⟩ := made_of_heard run there heard
  obtain ⟨⟨before, first⟩, more, last⟩ := made.split run
  obtain ⟨row, found, -⟩ := lookup_eq_some.mp (made.account run (made.idle run there reads))
  exact account_stays (safe first) last (by rw [found]; rfl)

/-- In every run, a request that only reads ends as the contract says, served at once at one of its
    calls, or the database has failed; and none of its steps changes the tables, the sequences or
    the cache. -/
theorem reads_linearizable (run : Steps initial trace cfg)
    (ended : cfg.threads[i]? = some ⟨some (.done outcome), own⟩) (reads : Reads own.request) :
    Linearized trace i own outcome ∧
      ∀ moved ∈ trace, (∃ weather, moved.event = .call i weather) →
        moved.after.shared = moved.before.shared := by
  refine ⟨?_, fun moved member called => ?_⟩
  · rcases ensured_run observes_handler run ended reads with ⟨unasked, meant⟩ | finds
    · exact .always unasked meant
    cases finds with
    | @account a _ found _ request valid heard =>
      obtain ⟨moved, l, made⟩ := made_of_heard run ended heard
      obtain ⟨⟨before, reached⟩, -⟩ := made.split run
      have idle := made.idle run ended reads
      have read := made.account run idle
      refine made.linearized run idle rfl ?_
      rw [request, Contract.meaning, Contract.getAccount, if_neg valid]
      cases found with
      | none => rw [lookup_eq_none.mp read]; rfl
      | some account =>
        obtain ⟨row, there, built⟩ := lookup_eq_some.mp read
        have book : Consistent moved.before.shared.tables moved.before.shared.sequences :=
          (safe reached).inv
        rw [there, Option.elim_some,
          accountToProto_row (book.accountRows row (mem_of_find there)).1 built]
    | @balance a _ found _ request valid heard =>
      obtain ⟨moved, l, made⟩ := made_of_heard run ended heard
      obtain ⟨weather, l', ran⟩ := made.exec run
      obtain ⟨tx, out, -⟩ := exec_eq_some (exec_fair ran rfl)
      have cached : moved.before.shared.cache.get ⟨a⟩ = found := (Prod.mk.inj (Option.some.inj out)).1
      refine made.linearized run (made.idle run ended reads) rfl ?_
      rw [request, Contract.meaning, Contract.getBalance, if_neg valid, cached]
      cases found <;> rfl
    | @unlisted a _ _ request valid heard =>
      obtain ⟨moved, l, made⟩ := made_of_heard run ended heard
      have idle := made.idle run ended reads
      refine made.linearized run idle rfl ?_
      rw [request, Contract.meaning, Contract.getEntries, if_neg valid,
        lookup_eq_none.mp (made.account run idle)]
      rfl
    | @listed a _ entries _ request valid present heard =>
      obtain ⟨account, seen⟩ := present
      obtain ⟨moved, l, made⟩ := made_of_heard run ended heard
      obtain ⟨⟨before, reached⟩, -⟩ := made.split run
      obtain ⟨rest, at_call⟩ := made.there
      have idle := made.idle run ended reads
      -- The account was read at an earlier moment, and accounts stay.
      obtain ⟨row, there⟩ := Option.isSome_iff_exists.mp (account_of_seen reached at_call
        ((made.onward run ended).request ▸ reads) (made.history.symm ▸ seen))
      obtain ⟨weather, l', ran⟩ := made.exec run
      have fair := exec_fair ran rfl
      rw [exec_getEntriesForAccount (safe reached).inv (by rw [idle]; rfl)] at fair
      have read := (Prod.mk.inj (Option.some.inj fair)).1
      refine made.linearized run idle rfl ?_
      rw [request, Contract.meaning, Contract.getEntries, if_neg valid, there,
        ← buildEntries_proto read]
    | failed heard failed other =>
      obtain ⟨sql, moved, l, rfl, made⟩ := database_of_heard run ended heard failed other
      exact .database made failed rfl
  · obtain ⟨weather, called⟩ := called
    obtain ⟨before, later, -, reached, stepped, rest⟩ := run.split member
    rw [called] at stepped
    obtain ⟨c, _, l, answer, w', l', there, -⟩ := Config.step_call stepped
    obtain ⟨thread', there', onward⟩ :=
      onward_steps (Steps.append (.snoc .refl stepped) rest) there
    cases ended.symm.trans there'
    exact reads_invisible reached there (onward.request ▸ reads) stepped

/-- A deposit is captured between the two reads of a listing, which shows the entry as posted. -/
theorem reads_linearizable_listing : ∃ trace cfg own, Steps initial trace cfg ∧
    cfg.threads[3]? =
      some ⟨some (.done (.ok (.entries [⟨1, 1, 1, 1, 100, 2, 2⟩]))), own⟩ ∧
    Linearized trace 3 own (.ok (.entries [⟨1, 1, 1, 1, 100, 2, 2⟩])) := by
  obtain ⟨trace, cfg, run, -, answered⟩ := reached (fun _ => true)
    (deposit ("USD", "USD") ++ .request (.getEntries 1) :: turns 3 2 ++
      .request (.capture 1 5) :: turns 4 12 ++ turns 3 2) (answer · 3)
    (a := some (.getEntries 1, .entries [⟨1, 1, 1, 1, 100, 2, 2⟩])) (by decide +kernel)
  obtain ⟨own, found, request⟩ := answer_eq_some answered
  exact ⟨trace, cfg, own, run, found,
    (reads_linearizable run found (request ▸ .entries 1)).1⟩

end Reads

end Fides.Ledger
