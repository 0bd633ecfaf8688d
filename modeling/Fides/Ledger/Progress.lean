import Fides.Concurrency.Progress
import Fides.Ledger.Deadlock
import Fides.Ledger.Releasing

/-! # Every request comes to an end

No handler waits for a lock of a request that has ended, and none waits in a circle.  A
handler waits for locks at all only after it has seen that there is something left to do.
-/

namespace Fides.Ledger

open Domain Service Storage Concurrency

variable {cfg : Config server} {trace : List (Transition server)}

/-- Nobody waits for a session that holds nothing. -/
private theorem waits_idle (c : Call) (w : World) (l : Session) {other : Session}
    (idle : other.tx = .idle) : waits c w l other = false := by
  rw [waits, List.any_eq_false]
  intro r _
  simp [idle, Tx.idle]

/-- From every state that a run can reach, in whatever order calls are made, however the database
    answers them and whichever clients hang up: as long as some request is open, one of the open
    requests can make its next call, and after finitely many calls no request is open. -/
theorem requests_end (run : Steps initial trace cfg) :
    Inevitably (Config.Calls Weather.fair) Config.Moves (fun cfg => cfg.quiet = true) cfg := by
  apply Config.inevitably_quiet (P := fun cfg => ∃ trace, Steps initial trace cfg)
  · exact fun c w l => rfl
  · exact fun ⟨_, run⟩ stepped => ⟨_, run.snoc stepped⟩
  · exact fun cfg ⟨_, run⟩ => waits_acyclic (safe run)
  · intro cfg ⟨_, run⟩ c l thread member finished
    obtain ⟨i, there⟩ := List.getElem?_of_mem member
    exact waits_idle c cfg.shared l (finished_idle run there finished)
  · exact ⟨trace, run⟩

section Looking

/-- The calls that a request makes to look at something; in a session that has written nothing
    they leave everything as it is. -/
def looks : Call → Bool
  | .begin | .getAccount _ | .getTransaction _ | .findTransactionByKey _
  | .getEntriesForTransaction _ | .getEntriesForAccount _ | .commit | .rollback | .cacheGet _ => true
  | _ => false

variable {α : Type} {kind : Call → Prop}

private theorem makes_orStorageError (result : Except StorageError α) :
    (orStorageError result).Makes kind := by
  cases result <;> trivial

private theorem makes_orReject (result : Except ServiceError α) : (orReject result).Makes kind := by
  cases result <;> trivial

private theorem makes_commit (ends : kind .commit) : commit.Makes kind := by
  refine ⟨ends, fun answer => ?_⟩
  rcases answer with (e | message | _ | _) | value <;> trivial

private theorem makes_inTransaction {body : Handler α} (begins : kind .begin) (drops : kind .rollback)
    (inner : body.Makes kind) : (inTransaction body).Makes kind :=
  .bind ⟨begins, fun _ => makes_orStorageError _⟩ fun _ => .onError inner ⟨drops, fun _ => trivial⟩

private theorem looks_getAccount (id : Int) : (getAccount id).Makes (looks · = true) := by
  refine .bind (makes_orReject _) fun id => makes_inTransaction rfl rfl ?_
  refine .bind ⟨rfl, fun _ => makes_orStorageError _⟩ fun found => ?_
  cases found with
  | none => trivial
  | some account => exact .bind (makes_commit rfl) fun _ => trivial

private theorem looks_getEntries (id : Int) : (getEntries id).Makes (looks · = true) := by
  refine .bind (makes_orReject _) fun id => makes_inTransaction rfl rfl ?_
  refine .bind ⟨rfl, fun _ => makes_orStorageError _⟩ fun found => ?_
  cases found with
  | none => trivial
  | some account =>
    refine .bind ⟨rfl, fun _ => makes_orStorageError _⟩ fun _ => ?_
    exact .bind (makes_commit rfl) fun _ => trivial

private theorem looks_getBalance (id : Int) : (getBalance id).Makes (looks · = true) := by
  refine .bind (makes_orReject _) fun id => .bind ⟨rfl, fun _ => trivial⟩ fun found => ?_
  cases found <;> trivial

theorem looks_of_reads {r : Request} (reads : Reads r) : (handler r).Makes (looks · = true) := by
  cases reads with
  | account id => exact looks_getAccount id
  | balance id => exact looks_getBalance id
  | entries id => exact looks_getEntries id

end Looking

section Waiting

/-- A session that has something to write: an authorization whose key was not in use, or a
    settlement that has read its transaction as pending. -/
def Entitled (l : Session) : Prop :=
  (∃ req now, l.request = .authorize req now ∧
    (⟨.findTransactionByKey req.idempotencyKey, .ok none⟩ : Answered) ∈ l.history) ∨
  ∃ id status postedAt, Asks l.request id status postedAt ∧ ∃ transaction : Transaction,
    transaction.status = .pending ∧
      (⟨.getTransaction id, .ok (some transaction)⟩ : Answered) ∈ l.history

/-- Only a session that is entitled to it makes a call that needs a lock. -/
private def MayLock (c : Call) (l : Session) : Prop := (∃ view, c.needs view ≠ []) → Entitled l

private theorem Entitled.exec {weather : Weather} {c : Call} {w w' : World} {l l' : Session}
    {answer : c.Result} (ran : exec weather c w l = some (answer, w', l')) (entitled : Entitled l) :
    Entitled l' := by
  obtain ⟨tx, -, rfl⟩ := exec_eq_some ran
  rcases entitled with ⟨req, now, asks, unused⟩ | ⟨id, status, postedAt, asks, transaction, pending, seen⟩
  · exact .inl ⟨req, now, asks, List.mem_append_left _ unused⟩
  · exact .inr ⟨id, status, postedAt, asks, transaction, pending, List.mem_append_left _ seen⟩

private theorem heeds_of_entitled {α : Type} (p : Handler α) {l : Session} (entitled : Entitled l) :
    server.Heeds MayLock p l :=
  .of_licence (fun _ _ entitled _ => entitled) (fun _ _ _ _ _ _ _ ran => .exec ran) entitled

/-- The call needs no locks. -/
private def Free (c : Call) : Prop := ∀ view, c.needs view = []

private theorem heeds_of_free {α : Type} {p : Handler α} {l : Session} (makes : p.Makes Free) :
    server.Heeds MayLock p l :=
  .of_makes (fun _ _ free ⟨view, needed⟩ => absurd (free view) needed) makes

private theorem free_of_looks {c : Call} (looking : looks c = true) : Free c := by
  intro view
  cases c <;> first | rfl | cases looking

/-- The scope of a transaction adds calls that need no locks. -/
private theorem heeds_inTransaction {α : Type} {body : Handler α} {l : Session}
    (heeds : ∀ l', l'.request = l.request → server.Heeds MayLock body l') :
    server.Heeds MayLock (inTransaction body) l := by
  refine ⟨fun ⟨view, needed⟩ => absurd rfl needed, fun weather w answer w' l' ran => ?_⟩
  obtain ⟨tx, -, rfl⟩ := exec_eq_some ran
  cases answer with
  | error e => trivial
  | ok value =>
    refine System.Heeds.onError (heeds _ rfl) fun e l => heeds_of_free ?_
    exact .bind ⟨fun _ => rfl, fun _ => trivial⟩ fun _ => trivial

private theorem makes_createAccount (req : CreateAccountRequest) (now : Int) :
    (createAccount req now).Makes Free := by
  refine .bind (makes_orReject _) fun accountType => ?_
  dsimp only
  split
  · trivial
  split
  · trivial
  · refine makes_inTransaction (fun _ => rfl) (fun _ => rfl) ?_
    refine .bind ⟨fun _ => rfl, fun _ => makes_orStorageError _⟩ fun id => ?_
    refine .bind (makes_commit fun _ => rfl) fun _ => ?_
    exact .bind ⟨fun _ => rfl, fun _ => trivial⟩ fun _ => .bind (makes_orReject _) fun _ => trivial

private theorem heeds_authorize {l : Session} (req : AuthorizeRequest) (now : Int)
    (request : l.request = .authorize req now) : server.Heeds MayLock (authorize req now) l := by
  unfold authorize
  split
  · trivial
  cases parseMetadata req.metadata with
  | error e => trivial
  | ok metadata =>
    cases parseTransferLegs req.legs with
    | error e => trivial
    | ok legs =>
      change server.Heeds MayLock
        (orReject ((validateTransactionBalance legs).mapError .ofValidation) >>= fun _ =>
          inTransaction _) l
      cases validateTransactionBalance legs with
      | error e => trivial
      | ok accepted =>
        refine heeds_inTransaction fun l' same => ?_
        refine ⟨fun ⟨view, needed⟩ => absurd rfl needed, fun weather w answer w' l'' ran => ?_⟩
        obtain ⟨tx, -, rfl⟩ := exec_eq_some ran
        cases answer with
        | error e => trivial
        | ok found =>
          cases found with
          | none =>
            apply heeds_of_entitled
            exact .inl ⟨req, now, same.trans request, List.mem_append_right _ List.mem_cons_self⟩
          | some existing =>
            apply heeds_of_free
            change (getEntriesForTransaction existing.id >>= fun entries =>
              commit >>= fun _ => pure (Response.authorized _ (entries.map entryToProto))).Makes Free
            refine .bind ⟨fun _ => rfl, fun _ => makes_orStorageError _⟩ fun _ => ?_
            exact .bind (makes_commit fun _ => rfl) fun _ => trivial

private theorem heeds_settle {l : Session} {kind : Settlement} {id : Int}
    (asks : Asks l.request ⟨id⟩ kind.status kind.postedAt) :
    server.Heeds MayLock (settle kind id) l := by
  unfold settle TransactionId.new
  split
  · trivial
  refine heeds_inTransaction fun l' same => ?_
  refine ⟨fun ⟨view, needed⟩ => absurd rfl needed, fun weather w answer w' l'' ran => ?_⟩
  obtain ⟨tx, -, rfl⟩ := exec_eq_some ran
  rcases answer with e | _ | transaction
  · trivial
  · trivial
  · change server.Heeds MayLock (if _ then _ else _) _
    split
    · exact heeds_of_free (Prog.Makes.bind (makes_commit fun _ => rfl) fun _ => trivial)
    split
    · trivial
    · rename_i pending
      apply heeds_of_entitled
      refine .inr ⟨⟨id⟩, kind.status, kind.postedAt, ?_, transaction, not_not.mp pending,
        List.mem_append_right _ List.mem_cons_self⟩
      rw [Session.request_record, same]
      exact asks

private theorem heeds_of_looking {r : Request} {l : Session} (reads : Reads r) :
    server.Heeds MayLock (handler r) l :=
  heeds_of_free ((looks_of_reads reads).mono fun _ => free_of_looks)

private theorem heeds_handler (r : Request) : server.Heeds MayLock (handler r) (server.arrive r) := by
  cases r with
  | createAccount req now => exact heeds_of_free (makes_createAccount req now)
  | getAccount id => exact heeds_of_looking (.account id)
  | getBalance id => exact heeds_of_looking (.balance id)
  | authorize req now => exact heeds_authorize req now rfl
  | capture id now =>
    change server.Heeds MayLock (settle (.capture now) id) _
    exact heeds_settle (.capture id now)
  | void id =>
    change server.Heeds MayLock (settle .void id) _
    exact heeds_settle (.void id)
  | getEntries id => exact heeds_of_looking (.entries id)

/-- In every run, a request that waits in the database for the lock of another one, on a row or on
    an idempotency key, is an authorization that has seen that its key is not in use, or a
    settlement that has read its transaction as pending; and the request that it waits for is still
    open.  No other request ever waits for a lock. -/
theorem waits_entitled (run : Steps initial trace cfg) {i j : Nat} (waits : cfg.WaitsFor i j) :
    (∃ thread, cfg.threads[i]? = some thread ∧ Entitled thread.own) ∧
      ∃ thread, cfg.threads[j]? = some thread ∧ thread.finished = false := by
  obtain ⟨-, c, rest, own, other, found, there, conflict⟩ := waits
  constructor
  · have heeds : ∀ (i : Nat) thread, cfg.threads[i]? = some thread →
        ∀ p, thread.prog = some p → server.Heeds MayLock p thread.own :=
      @Steps.invariant _ server _ _ _ _ (fun _ => True) (fun _ _ _ all stepped _ =>
        Config.heeding_step heeds_handler all stepped) (by simp [initial]) run fun _ _ => trivial
    refine ⟨_, found, (heeds i _ found _ rfl).1 ⟨own.tx.view cfg.shared.database, ?_⟩⟩
    intro nothing
    simp [Service.waits, nothing] at conflict
  · refine ⟨other, there, ?_⟩
    by_contra finished
    have free := waits_idle c cfg.shared own
      (finished_idle run there (by simpa using finished))
    cases free.symm.trans conflict

end Waiting

section Captures

/-- Two captures of a deposit: the first has locked the accounts, the second waits for it. -/
private theorem captures_wait : ∃ trace cfg, Steps initial trace cfg ∧ cfg.WaitsFor 4 3 := by
  obtain ⟨trace, cfg, run, -, waits⟩ := reached (fun _ => true)
    (deposit ("USD", "USD") ++ .request (.capture 1 5) :: .request (.capture 1 6) ::
      turns 3 4 ++ turns 4 3) (waiting · 4 3) (a := true) (by decide +kernel)
  exact ⟨trace, cfg, run, waitsFor_of_waiting waits⟩

theorem requests_end_captures : ∃ trace cfg, Steps initial trace cfg ∧ cfg.WaitsFor 4 3 ∧
    Inevitably (Config.Calls Weather.fair) Config.Moves (fun cfg => cfg.quiet = true) cfg := by
  obtain ⟨trace, cfg, run, waits⟩ := captures_wait
  exact ⟨trace, cfg, run, waits, requests_end run⟩

theorem waits_entitled_captures : ∃ trace cfg, Steps initial trace cfg ∧ cfg.WaitsFor 4 3 ∧
    (∃ thread, cfg.threads[4]? = some thread ∧ Entitled thread.own) ∧
      ∃ thread, cfg.threads[3]? = some thread ∧ thread.finished = false := by
  obtain ⟨trace, cfg, run, waits⟩ := captures_wait
  exact ⟨trace, cfg, run, waits, waits_entitled run waits⟩

end Captures

end Fides.Ledger
