import Fides.Concurrency.Evaluation
import Fides.Concurrency.Lockstep
import Fides.Ledger.Runs
import Fides.Service.Status

/-! # Internal errors stay internal

The text that a database failure comes with reaches a client neither directly nor by
way of what is stored: if the same schedule is run with other texts, the tables, the
cache and everything the clients get are the same.
-/

namespace Fides.Ledger

open Domain Service Storage Concurrency

/-- Failures that differ in their text only. -/
inductive Weather.Alike : Weather → Weather → Prop where
  | fair : Weather.Alike .fair .fair
  | fault (message message' : String) : Weather.Alike (.fault message) (.fault message')

/-- The same answer, or failures that differ in their text. -/
def AlikeAnswers (c : Call) (x y : c.Result) : Prop :=
  y = x ∨ ∃ message message', (⟨c, x⟩ : Answered).error = some (.database (.other message)) ∧
    (⟨c, y⟩ : Answered).error = some (.database (.other message'))

/-- The same failure, or internal errors. -/
def AlikeErrors (e e' : Failure) : Prop :=
  e' = e ∨ ∃ message message', e = .error (.internal message) ∧ e' = .error (.internal message')

private theorem failed_alike {c : Call} {message : String} (message' : String) {w w' : World}
    {tx tx' : Tx} {x : c.Result} (failed : c.failed message w tx = some (x, w', tx')) :
    ∃ y, c.failed message' w tx = some (y, w', tx') ∧ AlikeAnswers c x y := by
  cases c <;> cases failed <;> exact ⟨_, rfl, .inr ⟨message, message', rfl, rfl⟩⟩

private theorem exec_alike {weather weather' : Weather} {c : Call} {w w' : World} {l l' m : Session}
    {x : c.Result} (choices : Weather.Alike weather weather')
    (own : l'.request = l.request ∧ l'.tx = l.tx)
    (ran : exec weather c w l = some (x, w', m)) :
    ∃ y m', exec weather' c w l' = some (y, w', m') ∧ AlikeAnswers c x y ∧
      (m'.request = m.request ∧ m'.tx = m.tx) := by
  obtain ⟨tx, out, rfl⟩ := exec_eq_some ran
  obtain ⟨y, again, alike⟩ : ∃ y, c.run weather' w l.tx = some (y, w', tx) ∧ AlikeAnswers c x y := by
    cases choices with
    | fair => exact ⟨x, out, .inl rfl⟩
    | fault message message' => exact failed_alike message' out
  refine ⟨y, l'.record c y tx, ?_, alike, own.1, rfl⟩
  rw [exec, own.2, again]

/-- What an observer sees who is not shown the texts of internal errors. -/
def mask : Mask server where
  choices := Weather.Alike
  answers := AlikeAnswers
  errors := AlikeErrors
  own l l' := l'.request = l.request ∧ l'.tx = l.tx
  exec := exec_alike
  waits c s mine theirs := by
    change Service.waits c s _ _ = Service.waits c s _ _
    rw [Service.waits, Service.waits, mine.2, theirs.2]
  arrive _ := ⟨rfl, rfl⟩
  lost own := ⟨own.1, rfl⟩

section Programs

variable {α β : Type}

/-- The program does not look at the texts of failures. -/
def Blind (p : Handler α) : Prop := mask.Alike p p

theorem Blind.bind {p : Handler α} {next : α → Handler β} (first : Blind p)
    (last : ∀ value, Blind (next value)) : Blind (p >>= next) :=
  Mask.Alike.bind first last

theorem Blind.done (outcome : Except Failure α) : Blind (.done outcome) := by
  cases outcome with
  | ok value => exact Mask.Alike.done (.ok value)
  | error e => exact Mask.Alike.done (.error (.inl rfl))

theorem Blind.orReject (result : Except ServiceError α) : Blind (orReject result) := by
  cases result <;> exact .done _

/-- A call that does not fail. -/
theorem Blind.call {c : Call} {rest : c.Result → Handler α}
    (certain : ∀ x, (⟨c, x⟩ : Answered).error = none) (later : ∀ x, Blind (rest x)) :
    Blind (.call c rest) := by
  refine Mask.Alike.call fun x y alike => ?_
  rcases alike with rfl | ⟨message, message', failed, -⟩
  · exact later y
  · rw [certain x] at failed
    cases failed

/-- A storage call whose failure is passed on. -/
theorem Blind.storage {c : Call} (read : c.Result → Except StorageError α)
    (errors : ∀ x, (⟨c, x⟩ : Answered).error = failure (read x)) :
    Blind (.call c fun x => orStorageError (read x)) := by
  have failing : ∀ {x : c.Result} {e}, (⟨c, x⟩ : Answered).error = some e → read x = .error e := by
    intro x e failed
    rw [errors] at failed
    cases said : read x with
    | ok value =>
      rw [said] at failed
      cases failed
    | error e' =>
      rw [said] at failed
      cases failed
      rfl
  refine Mask.Alike.call fun x y alike => ?_
  rcases alike with rfl | ⟨message, message', first, second⟩
  · cases read y <;> exact Blind.done _
  · rw [failing first, failing second]
    exact Mask.Alike.done (.error (.inr ⟨message, message', rfl, rfl⟩))

theorem Blind.commit : Blind commit := by
  refine Mask.Alike.call fun x y alike => ?_
  rcases alike with rfl | ⟨message, message', first, second⟩
  · rcases y with (_ | _ | _ | _) | _ <;> exact Blind.done _
  · rcases x with e | _ <;> cases first
    rcases y with e' | _ <;> cases second
    exact Mask.Alike.done (.error (.inr ⟨message, message', rfl, rfl⟩))

theorem Blind.inTransaction {body : Handler α} (blind : Blind body) : Blind (inTransaction body) :=
  .bind (.storage _ fun _ => rfl) fun _ =>
    Mask.Alike.onError blind (Blind.call (fun _ => rfl) fun _ => .done _)

theorem Blind.updateCache (updates : List BalanceUpdate) : Blind (updateCache updates) := by
  induction updates with
  | nil => exact .done _
  | cons update updates ih => exact .bind (.call (fun _ => rfl) fun _ => .done _) fun _ => ih

theorem Blind.lockAccounts (ids : List AccountId) : Blind (lockAccounts ids) := by
  induction ids with
  | nil => exact .done _
  | cons id ids ih =>
    refine .bind (.storage _ fun _ => rfl) fun found => ?_
    cases found with
    | none => exact .done _
    | some account => exact .bind ih fun _ => .done _

theorem Blind.checkAvailable (accounts : List Account) (legs : List TransferLeg) :
    Blind (checkAvailable accounts legs) := by
  induction legs with
  | nil => exact .done _
  | cons leg legs ih =>
    refine .bind (.done _) fun account => ?_
    split
    · refine .bind (.call (fun _ => rfl) fun _ => .done _) fun found => ?_
      cases found with
      | none => exact .done _
      | some balance =>
        change Blind (if _ then _ else _)
        split
        · exact ih
        · exact .done _
    · exact ih

theorem Blind.createEntries (id : TransactionId) (accounts : List Account) (now : Int)
    (legs : List TransferLeg) (entries : List Entry) (updates : List BalanceUpdate) :
    Blind (createEntries id accounts now legs entries updates) := by
  induction legs generalizing entries updates with
  | nil => exact .done _
  | cons leg legs ih =>
    exact .bind (.done _) fun _ => .bind (.storage _ fun _ => rfl) fun _ =>
      .bind (.orReject _) fun _ => ih _ _

theorem Blind.applyBalanceUpdates (accounts : List Account) (updates : List BalanceUpdate) :
    Blind (applyBalanceUpdates accounts updates) := by
  induction updates with
  | nil => exact .done _
  | cons update updates ih =>
    exact .bind (.done _) fun _ => .bind (.storage _ fun _ => rfl) fun _ => ih

end Programs

section Handlers

private theorem blind_createAccount (req : CreateAccountRequest) (now : Int) :
    Blind (createAccount req now) := by
  refine .bind (.orReject _) fun accountType => ?_
  dsimp only
  split
  · exact .done _
  split
  · exact .done _
  · exact .inTransaction (.bind (.storage _ fun _ => rfl) fun _ => .bind .commit fun _ =>
      .bind (.call (fun _ => rfl) fun _ => .done _) fun _ => .bind (.orReject _) fun _ => .done _)

private theorem blind_getAccount (id : Int) : Blind (getAccount id) := by
  refine .bind (.orReject _) fun id => .inTransaction (.bind (.storage _ fun _ => rfl) fun found => ?_)
  cases found with
  | none => exact .done _
  | some account => exact .bind .commit fun _ => .done _

private theorem blind_getBalance (id : Int) : Blind (getBalance id) := by
  refine .bind (.orReject _) fun id => .bind (.call (fun _ => rfl) fun _ => .done _) fun found => ?_
  cases found <;> exact .done _

private theorem blind_getEntries (id : Int) : Blind (getEntries id) := by
  refine .bind (.orReject _) fun id => .inTransaction (.bind (.storage _ fun _ => rfl) fun found => ?_)
  cases found with
  | none => exact .done _
  | some account =>
    exact .bind (.storage _ fun _ => rfl) fun _ => .bind .commit fun _ => .done _

private theorem blind_authorize (req : AuthorizeRequest) (now : Int) :
    Blind (authorize req now) := by
  unfold authorize
  split
  · exact .done _
  refine .bind (.orReject _) fun metadata => .bind (.orReject _) fun legs =>
    .bind (.orReject _) fun _ => .inTransaction (.bind (.storage _ fun _ => rfl) fun found => ?_)
  cases found with
  | some existing =>
    exact .bind (.storage _ fun _ => rfl) fun _ => .bind .commit fun _ => .done _
  | none =>
    exact .bind (.lockAccounts _) fun _ => .bind (.checkAvailable _ _) fun _ =>
      .bind (.storage _ fun _ => rfl) fun _ => .bind (.createEntries ..) fun _ =>
      .bind (.applyBalanceUpdates _ _) fun _ => .bind .commit fun _ =>
      .bind (.updateCache _) fun _ => .bind (.orReject _) fun _ => .done _

private theorem blind_settle (kind : Settlement) (id : Int) : Blind (settle kind id) := by
  refine .bind (.orReject _) fun id => .inTransaction (.bind (.storage _ fun _ => rfl) fun found => ?_)
  cases found with
  | none => exact .done _
  | some transaction =>
    dsimp only
    split
    · exact .bind .commit fun _ => .done _
    split
    · exact .done _
    · exact .bind (.storage _ fun _ => rfl) fun _ => .bind (.lockAccounts _) fun _ =>
        .bind (.done _) fun _ => .bind (.storage _ fun _ => rfl) fun _ =>
        .bind (.storage _ fun _ => rfl) fun _ => .bind (.applyBalanceUpdates _ _) fun _ =>
        .bind .commit fun _ => .bind (.updateCache _) fun _ => .bind (.orReject _) fun _ => .done _

theorem blind_handler (r : Request) : Blind (handler r) := by
  cases r with
  | createAccount req now => exact blind_createAccount req now
  | getAccount id => exact blind_getAccount id
  | getBalance id => exact blind_getBalance id
  | authorize req now => exact blind_authorize req now
  | capture id now => exact blind_settle (.capture now) id
  | void id => exact blind_settle .void id
  | getEntries id => exact blind_getEntries id

end Handlers

variable {cfg : Config server} {events events' : List (Event server)}

/-- What the clients have got: nothing as long as their request is open or if it was dropped. -/
def replies (cfg : Config server) : List (Option (Option (Except Status Response))) :=
  cfg.threads.map fun thread => thread.outcome.map reply

private theorem reply_alike {outcome outcome' : Except Failure Response}
    (ends : mask.Ends outcome outcome') : reply outcome' = reply outcome := by
  rcases ends with value | looks
  · rfl
  · rcases looks with rfl | ⟨message, message', rfl, rfl⟩
    · rfl
    · rfl

private theorem replies_alike {threads threads' : List (Thread server)}
    (alike : List.Forall₂ mask.Threads threads threads') :
    (threads'.map fun thread => thread.outcome.map reply) =
      threads.map fun thread => thread.outcome.map reply := by
  induction alike with
  | nil => rfl
  | cons head _ ih =>
    rw [List.map_cons, List.map_cons, ih]
    congr 1
    cases head with
    | ended _ => rfl
    | running programs _ =>
      cases programs with
      | done ends => exact congrArg some (reply_alike ends)
      | call _ => rfl

/-- Whatever texts the failures of the database come with: the same schedule leads to the same
    tables, sequences and cache, and every client gets the same response or the same status. -/
theorem internals_hidden (masked : List.Forall₂ mask.Events events events')
    (played : initial.play (fun _ => true) events = some cfg) :
    ∃ cfg', initial.play (fun _ => true) events' = some cfg' ∧ cfg'.shared = cfg.shared ∧
      replies cfg' = replies cfg := by
  have start : mask.Configs initial initial := ⟨rfl, .nil⟩
  obtain ⟨cfg', again, alike⟩ := Mask.play blind_handler start masked played
  exact ⟨cfg', again, alike.shared, replies_alike alike.threads⟩

private theorem events_self (event : Event server) : mask.Events event event := by
  cases event with
  | request r => exact .request r
  | call i weather => cases weather <;> exact .call i (by constructor)
  | drop i => exact .drop i
  | crash => exact .crash

/-- An account is created, and the database fails on a read of it. -/
def failingRead (message : String) : List (Event server) :=
  (.request (.createAccount ⟨1, "USD", 2⟩ 1) :: turns 0 4 ++
    [.request (.getAccount 1), .call 1 .fair]) ++ [.call 1 (.fault message), .call 1 .fair]

/-- The status that a client has got. -/
def statusGot (cfg : Config server) (i : Nat) : Option Status :=
  match (replies cfg)[i]? with
  | some (some (some (.error status))) => some status
  | _ => none

theorem internals_hidden_read : ∃ cfg cfg',
    initial.play (fun _ => true) (failingRead "could not connect to 10.0.0.7:5432") = some cfg ∧
    initial.play (fun _ => true) (failingRead "") = some cfg' ∧
    statusGot cfg 1 = some ⟨.internal, "internal error"⟩ ∧
    cfg'.shared = cfg.shared ∧ replies cfg' = replies cfg := by
  have masked : List.Forall₂ mask.Events (failingRead "could not connect to 10.0.0.7:5432")
      (failingRead "") :=
    List.rel_append (List.forall₂_same.mpr fun event _ => events_self event)
      (.cons (.call 1 (.fault _ _)) (.cons (events_self _) .nil))
  have played : (initial.play (fun _ => true)
      (failingRead "could not connect to 10.0.0.7:5432")).map (statusGot · 1) =
      some (some ⟨.internal, "internal error"⟩) := by decide +kernel
  obtain ⟨cfg, ended, status⟩ := Option.map_eq_some_iff.mp played
  obtain ⟨cfg', again, same, alike⟩ := internals_hidden masked ended
  exact ⟨cfg, cfg', ended, again, status, same, alike⟩

end Fides.Ledger
