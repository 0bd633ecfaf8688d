import Fides.Ledger.Caching

/-! # What a request leaves alone

A request that is served while there are no others finds the tables and the cache
as they were until it commits.  If it commits, its row versions say which rows
it has changed, and the cache follows; if it does not, nothing has changed.
-/

namespace Fides.Ledger

open Domain Service Storage FixedWidth Relational Bookkeeping Concurrency

variable {cfg next : Config server} {trace : List (Transition server)}

/-- A session that has run with no others since the world was `w₀`. -/
inductive Alone (w₀ w : World) (l : Session) : Prop where
  | before (uncommitted : l.summary.committed = false) (tables : w.tables = w₀.tables)
  | after {w₁ own} (book : Consistent w₁.tables w₁.sequences) (ready : Ready w₁ own)
      (busy : Busy w₁ own) (same : w₁.tables = w₀.tables)
      (request : l.request = own.request)
      (effects : l.effects = { own.summary with committed := true })
      (tables : w.tables = w₀.tables.merge own.tx.versions)

section Step

variable {w₀ w w' : World} {l l' : Session} {weather : Weather} {c : Call} {answer : c.Result}

theorem Alone.call (book : Consistent w.tables w.sequences) (allowed : Allowed w l c)
    (busy : Busy w l) (alone : Alone w₀ w l)
    (ran : exec weather c w l = some (answer, w', l')) : Alone w₀ w' l' := by
  by_cases made : (⟨c, answer⟩ : Answered) = ⟨.commit, .ok ()⟩
  · cases made
    have ready : Ready w l := allowed
    cases alone with
    | before uncommitted tables =>
        cases weather with
        | fair =>
            cases ran
            refine .after book ready busy tables rfl (ready.effects _).2 ?_
            rw [← tables]
            rfl
        | fault message => cases ran
    | after _ _ _ _ _ effects =>
        have committed := congrArg Summary.committed effects
        rw [Session.committed_effects, ready.uncommitted.1] at committed
        cases committed
  · have tables := exec_tables ran made
    obtain ⟨tx, -, rfl⟩ := exec_does ran
    have effects := effects_record tx allowed made
    cases alone with
    | before uncommitted same =>
        refine .before ?_ (tables.trans same)
        rw [← Session.committed_effects, effects, Session.committed_effects, uncommitted]
    | after book ready busy same request made' tables' =>
        exact .after book ready busy same request (effects.trans made') (tables.trans tables')

end Step

/-- How a request ends that is served while there are no others. -/
theorem served_alone (run : Steps initial trace cfg) (one : ∀ moved ∈ trace, serial moved = true)
    (quiet : cfg.quiet = true) {r : Request} {choices : List Weather} {outcome} {own : Session}
    (played : cfg.play serial (cfg.serving r choices) = some next)
    (ended : next.threads[cfg.threads.length]? = some ⟨some (.done outcome), own⟩) :
    own.request = r ∧ Promise outcome own ∧ Alone cfg.shared next.shared own ∧
      cfg.shared.cache = cfg.shared.tables.cached [] [] ∧
      next.shared.cache = next.shared.tables.cached [] [] := by
  have idle : upToDate.idle cfg.shared := (serial_upToDate run one).idle quiet
  have ran := Config.solo_of_play played ended
  obtain ⟨-, promise, request, busy, alone⟩ := Discipline.solo_rule (D := protocol)
    (P := fun w l => l.request = r ∧ Busy w l ∧ Alone cfg.shared w l)
    (fun book allowed holds ran => by
      obtain ⟨request, busy, alone⟩ := holds
      refine ⟨?_, busy.call book allowed.2 ran, alone.call book allowed.2 busy ran⟩
      obtain ⟨tx, -, rfl⟩ := exec_does ran
      exact request)
    (safe run).inv (.of_idle rfl) (checked r cfg.shared (safe run).inv)
    ⟨rfl, upToDate.arrive r idle, .before rfl rfl⟩ ran
  exact ⟨request, promise, alone, idle, busy.idle promise.1.owes_nothing⟩

section Footprint

/-- The account that a request has opened, or the accounts its transaction names: those of the
    legs if it is a new one, and of the entries that were answered if it was there before. -/
def touchesAccount (t : Tables) (r : Request) (response : Response) (a : Int) : Bool :=
  match r, response with
  | .createAccount .., .account account => account.id = a && (t.account? a).isNone
  | .authorize req _, .authorized transaction entries =>
      if (t.transaction? transaction.id).isSome then entries.any fun e => e.accountId = a
      else req.legs.any fun leg => leg.accountId = a
  | .capture id _, _ | .void id, _ => (t.entriesOf id).any fun e => e.accountId = a
  | _, _ => false

/-- The transaction of a request. -/
def touchesTransaction (r : Request) (response : Response) (id : Int) : Bool :=
  match r, response with
  | .authorize .., .authorized transaction _ => transaction.id = id
  | .capture asked _, _ | .void asked, _ => asked = id
  | _, _ => false

/-- Only these accounts, in the table and in the cache, and only these transactions, with
    their entries, may differ. -/
structure Untouched (account transaction : Int → Bool) (w w' : World) : Prop where
  accounts : ∀ a, account a = false → w'.tables.account? a = w.tables.account? a
  cached : ∀ id : AccountId, account id.value = false → w'.cache.balances id = w.cache.balances id
  transactions : ∀ id, transaction id = false →
    w'.tables.transaction? id = w.tables.transaction? id
  entries : ∀ id, transaction id = false → w'.tables.entriesOf id = w.tables.entriesOf id

variable {w w' : World} {l : Session} {response : Response}

/-- The cache follows the accounts table. -/
private theorem Untouched.of_tables {account transaction : Int → Bool}
    (before : w.cache = w.tables.cached [] []) (after : w'.cache = w'.tables.cached [] [])
    (accounts : ∀ a, account a = false → w'.tables.account? a = w.tables.account? a)
    (transactions : ∀ id, transaction id = false →
      w'.tables.transaction? id = w.tables.transaction? id ∧
        w'.tables.entriesOf id = w.tables.entriesOf id) : Untouched account transaction w w' where
  accounts := accounts
  cached id untouched := by simp [before, after, Tables.cached, accounts id.value untouched]
  transactions id untouched := (transactions id untouched).1
  entries id untouched := (transactions id untouched).2

/-- Updates leave alone the accounts that no line names. -/
private theorem account?_of_unnamed {t t' : Tables} {normal : Int → Side} {p q : Int}
    {lines : List (Line Int)} {updates : List BalanceUpdate} {a : Int}
    (nets : Nets normal p q lines updates)
    (updated : t'.account? a = (t.account? a).map (AccountRow.updated updates))
    (unnamed : ∀ line ∈ lines, line.account ≠ a) : t'.account? a = t.account? a := by
  rw [updated]
  refine updated_of_other fun update member here => ?_
  obtain ⟨line, listed, same⟩ := (nets.covers a).mp ⟨update, member, here⟩
  exact unnamed line listed same

private theorem hold_untouched {t t' : Tables} {ids : Sequences} {row : TransactionRow}
    {rows updates} (book : Consistent t ids) (holds : Holds t ids row rows updates)
    (tables : t' = t.hold row rows updates) :
    (∀ a, (∀ e ∈ rows, e.accountId ≠ a) → t'.account? a = t.account? a) ∧
      ∀ id, row.id ≠ id →
        t'.transaction? id = t.transaction? id ∧ t'.entriesOf id = t.entriesOf id := by
  subst tables
  refine ⟨fun a unnamed => ?_, fun id other => ?_⟩
  · refine account?_of_unnamed holds.nets (t.account?_hold updates row rows a) ?_
    exact List.forall_mem_map.mpr unnamed
  · rw [Tables.transaction?_hold, book.entriesOf_hold holds, if_neg other, if_neg other,
      Option.or_none]
    exact ⟨rfl, rfl⟩

private theorem settle_untouched {t t' : Tables} {id status : Int} {postedAt updates}
    (settles : Settles t id status postedAt updates)
    (tables : t' = t.settle id status postedAt updates) :
    (∀ a, (∀ e ∈ t.entriesOf id, e.accountId ≠ a) → t'.account? a = t.account? a) ∧
      ∀ other, id ≠ other →
        t'.transaction? other = t.transaction? other ∧ t'.entriesOf other = t.entriesOf other := by
  subst tables
  refine ⟨fun a unnamed => ?_, fun other different => ?_⟩
  · refine account?_of_unnamed settles.nets (t.account?_settle updates id status postedAt a) ?_
    exact List.forall_mem_map.mpr unnamed
  · exact ⟨t.transaction?_settle_other updates status postedAt different.symm,
      t.entriesOf_settle_other updates status postedAt different.symm⟩

/-- The legs of a request name the accounts of its entries. -/
private theorem unnamed_rows {req : AuthorizeRequest} {legs : List TransferLeg}
    {rows : List EntryRow} {a : Int} (parsed : parseTransferLegs req.legs = .ok legs)
    (lines : rows.map EntryRow.line = legs.map TransferLeg.line)
    (unnamed : ∀ leg ∈ req.legs, leg.accountId ≠ a) : ∀ e ∈ rows, e.accountId ≠ a := by
  intro e member here
  have listed : e.line ∈ legs.map TransferLeg.line := lines ▸ List.mem_map_of_mem member
  obtain ⟨leg, inside, same⟩ := List.mem_map.mp listed
  obtain ⟨-, proto, asked, account⟩ := parseTransferLegs_ok parsed leg inside
  have account' : leg.accountId.value = e.accountId := congrArg Line.account same
  exact unnamed proto asked (by omega)

private theorem Alone.untouched (alone : Alone w w' l) (reports : Reports l response)
    (before : w.cache = w.tables.cached [] []) (after : w'.cache = w'.tables.cached [] []) :
    Untouched (touchesAccount w.tables l.request response) (touchesTransaction l.request response)
      w w' := by
  cases alone with
  | before _ tables => exact .of_tables before after (by simp [tables]) (by simp [tables])
  | @after w₁ own book ready _ same request effects tables =>
      have committed : l.summary.committed = true := by
        rw [← Session.committed_effects, effects]
      rw [Session.effects, if_pos committed] at effects
      have opened := congrArg Summary.opened effects
      have authorized := congrArg Summary.authorized effects
      rw [same] at book
      cases ready with
      | reading versions =>
          rw [versions] at tables
          exact .of_tables before after (fun _ _ => by rw [tables]; rfl)
            (fun _ _ => by rw [tables]; exact ⟨rfl, rfl⟩)
      | @enrolling _ _ row asked enrolls versions made =>
          rw [same] at enrolls
          rw [versions, merge_enroll enrolls] at tables
          have asks := request.trans asked
          obtain ⟨account, rfl, -, reported⟩ := reports.created _ _ asks
          have here : account.id = row.id := by
            rw [made] at opened
            simpa [reported] using opened
          rw [asks]
          refine .of_tables before after (fun a untouched => ?_)
            (fun _ _ => by rw [tables]; exact ⟨rfl, rfl⟩)
          rw [tables, Tables.account?_enroll]
          cases there : w.tables.account? a with
          | some old => rfl
          | none =>
              have other : row.id ≠ a := by simpa [touchesAccount, here, there] using untouched
              rw [if_neg other, Option.or_none]
      | @holding _ _ _ row _ _ asked parsed _ lines _ holds _ versions made =>
          rw [same] at holds
          rw [versions, same, merge_hold book holds] at tables
          obtain ⟨accounts, transactions⟩ := hold_untouched book holds tables
          have asks := request.trans asked
          have answer := reports.authorized _ _ asks
          rw [asks]
          cases answer with
          | replayed _ _ nothing =>
              rw [nothing, made] at authorized
              cases authorized
          | made _ inserted =>
              rw [inserted, made] at authorized
              cases authorized
              have fresh : w.tables.transaction? row.id = none := holds.fresh
              refine .of_tables before after (fun a untouched => ?_) (fun id untouched => ?_)
              · refine accounts a (unnamed_rows parsed lines ?_)
                simpa [touchesAccount, fresh] using untouched
              · exact transactions id (by simpa [touchesTransaction] using untouched)
      | settling asks settles found versions =>
          rw [same] at settles found
          rw [versions, same, merge_settle book settles found] at tables
          obtain ⟨accounts, transactions⟩ := settle_untouched settles tables
          rw [request]
          generalize own.request = asked at asks ⊢
          refine .of_tables before after (fun a untouched => ?_) (fun id untouched => ?_)
          · refine accounts a ?_
            cases asks <;> simpa [touchesAccount] using untouched
          · refine transactions id ?_
            cases asks <;> simpa [touchesTransaction] using untouched

/-- A request that fails has changed neither a table nor the cache, whichever of its
    calls have failed, and one that succeeds has changed only what is its own. -/
theorem all_or_nothing (run : Steps initial trace cfg) (one : ∀ moved ∈ trace, serial moved = true)
    (quiet : cfg.quiet = true) {r : Request} {choices : List Weather} {outcome} {own : Session}
    (played : cfg.play serial (cfg.serving r choices) = some next)
    (ended : next.threads[cfg.threads.length]? = some ⟨some (.done outcome), own⟩) :
    (∀ e, outcome = .error e → next.shared.tables = cfg.shared.tables ∧
      next.shared.cache = cfg.shared.cache) ∧
    ∀ response, outcome = .ok response →
      Untouched (touchesAccount cfg.shared.tables r response) (touchesTransaction r response)
        cfg.shared next.shared := by
  obtain ⟨rfl, promise, alone, before, after⟩ := served_alone run one quiet played ended
  refine ⟨fun e failed => ?_, fun response succeeded => ?_⟩
  · cases alone with
    | before _ tables => exact ⟨tables, by rw [before, after, tables]⟩
    | after _ _ _ _ _ effects =>
        have committed := congrArg Summary.committed effects
        rw [Session.committed_effects, promise.2.2 e failed] at committed
        cases committed
  · exact alone.untouched (promise.2.1 response succeeded) before after

/-- A deposit whose commit fails changes nothing, and the same deposit without a fault
    leaves other accounts alone. -/
theorem all_or_nothing_deposit : ∃ trace cfg failed made e response, Steps initial trace cfg ∧
    cfg.serve depositing (List.replicate 9 .fair ++ [.fault "connection reset", .fair]) =
      some (.error e) ∧
    cfg.play serial (cfg.serving depositing
      (List.replicate 9 .fair ++ [.fault "connection reset", .fair])) = some failed ∧
    failed.shared.tables = cfg.shared.tables ∧ failed.shared.cache = cfg.shared.cache ∧
    cfg.serve depositing (List.replicate 12 .fair) = some (.ok response) ∧
    cfg.play serial (cfg.serving depositing (List.replicate 12 .fair)) = some made ∧
    Untouched (touchesAccount cfg.shared.tables depositing response)
      (touchesTransaction depositing response) cfg.shared made.shared := by
  obtain ⟨trace, cfg, run, one, computed⟩ := reached serial ((deposit ("USD", "USD")).take 10)
    (fun cfg => (cfg.quiet,
      (cfg.serve depositing (List.replicate 9 .fair ++ [.fault "connection reset", .fair])).map
        Except.toBool, (cfg.serve depositing (List.replicate 12 .fair)).map Except.toBool))
    (a := (true, some false, some true)) (by decide +kernel)
  simp only [Prod.mk.injEq, Option.map_eq_some_iff] at computed
  obtain ⟨quiet, ⟨outcome, served, error⟩, outcome', served', ok⟩ := computed
  obtain ⟨failed, own, played, ended⟩ := Config.exists_of_serve served
  obtain ⟨made, own', played', ended'⟩ := Config.exists_of_serve served'
  cases outcome with
  | ok => cases error
  | error e =>
      cases outcome' with
      | error => cases ok
      | ok response =>
          obtain ⟨tables, cache⟩ := (all_or_nothing run one quiet played ended).1 e rfl
          exact ⟨trace, cfg, failed, made, e, response, run, served, played, tables, cache, served',
            played', (all_or_nothing run one quiet played' ended').2 response rfl⟩

end Footprint

end Fides.Ledger
