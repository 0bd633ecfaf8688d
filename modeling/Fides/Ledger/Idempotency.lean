import Fides.Ledger.Exactness
import Fides.Ledger.Runs

/-! # At most one authorization per key

Many handlers may find a key unused and go on.  The unique constraint lets one of
them through; the others leave no trace, neither in the tables nor in the cache.
`Session.effects` says which handler it was: every transaction of the book was
inserted by exactly one session, and its lines are the legs of that session's
request.
-/

namespace Fides.Ledger

open Domain Service Storage Relational Bookkeeping Concurrency

variable {cfg next : Config server} {event : Event server} {trace : List (Transition server)}

section Insertions

/-- How often a session has inserted a transaction. -/
def insertions (id : TransactionId) (s : Summary) : Int :=
  (s.authorized.countP fun other => other = id : Nat)

private theorem insertions_step (safe : protocol.Safe cfg) (stepped : cfg.step event = some next)
    (holds : ∀ id, cfg.total (fun l => insertions id l.effects) =
      if (cfg.shared.tables.transaction? id.value).isSome then 1 else 0) (id : TransactionId) :
    next.total (fun l => insertions id l.effects) =
      if (next.shared.tables.transaction? id.value).isSome then 1 else 0 := by
  rw [total_effects safe stepped (f := insertions id) rfl, holds]
  rcases step_committing safe stepped with ⟨none, same⟩ | ⟨own, known, commits⟩
  · rw [none, same, Option.elim_none, add_zero]
  · rw [known, Option.elim_some, commits.tables]
    cases commits.ready with
    | reading versions summary =>
        rw [summary, versions]
        exact add_zero _
    | enrolling _ enrolls versions summary =>
        rw [summary, versions, merge_enroll enrolls]
        exact add_zero _
    | @holding _ _ _ row rows updates _ _ _ _ _ holds _ versions summary =>
        rw [summary, versions, merge_hold safe.inv holds, Tables.transaction?_hold]
        by_cases here : row.id = id.value
        · have same : (⟨row.id⟩ : TransactionId) = id := by rw [here]
          simp [insertions, same, ← here, holds.fresh]
        · have other : (⟨row.id⟩ : TransactionId) ≠ id := fun same => here (by rw [← same])
          simp [insertions, other, here]
    | settling _ settles found versions summary =>
        rw [summary, versions, merge_settle safe.inv settles found, Tables.transaction?_settle,
          Option.isSome_map]
        exact add_zero _

/-- Every transaction of the book was inserted once. -/
private theorem insertions_steps (run : Steps initial trace cfg) (id : TransactionId) :
    cfg.total (fun l => insertions id l.effects) =
      if (cfg.shared.tables.transaction? id.value).isSome then 1 else 0 := by
  refine run_invariant (fun _ => True) (P := fun cfg => ∀ id,
    cfg.total (fun l => insertions id l.effects) =
      if (cfg.shared.tables.transaction? id.value).isSome then 1 else 0) (fun _ => rfl) ?_ run
    (fun _ _ => trivial) id
  intro before event after safe holds stepped _
  exact insertions_step safe stepped holds

end Insertions

section Authors

/-- A session has inserted this transaction, with the legs of its request. -/
structure Authored (w : World) (request : Request) (id : TransactionId) (req : AuthorizeRequest)
    (legs : List TransferLeg) (row : TransactionRow) : Prop where
  request : ∃ now, request = .authorize req now
  parsed : parseTransferLegs req.legs = .ok legs
  found : w.tables.transaction? id.value = some row
  key : varchar 64 req.idempotencyKey = .ok row.idempotencyKey
  lines : w.tables.lines id.value = legs.map TransferLeg.line

private theorem authored_steps (run : Steps initial trace cfg) {i : Nat} {thread : Thread server}
    (there : cfg.threads[i]? = some thread) {id : TransactionId}
    (inserted : id ∈ thread.own.effects.authorized) :
    ∃ req legs row, Authored cfg.shared thread.own.request id req legs row := by
  refine effects_invariant (T := fun w request s => ∀ id ∈ s.authorized,
    ∃ req legs row, Authored w request id req legs row) (fun _ _ => nofun) ?_ ?_ run i thread there
    id inserted
  · intro w w' request s keeps holds id inserted
    obtain ⟨req, legs, row, authored⟩ := holds id inserted
    obtain ⟨⟨row', found, key⟩, lines⟩ := keeps.lines id.value row authored.found
    exact ⟨req, legs, row', authored.request, authored.parsed, found, key ▸ authored.key,
      lines.trans authored.lines⟩
  · intro cfg next own safe commits id inserted
    have merged := commits.tables
    cases commits.ready with
    | reading _ summary | enrolling _ _ _ summary | settling _ _ _ _ summary =>
        rw [summary] at inserted
        cases inserted
    | @holding req now legs row rows updates request parsed key lines _ holds _ versions summary =>
        rw [summary] at inserted
        cases List.mem_singleton.mp inserted
        rw [versions, merge_hold safe.inv holds] at merged
        refine ⟨req, legs, row, ⟨now, request⟩, parsed, ?_, key, ?_⟩
        · rw [merged, Tables.transaction?_hold, holds.fresh, if_pos rfl]
          rfl
        · rw [merged, Tables.lines, safe.inv.entriesOf_hold holds, if_pos rfl, lines]

/-- An authorization that has inserted nothing has written nothing. -/
private theorem unwritten_steps (run : Steps initial trace cfg) {i : Nat} {thread : Thread server}
    (there : cfg.threads[i]? = some thread) {req : AuthorizeRequest} {now : Int}
    (asked : thread.own.request = .authorize req now)
    (nothing : thread.own.effects.authorized = []) : thread.own.effects.written = [] := by
  refine effects_invariant (T := fun _ request s => ∀ req now, request = .authorize req now →
    s.authorized = [] → s.written = []) (fun _ _ _ _ _ _ => rfl) (fun _ _ _ _ _ holds => holds) ?_
    run i thread there req now asked nothing
  intro cfg next own _ commits req now asked nothing
  cases commits.ready with
  | reading _ summary | enrolling _ _ _ summary => rw [summary]; rfl
  | holding _ _ _ _ _ _ _ _ summary =>
      rw [summary] at nothing
      cases nothing
  | settling request =>
      rw [asked] at request
      cases request

end Authors

section Losers

/-- The calls of a thread have changed no row and no cached balance. -/
def LeftAlone (trace : List (Transition server)) (i : Nat) : Prop :=
  ∀ moved ∈ trace, ∀ weather, moved.event = .call i weather →
    moved.after.shared.tables = moved.before.shared.tables ∧
      moved.after.shared.cache = moved.before.shared.cache

/-- A call of an authorization that does not insert anything leaves everything alone. -/
private theorem call_leaves_alone {weather : Weather} {c : Call} {answer : c.Result} {w w' : World}
    {own own' : Session} {req : AuthorizeRequest} {now : Int}
    (asked : own.request = .authorize req now) (allowed : Allowed w own c)
    (unwritten : own.effects.written = [])
    (ran : exec weather c w own = some (answer, w', own')) (nothing : own'.effects.authorized = []) :
    w'.tables = w.tables ∧ w'.cache = w.cache := by
  obtain ⟨tx, does, rfl⟩ := exec_does ran
  cases does with
  | give_up => exact ⟨rfl, rfl⟩
  | statement _ leaves => exact ⟨leaves.tables, rfl⟩
  | commit made =>
      cases made
      refine ⟨?_, rfl⟩
      change Ready w own at allowed
      rw [(allowed.effects .idle).2] at nothing
      change w.tables.merge own.tx.versions = w.tables
      cases allowed with
      | reading versions =>
          rw [versions]
          rfl
      | enrolling request =>
          rw [asked] at request
          cases request
      | holding _ _ _ _ _ _ _ _ summary =>
          rw [summary] at nothing
          cases nothing
      | settling request =>
          rw [asked] at request
          cases request
  | apply made =>
      cases made
      obtain ⟨committed, rest, grown⟩ := allowed
      rw [Session.effects, if_pos committed] at unwritten
      rw [show own.summary.written = [] from unwritten] at grown
      simp at grown
  | seed made =>
      cases made
      obtain ⟨-, -, -, req, now, request⟩ := allowed
      rw [asked] at request
      cases request

private theorem LeftAlone.snoc {i : Nat} (before : LeftAlone trace i)
    (last : ∀ weather, event = .call i weather →
      next.shared.tables = cfg.shared.tables ∧ next.shared.cache = cfg.shared.cache) :
    LeftAlone (trace ++ [⟨cfg, event, next⟩]) i := by
  intro moved member weather called
  rcases List.mem_append.mp member with old | new
  · exact before moved old weather called
  · cases List.mem_singleton.mp new
    exact last weather called

/-- A session that has inserted nothing after a call had inserted nothing before it. -/
private theorem authorized_before {weather : Weather} {i : Nat} {c : Call} {rest}
    {answer : c.Result} {own own' : Session} {w' : World} (safe : protocol.Safe cfg)
    (found : cfg.threads[i]? = some ⟨some (.call c rest), own⟩)
    (ran : exec weather c cfg.shared own = some (answer, w', own'))
    (nothing : own'.effects.authorized = []) : own.effects.authorized = [] := by
  obtain ⟨tx, -, rfl⟩ := exec_does ran
  have allowed := (safe.pre found).2
  by_cases made : (⟨c, answer⟩ : Answered) = ⟨.commit, .ok ()⟩
  · cases made
    rw [(Ready.effects allowed tx).1]
    rfl
  · rwa [effects_record tx allowed made] at nothing

/-- An authorization that has inserted nothing has left everything alone. -/
private theorem left_alone (run : Steps initial trace cfg) {i : Nat} {thread : Thread server}
    (there : cfg.threads[i]? = some thread) {req : AuthorizeRequest} {now : Int}
    (asked : thread.own.request = .authorize req now)
    (nothing : thread.own.effects.authorized = []) : LeftAlone trace i := by
  induction run generalizing thread with
  | refl =>
      intro moved member
      cases member
  | @snoc trace cfg event next before stepped ih =>
      rcases Config.step_cases stepped with
        ⟨r, rfl, rfl⟩ | ⟨j, weather, c, rest, own, answer, shared, own', rfl, found, -, ran, rfl⟩ |
        ⟨j, c, rest, own, rfl, found, rfl⟩ | ⟨rfl, rfl⟩
      · rcases Config.getElem?_append_cases there with old | ⟨rfl, -⟩
        · exact (ih old asked nothing).snoc nofun
        · refine LeftAlone.snoc (fun moved member weather called => ?_) nofun
          exact absurd (before.lt_length member called) (lt_irrefl _)
      · have safe := safe before
        rcases Config.getElem?_set_cases there with ⟨rfl, rfl⟩ | ⟨different, old⟩
        · have same : own'.request = own.request := by
            obtain ⟨tx, -, rfl⟩ := exec_does ran
            rfl
          have earlier := authorized_before safe found ran nothing
          refine (ih found (same ▸ asked) earlier).snoc fun _ _ => ?_
          exact call_leaves_alone (same ▸ asked) (safe.pre found).2
            (unwritten_steps before found (same ▸ asked) earlier) ran nothing
        · refine (ih old asked nothing).snoc fun _ called => ?_
          cases called
          exact absurd rfl different
      · rcases Config.getElem?_set_cases there with ⟨rfl, rfl⟩ | ⟨-, old⟩
        · rw [effects_lost] at nothing
          exact (ih found asked nothing).snoc nofun
        · exact (ih old asked nothing).snoc nofun
      · simp only [List.getElem?_map, Option.map_eq_some_iff] at there
        obtain ⟨old, earlier, rfl⟩ := there
        rw [effects_lost] at nothing
        exact (ih earlier asked nothing).snoc nofun

end Losers

section Once

/-- The account, the side and the amount of an entry, and of a leg. -/
def entryContent (entry : Entry) : AccountId × EntryType × Amount :=
  (entry.accountId, entry.entryType, entry.amount)

def legContent (leg : TransferLeg) : AccountId × EntryType × Amount :=
  (leg.accountId, leg.entryType, leg.amount)

private def contentLine (content : AccountId × EntryType × Amount) : Line Int :=
  ⟨content.1.value, content.2.1.side, content.2.2.value⟩

private theorem contentLine_injective : Function.Injective contentLine := by
  rintro ⟨⟨a⟩, kind, ⟨amount⟩⟩ ⟨⟨a'⟩, kind', ⟨amount'⟩⟩ same
  simp only [contentLine, Line.mk.injEq] at same
  obtain ⟨rfl, side, rfl⟩ := same
  cases kind <;> cases kind' <;> simp [EntryType.side] at side ⊢

/-- What storage answers for the entries of a transaction. -/
private theorem stored_entries {t : Tables} {ids : Sequences} (book : Consistent t ids) {id : Int}
    {legs : List TransferLeg} (lines : t.lines id = legs.map TransferLeg.line) :
    ∃ entries, buildEntries (orderById (t.entriesOf id)) = .ok entries ∧
      entries.map entryContent = legs.map legContent := by
  rw [book.orderById_entriesOf]
  obtain ⟨entries, built⟩ := buildEntries_of_book book fun e inside =>
    ((Tables.mem_entriesOf _).mp inside).1
  refine ⟨entries, built, List.map_injective_iff.mpr contentLine_injective ?_⟩
  rw [List.map_map, List.map_map]
  exact (buildEntries_lines built).trans lines

/-- Every transaction of the book was inserted by a session, with the legs of its request. -/
theorem exists_author (run : Steps initial trace cfg) {row : TransactionRow}
    (member : row ∈ cfg.shared.tables.transactions) :
    ∃ (i : Nat) (thread : Thread server), ∃ req legs,
      cfg.threads[i]? = some thread ∧ (⟨row.id⟩ : TransactionId) ∈ thread.own.effects.authorized ∧
      Authored cfg.shared thread.own.request ⟨row.id⟩ req legs row := by
  have present := (safe run).inv.transaction?_of_mem member
  have total : cfg.total (fun l => insertions ⟨row.id⟩ l.effects) ≠ 0 := by
    rw [insertions_steps run, present]
    simp
  obtain ⟨i, thread, there, some⟩ := Config.exists_of_total total
  have inserted : (⟨row.id⟩ : TransactionId) ∈ thread.own.effects.authorized := by
    by_contra missing
    apply some
    simp only [insertions, Nat.cast_eq_zero, List.countP_eq_zero, decide_eq_true_eq]
    exact fun other listed same => missing (same ▸ listed)
  obtain ⟨req, legs, row', authored⟩ := authored_steps run there inserted
  have same : row' = row := by simpa [present] using authored.found.symm
  exact ⟨i, thread, req, legs, there, inserted, same ▸ authored⟩

/-- A session that has inserted a transaction, as the book now has it. -/
private theorem insertion_unique (run : Steps initial trace cfg) {i j : Nat}
    {thread other : Thread server} (different : j ≠ i) (there : cfg.threads[i]? = some thread)
    (also : cfg.threads[j]? = some other) {id : TransactionId}
    (inserted : id ∈ thread.own.effects.authorized) : id ∉ other.own.effects.authorized := by
  intro again
  have both := Config.add_le_total (f := fun l : Session => insertions id l.effects)
    (fun l => by simp [insertions]) different also there
  rw [insertions_steps run] at both
  have first : 0 < thread.own.effects.authorized.countP fun other => other = id :=
    List.countP_pos_iff.mpr ⟨id, inserted, by simp⟩
  have second : 0 < other.own.effects.authorized.countP fun other => other = id :=
    List.countP_pos_iff.mpr ⟨id, again, by simp⟩
  simp only [insertions] at both
  split at both <;> omega

/-- In every run, each key has at most one transaction, its entries are the legs of one
    request with that key, and every other authorization with that key has changed no
    row and no cached balance. -/
theorem authorized_once (run : Steps initial trace cfg) :
    (cfg.shared.tables.transactions.map TransactionRow.idempotencyKey).Nodup ∧
    (∀ j other req now, cfg.threads[j]? = some other → other.own.request = .authorize req now →
      (∀ row ∈ cfg.shared.tables.transactions,
        varchar 64 req.idempotencyKey ≠ .ok row.idempotencyKey) → LeftAlone trace j) ∧
    ∀ row ∈ cfg.shared.tables.transactions, ∃ i thread req now legs entries,
      cfg.threads[i]? = some thread ∧ thread.own.request = .authorize req now ∧
      varchar 64 req.idempotencyKey = .ok row.idempotencyKey ∧
      parseTransferLegs req.legs = .ok legs ∧
      (getEntriesForTransaction ⟨row.id⟩ cfg.shared.database .idle).1 = .ok entries ∧
      entries.map entryContent = legs.map legContent ∧
      ∀ j other req' now', j ≠ i → cfg.threads[j]? = some other →
        other.own.request = .authorize req' now' →
        varchar 64 req'.idempotencyKey = .ok row.idempotencyKey → LeftAlone trace j := by
  have book := (safe run).inv
  refine ⟨book.keys, fun j other req now also asked unused => ?_, fun row member => ?_⟩
  · refine left_alone run also asked (List.eq_nil_iff_forall_not_mem.mpr fun id inserted => ?_)
    obtain ⟨req', _, row, authored⟩ := authored_steps run also inserted
    obtain ⟨now', request⟩ := authored.request
    rw [asked] at request
    cases request
    exact unused row (mem_of_find authored.found) authored.key
  obtain ⟨i, thread, req, legs, there, inserted, authored⟩ := exists_author run member
  obtain ⟨now, request⟩ := authored.request
  obtain ⟨entries, built, contents⟩ := stored_entries book authored.lines
  refine ⟨i, thread, req, now, legs, entries, there, request, authored.key, authored.parsed, built,
    contents, ?_⟩
  intro j other req' now' different also asked key
  refine left_alone run also asked (List.eq_nil_iff_forall_not_mem.mpr fun id again => ?_)
  -- a second insertion under the key would be one of the same transaction
  obtain ⟨req'', _, row'', authored'⟩ := authored_steps run also again
  obtain ⟨now'', request'⟩ := authored'.request
  rw [asked] at request'
  cases request'
  have keys : row''.idempotencyKey = row.idempotencyKey := by
    simpa [key] using authored'.key.symm
  have rows : row'' = row :=
    List.inj_on_of_nodup_map book.keys (mem_of_find authored'.found) member keys
  have ids : row''.id = id.value := key_of_find authored'.found
  have target : (⟨row.id⟩ : TransactionId) = id := by rw [← rows, ids]
  exact insertion_unique run different there also (target ▸ inserted) again

/-- Of two deposits under one key, one leaves everything alone. -/
theorem authorized_once_same_key : ∃ trace cfg, Steps initial trace cfg ∧
    cfg.shared.tables.transactions.map TransactionRow.idempotencyKey = ["deposit"] ∧
    (LeftAlone trace 2 ∨ LeftAlone trace 3) := by
  let first : AuthorizeRequest := ⟨"deposit", [⟨1, 1, 100⟩, ⟨2, 2, 100⟩], ⟨"", .error ""⟩⟩
  let second : AuthorizeRequest := ⟨"deposit", [⟨1, 1, 70⟩, ⟨2, 2, 70⟩], ⟨"", .error ""⟩⟩
  obtain ⟨trace, cfg, run, -, computed⟩ := reached (fun _ => true)
    (.request (.createAccount ⟨1, "USD", 2⟩ 1) :: turns 0 4 ++
      .request (.createAccount ⟨2, "USD", 2⟩ 1) :: turns 1 4 ++
      .request (.authorize first 2) :: .request (.authorize second 3) ::
      turns 2 2 ++ turns 3 2 ++ turns 2 10 ++ turns 3 4)
    (fun cfg => (cfg.shared.tables.transactions.map TransactionRow.idempotencyKey,
      cfg.threads[2]?.map (·.own.request), cfg.threads[3]?.map (·.own.request)))
    (a := (["deposit"], some (.authorize first 2), some (.authorize second 3)))
    (by decide +kernel)
  simp only [Prod.mk.injEq, Option.map_eq_some_iff] at computed
  obtain ⟨keys, ⟨winner, there, asked⟩, loser, also, askedToo⟩ := computed
  refine ⟨trace, cfg, run, keys, ?_⟩
  obtain ⟨row, member, key⟩ := List.mem_map.mp (keys ▸ List.mem_cons_self (a := "deposit"))
  obtain ⟨i, -, -, -, -, -, -, -, -, -, -, -, others⟩ := (authorized_once run).2.2 row member
  have stored : varchar 64 "deposit" = .ok row.idempotencyKey := by
    rw [key]
    decide +kernel
  by_cases same : 3 = i
  · exact .inl (others 2 winner first 2 (by omega) there asked stored)
  · exact .inr (others 3 loser second 3 same also askedToo stored)

end Once
end Fides.Ledger
