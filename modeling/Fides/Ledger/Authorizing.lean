import Fides.Ledger.Locking

/-! # Authorize follows the protocol

A new authorization inserts its transaction under ids and a key that nobody else
can insert, one pending entry per leg in the order of the legs, and updates the
pending balances of the accounts it has locked.
-/

namespace Fides.Ledger

open Domain Service Storage FixedWidth Relational Bookkeeping

variable {w w' : World} {l l' : Session}

theorem reducesBalance_iff {normal : NormalBalance} {entryType : EntryType} :
    reducesBalance normal entryType = true ↔ normal.side ≠ entryType.side := by
  cases normal <;> cases entryType <;> simp [reducesBalance, NormalBalance.side, EntryType.side]

/-- The cache showed enough funds for every leg that takes money out. -/
def Funded (normal : Int → Side) (legs : List TransferLeg) (l : Session) : Prop :=
  ∀ leg ∈ legs, normal leg.accountId.value ≠ leg.entryType.side →
    ∃ balance : AccountBalance, balance.hasAvailable leg.amount = true ∧
      (⟨.cacheGet leg.accountId, some balance⟩ : Answered) ∈ l.history

theorem Funded.grown {normal : Int → Side} {legs : List TransferLeg} (funded : Funded normal legs l)
    (grown : Grown l l') : Funded normal legs l' := by
  intro leg member reduces
  obtain ⟨balance, enough, shown⟩ := funded leg member reduces
  exact ⟨balance, enough, grown.history _ shown⟩

theorem meets_checkAvailable {normal : Int → Side} {accounts : List Account}
    {legs : List TransferLeg} {next : Unit → Handler Response} (knows : Knows normal accounts)
    (uncommitted : l.summary.committed = false)
    (after : ∀ w' l', Keeps l.tx.held w w' → Grown l l' → l'.tx = l.tx → l'.summary = l.summary →
      Funded normal legs l' → Meets (next ()) w' l') :
    Meets (checkAvailable accounts legs >>= next) w l := by
  induction legs generalizing w l with
  | nil => exact after w l .refl .refl rfl rfl nofun
  | cons leg legs ih =>
      rw [checkAvailable, bind_assoc]
      cases found : findAccount accounts leg.accountId with
      | error e => exact promise_error uncommitted
      | ok account =>
          obtain ⟨member, same⟩ := findAccount_ok found
          have side := knows account member
          rw [same] at side
          change Meets ((if reducesBalance account.normalBalance leg.entryType = true then _
            else checkAvailable accounts legs) >>= next) w l
          split
          · rename_i reduces
            rw [bind_assoc]
            apply meets_cacheGet
            intro w₁ shown keeps₁
            cases shown with
            | none => exact promise_error (by rw [Session.summary_record]; exact uncommitted)
            | some balance =>
                change Meets ((if balance.hasAvailable leg.amount = true then
                  checkAvailable accounts legs else reject _) >>= next) w₁ _
                split
                · rename_i enough
                  apply ih (by rw [Session.summary_record]; exact uncommitted)
                  intro w₂ l₂ keeps₂ grown₂ tx₂ summary₂ funded
                  refine after w₂ l₂ (keeps₁.trans keeps₂)
                    (.trans (.record fun _ => id) grown₂) tx₂ ?_ ?_
                  · rw [summary₂, Session.summary_record]
                    rfl
                  · intro other inside takes
                    rcases List.mem_cons.mp inside with rfl | later
                    · exact ⟨balance, enough, grown₂.history _ (by simp)⟩
                    · exact funded other later takes
                · exact promise_error (by rw [Session.summary_record]; exact uncommitted)
          · rename_i adds
            apply ih uncommitted
            intro w₂ l₂ keeps₂ grown₂ tx₂ summary₂ funded
            refine after w₂ l₂ keeps₂ grown₂ tx₂ summary₂ ?_
            intro other inside takes
            rcases List.mem_cons.mp inside with rfl | later
            · rw [← side] at takes
              exact absurd (reducesBalance_iff.mpr takes) adds
            · exact funded other later takes

/-- A transaction row that was inserted and not committed yet. -/
structure Inserted (w : World) (l : Session) (row : TransactionRow) : Prop where
  locked : .transaction row.id ∈ l.tx.held
  lockedKey : .key row.idempotencyKey ∈ l.tx.held
  fresh : w.tables.transaction? row.id = none
  freshKey : w.tables.byKey? row.idempotencyKey = none
  within : row.id ≤ w.sequences.transactions

theorem Inserted.stable {row : TransactionRow} (inserted : Inserted w l row)
    (keeps : Keeps l.tx.held w w') : Inserted w' l row where
  locked := inserted.locked
  lockedKey := inserted.lockedKey
  fresh := (keeps.transactions _ inserted.locked).1.trans inserted.fresh
  freshKey := keeps.keys _ inserted.lockedKey inserted.freshKey
  within := inserted.within.trans keeps.sequences.transactions

theorem Inserted.grown {row : TransactionRow} (inserted : Inserted w l row) (grown : Grown l l') :
    Inserted w l' row :=
  { inserted with
    locked := grown.held _ inserted.locked
    lockedKey := grown.held _ inserted.lockedKey }

/-- An entry row that was inserted and not committed yet. -/
structure Noted (w : World) (l : Session) (row : TransactionRow) (e : EntryRow) : Prop where
  sound : e.Sound
  belongs : e.transactionId = row.id
  pending : e.status = 1
  locked : .entry e.id ∈ l.tx.held
  fresh : find w.tables.entries e.id = none
  within : e.id ≤ w.sequences.entries
  account : .account e.accountId ∈ l.tx.held
  present : ∃ account, w.tables.account? e.accountId = some account
  last : ∀ old ∈ w.tables.stream e.accountId, old.id < e.id

theorem Noted.stable {row : TransactionRow} {e : EntryRow} (noted : Noted w l row e)
    (keeps : Keeps l.tx.held w w') : Noted w' l row e :=
  { noted with
    fresh := keeps.entries _ noted.locked noted.fresh
    within := noted.within.trans keeps.sequences.entries
    present := by
      obtain ⟨account, there⟩ := noted.present
      exact ⟨account, (keeps.accounts _ noted.account).trans there⟩
    last := by
      rw [keeps.streams _ noted.account]
      exact noted.last }

theorem Noted.grown {row : TransactionRow} {e : EntryRow} (noted : Noted w l row e)
    (grown : Grown l l') : Noted w l' row e :=
  { noted with
    locked := grown.held _ noted.locked
    account := grown.held _ noted.account }

/-- The normal sides of locked accounts stay. -/
theorem Keeps.normal (keeps : Keeps l.tx.held w w') {a : Int} (locked : .account a ∈ l.tx.held) :
    w'.tables.normal a = w.tables.normal a := by
  rw [Tables.normal, keeps.accounts a locked, Tables.normal]

theorem netted_stable {p q : Int} {lines : List (Line Int)}
    (locked : ∀ line ∈ lines, .account line.account ∈ l.tx.held) (keeps : Keeps l.tx.held w w') :
    netted w'.tables.normal p q lines = netted w.tables.normal p q lines := by
  have same : ∀ a, balance w'.tables.normal lines a = balance w.tables.normal lines a :=
    balance_congr fun line member => keeps.normal (locked line member)
  simp only [netted, same]

/-- The entries made so far, with the balance updates collected from them. -/
structure Entering (w : World) (l : Session) (row : TransactionRow) (rows : List EntryRow)
    (updates : List BalanceUpdate) : Prop where
  inserted : Inserted w l row
  noted : ∀ e ∈ rows, Noted w l row e
  sorted : rows.Pairwise fun e e' => e.id < e'.id
  netting : updates = netted w.tables.normal 0 1 (rows.map EntryRow.line)
  versions : l.tx.versions = ⟨[], [row], rows⟩
  summary : l.summary = { Summary.blank with authorized := [⟨row.id⟩], entered := rows }

theorem Entering.nets {row : TransactionRow} {rows updates}
    (entering : Entering w l row rows updates) :
    Nets w.tables.normal 0 1 (rows.map EntryRow.line) updates :=
  entering.netting ▸ netted_nets _

theorem Entering.stable {row : TransactionRow} {rows updates}
    (entering : Entering w l row rows updates) (keeps : Keeps l.tx.held w w') :
    Entering w' l row rows updates :=
  { entering with
    inserted := entering.inserted.stable keeps
    noted := fun e member => (entering.noted e member).stable keeps
    netting := by
      rw [netted_stable _ keeps]
      · exact entering.netting
      · intro line member
        obtain ⟨e, inside, rfl⟩ := List.mem_map.mp member
        exact (entering.noted e inside).account }

private theorem fresh_entry {id : Int} (book : Consistent w.tables w.sequences)
    (drawn : id = w.sequences.entries + 1) : find w.tables.entries id = none := by
  rw [find_eq_none]
  intro e member same
  have le := (book.entryRows e member).2
  change e.id = id at same
  omega

/-- The row of a new entry. -/
def entryFor (row : TransactionRow) (leg : TransferLeg) (now id : Int) : EntryRow :=
  ⟨id, row.id, leg.accountId.value, entryTypeToI16 leg.entryType, leg.amount.value, 1, now⟩

theorem line_entryFor (row : TransactionRow) (leg : TransferLeg) (now id : Int) :
    (entryFor row leg now id).line = leg.line := by
  cases kind : leg.entryType <;>
    simp [entryFor, EntryRow.line, TransferLeg.line, kind, EntryType.side, entryTypeToI16]

/-- The entry of the response says what the new row says. -/
theorem entryToProto_new {row : TransactionRow} {leg : TransferLeg} {now : Int}
    {id : EntryId} {entry : Entry}
    (built : Entry.new id ⟨row.id⟩ leg.accountId leg.entryType leg.amount .pending now = .ok entry) :
    entryToProto entry = (entryFor row leg now id.value).proto := by
  obtain ⟨rfl, transaction, account, kind, amount, status, created⟩ := Entry.new_eq_ok built
  simp [entryToProto, EntryRow.proto, entryFor, transaction, account, kind, amount, status, created,
    entryStatusToI16]

theorem sound_entryFor {row : TransactionRow} {leg : TransferLeg} {now id : Int}
    (checked : (entryFor row leg now id).check = .ok (entryFor row leg now id)) :
    (entryFor row leg now id).Sound := by
  obtain ⟨-, positive, created, -, -⟩ := EntryRow.check_ok checked
  refine ⟨?_, positive, created⟩
  rw [entryFor]
  cases leg.entryType
  · exact .inl rfl
  · exact .inr rfl

/-- One more entry. -/
private theorem Entering.snoc {row : TransactionRow} {rows updates} {accounts : List Account}
    {account : Account} {leg : TransferLeg} {id : EntryId} {now : Int} {w'' : World}
    {c : Call} {answer : c.Result} (entering : Entering w l row rows updates)
    (locked : Locked w l accounts) (found : findAccount accounts leg.accountId = .ok account)
    (bounded : Bounded (rows.map EntryRow.line ++ [leg.line]))
    (book : Consistent w'.tables w'.sequences) (keeps : Keeps l.tx.held w w')
    (drawn : id.value = w'.sequences.entries + 1)
    (checked : (entryFor row leg now id.value).check = .ok (entryFor row leg now id.value))
    (tables : w''.tables = w'.tables) (later : Keeps l.tx.held w' w'')
    (sequences : w''.sequences.entries = id.value)
    (adds : l.summary.add c answer =
      { l.summary with entered := l.summary.entered ++ [entryFor row leg now id.value] }) :
    Entering w'' (l.record c answer (l.tx.writeEntries [entryFor row leg now id.value])) row
      (rows ++ [entryFor row leg now id.value]) (accumulate .hold leg.accountId
        (computeBalanceDelta account.normalBalance leg.entryType leg.amount) updates) := by
  have grown : Grown l (l.record c answer (l.tx.writeEntries [entryFor row leg now id.value])) :=
    .record fun r member => List.mem_append_left _ member
  have now₂ := (entering.stable keeps).stable later
  have locked₂ := (locked.stable keeps).stable later
  obtain ⟨member, here⟩ := findAccount_ok found
  obtain ⟨held, accountRow, there, -⟩ := locked₂ account member
  rw [here] at held there
  have last : leg.line ∈ rows.map EntryRow.line ++ [leg.line] := by simp
  refine ⟨now₂.inserted.grown grown, ?_, ?_, ?_, ?_, ?_⟩
  · intro e inside
    rcases List.mem_append.mp inside with old | new
    · exact (now₂.noted e old).grown grown
    · rw [List.mem_singleton.mp new]
      refine ⟨sound_entryFor checked, rfl, rfl, ?_, ?_, ?_, grown.held _ held, ⟨accountRow, there⟩,
        ?_⟩
      · exact List.mem_append_right _ (by simp)
      · rw [tables]
        exact fresh_entry book drawn
      · exact sequences.ge
      · intro old inside
        rw [tables] at inside
        obtain ⟨e, listed, rfl⟩ := List.mem_map.mp inside
        have le := (book.entryRows e (List.mem_of_mem_filter listed)).2
        change e.id < id.value
        omega
  · refine List.pairwise_append.mpr ⟨entering.sorted, by simp, ?_⟩
    intro e inside e' new
    have le := ((entering.stable keeps).noted e inside).within
    rw [List.mem_singleton.mp new]
    change e.id < id.value
    omega
  · rw [List.map_append, List.map_singleton, line_entryFor, delta_eq locked₂.knows found
      (bounded.positive _ last).le (bounded.amount_le last)]
    rw [now₂.netting]
    exact accumulate_netted _ hold_scales bounded
  · simp only [Session.tx_record, Tx.writeEntries, entering.versions]
  · rw [Session.summary_record, adds, entering.summary]

/-- The loop over the legs. -/
theorem meets_createEntries {row : TransactionRow} {rows : List EntryRow}
    {updates : List BalanceUpdate} {accounts : List Account} {now : Int}
    {legs : List TransferLeg} {entries : List Entry}
    {next : List Entry × List BalanceUpdate → Handler Response} (locked : Locked w l accounts)
    (entering : Entering w l row rows updates)
    (listed : entries.map entryToProto = rows.map EntryRow.proto)
    (bounded : Bounded (rows.map EntryRow.line ++ legs.map TransferLeg.line))
    (after : ∀ w' l' entries' rows' updates', Keeps l.tx.held w w' → Grown l l' →
      Locked w' l' accounts → Entering w' l' row rows' updates' →
      entries'.map entryToProto = rows'.map EntryRow.proto →
      rows'.map EntryRow.line = rows.map EntryRow.line ++ legs.map TransferLeg.line →
      Meets (next (entries', updates')) w' l') :
    Meets (createEntries ⟨row.id⟩ accounts now legs entries updates >>= next) w l := by
  induction legs generalizing w l rows entries updates with
  | nil => exact after w l entries rows updates .refl .refl locked entering listed (by simp)
  | cons leg legs ih =>
      have uncommitted : l.summary.committed = false := by
        rw [entering.summary]
        rfl
      rw [createEntries, bind_assoc]
      cases found : findAccount accounts leg.accountId with
      | error e => exact promise_error uncommitted
      | ok account =>
          obtain ⟨member, same⟩ := findAccount_ok found
          have held := (locked account member).1
          rw [same] at held
          rw [List.map_cons, List.append_cons] at bounded
          change Meets ((createEntry ⟨row.id⟩ leg.accountId leg.entryType leg.amount .pending now >>=
            _) >>= next) w l
          rw [bind_assoc]
          apply meets_createEntry uncommitted (by rw [entering.versions]) held
          rintro w₁ w₂ id _ book₁ keeps₁ drawn rfl checked tables sequences
          have keeps₂ : Keeps l.tx.held w₁ w₂ :=
            .of_same_tables tables (sequences ▸ ⟨le_refl _, le_refl _, by simp only; omega⟩)
          rw [bind_assoc]
          apply meets_orReject (by rw [Session.summary_record]; exact uncommitted)
          intro entry built
          change Meets (createEntries ⟨row.id⟩ accounts now legs (entries ++ [entry])
            (accumulate .hold leg.accountId (computeBalanceDelta account.normalBalance leg.entryType
              leg.amount) updates) >>= next) w₂ (l.record _ _ (l.tx.writeEntries
                [entryFor row leg now id.value]))
          have grown : Grown l (l.record (.createEntry ⟨row.id⟩ leg.accountId leg.entryType
              leg.amount .pending now) (.ok id)
              (l.tx.writeEntries [entryFor row leg now id.value])) :=
            .record fun r member => List.mem_append_left _ member
          have lines : (rows ++ [entryFor row leg now id.value]).map EntryRow.line =
              rows.map EntryRow.line ++ [leg.line] := by
            rw [List.map_append, List.map_singleton, line_entryFor]
          have listed' : (entries ++ [entry]).map entryToProto =
              (rows ++ [entryFor row leg now id.value]).map EntryRow.proto := by
            rw [List.map_append, List.map_append, listed, List.map_singleton, List.map_singleton,
              entryToProto_new (mapError_eq_ok.mp built)]
          apply ih (((locked.stable keeps₁).stable keeps₂).grown grown)
            (entering.snoc locked found bounded.front book₁ keeps₁ drawn checked tables keeps₂
              (by rw [sequences]) rfl)
            listed' (by rw [lines]; exact bounded)
          intro w₃ l₃ entries₃ rows₃ updates₃ keeps₃ grown₃ locked₃ entering₃ listed₃ lines₃
          apply after w₃ l₃ entries₃ rows₃ updates₃ _ (grown.trans grown₃) locked₃ entering₃ listed₃
          · rw [lines₃, lines, List.map_cons, ← List.append_cons]
          · exact keeps₁.trans (keeps₂.trans (keeps₃.anti grown.held))

theorem varchar_ne_empty {limit : Nat} {text stored : String}
    (kept : varchar limit text = .ok stored)
    (filled : text ≠ "") (room : 0 < limit) : stored ≠ "" := by
  unfold varchar at kept
  split at kept
  · cases kept
  split at kept
  · cases kept
    exact filled
  rename_i long
  split at kept
  · cases kept
    intro none
    have characters : (text.toList.take limit) = [] := by
      simpa using congrArg String.toList none
    rw [List.take_eq_nil_iff] at characters
    rcases characters with zero | nil
    · omega
    · exact filled (by simpa using nil)
  · cases kept

theorem row_sound {row : TransactionRow} {key stored : String}
    (kept : varchar 64 key = .ok stored) (filled : key ≠ "") (checked : row.check = .ok row)
    (stores : row.idempotencyKey = stored) (pending : row.status = 1)
    (unposted : row.postedAt = none) : row.Sound := by
  obtain ⟨-, created, -, -⟩ := TransactionRow.check_ok checked
  refine ⟨?_, .inl pending, created, ?_, fun _ => unposted⟩
  · rw [stores]
    exact varchar_ne_empty kept filled (by decide)
  · intro posted
    rw [pending] at posted
    cases posted

/-- What an authorization has when all its rows are written is ready to be committed. -/
private theorem hold_ready {req : AuthorizeRequest} {now : Int} {legs : List TransferLeg}
    {row : TransactionRow} {rows : List EntryRow} {updates : List BalanceUpdate}
    (request : l.request = .authorize req now) (parsed : parseTransferLegs req.legs = .ok legs)
    (formed : WellFormed (legs.map TransferLeg.line))
    (kept : varchar 64 req.idempotencyKey = .ok row.idempotencyKey) (sound : row.Sound)
    (pending : row.status = 1) (lines : rows.map EntryRow.line = legs.map TransferLeg.line)
    (inserted : Inserted w l row) (noted : ∀ e ∈ rows, Noted w l row e)
    (sorted : rows.Pairwise fun e e' => e.id < e'.id)
    (nets : Nets w.tables.normal 0 1 (rows.map EntryRow.line) updates)
    (applicable : Applicable w.tables updates) (funded : Funded w.tables.normal legs l)
    (versions : l.tx.versions = ⟨w.tables.bumped updates, [row], rows⟩)
    (summary : l.summary =
      { Summary.blank with authorized := [⟨row.id⟩], entered := rows, written := updates })
    (created : row.createdAt = now) : Ready w l := by
  refine .holding request parsed kept lines funded ?_ inserted.lockedKey versions summary created
  exact
    { fresh := inserted.fresh
      freshKey := inserted.freshKey
      sound := sound
      pending := pending
      within := inserted.within
      entries := fun e member => ⟨(noted e member).sound, (noted e member).within,
        (noted e member).fresh⟩
      belong := fun e member => ⟨(noted e member).belongs, (noted e member).pending,
        (noted e member).present⟩
      sorted := sorted
      last := fun e member old before same => (noted e member).last old.fixed
        (List.mem_map_of_mem (List.mem_filter.mpr ⟨before, decide_eq_true same⟩))
      lines := lines ▸ formed
      nets := nets
      applicable := applicable }

theorem fresh_transaction {id : Int} (book : Consistent w.tables w.sequences)
    (drawn : id = w.sequences.transactions + 1) : w.tables.transaction? id = none := by
  rw [Tables.transaction?, find_eq_none]
  intro row member same
  have le := (book.transactionRows row member).2
  change row.id = id at same
  omega

/-- From the insert of the transaction row on. -/
private theorem meets_hold {req : AuthorizeRequest} {now : Int} {legs : List TransferLeg}
    {row : TransactionRow} {accounts : List Account} {α : Type}
    {result : Except ServiceError α} {value : α}
    {response : List Entry × List BalanceUpdate → α → Response} (done : result = .ok value)
    (answers : ∀ made, response made value =
      .authorized ⟨row.id, req.idempotencyKey, 1, now, 0⟩ (made.1.map entryToProto))
    (request : l.request = .authorize req now) (parsed : parseTransferLegs req.legs = .ok legs)
    (formed : WellFormed (legs.map TransferLeg.line))
    (kept : varchar 64 req.idempotencyKey = .ok row.idempotencyKey) (sound : row.Sound)
    (pending : row.status = 1) (created : row.createdAt = now) (locked : Locked w l accounts)
    (all : ∀ leg ∈ legs, .account leg.accountId.value ∈ l.tx.held)
    (funded : Funded w.tables.normal legs l) (entering : Entering w l row [] []) :
    Meets (createEntries ⟨row.id⟩ accounts now legs [] [] >>= fun made =>
      applyBalanceUpdates accounts made.2 >>= fun _ => commit >>= fun _ =>
      updateCache made.2 >>= fun _ => orReject result >>= fun value =>
      pure (response made value)) w l := by
  apply meets_createEntries locked entering rfl formed.toBounded
  intro w₁ l₁ entries rows updates keeps₁ grown₁ locked₁ entering₁ listed lines
  rw [List.map_nil, List.nil_append] at lines
  apply meets_applyBalanceUpdates [] (by rw [entering₁.summary]; rfl) locked₁ (by simp)
    (by rw [entering₁.versions]; rfl) entering₁.nets.distinct (by simp [Applicable])
  intro w₂ l₂ keeps₂ grown₂ versions₂ summary₂ held₂ applicable₂
  rw [List.nil_append] at versions₂ held₂ applicable₂
  rw [entering₁.summary] at summary₂
  have request₂ : l₂.request = .authorize req now := by
    rw [grown₂.request, grown₁.request, request]
  apply meets_finish done (by rw [summary₂]; rfl) (by rw [summary₂]; rfl) (by rw [summary₂]; rfl)
    (by rw [summary₂]; rfl)
  · intro l₃ request₃ _ summary₃
    rw [summary₂] at summary₃
    have entered : l₃.summary.entered = rows := by rw [summary₃]
    rw [answers, listed, ← entered]
    exact .of_authorize (request₃.trans request₂) (.made (by rw [summary₃]) (by rw [summary₃]))
  intro w₃ book₃ keeps₃
  have keeps := keeps₂.trans (keeps₃.anti grown₂.held)
  have entering₃ := entering₁.stable keeps
  have funded₃ : Funded w₃.tables.normal legs l₂ := by
    intro leg member takes
    have same := (keeps₁.trans (keeps.anti grown₁.held)).normal (all leg member)
    rw [same] at takes
    exact (funded.grown (grown₁.trans grown₂)) leg member takes
  have bumped₃ : w₃.tables.bumped updates = w₂.tables.bumped updates :=
    Tables.bumped_congr fun update member => keeps₃.accounts _ (held₂ update member)
  apply hold_ready request₂ parsed formed kept sound pending lines (entering₃.inserted.grown grown₂)
    (fun e member => (entering₃.noted e member).grown grown₂) entering₁.sorted entering₃.nets
    (applicable₂.stable held₂ keeps₃) funded₃
  · rw [versions₂, entering₁.versions, bumped₃]
  · rw [summary₂]
    rfl
  · exact created

/-- An authorization that has found no transaction under its key. -/
private theorem meets_authorizeNew {req : AuthorizeRequest} {now : Int} {metadata : JsonValue}
    {legs : List TransferLeg} (request : l.request = .authorize req now)
    (filled : req.idempotencyKey ≠ "") (parsed : parseTransferLegs req.legs = .ok legs)
    (formed : WellFormed (legs.map TransferLeg.line)) (unwritten : Unwritten l)
    (idle : l.tx.held = []) : Meets (authorizeNew req now metadata legs) w l := by
  apply meets_lockAccounts unwritten (lockOrder_increasing _)
  · intro h member
    rw [idle] at member
    cases member
  intro w₁ l₁ accounts _ unwritten₁ grown₁ locked₁ ids held₁
  apply meets_checkAvailable locked₁.knows unwritten₁.uncommitted
  intro w₂ l₂ keeps₂ grown₂ tx₂ summary₂ funded₂
  have unwritten₂ : Unwritten l₂ :=
    ⟨tx₂ ▸ unwritten₁.versions, summary₂.trans unwritten₁.summary⟩
  apply meets_createTransaction unwritten₂
  · intro h member k
    rw [tx₂] at member
    rcases held₁ h member with old | ⟨id, -, rfl⟩
    · rw [idle] at old
      cases old
    · simp [Resource.rank, Prod.Lex.toLex_lt_toLex]
  intro w₃ w₄ id stored row book₃ keeps₃ kept drawn unused made checked tables sequences
  have keeps₄ : Keeps l₂.tx.held w₃ w₄ :=
    .of_same_tables tables (sequences ▸ ⟨le_refl _, by simp only; omega, le_refl _⟩)
  have same : id = ⟨row.id⟩ := by rw [made]
  have key : row.idempotencyKey = stored := by rw [made]
  generalize recorded : Session.record _ _ _ _ = l₄
  have grown₄ : Grown l₂ l₄ := by
    rw [← recorded]
    exact .record fun r member => List.mem_append_left _ member
  have all : ∀ leg ∈ legs, .account leg.accountId.value ∈ l₁.tx.held := by
    intro leg member
    have locks : leg.accountId ∈ accounts.map Account.id := by
      rw [ids, mem_lockOrder]
      exact List.mem_map_of_mem member
    obtain ⟨account, inside, here⟩ := List.mem_map.mp locks
    exact here ▸ (locked₁ account inside).1
  have entering : Entering w₄ l₄ row [] [] := by
    subst recorded
    refine ⟨⟨?_, ?_, ?_, ?_, ?_⟩, by simp, .nil, rfl, ?_, ?_⟩
    · exact List.mem_append_right _ (by simp)
    · exact List.mem_append_right _ (by simp)
    · rw [tables, made]
      exact fresh_transaction book₃ drawn
    · rw [tables, key]
      exact unused
    · rw [sequences, made]
    · simp only [Session.tx_record, Tx.insertTransaction, unwritten₂.versions]
      rfl
    · rw [Session.summary_record, unwritten₂.summary, same]
      rfl
  have keeps := keeps₂.trans ((keeps₃.trans keeps₄).anti grown₂.held)
  have funded₄ : Funded w₄.tables.normal legs l₄ := by
    intro leg member takes
    rw [keeps.normal (all leg member)] at takes
    exact (funded₂.grown grown₄) leg member takes
  rw [same]
  change Meets (createEntries ⟨row.id⟩ accounts now legs [] [] >>= fun made =>
    applyBalanceUpdates accounts made.2 >>= fun _ => commit >>= fun _ =>
    updateCache made.2 >>= fun _ => orReject _ >>= fun transaction =>
    pure (.authorized (transactionToProto transaction) (made.1.map entryToProto))) w₄ l₄
  have sound := row_sound kept filled checked key (by rw [made]; rfl) (by rw [made])
  have created : row.createdAt = now := by rw [made]
  obtain ⟨transaction, new⟩ := Transaction.new_ok ⟨row.id⟩ metadata .pending 0 filled
    (created ▸ sound.createdAt) (by simp) fun _ => rfl
  exact meets_hold (mapError_eq_ok.mpr new)
    (fun made => by rw [transactionToProto_new new]; rfl)
    (by rw [grown₄.request, grown₂.request, grown₁.request, request]) parsed formed (key ▸ kept)
    sound (by rw [made]; rfl) created ((locked₁.stable keeps).grown (grown₂.trans grown₄))
    (fun leg member => grown₄.held _ (grown₂.held _ (all leg member))) funded₄ entering

/-- Authorize, from the first call to the answer. -/
theorem meets_authorize {req : AuthorizeRequest} {now : Int}
    (request : l.request = .authorize req now) (unwritten : Unwritten l) (idle : l.tx.held = []) :
    Meets (authorize req now) w l := by
  unfold authorize
  split
  · exact promise_error unwritten.uncommitted
  rename_i filled
  apply meets_orReject unwritten.uncommitted
  intro metadata _
  apply meets_orReject unwritten.uncommitted
  intro legs parsed
  apply meets_orReject unwritten.uncommitted
  intro done valid
  have formed : WellFormed (legs.map TransferLeg.line) := by
    apply validated parsed
    cases outcome : validateTransactionBalance legs with
    | ok => rfl
    | error e => simp [outcome, Except.mapError] at valid
  apply meets_inTransaction unwritten
  intro w₁
  have unwritten₁ : Unwritten (l.record .begin (.ok ()) l.tx) := unwritten.read rfl
  have unwritten₂ : ∀ answer, Unwritten ((l.record .begin (.ok ()) l.tx).record
    (.findTransactionByKey req.idempotencyKey) (.ok answer) l.tx) := fun _ => unwritten₁.read rfl
  apply meets_findTransactionByKey unwritten₁
  · exact fun _ => meets_authorizeNew request filled parsed formed (unwritten₂ none) idle
  intro w₂ row existing book₂ there built
  have present : w₂.tables.transaction? existing.id.value = some row := by
    rw [(buildTransaction_ok built).1]
    exact book₂.transaction?_of_mem (List.mem_of_find?_eq_some there)
  apply meets_getEntriesForTransaction (unwritten₂ _) present
  intro w₃ entries _ _ _
  have unwritten₃ : Unwritten (((l.record .begin (.ok ()) l.tx).record
    (.findTransactionByKey req.idempotencyKey) (.ok (some existing)) l.tx).record
      (.getEntriesForTransaction existing.id) (.ok entries) l.tx) := (unwritten₂ _).read rfl
  apply meets_commit unwritten₃.uncommitted
  · exact fun _ _ _ => .reading unwritten₃.versions unwritten₃.summary
  intro w₄
  refine ⟨?_, fun _ same => ?_, nofun⟩
  · intro _
    rw [Session.summary_record, unwritten₃.summary]
    exact ⟨rfl, rfl⟩
  · cases same
    refine .of_authorize request (.replayed (by simp) (by simp) ?_)
    rw [Session.summary_record, unwritten₃.summary]
    rfl

end Fides.Ledger
