import Fides.Ledger.Permanence
import Fides.Ledger.Refusals
import Fides.Ledger.Replays
import Fides.Ledger.Versions

/-! # From the creation of an account to its later readings

The type and the scale of a new account cross several integer encodings, and the
range of the scale is checked after it was narrowed to a byte.  What is stored
stays as it is, except for the balances and the version, which counts the
transactions that were made or settled on the account.
-/

namespace Fides.Ledger

open Domain Service Storage FixedWidth Relational Bookkeeping Concurrency

variable {cfg next : Config server} {trace : List (Transition server)}

section Opening

/-- The row of a new account. -/
def openingRow (id : AccountId) (accountType : AccountType) (code : String) (scale : Nat)
    (now : Int) : AccountRow :=
  ⟨id.value, accountTypeToI16 accountType, code, scale, 0, 0, 0, now⟩

/-- What the last call of a session has inserted is the last row that it has written. -/
private def Opening (l : Session) : Prop :=
  ∀ accountType code scale now id earlier,
    l.history = earlier ++ [⟨.createAccount accountType code scale now, .ok id⟩] →
      ∃ stored before, varchar 16 code = .ok stored ∧
        l.tx.versions.accounts = before ++ [openingRow id accountType stored scale now]

private theorem inserted_steps (run : Steps initial trace cfg) :
    ∀ (i : Nat) thread, cfg.threads[i]? = some thread → thread.prog.isSome → Opening thread.own := by
  induction run with
  | refl => exact nofun
  | snoc run stepped ih =>
    refine Config.each_step (T := fun thread => thread.prog.isSome → Opening thread.own) ih stepped
      (fun r _ accountType code scale now id earlier same => ?_)
      (fun prog own _ running => by cases running) ?_
    · simp at same
    · intro weather c rest own answer w w' own' _ ran _ accountType code scale now id earlier same
      obtain ⟨tx, out, rfl⟩ := exec_eq_some ran
      rw [Session.history_record] at same
      obtain ⟨-, last⟩ := List.append_inj' same rfl
      cases last
      obtain ⟨tx', out', same'⟩ := exec_eq_some (exec_fair ran rfl)
      obtain ⟨database, replied, rfl⟩ := storing_eq
        (Storage.createAccount accountType code scale now) (Option.some.inj out')
      obtain ⟨stored, kept, -, -, row, rfl, -, rfl⟩ := createAccount_ok replied
      refine ⟨stored, own.tx.versions.accounts, kept, ?_⟩
      rw [same']
      rfl

/-- How a creation that succeeds has come about. -/
private def Opens (outcome : Except Failure Response) (l : Session) : Prop :=
  ∀ req now response, l.request = .createAccount req now → outcome = .ok response →
    ∃ accountType id account, protoToAccountType req.accountType = .ok accountType ∧
      req.assetCode ≠ "" ∧ response = .account (accountToProto account) ∧
      Account.new id accountType req.assetCode (req.assetScale % 256).toNat 0 now = .ok account ∧
      Heard l [⟨.begin, .ok ()⟩,
        ⟨.createAccount accountType req.assetCode (req.assetScale % 256).toNat now, .ok id⟩]
        ⟨.commit, .ok ()⟩

private theorem opens_createAccount (req : CreateAccountRequest) (now : Int) :
    server.Ensures Opens (Service.createAccount req now) (server.arrive (.createAccount req now)) := by
  have fails : ∀ e l, Opens (.error e) l := fun e l req now response _ same => by cases same
  unfold Service.createAccount
  cases type : protoToAccountType req.accountType with
  | error e => exact fails _ _
  | ok accountType =>
    change server.Ensures Opens (if _ then _ else _) _
    split
    · exact fails _ _
    rename_i filled
    split
    · exact fails _ _
    intro weather w begun w' l₁ ran₁
    obtain ⟨tx₁, -, rfl⟩ := exec_eq_some ran₁
    cases begun with
    | error e => exact fails _ _
    | ok _ =>
      intro weather w inserted w' l₂ ran₂
      obtain ⟨tx₂, -, rfl⟩ := exec_eq_some ran₂
      cases inserted with
      | error e =>
        intro weather w _ w' l₃ _
        exact fails _ _
      | ok id =>
        intro weather w committed w' l₃ ran₃
        obtain ⟨tx₃, -, rfl⟩ := exec_eq_some ran₃
        cases committed with
        | error e =>
          cases e with
          | _ =>
            intro weather w _ w' l₄ _
            exact fails _ _
        | ok _ =>
          intro weather w _ w' l₄ ran₄
          obtain ⟨tx₄, -, rfl⟩ := exec_eq_some ran₄
          cases new : Account.new id accountType req.assetCode (req.assetScale % 256).toNat 0 now with
          | error e =>
            intro weather w _ w' l₅ _
            exact fails _ _
          | ok account =>
            intro req' now' response asked same
            cases asked
            cases same
            exact ⟨accountType, id, account, type, filled, rfl, new, List.prefix_append _ _⟩

private theorem opens_run (run : Steps initial trace cfg) {i : Nat} {own : Session}
    {outcome : Except Failure Response} (ended : cfg.threads[i]? = some ⟨some (.done outcome), own⟩) :
    Opens outcome own := by
  refine ensured_run (fun r => ?_) run ended
  cases r with
  | createAccount req now => exact opens_createAccount req now
  | _ =>
    refine (ensures_onward _ _).mono fun _ l onward req now response asked => ?_
    cases onward.request.symm.trans asked

/-- A new row reads as the account that is answered. -/
private theorem proto_openingRow {id : AccountId} {accountType : AccountType} {code : String}
    {scale : Nat} {now : Int} {account : Account} (small : scale ≤ 18)
    (sound : (openingRow id accountType code scale now).Sound)
    (new : Account.new id accountType code scale 0 now = .ok account) :
    Contract.accountProto (openingRow id accountType code scale now) = accountToProto account := by
  have decoded : i16ToAccountType (accountTypeToI16 accountType) = .ok accountType := by
    cases accountType <;> rfl
  have narrow : ((scale : Int) % 256).toNat = scale := by omega
  refine (accountToProto_row sound ?_).symm
  simp only [buildAccount, openingRow, decoded, narrow]
  rw [new]

/-- Ids are positive. -/
private theorem drawn_positive (run : Steps initial trace cfg) {i : Nat} {thread : Thread server}
    (there : cfg.threads[i]? = some thread) {accountType : AccountType} {code : String}
    {scale : Nat} {now : Int} {id : AccountId} {earlier : List Answered}
    (heard : Heard thread.own earlier ⟨.createAccount accountType code scale now, .ok id⟩) :
    0 < id.value := by
  obtain ⟨moved, l, made⟩ := made_of_heard run there heard
  obtain ⟨before, -, -, first, -, -⟩ := run.split made.member
  obtain ⟨weather, -, w', l', ran⟩ := made.called
  obtain ⟨tx, out, -⟩ := exec_eq_some (exec_fair ran rfl)
  obtain ⟨database, replied, -⟩ := storing_eq
    (Storage.createAccount accountType code scale now) (Option.some.inj out)
  obtain ⟨-, -, next, -⟩ := createAccount_ok replied
  rw [next]
  exact Int.lt_add_one_of_le (steps_keeps (safe .refl) first).sequences.accounts

private theorem protoToAccountType_ok {value : Int} {accountType : AccountType}
    (parsed : protoToAccountType value = .ok accountType) :
    1 ≤ value ∧ value ≤ 5 ∧ accountTypeToProto accountType = value := by
  unfold protoToAccountType at parsed
  repeat' split at parsed
  all_goals cases parsed
  all_goals subst_vars
  all_goals decide

/-- What a creation that was answered with success has found in the request, answered and stored:
    the account is in the book as it was answered, but for its balances and its version. -/
structure Opened (t : Tables) (req : CreateAccountRequest) (accountType : AccountType)
    (account : ProtoAccount) : Prop where
  type : protoToAccountType req.accountType = .ok accountType
  filled : req.assetCode ≠ ""
  storable : Storable req.assetCode
  scale : req.assetScale % 256 ≤ 18
  positive : 0 < account.id
  columns : account = ⟨account.id, req.accountType, normalBalanceToProto accountType.normalBalance,
    req.assetCode, req.assetScale % 256, 0, account.createdAt⟩
  stored : ∃ row, t.account? account.id = some row ∧ Contract.accountProto row.fixed = account

theorem Opened.later {t t' : Tables} {req : CreateAccountRequest} {accountType : AccountType}
    {account : ProtoAccount} (opened : Opened t req accountType account)
    (continues : t.Continues t') : Opened t' req accountType account := by
  obtain ⟨row, found, same⟩ := opened.stored
  obtain ⟨row', found', onward⟩ := continues.account? found
  exact { opened with stored := ⟨row', found', by rw [onward.fixed, same]⟩ }

/-- A creation that has committed has its row in the book. -/
private theorem committed_opening (run : Steps initial trace cfg) {i : Nat} {thread : Thread server}
    (found : cfg.threads[i]? = some thread) {req : CreateAccountRequest} {now : Int}
    (asked : thread.own.request = .createAccount req now) {accountType : AccountType} {scale : Nat}
    {id : AccountId} (heard : Heard thread.own [⟨.begin, .ok ()⟩,
      ⟨.createAccount accountType req.assetCode scale now, .ok id⟩] ⟨.commit, .ok ()⟩) :
    ∃ stored row, varchar 16 req.assetCode = .ok stored ∧
      (openingRow id accountType stored scale now).Sound ∧
      cfg.shared.tables.account? id.value = some row ∧
      row.fixed = (openingRow id accountType stored scale now).fixed := by
  obtain ⟨moved, l, made⟩ := made_of_heard run found heard
  obtain ⟨before, later, -, first, stepped, last⟩ := run.split made.member
  obtain ⟨rest, there⟩ := made.there
  obtain ⟨weather, called, w', l', ran⟩ := made.called
  obtain ⟨stored, others, kept, written⟩ := inserted_steps first i _ there rfl accountType
    req.assetCode scale now id [⟨.begin, .ok ()⟩] made.history
  rw [called] at stepped
  obtain ⟨-, commits⟩ := (call_commits (safe first) stepped there ran).resolve_left
    fun other => other.1 rfl
  have request : l.request = .createAccount req now := by
    obtain ⟨other, same, onward⟩ := onward_steps (.append (.snoc .refl stepped) last) there
    cases found.symm.trans same
    exact onward.request.symm.trans asked
  have merged := commits.tables
  -- The commit is that of an account, and the account is the row that was written.
  cases commits.ready with
  | reading versions => simp [versions, Tables.empty] at written
  | holding other =>
    rw [request] at other
    cases other
  | settling other =>
    rw [request] at other
    cases other
  | @enrolling _ _ row _ enrolls versions =>
    rw [versions] at written
    obtain ⟨-, same⟩ := List.append_inj' (show [] ++ [row] = _ from written) rfl
    cases same
    have fresh : moved.before.shared.tables.account? id.value = none := enrolls.fresh
    have entered : moved.after.shared.tables.account? id.value =
        some (openingRow id accountType stored scale now) := by
      rw [merged, versions, merge_enroll enrolls, Tables.account?_enroll, fresh]
      exact if_pos rfl
    obtain ⟨row, stays, onward⟩ :=
      (continues_steps (safe (first.snoc stepped)) last).account? entered
    exact ⟨stored, row, kept, enrolls.sound, stays, onward.fixed⟩

theorem answered_opened (run : Steps initial trace cfg) {i : Nat} {response : Response}
    {own : Session} (found : cfg.threads[i]? = some ⟨some (.done (.ok response)), own⟩)
    {req : CreateAccountRequest} {now : Int} (asked : own.request = .createAccount req now)
    (short : req.assetCode.length ≤ 16) :
    ∃ accountType account, response = .account account ∧
      Opened cfg.shared.tables req accountType account := by
  obtain ⟨accountType, id, account, type, filled, rfl, new, heard⟩ :=
    opens_run run found req now response asked rfl
  obtain ⟨stored, row, kept, sound, stays, fixed⟩ := committed_opening run found asked heard
  have inserted : Heard own [⟨.begin, .ok ()⟩]
      ⟨.createAccount accountType req.assetCode (req.assetScale % 256).toNat now, .ok id⟩ :=
    List.IsPrefix.trans ⟨[⟨.commit, .ok ()⟩], rfl⟩ heard
  have storable := varchar_storable kept
  obtain rfl : stored = req.assetCode := varchar_short short kept
  obtain ⟨same, kind, code, scale, version, created⟩ := Account.new_eq_ok new
  have small : (req.assetScale % 256).toNat ≤ 18 := Int.ofNat_le.mp sound.assetScale.2
  have whole : ((req.assetScale % 256).toNat : Int) = req.assetScale % 256 := by omega
  refine ⟨accountType, _, rfl, type, filled, storable, by omega, ?_, ?_, row, ?_, ?_⟩
  · rw [accountToProto, same]
    exact drawn_positive run found inserted
  · rw [accountToProto, Account.normalBalance, kind, code, scale, version, whole,
      (protoToAccountType_ok type).2.2]
  · rw [accountToProto, same]
    exact stays
  · rw [fixed]
    exact proto_openingRow small sound new

end Opening

section RoundTrip

/-- An account that was created is answered by `getAccount` at all later times, with what was
    asked for; of the scale, with its lowest byte. -/
theorem account_kept {req : CreateAccountRequest} {accountType : AccountType}
    {account : ProtoAccount} (run : Steps initial trace cfg) (quiet : cfg.quiet = true)
    (opened : Opened cfg.shared.tables req accountType account) :
    ∃ version, Answers cfg (.getAccount account.id) (.ok (.account ⟨account.id, req.accountType,
        normalBalanceToProto accountType.normalBalance, req.assetCode, req.assetScale % 256,
        version, account.createdAt⟩)) ∧
      version = cfg.threads.countP fun thread =>
        touches cfg.shared.tables account.id thread.own.effects := by
  obtain ⟨row, found, same⟩ := opened.stored
  refine ⟨row.version, ?_, ?_⟩
  · have proto : Contract.accountProto row = { account with version := row.version } := by
      rw [← same]
      rfl
    have alone := visible_getAccount (safe run).inv account.id
    rw [Contract.getAccount, if_neg (not_le.mpr opened.positive), found] at alone
    dsimp only at alone
    rw [proto, opened.columns] at alone
    exact answers_of_visible run quiet alone
  · have here : row.id = account.id := key_of_find found
    rw [version_eq_touching run row (mem_of_find found), here]

/-- A session that has touched an account was answered with success, unless it was cut off. -/
private theorem touching_succeeds (run : Steps initial trace cfg) {t : Tables} {a : Int}
    {thread : Thread server} (member : thread ∈ cfg.threads)
    (touched : touches t a thread.own.effects = true) (e : Failure) :
    thread.prog ≠ some (.done (.error e)) := by
  intro failed
  obtain ⟨prog, own⟩ := thread
  cases failed
  obtain ⟨i, there⟩ := List.mem_iff_getElem?.mp member
  have uncommitted := ((safe run).post there).2.2 e rfl
  have none : own.effects = .blank := by simp [Session.effects, uncommitted]
  rw [none] at touched
  cases touched

/-- A creation that has succeeded with this response: its request is valid, and in every quiet state
    of every serial run from here on the account is read as it was asked for, with a version that
    counts the new transactions on it and their settlements. -/
structure RoundTrip (cfg : Config server) (req : CreateAccountRequest) (response : Response) :
    Prop where
  accountType : 1 ≤ req.accountType ∧ req.accountType ≤ 5
  assetCode : req.assetCode ≠ ""
  assetScale : 0 ≤ req.assetScale ∧ req.assetScale ≤ 18
  reads : ∃ accountType account, protoToAccountType req.accountType = .ok accountType ∧
    response = .account account ∧
    ∀ later cfg', Steps cfg later cfg' → (∀ moved ∈ later, serial moved = true) →
      cfg'.quiet = true → ∃ version,
        Answers cfg' (.getAccount account.id) (.ok (.account ⟨account.id, req.accountType,
          normalBalanceToProto accountType.normalBalance, req.assetCode, req.assetScale,
          version, account.createdAt⟩)) ∧
        (version = cfg'.threads.countP fun thread =>
          touches cfg'.shared.tables account.id thread.own.effects) ∧
        (∀ thread ∈ cfg'.threads,
          touches cfg'.shared.tables account.id thread.own.effects = true →
            ∀ e, thread.prog ≠ some (.done (.error e))) ∧
        ∀ id, timesSettled cfg' id ≤ 1

/-- A creation that has succeeded makes the round trip, if its scale needs no narrowing. -/
private theorem roundTrip_of_scale (run : Steps initial trace cfg)
    (one : ∀ moved ∈ trace, serial moved = true) {req : CreateAccountRequest}
    {accountType : AccountType} {account : ProtoAccount}
    (opened : Opened cfg.shared.tables req accountType account)
    (whole : req.assetScale % 256 = req.assetScale) : RoundTrip cfg req (.account account) := by
  obtain ⟨low, high, -⟩ := protoToAccountType_ok opened.type
  have scale := opened.scale
  refine ⟨⟨low, high⟩, opened.filled, by omega, accountType, account, opened.type, rfl, ?_⟩
  intro later cfg' continued single quiet
  have all := run.append continued
  obtain ⟨version, answers, counted⟩ :=
    account_kept all quiet (opened.later (continues_steps (safe run) continued))
  rw [whole] at answers
  refine ⟨version, answers, counted, fun thread member touched =>
    touching_succeeds all member touched, settled_once all (serial_timely all ?_)⟩
  exact fun moved member => (List.mem_append.mp member).elim (one moved) (single moved)

/-- On the empty ledger a creation succeeds with every request that passes the checks. -/
private theorem creation_succeeds {req : CreateAccountRequest} (short : req.assetCode.length ≤ 16)
    (type : 1 ≤ req.accountType ∧ req.accountType ≤ 5) (filled : req.assetCode ≠ "")
    (storable : Storable req.assetCode) (scale : req.assetScale % 256 ≤ 18) :
    ∃ trace cfg response own, Steps initial trace cfg ∧ (∀ moved ∈ trace, serial moved = true) ∧
      cfg.threads[0]? = some ⟨some (.done (.ok response)), own⟩ ∧
      own.request = .createAccount req 1 := by
  obtain ⟨calls, next, outcome, own, played, ended, request, serves⟩ :=
    serves_alone .refl rfl (.createAccount req 1)
  obtain ⟨accountType, parsed⟩ : ∃ accountType, protoToAccountType req.accountType =
      .ok accountType := by
    obtain ⟨low, high⟩ := type
    obtain same | same | same | same | same : req.accountType = 1 ∨ req.accountType = 2 ∨
      req.accountType = 3 ∨ req.accountType = 4 ∨ req.accountType = 5 := by omega
    all_goals exact ⟨_, by rw [same]; rfl⟩
  have kept : varchar 16 req.assetCode = .ok req.assetCode := by
    rw [varchar, if_neg (Bool.not_eq_true _ ▸ storable), if_pos short]
  have small : ¬ (req.assetScale % 256).toNat > 18 := by omega
  obtain ⟨response, rfl⟩ : ∃ response, outcome = .ok response := by
    have meant : outcome = (Contract.meaning (.createAccount req 1) initial.shared).1 :=
      serves.outcome
    rw [meant]
    simp only [Contract.meaning, Contract.createAccount, parsed, if_neg filled, if_neg small, kept]
    exact ⟨_, rfl⟩
  obtain ⟨trace, run, one⟩ := Steps.of_play played
  exact ⟨trace, next, response, own, run, one, ended, request⟩

/-- The request is refused for its type, its code or the lowest byte of its scale. -/
def Refused (req : CreateAccountRequest) : Prop :=
  ¬ (1 ≤ req.accountType ∧ req.accountType ≤ 5) ∨ req.assetCode = "" ∨ ¬ Storable req.assetCode ∨
    18 < req.assetScale % 256

/-- A creation that succeeds makes the round trip, in every serial run, just with those requests
    that cannot succeed and those whose scale is between 0 and 18. -/
theorem account_round_trip (req : CreateAccountRequest) (short : req.assetCode.length ≤ 16) :
    (∀ trace cfg (i : Nat) response own now, Steps initial trace cfg →
      (∀ moved ∈ trace, serial moved = true) →
      cfg.threads[i]? = some ⟨some (.done (.ok response)), own⟩ →
      own.request = .createAccount req now → RoundTrip cfg req response) ↔
    Refused req ∨ 0 ≤ req.assetScale ∧ req.assetScale ≤ 18 := by
  constructor
  · intro all
    by_contra neither
    obtain ⟨passes, narrowed⟩ := not_or.mp neither
    simp only [Refused, not_or, not_not, not_lt] at passes
    obtain ⟨type, filled, storable, scale⟩ := passes
    obtain ⟨trace, cfg, response, own, run, one, ended, asked⟩ :=
      creation_succeeds short type filled storable scale
    exact narrowed (all trace cfg 0 response own 1 run one ended asked).assetScale
  · intro either trace cfg i response own now run one ended asked
    obtain ⟨accountType, account, rfl, opened⟩ := answered_opened run ended asked short
    obtain ⟨low, high, -⟩ := protoToAccountType_ok opened.type
    -- what has succeeded was not refused
    have valid : 0 ≤ req.assetScale ∧ req.assetScale ≤ 18 := by
      rcases either with (type | empty | unstorable | large) | valid
      · exact absurd ⟨low, high⟩ type
      · exact absurd empty opened.filled
      · exact absurd opened.storable unstorable
      · exact absurd opened.scale (not_le.mpr large)
      · exact valid
    exact roundTrip_of_scale run one opened (by omega)

/-- An account is created, and a deposit on it is authorized and captured. -/
theorem account_round_trip_deposit : ∃ trace cfg, Steps initial trace cfg ∧
    (∀ moved ∈ trace, serial moved = true) ∧
    Answers cfg (.getAccount 1) (.ok (.account ⟨1, 1, 1, "USD", 2, 2, 1⟩)) ∧
    (cfg.threads.countP fun thread => touches cfg.shared.tables 1 thread.own.effects) = 2 := by
  obtain ⟨trace, cfg, later, cfg', run, continued, one, created, reads⟩ := reached_twice serial
    ((deposit ("USD", "USD")).take 5)
    ((deposit ("USD", "USD")).drop 5 ++ .request (.capture 1 3) :: turns 3 12)
    (fun cfg => answer cfg 0)
    (fun cfg' => (cfg'.quiet, cfg'.threads.countP fun thread =>
      touches cfg'.shared.tables 1 thread.own.effects))
    (a := some (.createAccount ⟨1, "USD", 2⟩ 1, .account ⟨1, 1, 1, "USD", 2, 0, 1⟩)) (b := (true, 2))
    (by decide +kernel)
  obtain ⟨own, ended, asked⟩ := answer_eq_some created
  obtain ⟨quiet, two⟩ := Prod.mk.inj reads
  have first := (account_round_trip ⟨1, "USD", 2⟩ (by decide)).mpr (.inr (by decide)) trace cfg 0 _
    own 1 run (fun moved member => one moved (List.mem_append_left _ member)) ended asked
  obtain ⟨accountType, account, type, same, kept⟩ := first.reads
  cases same
  cases type
  obtain ⟨version, answers, counted, -⟩ := kept later cfg' continued
    (fun moved member => one moved (List.mem_append_right _ member)) quiet
  rw [two] at counted
  subst counted
  exact ⟨_, cfg', run.append continued, one, answers, two⟩

/-- The scale is narrowed to a byte before it is checked: 258 is accepted, and stored as 2. -/
theorem scale_narrowed : ∃ trace cfg, Steps initial trace cfg ∧
    (∀ moved ∈ trace, serial moved = true) ∧
    succeeded cfg 0 = some (.createAccount ⟨1, "USD", 258⟩ 1) ∧
    cfg.serve (.getAccount 1) (List.replicate 3 .fair) =
      some (.ok (.account ⟨1, 1, 1, "USD", 2, 0, 1⟩)) := by
  obtain ⟨trace, cfg, run, one, both⟩ := reached serial
    (.request (.createAccount ⟨1, "USD", 258⟩ 1) :: turns 0 4)
    (fun cfg => (succeeded cfg 0, cfg.serve (.getAccount 1) (List.replicate 3 .fair)))
    (a := (some (.createAccount ⟨1, "USD", 258⟩ 1),
      some (.ok (.account ⟨1, 1, 1, "USD", 2, 0, 1⟩)))) (by decide +kernel)
  obtain ⟨created, read⟩ := Prod.mk.inj both
  exact ⟨trace, cfg, run, one, created, read⟩

end RoundTrip

end Fides.Ledger
