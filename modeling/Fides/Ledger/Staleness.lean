import Fides.Ledger.Coherence

/-! # Lookups and openings between a commit and its cache update

The cache is right as soon as a handler has brought it up to date, but the locks
of the handler are gone before that.  An authorization that looks its funds up in
between sees too much, and an account that is put into the cache after others have
moved its balance starts there from nothing.
-/

namespace Fides.Ledger

open Domain Service Storage FixedWidth Relational Concurrency

variable {cfg next : Config server} {event : Event server} {trace : List (Transition server)}

section Funds

/-- The account whose funds an authorization looks up in a transition, with its request. -/
def checking (moved : Transition server) : Option (AuthorizeRequest × AccountId) :=
  match moved.event with
  | .call i _ => match moved.before.threads[i]? with
      | some ⟨some (.call (.cacheGet id) _), own⟩ => match own.request with
          | .authorize req _ => some (req, id)
          | _ => none
      | _ => none
  | _ => none

/-- When an authorization looks up the funds of an account, no handler is between its
    commit and its update of that account in the cache. -/
def readsSettled (moved : Transition server) : Bool :=
  (checking moved).all fun (_, id) => moved.before.threads.all fun thread =>
    (owed thread.own).all fun update => update.accountId ≠ id

/-- A leg that passes the funds check is covered by the committed row of its account. -/
def FundsCovered (moved : Transition server) : Prop :=
  ∀ req id legs, ∀ balance : AccountBalance, checking moved = some (req, id) →
    parseTransferLegs req.legs = .ok legs → moved.before.shared.cache.get id = some balance →
    ∀ leg ∈ legs, leg.accountId = id → balance.hasAvailable leg.amount = true →
      ∃ row, moved.before.shared.tables.account? id.value = some row ∧
        leg.amount.value ≤ row.postedBalance - row.pendingBalance

/-- Only accounts of the book are in the cache. -/
theorem cached_known (run : Steps initial trace cfg)
    (keeps : ∀ moved ∈ trace, keepsCache moved = true) {id : AccountId}
    (present : (cfg.shared.cache.balances id).isSome) :
    ∃ row, cfg.shared.tables.account? id.value = some row := by
  have nonzero : cfg.total (fun l => (l.summary.seeded.count id : Int)) ≠ 0 := by
    rw [seeded_steps run keeps, if_pos present]
    exact one_ne_zero
  obtain ⟨i, thread, found, counted⟩ := Config.exists_of_total nonzero
  have listed : id ∈ thread.own.summary.seeded := by
    simpa [List.count_eq_zero] using counted
  have positive := List.count_pos_iff.mpr ((paid_steps run i thread found).seeded.mem listed)
  have opened := Config.le_total (f := fun l : Session => openings id.value l.effects)
    (fun l => by simp [openings]) found
  rw [openings_steps run] at opened
  change ((thread.own.effects.opened.count id : Nat) : Int) ≤ _ at opened
  refine Option.isSome_iff_exists.mp ?_
  split at opened
  · assumption
  · omega

/-- The funds check is made against the locked rows as long as it does not fall between
    another handler's commit and its update of the cache. -/
theorem funds_covered (run : Steps initial trace cfg)
    (settled : ∀ moved ∈ trace, readsSettled moved = true ∧ keepsCache moved = true ∧
      findsAccount moved = true ∧ staysInRange moved = true) :
    ∀ moved ∈ trace, FundsCovered moved := by
  intro moved member req id legs balance looks parsed read leg listed here enough
  obtain ⟨earlier, later, rfl, reached, -, -⟩ := run.split member
  have lands : ∀ moved ∈ earlier, keepsCache moved = true ∧ findsAccount moved = true ∧
      staysInRange moved = true := fun moved member =>
    (settled moved (List.mem_append_left _ member)).2
  obtain ⟨cached, shown, rfl⟩ := Option.map_eq_some_iff.mp read
  obtain ⟨row, found⟩ := cached_known reached (fun moved member => (lands moved member).1)
    (by rw [shown]; rfl)
  have same : row.id = id.value := key_of_find found
  have nobody := (settled moved member).1
  simp only [readsSettled, looks, Option.all_some, List.all_eq_true, decide_eq_true_eq] at nobody
  have current := agrees reached lands (mem_of_find found)
    (show moved.before.shared.cache.balances ⟨row.id⟩ = some cached by rw [same]; exact shown)
    fun thread inside update due target =>
      nobody thread inside update due (AccountId.ext_value (target.trans same))
  subst current
  have positive := (parseTransferLegs_ok parsed leg listed).1
  refine ⟨row, found, le_of_le_clamp ?_ (of_decide_eq_true enough)⟩
  have low : lo 64 < 0 := by decide
  omega

def withdrawal : AuthorizeRequest :=
  ⟨"withdrawal", [⟨1, 2, 100⟩, ⟨2, 1, 100⟩], ⟨"", .error ""⟩⟩

theorem funds_covered_withdrawal : ∃ trace cfg, Steps initial trace cfg ∧
    succeeded cfg 4 = some (.authorize withdrawal 6) ∧ ∀ moved ∈ trace, FundsCovered moved := by
  obtain ⟨trace, cfg, run, settled, done⟩ := reached (fun moved =>
      readsSettled moved && (keepsCache moved && (findsAccount moved && staysInRange moved)))
    (deposit ("USD", "USD") ++ .request (.capture 1 5) :: turns 3 12 ++
      .request (.authorize withdrawal 6) :: turns 4 14)
    (fun cfg => succeeded cfg 4) (a := some (.authorize withdrawal 6)) (by decide +kernel)
  simp only [Bool.and_eq_true] at settled
  exact ⟨trace, cfg, run, done, funds_covered run settled⟩

/-- A deposit of 100 is posted and a second one is committed, but not in the cache yet.  A
    withdrawal of 100 holds the locks, passes the check and succeeds, while posted less
    pending of the row is 0. -/
theorem funds_uncovered : ∃ trace cfg next later cfg', Steps initial trace cfg ∧
    (∀ moved ∈ trace, keepsCache moved = true ∧ findsAccount moved = true ∧
      staysInRange moved = true) ∧
    cfg.step (.call 5 .fair) = some next ∧ ¬ FundsCovered ⟨cfg, .call 5 .fair, next⟩ ∧
    (∃ thread, cfg.threads[5]? = some thread ∧
      thread.own.tx.held = [.account 1, .account 2]) ∧
    Steps next later cfg' ∧ succeeded cfg' 5 = some (.authorize withdrawal 7) := by
  obtain ⟨trace, cfg, run, lands, computed⟩ := reached (fun moved =>
      keepsCache moved && (findsAccount moved && staysInRange moved))
    (deposit ("USD", "USD") ++ .request (.capture 1 5) :: turns 3 12 ++
      .request (.authorize ⟨"more", [⟨1, 1, 100⟩, ⟨2, 2, 100⟩], ⟨"", .error ""⟩⟩ 6) ::
      turns 4 10 ++ .request (.authorize withdrawal 7) :: turns 5 4)
    (fun cfg => decide (checking ⟨cfg, .call 5 .fair, cfg⟩ = some (withdrawal, ⟨1⟩) ∧
      cfg.shared.cache.get ⟨1⟩ = some ⟨100, 0, 100⟩ ∧
      (cfg.shared.tables.account? 1).map (fun row => (row.postedBalance, row.pendingBalance)) =
        some (100, 100) ∧
      cfg.threads[5]?.map (fun thread : Thread server => thread.own.tx.held) =
        some [Resource.account 1, Resource.account 2] ∧
      ((cfg.step (.call 5 .fair)).bind fun next =>
        (next.play (fun _ => true) (turns 5 9)).bind fun cfg' => succeeded cfg' 5) =
          some (.authorize withdrawal 7))) (a := true) (by decide +kernel)
  simp only [decide_eq_true_eq, Option.bind_eq_some_iff, Option.map_eq_some_iff,
    Prod.mk.injEq] at computed
  obtain ⟨looks, read, ⟨row, found, posted, pending⟩, ⟨thread, there, held⟩, next, stepped,
    cfg', played, done⟩ := computed
  obtain ⟨later, continued, -⟩ := Steps.of_play played
  simp only [Bool.and_eq_true] at lands
  refine ⟨trace, cfg, next, later, cfg', run, lands, stepped, fun covered => ?_,
    ⟨thread, there, held⟩, continued, done⟩
  obtain ⟨legs, parsed, leg, listed, here, amount⟩ : ∃ legs,
      parseTransferLegs withdrawal.legs = .ok legs ∧
      ∃ leg ∈ legs, leg.accountId = ⟨1⟩ ∧ leg.amount.value = 100 :=
    ⟨_, rfl, _, List.mem_cons_self, rfl, rfl⟩
  obtain ⟨row', found', le⟩ := covered withdrawal ⟨1⟩ legs _ looks parsed read leg listed here
    (by simp [AccountBalance.hasAvailable, amount])
  cases found.symm.trans found'
  omega

end Funds

section Creation

/-- A handler that runs to completion ends with an outcome. -/
private theorem finished_done (run : Steps initial trace cfg)
    (whole : ∀ moved ∈ trace, completes moved = true) (quiet : cfg.quiet = true) {i : Nat}
    {prog own} (found : cfg.threads[i]? = some ⟨prog, own⟩) :
    ∃ outcome, prog = some (.done outcome) := by
  have running : ∀ thread ∈ cfg.threads, thread.prog.isSome := by
    clear found quiet
    induction run with
    | refl => exact nofun
    | @snoc trace cfg event next run stepped ih =>
        have before := ih fun moved member => whole moved (List.mem_append_left _ member)
        have here := whole ⟨cfg, event, next⟩ (by simp)
        rcases Config.step_cases stepped with
          ⟨r, rfl, rfl⟩ | ⟨i, weather, c, rest, own, answer, shared, own', rfl, -, -, -, rfl⟩ |
          ⟨i, c, rest, own, rfl, -⟩ | ⟨rfl, -⟩
        · intro thread member
          rcases List.mem_append.mp member with old | new
          · exact before thread old
          · rw [List.mem_singleton.mp new]
            rfl
        · intro thread member
          rcases List.mem_or_eq_of_mem_set member with old | rfl
          · exact before thread old
          · rfl
        · cases here
        · cases here
  have finished := List.all_eq_true.mp quiet _ (List.mem_of_getElem? found)
  have some := running _ (List.mem_of_getElem? found)
  cases prog with
  | none => cases some
  | some prog =>
      cases prog with
      | done outcome => exact ⟨outcome, rfl⟩
      | call c rest => cases finished

/-- A second account is opened and a deposit made to it, after some calls of its
    `createAccount` and before the others. -/
def creating (before after : Nat) : List (Event server) :=
  .request (.createAccount ⟨1, "USD", 2⟩ 1) :: turns 0 4 ++
    .request (.createAccount ⟨2, "USD", 2⟩ 1) :: turns 1 before ++
    .request (.authorize ⟨"deposit", [⟨1, 1, 100⟩, ⟨2, 2, 100⟩], ⟨"", .error ""⟩⟩ 2) :: turns 2 12 ++
    turns 1 after

/-- Once all handlers have finished, the cache agrees with the accounts table, as long as
    every update finds its account in the cache and no sum leaves 64 bits. -/
theorem created_cached (run : Steps initial trace cfg)
    (lands : ∀ moved ∈ trace, completes moved = true ∧ findsAccount moved = true ∧
      staysInRange moved = true) (quiet : cfg.quiet = true) :
    ∀ row ∈ cfg.shared.tables.accounts,
      cfg.shared.cache.balances ⟨row.id⟩ = some ⟨row.postedBalance, row.pendingBalance⟩ := by
  have whole : ∀ moved ∈ trace, completes moved = true := fun moved member =>
    (lands moved member).1
  have keeps : ∀ moved ∈ trace, keepsCache moved = true := fun moved member =>
    completes_keepsCache (whole moved member)
  intro row member
  have opened : cfg.total (fun l => openings row.id l.effects) ≠ 0 := by
    rw [openings_steps run, (safe run).inv.account?_of_mem member]
    exact one_ne_zero
  obtain ⟨i, ⟨prog, own⟩, found, counted⟩ := Config.exists_of_total opened
  have answered : responded cfg row.id = true := by
    obtain ⟨outcome, rfl⟩ := finished_done run whole quiet found
    refine List.any_eq_true.mpr ⟨_, List.mem_of_getElem? found, ?_⟩
    simpa [openings, List.count_eq_zero] using counted
  obtain ⟨cached, shown⟩ := Option.isSome_iff_exists.mp (responded_cached run keeps answered)
  rw [shown, agrees run (fun moved member => ⟨keeps moved member, (lands moved member).2⟩) member
    shown ?_]
  intro thread inside
  obtain ⟨j, there⟩ := List.mem_iff_getElem?.mp inside
  obtain ⟨prog, own⟩ := thread
  obtain ⟨outcome, rfl⟩ := finished_done run whole quiet there
  simp [(SettledUp.owes_nothing ((safe run).post there).1).2]

/-- The deposit is made once the new account is in the cache. -/
theorem created_cached_deposit : ∃ trace cfg, Steps initial trace cfg ∧
    cfg.shared.cache.balances ⟨2⟩ = some ⟨0, 100⟩ ∧
    ∀ row ∈ cfg.shared.tables.accounts,
      cfg.shared.cache.balances ⟨row.id⟩ = some ⟨row.postedBalance, row.pendingBalance⟩ := by
  obtain ⟨trace, cfg, run, lands, computed⟩ := reached (fun moved =>
      completes moved && (findsAccount moved && staysInRange moved))
    (creating 4 0) (fun cfg => (cfg.quiet, cfg.shared.cache.balances ⟨2⟩))
    (a := (true, some ⟨0, 100⟩)) (by decide +kernel)
  obtain ⟨quiet, shown⟩ := Prod.mk.inj computed
  simp only [Bool.and_eq_true] at lands
  exact ⟨trace, cfg, run, shown, created_cached run lands quiet⟩

/-- The deposit is committed and applied before the new account is put into the cache. -/
theorem created_lost : ∃ trace cfg, Steps initial trace cfg ∧
    (∀ moved ∈ trace, completes moved = true ∧ staysInRange moved = true) ∧
    cfg.quiet = true ∧ cfg.shared.cache.balances ⟨2⟩ = some ⟨0, 0⟩ ∧
    ∃ row ∈ cfg.shared.tables.accounts, row.id = 2 ∧ row.pendingBalance = 100 := by
  obtain ⟨trace, cfg, run, whole, computed⟩ := reached (fun moved =>
      completes moved && staysInRange moved)
    (creating 3 1) (fun cfg => (cfg.quiet, cfg.shared.cache.balances ⟨2⟩,
      (cfg.shared.tables.account? 2).map AccountRow.pendingBalance))
    (a := (true, some ⟨0, 0⟩, some 100)) (by decide +kernel)
  simp only [Prod.mk.injEq, Option.map_eq_some_iff] at computed
  obtain ⟨quiet, shown, row, found, pending⟩ := computed
  simp only [Bool.and_eq_true] at whole
  exact ⟨trace, cfg, run, whole, quiet, shown, row, mem_of_find found, key_of_find found, pending⟩

end Creation

end Fides.Ledger
