import Fides.Ledger.Caching
import Fides.Ledger.Idempotency
import Fides.Ledger.Versions

/-! # The cache under concurrent handlers

Handlers commit under their row locks and bring the cache up to date after they
have given the locks up, so the cache may see the updates of an account in another
order than the accounts table.  Addition does not mind: as long as every update
finds its account in the cache and no sum leaves 64 bits, the cache lags behind the
table by exactly what the handlers still owe it.
-/

namespace Fides.Ledger

open Domain Service Storage FixedWidth Relational Bookkeeping Concurrency

variable {cfg next : Config server} {event : Event server} {trace : List (Transition server)}

section Sessions

variable {w w' : World} {l l' : Session} {weather : Weather} {c : Call} {answer : c.Result}

/-- What a session has put into the cache is the first part of what it has committed. -/
structure Paid (l : Session) : Prop where
  seeded : l.summary.seeded <+: l.effects.opened
  applied : l.summary.applied <+: l.effects.written

/-- What a call does to the cache, and what its session has put there. -/
inductive Caches (c : Call) (w w' : World) (l l' : Session) : Prop where
  | nothing (cache : w'.cache = w.cache) (seeded : l'.summary.seeded = l.summary.seeded)
      (applied : l'.summary.applied = l.summary.applied)
  | apply {id posted pending} (made : c = .cacheApplyDelta id posted pending)
      (cache : w'.cache = w.cache.applyDelta id posted pending)
      (seeded : l'.summary.seeded = l.summary.seeded)
      (applied : l'.summary.applied = l.summary.applied ++ [⟨id, posted, pending⟩])
  | seed {id posted pending} (made : c = .cacheSet id posted pending)
      (cache : w'.cache = w.cache.set id posted pending)
      (seeded : l'.summary.seeded = l.summary.seeded ++ [id])
      (applied : l'.summary.applied = l.summary.applied)

theorem exec_caches (ran : exec weather c w l = some (answer, w', l')) : Caches c w w' l l' := by
  have other (quiet : writesCache c = false) : Caches c w w' l l' := by
    obtain ⟨tx, does, rfl⟩ := exec_does ran
    obtain ⟨seeded, applied⟩ := add_unwritten l.summary answer quiet
    refine .nothing ?_ (by rw [Session.summary_record, seeded])
      (by rw [Session.summary_record, applied])
    cases does with
    | commit | give_up | statement => rfl
    | apply made | seed made =>
        cases made
        cases quiet
  cases c with
  | cacheApplyDelta id posted pending =>
      cases weather with
      | fair =>
          cases ran
          exact .apply rfl rfl (by rw [Session.summary_record]; rfl)
            (by rw [Session.summary_record]; rfl)
      | fault => cases ran
  | cacheSet id posted pending =>
      cases weather with
      | fair =>
          cases ran
          exact .seed rfl rfl (by rw [Session.summary_record]; rfl)
            (by rw [Session.summary_record]; rfl)
      | fault => cases ran
  | _ => exact other rfl

theorem Paid.call (paid : Paid l) (allowed : Allowed w l c)
    (ran : exec weather c w l = some (answer, w', l')) : Paid l' := by
  have caches := exec_caches ran
  obtain ⟨tx, -, rfl⟩ := exec_does ran
  by_cases done : (⟨c, answer⟩ : Answered) = ⟨.commit, .ok ()⟩
  · cases done
    obtain ⟨-, unseeded, unapplied⟩ := Ready.uncommitted allowed
    constructor <;> simp [Summary.add, unseeded, unapplied]
  · have effects := effects_record tx allowed done
    cases caches with
    | nothing _ seeded applied =>
        exact ⟨by simp only [effects, seeded, paid.seeded],
          by simp only [effects, applied, paid.applied]⟩
    | apply made _ seeded applied =>
        subst made
        obtain ⟨committed, grows⟩ := allowed
        have written : l.effects.written = l.summary.written := by simp [Session.effects, committed]
        exact ⟨by simp only [effects, seeded, paid.seeded],
          by simpa only [effects, applied, written] using grows⟩
    | seed made =>
        subst made
        obtain ⟨summary, -⟩ := allowed
        constructor <;> simp [Session.effects, Summary.add, summary, Summary.blank]

theorem paid_steps (run : Steps initial trace cfg) :
    ∀ (i : Nat) thread, cfg.threads[i]? = some thread → Paid thread.own := by
  refine run_invariant (fun _ => True) (P := fun cfg => ∀ (i : Nat) thread,
    cfg.threads[i]? = some thread → Paid thread.own) nofun ?_ run fun _ _ => trivial
  intro before event after safe all stepped _
  have lost : ∀ l : Session, Paid l → Paid (server.lost l) := fun l paid =>
    ⟨by rw [effects_lost]; exact paid.seeded, by rw [effects_lost]; exact paid.applied⟩
  refine Config.all_step (T := fun (_ : World) (l : Session) => Paid l) all stepped
    (fun _ => ⟨List.nil_prefix, List.nil_prefix⟩) lost lost ?_
  intro i weather c rest own answer shared own' _ found ran _
  exact ⟨(all i _ found).call (safe.pre found).2 ran, fun _ _ _ _ paid => paid⟩

/-- Nothing is taken out of the cache. -/
theorem Caches.stays (caches : Caches c w w' l l') {a : AccountId}
    (present : (w.cache.balances a).isSome) : (w'.cache.balances a).isSome := by
  cases caches with
  | nothing cache => rwa [cache]
  | apply _ cache => rwa [cache, BalanceCache.isSome_applyDelta]
  | seed _ cache =>
      rw [cache, BalanceCache.balances_set]
      split
      · rfl
      · exact present

end Sessions

section Opening

/-- How often a session has inserted an account. -/
def openings (a : Int) (s : Summary) : Int := (s.opened.count ⟨a⟩ : Nat)

private theorem openings_step (safe : protocol.Safe cfg) (stepped : cfg.step event = some next)
    (holds : ∀ a, cfg.total (fun l => openings a l.effects) =
      if (cfg.shared.tables.account? a).isSome then 1 else 0) (a : Int) :
    next.total (fun l => openings a l.effects) =
      if (next.shared.tables.account? a).isSome then 1 else 0 := by
  rw [total_effects safe stepped (f := openings a) rfl, holds]
  rcases step_committing safe stepped with ⟨none, same⟩ | ⟨own, known, commits⟩
  · rw [none, same, Option.elim_none, add_zero]
  · rw [known, Option.elim_some, commits.tables]
    cases commits.ready with
    | reading versions summary =>
        rw [summary, versions]
        exact add_zero _
    | @enrolling _ _ row _ enrolls versions summary =>
        rw [summary, versions, merge_enroll enrolls, Tables.account?_enroll]
        by_cases here : row.id = a
        · simp [openings, ← here, enrolls.fresh]
        · have other : (⟨row.id⟩ : AccountId) ≠ ⟨a⟩ := fun same =>
            here (congrArg AccountId.value same)
          simp [openings, other, here]
    | @holding _ _ _ row rows updates _ _ _ _ _ holds _ versions summary =>
        rw [summary, versions, merge_hold safe.inv holds, Tables.account?_hold, Option.isSome_map]
        exact add_zero _
    | settling _ settles found versions summary =>
        rw [summary, versions, merge_settle safe.inv settles found, Tables.account?_settle,
          Option.isSome_map]
        exact add_zero _

/-- Every account of the book was inserted once. -/
theorem openings_steps (run : Steps initial trace cfg) (a : Int) :
    cfg.total (fun l => openings a l.effects) =
      if (cfg.shared.tables.account? a).isSome then 1 else 0 := by
  refine run_invariant (fun _ => True) (P := fun cfg => ∀ a,
    cfg.total (fun l => openings a l.effects) =
      if (cfg.shared.tables.account? a).isSome then 1 else 0) (fun _ => rfl) ?_ run
    (fun _ _ => trivial) a
  intro before event after safe holds stepped _
  exact openings_step safe stepped holds

/-- An account that is put into the cache was not there. -/
private theorem unseeded (run : Steps initial trace cfg) {i : Nat} {id : AccountId}
    {posted pending : Int} {rest own}
    (found : cfg.threads[i]? = some ⟨some (.call (.cacheSet id posted pending) rest), own⟩)
    (seeds : cfg.total (fun l => (l.summary.seeded.count id : Int)) =
      if (cfg.shared.cache.balances id).isSome then 1 else 0) :
    cfg.shared.cache.balances id = none := by
  by_contra present
  have nonzero : cfg.total (fun l => (l.summary.seeded.count id : Int)) ≠ 0 := by
    rw [seeds, if_pos (Option.isSome_iff_ne_none.mpr present)]
    exact one_ne_zero
  obtain ⟨j, other, there, counted⟩ := Config.exists_of_total nonzero
  obtain ⟨summary, -⟩ := ((safe run).pre found).2
  have different : i ≠ j := by
    rintro rfl
    rw [found] at there
    cases there
    apply counted
    rw [summary]
    rfl
  have mine : openings id.value own.effects = 1 := by
    simp [openings, Session.effects, summary, Summary.blank]
  have theirs : 1 ≤ openings id.value other.own.effects := by
    have listed : id ∈ other.own.summary.seeded := by
      simpa [List.count_eq_zero] using counted
    have opened : id ∈ other.own.effects.opened := (paid_steps run j other there).seeded.mem listed
    have positive := List.count_pos_iff.mpr opened
    change 1 ≤ ((other.own.effects.opened.count id : Nat) : Int)
    omega
  have both := Config.add_le_total (f := fun l : Session => openings id.value l.effects)
    (fun l => by simp [openings]) different found there
  rw [openings_steps run] at both
  split at both <;> simp only at both <;> omega

end Opening

section Tracking

/-- Handlers run to completion. -/
def completes (moved : Transition server) : Bool :=
  match moved.event with
  | .request _ | .call _ _ => true
  | .drop _ | .crash => false

/-- The cache is not lost. -/
def keepsCache (moved : Transition server) : Bool :=
  match moved.event with
  | .request _ | .call _ _ | .drop _ => true
  | .crash => false

/-- The update that a transition applies to the cache. -/
def applying (moved : Transition server) : Option BalanceUpdate :=
  match moved.event with
  | .call i _ => match moved.before.threads[i]? with
      | some ⟨some (.call (.cacheApplyDelta id posted pending) _), _⟩ => some ⟨id, posted, pending⟩
      | _ => none
  | _ => none

/-- An update that is applied to the cache finds its account there. -/
def findsAccount (moved : Transition server) : Bool :=
  (applying moved).all fun update => (moved.before.shared.cache.balances update.accountId).isSome

/-- An update that is applied to the cache leaves its balances in range. -/
def staysInRange (moved : Transition server) : Bool :=
  (applying moved).all fun update =>
    (moved.before.shared.cache.balances update.accountId).all fun cached =>
      decide (Fits 64 (cached.posted + update.postedDelta)) &&
        decide (Fits 64 (cached.pending + update.pendingDelta))

theorem keepsCache_ne (keeps : keepsCache ⟨cfg, event, next⟩ = true) : event ≠ .crash := by
  rintro rfl
  cases keeps

theorem completes_keepsCache {moved : Transition server} (whole : completes moved = true) :
    keepsCache moved = true := by
  unfold completes at whole
  unfold keepsCache
  split at whole <;> simp_all

/-- The sum of the deltas that the sessions have committed for an account and not yet
    applied to the cache. -/
def outstanding (cfg : Config server) (a : Int) (delta : BalanceUpdate → Int) : Int :=
  cfg.total fun l => (((owed l).filter fun update => update.accountId.value = a).map delta).sum

theorem outstanding_eq_zero {a : Int} {delta : BalanceUpdate → Int}
    (nobody : ∀ thread ∈ cfg.threads, ∀ update ∈ owed thread.own, update.accountId.value ≠ a) :
    outstanding cfg a delta = 0 := by
  refine Config.total_eq_zero fun thread member => ?_
  rw [List.filter_eq_nil_iff.mpr fun update listed => by
    simpa using nobody thread member update listed]
  rfl

/-- The sum of the deltas that a session has applied to the cache for an account. -/
def arrived (a : Int) (delta : BalanceUpdate → Int) (l : Session) : Int :=
  ((l.summary.applied.filter fun update => update.accountId.value = a).map delta).sum

theorem deltas_eq (run : Steps initial trace cfg) (a : Int) (delta : BalanceUpdate → Int) :
    deltas cfg a delta = cfg.total (arrived a delta) + outstanding cfg a delta := by
  rw [outstanding, ← Config.total_add]
  refine Config.total_congr fun thread member => ?_
  obtain ⟨i, found⟩ := List.mem_iff_getElem?.mp member
  have split := List.prefix_iff_eq_append.mp (paid_steps run i thread found).applied
  rw [updatesOf, ← split, List.filter_append, List.map_append, List.sum_append]
  rfl

/-- The cache knows the accounts that were put there. -/
theorem seeded_steps (run : Steps initial trace cfg)
    (keeps : ∀ moved ∈ trace, keepsCache moved = true) (id : AccountId) :
    cfg.total (fun l => (l.summary.seeded.count id : Int)) =
      if (cfg.shared.cache.balances id).isSome then 1 else 0 := by
  induction run with
  | refl => rfl
  | @snoc trace cfg event next run stepped ih =>
      have holds := ih fun moved member => keeps moved (List.mem_append_left _ member)
      refine Config.total_eq_step (g := fun w : World =>
        if (w.cache.balances id).isSome then 1 else 0) holds stepped
        (keepsCache_ne (keeps ⟨cfg, event, next⟩ (by simp))) (fun _ => rfl) (fun _ => rfl) ?_
      intro i weather c rest own answer shared own' _ found ran
      cases exec_caches ran with
      | nothing cache seeded => simp [cache, seeded]
      | apply made cache seeded => simp [cache, seeded]
      | @seed other posted pending made cache seeded =>
          subst made
          by_cases same : id = other
          · subst same
            simp [cache, seeded, BalanceCache.balances_set, unseeded run found holds]
          · simp [cache, seeded, BalanceCache.balances_set, same, Ne.symm same]

/-- A balance in the cache is the sum of the deltas that were applied to it. -/
private theorem arrived_steps (run : Steps initial trace cfg)
    (lands : ∀ moved ∈ trace, keepsCache moved = true ∧ findsAccount moved = true ∧
      staysInRange moved = true)
    {f : CachedBalance → Int} {g : BalanceUpdate → Int} (zero : f ⟨0, 0⟩ = 0)
    (adds : ∀ (b : CachedBalance) update, Fits 64 (b.posted + update.postedDelta) →
      Fits 64 (b.pending + update.pendingDelta) →
      f ⟨saturatingAdd 64 b.posted update.postedDelta,
        saturatingAdd 64 b.pending update.pendingDelta⟩ = f b + g update) (a : Int) :
    cfg.total (arrived a g) = (cfg.shared.cache.balances ⟨a⟩).elim 0 f := by
  induction run with
  | refl => rfl
  | @snoc trace cfg event next run stepped ih =>
      have before : ∀ moved ∈ trace, keepsCache moved = true := fun moved member =>
        (lands moved (List.mem_append_left _ member)).1
      obtain ⟨keeps, finds, fits⟩ := lands ⟨cfg, event, next⟩ (by simp)
      refine Config.total_eq_step (g := fun w : World => (w.cache.balances ⟨a⟩).elim 0 f)
        (ih fun moved member => lands moved (List.mem_append_left _ member)) stepped
        (keepsCache_ne keeps) (fun _ => rfl) (fun _ => rfl) ?_
      intro i weather c rest own answer shared own' same found ran
      cases exec_caches ran with
      | nothing cache _ applied => simp [arrived, cache, applied]
      | @apply id posted pending made cache _ applied =>
          subst made same
          have here : applying ⟨cfg, .call i weather, next⟩ = some ⟨id, posted, pending⟩ := by
            simp only [applying, found]
          simp only [findsAccount, staysInRange, here, Option.all_some] at finds fits
          by_cases target : id = ⟨a⟩
          · subst target
            obtain ⟨cached, shown⟩ := Option.isSome_iff_exists.mp finds
            simp only [shown, Option.all_some, Bool.and_eq_true, decide_eq_true_eq] at fits
            have sum := adds cached ⟨⟨a⟩, posted, pending⟩ fits.1 fits.2
            simp [arrived, cache, applied, BalanceCache.balances_applyDelta, shown, sum]
          · have other : id.value ≠ a := fun value => target (AccountId.ext_value value)
            simp [arrived, cache, applied, BalanceCache.balances_applyDelta, Ne.symm target, other]
      | @seed id posted pending made cache _ applied =>
          subst made
          obtain ⟨-, rfl, rfl, -⟩ := ((safe run).pre found).2
          by_cases target : id = ⟨a⟩
          · subst target
            have empty := unseeded run found (seeded_steps run before ⟨a⟩)
            simp [arrived, cache, applied, BalanceCache.balances_set, empty, zero]
          · simp [arrived, cache, applied, BalanceCache.balances_set, Ne.symm target]

/-- The cache lags behind the accounts table by what the sessions still owe it. -/
theorem tracked (run : Steps initial trace cfg)
    (lands : ∀ moved ∈ trace, keepsCache moved = true ∧ findsAccount moved = true ∧
      staysInRange moved = true) {row : AccountRow} (member : row ∈ cfg.shared.tables.accounts)
    {cached : CachedBalance} (shown : cfg.shared.cache.balances ⟨row.id⟩ = some cached) :
    cached.posted + outstanding cfg row.id BalanceUpdate.postedDelta = row.postedBalance ∧
      cached.pending + outstanding cfg row.id BalanceUpdate.pendingDelta = row.pendingBalance := by
  have posted := arrived_steps run lands (f := CachedBalance.posted)
    (g := BalanceUpdate.postedDelta) rfl (fun _ _ fits _ => clamp_of_fits fits) row.id
  have pending := arrived_steps run lands (f := CachedBalance.pending)
    (g := BalanceUpdate.pendingDelta) rfl (fun _ _ _ fits => clamp_of_fits fits) row.id
  rw [posted_eq_deltas run row member, deltas_eq run, posted,
    pending_eq_deltas run row member, deltas_eq run, pending, shown]
  exact ⟨rfl, rfl⟩

/-- Where nobody owes an account anything, the cache agrees with the accounts table. -/
theorem agrees (run : Steps initial trace cfg)
    (lands : ∀ moved ∈ trace, keepsCache moved = true ∧ findsAccount moved = true ∧
      staysInRange moved = true) {row : AccountRow} (member : row ∈ cfg.shared.tables.accounts)
    {cached : CachedBalance} (shown : cfg.shared.cache.balances ⟨row.id⟩ = some cached)
    (nobody : ∀ thread ∈ cfg.threads, ∀ update ∈ owed thread.own,
      update.accountId.value ≠ row.id) : cached = ⟨row.postedBalance, row.pendingBalance⟩ := by
  obtain ⟨posted, pending⟩ := tracked run lands member shown
  rw [outstanding_eq_zero nobody, add_zero] at posted pending
  rw [← posted, ← pending]

end Tracking

section Named

/-- The `createAccount` of an account has responded. -/
def responded (cfg : Config server) (a : Int) : Bool :=
  cfg.threads.any fun thread => match thread.prog with
    | some (.done _) => thread.own.effects.opened.contains ⟨a⟩
    | _ => false

/-- An authorization that arrives names these accounts only after their `createAccount`
    has responded. -/
def namesResponded (accounts : List Int) (moved : Transition server) : Bool :=
  match moved.event with
  | .request (.authorize req _) => req.legs.all fun leg =>
      !accounts.contains leg.accountId || responded moved.before leg.accountId
  | _ => true

theorem responded_cached (run : Steps initial trace cfg)
    (keeps : ∀ moved ∈ trace, keepsCache moved = true) {a : Int}
    (answered : responded cfg a = true) : (cfg.shared.cache.balances ⟨a⟩).isSome := by
  obtain ⟨thread, member, opened⟩ := List.any_eq_true.mp answered
  obtain ⟨i, found⟩ := List.mem_iff_getElem?.mp member
  split at opened
  · rename_i outcome done
    obtain ⟨prog, own⟩ := thread
    cases done
    have settled : SettledUp own := ((safe run).post found).1
    have listed : (⟨a⟩ : AccountId) ∈ own.summary.seeded := by
      simp only [List.contains_iff_mem, Session.effects] at opened
      split at opened
      · rename_i committed
        rw [(settled committed).2]
        exact opened
      · cases opened
    by_contra missing
    have counted := Config.le_total (f := fun l : Session => (l.summary.seeded.count ⟨a⟩ : Int))
      (fun l => by simp) found
    rw [seeded_steps run keeps, if_neg missing] at counted
    have positive := List.count_pos_iff.mpr listed
    simp only at counted
    omega
  · cases opened

/-- What an authorization names is in the cache. -/
private theorem named_cached {accounts : List Int} (run : Steps initial trace cfg)
    (whole : ∀ moved ∈ trace, keepsCache moved = true ∧ namesResponded accounts moved = true) :
    ∀ (i : Nat) thread, cfg.threads[i]? = some thread → ∀ req now,
      thread.own.request = .authorize req now → ∀ leg ∈ req.legs, leg.accountId ∈ accounts →
        (cfg.shared.cache.balances ⟨leg.accountId⟩).isSome := by
  induction run with
  | refl => exact nofun
  | @snoc trace cfg event next run stepped ih =>
      have earlier : ∀ moved ∈ trace,
          keepsCache moved = true ∧ namesResponded accounts moved = true := fun moved member =>
        whole moved (List.mem_append_left _ member)
      obtain ⟨keeps, names⟩ := whole ⟨cfg, event, next⟩ (by simp)
      intro j thread there req now asked leg listed inside
      rcases Config.step_cases stepped with
        ⟨r, rfl, rfl⟩ | ⟨i, weather, c, rest, own, answer, shared, own', -, found, -, ran, rfl⟩ |
        ⟨i, c, rest, own, -, found, rfl⟩ | ⟨rfl, -⟩
      · rcases Config.getElem?_append_cases there with old | ⟨-, rfl⟩
        · exact ih earlier j thread old req now asked leg listed inside
        · change r = .authorize req now at asked
          subst asked
          simp only [namesResponded, List.all_eq_true, Bool.or_eq_true, Bool.not_eq_true'] at names
          refine responded_cached run (fun moved member => (earlier moved member).1) ?_
          simpa [inside] using names leg listed
      · refine (exec_caches ran).stays ?_
        rcases Config.getElem?_set_cases there with ⟨rfl, rfl⟩ | ⟨-, old⟩
        · obtain ⟨tx, -, rfl⟩ := exec_does ran
          exact ih earlier i _ found req now asked leg listed inside
        · exact ih earlier j thread old req now asked leg listed inside
      · rcases Config.getElem?_set_cases there with ⟨rfl, rfl⟩ | ⟨-, old⟩
        · exact ih earlier i _ found req now asked leg listed inside
        · exact ih earlier j thread old req now asked leg listed inside
      · cases keeps

/-- The accounts of a transaction were named by an authorization. -/
private theorem exists_namer (run : Steps initial trace cfg) {row : TransactionRow}
    (member : row ∈ cfg.shared.tables.transactions) {line : Line Int}
    (inside : line ∈ cfg.shared.tables.lines row.id) : ∃ (i : Nat) (thread : Thread server),
      ∃ req now, cfg.threads[i]? = some thread ∧ thread.own.request = .authorize req now ∧
        ∃ leg ∈ req.legs, leg.accountId = line.account := by
  obtain ⟨i, thread, req, legs, there, -, authored⟩ := exists_author run member
  obtain ⟨now, request⟩ := authored.request
  rw [authored.lines] at inside
  obtain ⟨leg, listed, rfl⟩ := List.mem_map.mp inside
  obtain ⟨-, proto, asked, same⟩ := parseTransferLegs_ok authored.parsed leg listed
  exact ⟨i, thread, req, now, there, request, proto, asked, same⟩

/-- What is applied to the cache finds its account if authorizations name only accounts
    whose `createAccount` has responded. -/
private theorem finds_of_names (run : Steps initial trace cfg)
    (whole : ∀ moved ∈ trace, keepsCache moved = true ∧
      namesResponded (cfg.shared.tables.accounts.map AccountRow.id) moved = true) :
    ∀ moved ∈ trace, findsAccount moved = true := by
  intro moved member
  obtain ⟨earlier, later, rfl, reached, took, rest⟩ := run.split member
  unfold findsAccount applying
  split
  · split
    · rename_i id posted pending _ own found
      obtain ⟨committed, grows⟩ := ((safe reached).pre found).2
      have written : ⟨id, posted, pending⟩ ∈ own.effects.written := by
        rw [Session.effects, if_pos committed]
        exact grows.mem (by simp)
      obtain ⟨target, row, there, line, inside, account⟩ := updated_used reached found written
      obtain ⟨old, present⟩ := (safe reached).inv.lines_covered target line inside
      have kept : (cfg.shared.tables.account? line.account).isSome :=
        account_stays (safe reached) (.append (.snoc .refl took) rest) (by rw [present]; rfl)
      obtain ⟨final, stays⟩ := Option.isSome_iff_exists.mp kept
      have here : row.id = target := key_of_find there
      obtain ⟨j, author, req, now, named, request, leg, asked, same⟩ :=
        exists_namer reached (mem_of_find there) (here.symm ▸ inside)
      have listed : leg.accountId ∈ cfg.shared.tables.accounts.map AccountRow.id :=
        List.mem_map.mpr ⟨final, mem_of_find stays, (key_of_find stays).trans same.symm⟩
      have cached := named_cached reached (fun moved member =>
        whole moved (List.mem_append_left _ member)) j author named req now request leg asked listed
      have key : (⟨leg.accountId⟩ : AccountId) = id := AccountId.ext_value (same.trans account)
      rw [key] at cached
      exact cached
    · rfl
  · rfl

/-- As long as handlers run to completion, accounts are named only after their
    `createAccount` has responded and no sum leaves 64 bits, the cache lags behind every
    account by the deltas outstanding for it, a handler that has responded owes nothing,
    and the cache agrees with the accounts table whenever nobody owes it anything. -/
theorem cache_tracks (run : Steps initial trace cfg)
    (whole : ∀ moved ∈ trace, completes moved = true ∧ staysInRange moved = true ∧
      namesResponded (cfg.shared.tables.accounts.map AccountRow.id) moved = true) :
    (∀ row ∈ cfg.shared.tables.accounts,
      (responded cfg row.id = true → (cfg.shared.cache.get ⟨row.id⟩).isSome) ∧
      ∀ balance : AccountBalance, cfg.shared.cache.get ⟨row.id⟩ = some balance →
        balance.posted + outstanding cfg row.id BalanceUpdate.postedDelta = row.postedBalance ∧
        balance.pending + outstanding cfg row.id BalanceUpdate.pendingDelta =
          row.pendingBalance) ∧
    (∀ (i : Nat) outcome own, cfg.threads[i]? = some ⟨some (.done outcome), own⟩ →
      owed own = []) ∧
    ((∀ thread ∈ cfg.threads, owed thread.own = []) →
      ∀ row ∈ cfg.shared.tables.accounts, responded cfg row.id = true →
        cfg.shared.cache.balances ⟨row.id⟩ = some ⟨row.postedBalance, row.pendingBalance⟩) := by
  have keeps : ∀ moved ∈ trace, keepsCache moved = true := fun moved member =>
    completes_keepsCache (whole moved member).1
  have finds := finds_of_names run fun moved member =>
    ⟨keeps moved member, (whole moved member).2.2⟩
  have lands : ∀ moved ∈ trace, keepsCache moved = true ∧ findsAccount moved = true ∧
      staysInRange moved = true := fun moved member =>
    ⟨keeps moved member, finds moved member, (whole moved member).2.1⟩
  refine ⟨fun row member => ⟨fun answered => ?_, fun balance read => ?_⟩,
    fun i outcome own found => ?_, fun nobody row member answered => ?_⟩
  · rw [BalanceCache.get, Option.isSome_map]
    exact responded_cached run keeps answered
  · obtain ⟨cached, shown, rfl⟩ := Option.map_eq_some_iff.mp read
    exact tracked run lands member shown
  · exact (SettledUp.owes_nothing ((safe run).post found).1).2
  · obtain ⟨cached, shown⟩ := Option.isSome_iff_exists.mp (responded_cached run keeps answered)
    rw [shown, agrees run lands member shown fun thread inside => by simp [nobody thread inside]]

/-- The deposit has reached the cache for one of its two accounts. -/
theorem cache_tracks_deposit : ∃ trace cfg row, ∃ balance : AccountBalance,
    Steps initial trace cfg ∧ cfg.shared.tables.account? 2 = some row ∧
    cfg.shared.cache.get ⟨2⟩ = some balance ∧ balance.pending = 0 ∧
    outstanding cfg 2 BalanceUpdate.pendingDelta = 100 ∧
    balance.pending + outstanding cfg 2 BalanceUpdate.pendingDelta = row.pendingBalance := by
  obtain ⟨trace, cfg, run, whole, computed⟩ := reached (fun moved =>
      completes moved && (staysInRange moved && namesResponded [1, 2] moved))
    (deposit ("USD", "USD")).dropLast
    (fun cfg => (cfg.shared.tables.accounts.map AccountRow.id,
      (cfg.shared.tables.account? 2).isSome, cfg.shared.cache.get ⟨2⟩,
      outstanding cfg 2 BalanceUpdate.pendingDelta))
    (a := ([1, 2], true, some ⟨0, 0, 0⟩, 100)) (by decide +kernel)
  simp only [Prod.mk.injEq] at computed
  obtain ⟨ids, present, shown, due⟩ := computed
  obtain ⟨row, found⟩ := Option.isSome_iff_exists.mp present
  have here : row.id = 2 := key_of_find found
  simp only [Bool.and_eq_true] at whole
  have tracks := ((cache_tracks run (ids.symm ▸ whole)).1 row (mem_of_find found)).2
  rw [here] at tracks
  exact ⟨trace, cfg, row, _, run, found, shown, rfl, due, (tracks _ shown).2⟩

end Named

end Fides.Ledger
