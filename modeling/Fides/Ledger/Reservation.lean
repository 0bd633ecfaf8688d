import Fides.Ledger.Caching

/-! # Reservations

A hold that takes money out of an account should leave enough posted for all the
holds before it.  `authorize` compares the amount of such a leg with posted less
pending, and in the pending balance holds of this kind count as negative amounts.
So a hold makes more available instead of less.  Holds stay covered just as long
as no leg asks for an amount between what is free and what is available.
-/

namespace Fides.Storage

open Bookkeeping

/-- What the pending entries take out of an account when they are captured. -/
def Tables.held (t : Tables) (a : Int) : Int := drawn t.normal (t.linesAt 1) a

end Fides.Storage

namespace Fides.Ledger

open Domain Service Storage FixedWidth Relational Bookkeeping Concurrency

section Book

variable {t : Tables} {ids : Sequences}

/-- The holds on every account are covered by what is posted on it. -/
def Reserved (t : Tables) : Prop := ∀ row ∈ t.accounts, t.held row.id ≤ row.postedBalance

theorem held_nonneg (book : Consistent t ids) (a : Int) : 0 ≤ t.held a := by
  refine drawn_nonneg t.normal (fun line member => ?_) a
  obtain ⟨e, inside, rfl⟩ := List.mem_map.mp member
  exact (entry_amount book (List.mem_of_mem_filter inside)).1.le

theorem Reserved.enroll {row : AccountRow} (book : Consistent t ids) (reserved : Reserved t)
    (enrolls : Enrolls t ids row) : Reserved (t.enroll row) := by
  intro other member
  rcases List.mem_append.mp member with old | added
  · have side : (t.enroll row).normal other.id = t.normal other.id :=
      t.normal_enroll row (book.account?_of_mem old)
    have same : (t.enroll row).held other.id = t.held other.id := by
      simp only [Tables.held, drawn, side]
      rfl
    rw [same]
    exact reserved other old
  · rw [List.mem_singleton.mp added, enrolls.empty.1]
    refine le_of_eq (drawn_of_absent fun line inside here => ?_)
    obtain ⟨account, found⟩ := linesAt_covered book 1 line inside
    rw [here, enrolls.fresh] at found
    cases found

theorem Reserved.settle {id status : Int} {postedAt : Option Int} {row : TransactionRow} {updates}
    (book : Consistent t ids) (reserved : Reserved t)
    (settles : Settles t id status postedAt updates) (found : t.transaction? id = some row)
    (pending : row.status = 1) : Reserved (t.settle id status postedAt updates) := by
  have same : row.id = id := key_of_find found
  have positive : ∀ line ∈ t.lines id, 0 ≤ line.amount := fun line member =>
    ((book.lines row (mem_of_find found)).positive line (same ▸ member)).le
  intro other member
  obtain ⟨old, inside, rfl⟩ := List.mem_map.mp member
  have released : (t.settle id status postedAt updates).held old.id =
      t.held old.id + -1 * drawn t.normal (t.lines id) old.id := by
    rw [Tables.held, Tables.normal_settle]
    exact settles.released book found pending _
  have taken := drawn_nonneg t.normal positive old.id
  have falls := neg_drawn_le_balance t.normal positive old.id
  have before := reserved old inside
  rw [AccountRow.updated_id, released, (settles.nets.updated old).1]
  split <;> omega

/-- A new transaction is covered if each of its lines is. -/
theorem Reserved.hold_iff {row : TransactionRow} {rows updates} (book : Consistent t ids)
    (reserved : Reserved t) (holds : Holds t ids row rows updates)
    (once : ((rows.map EntryRow.line).map Line.account).Nodup) :
    Reserved (t.hold row rows updates) ↔ ∀ line ∈ rows.map EntryRow.line, ∀ account,
      t.account? line.account = some account → line.side ≠ account.side →
        line.amount ≤ account.postedBalance - t.held account.id := by
  have grown : ∀ a, (t.hold row rows updates).held a =
      t.held a + drawn t.normal (rows.map EntryRow.line) a := by
    intro a
    rw [Tables.held, Tables.normal_hold, holds.linesAt, if_pos rfl, drawn_append, Tables.held]
  have posted : ∀ account : AccountRow,
      (account.updated updates).postedBalance = account.postedBalance := by
    intro account
    simpa using (holds.nets.updated account).1
  have each : Reserved (t.hold row rows updates) ↔ ∀ account ∈ t.accounts,
      t.held account.id + drawn t.normal (rows.map EntryRow.line) account.id ≤
        account.postedBalance := by
    simp [Reserved, Tables.hold, posted, ← grown]
  rw [each]
  constructor
  · intro covered line member account found against
    have here : account.id = line.account := key_of_find found
    have side : t.normal line.account = account.side := by rw [Tables.normal, found]
    have all := covered account (mem_of_find found)
    rw [here, drawn_of_once once member, side, if_pos against] at all
    rw [here]
    omega
  · intro covered account member
    by_cases used : ∃ line ∈ rows.map EntryRow.line, line.account = account.id
    · obtain ⟨line, inside, here⟩ := used
      have found : t.account? line.account = some account := here ▸ book.account?_of_mem member
      have side : t.normal line.account = account.side := by rw [Tables.normal, found]
      rw [← here, drawn_of_once once inside, side, here]
      split
      · have le := covered line inside account found ‹_›
        omega
      · have le := reserved account member
        omega
    · rw [drawn_of_absent fun line inside here => used ⟨line, inside, here⟩, add_zero]
      exact reserved account member

end Book

variable {cfg next : Config server} {event : Event server} {trace : List (Transition server)}

/-- A leg takes out more than is posted and not held, and still no more than counts as
    available. -/
def exceedsFree (t : Tables) (leg : TransferLeg) : Bool :=
  (t.account? leg.accountId.value).any fun row =>
    leg.entryType.side ≠ row.side ∧ row.postedBalance - t.held row.id < leg.amount.value ∧
      leg.amount.value ≤ row.postedBalance - row.pendingBalance

/-- A transition makes no authorization permanent that takes out more than is free. -/
def leavesHolds (moved : Transition server) : Bool :=
  (authorizing moved).all fun legs =>
    legs.all fun leg => !exceedsFree moved.before.shared.tables leg

/-- An authorization that a transition makes permanent names no account twice. -/
def namesOnce (moved : Transition server) : Bool :=
  (authorizing moved).all fun legs => (legs.map TransferLeg.accountId).Nodup

/-- A leg that takes money out has passed the check of the available balance. -/
private theorem available_of_funds {own : Session} {leg : TransferLeg} {row : AccountRow}
    (busy : Busy cfg.shared own) (commits : Commits cfg next own)
    (positive : 0 < leg.amount.value)
    (funds : ∃ balance : AccountBalance, balance.hasAvailable leg.amount = true ∧
      (⟨.cacheGet leg.accountId, some balance⟩ : Answered) ∈ own.history)
    (found : cfg.shared.tables.account? leg.accountId.value = some row) :
    leg.amount.value ≤ row.postedBalance - row.pendingBalance := by
  obtain ⟨balance, enough, seen⟩ := funds
  obtain ⟨other, there, rfl⟩ := busy.known commits.ready.uncommitted.1 seen
  rw [found] at there
  cases there
  have le : leg.amount.value ≤ clamp 64 (row.postedBalance - row.pendingBalance) := by
    simpa [AccountBalance.hasAvailable, saturatingSub] using enough
  exact le_of_le_clamp (lt_trans (by decide) positive) le

private theorem covered_iff {t : Tables} {leg : TransferLeg}
    (available : ∀ row, t.account? leg.accountId.value = some row →
      leg.entryType.side ≠ row.side → leg.amount.value ≤ row.postedBalance - row.pendingBalance) :
    (∀ row, t.account? leg.accountId.value = some row → leg.entryType.side ≠ row.side →
      leg.amount.value ≤ row.postedBalance - t.held row.id) ↔ exceedsFree t leg = false := by
  cases found : t.account? leg.accountId.value with
  | none => simp [exceedsFree, found]
  | some row =>
      have le := available row found
      simp only [exceedsFree, found, Option.any_some, decide_eq_false_iff_not, Option.some.injEq,
        forall_eq']
      by_cases against : leg.entryType.side = row.side
      · simp [against]
      · have enough := le against
        simp only [ne_eq, against, not_false_eq_true, forall_const, true_and]
        omega

/-- Where a serial run is as long as its holds are covered. -/
structure Reserving (cfg : Config server) : Prop where
  steady : Steady cfg
  turn : upToDate.Holds cfg
  reserved : Reserved cfg.shared.tables

namespace Reserving

theorem initial : Reserving initial := ⟨.initial, upToDate_initial, nofun⟩

/-- The step at which a transaction is held decides whether holds stay covered. -/
theorem step_iff (reserving : Reserving cfg) (stepped : cfg.step event = some next)
    (once : namesOnce ⟨cfg, event, next⟩ = true) :
    Reserved next.shared.tables ↔ leavesHolds ⟨cfg, event, next⟩ = true := by
  have book : Consistent cfg.shared.tables cfg.shared.sequences := reserving.steady.safe.inv
  have free (none : authorizing ⟨cfg, event, next⟩ = none) (kept : Reserved next.shared.tables) :
      Reserved next.shared.tables ↔ leavesHolds ⟨cfg, event, next⟩ = true := by
    simp [leavesHolds, none, kept]
  cases step_books reserving.steady.safe stepped with
  | nothing kind tables => exact free kind (tables ▸ reserving.reserved)
  | enroll kind enrolls tables => exact free kind (tables ▸ reserving.reserved.enroll book enrolls)
  | settle kind commits settles found written tables =>
      have pending := reserving.steady.pending commits written found
      exact free kind (tables ▸ reserving.reserved.settle book settles found pending)
  | @hold own legs row rows updates kind commits lines funds holds tables =>
      obtain ⟨i, rest, running, -⟩ := commits.thread
      obtain ⟨busy, -⟩ := reserving.turn.alone running
      have names : ((rows.map EntryRow.line).map Line.account).Nodup := by
        simp only [namesOnce, kind, Option.all_some, decide_eq_true_eq] at once
        have same : (legs.map TransferLeg.line).map Line.account =
            (legs.map TransferLeg.accountId).map AccountId.value := by
          rw [List.map_map, List.map_map]
          rfl
        rw [lines, same]
        exact once.map fun _ _ => AccountId.ext_value
      change next.shared.tables = _ at tables
      rw [tables, reserving.reserved.hold_iff book holds names, lines]
      simp only [leavesHolds, kind, Option.all_some, List.all_eq_true, Bool.not_eq_true',
        List.forall_mem_map]
      refine forall₂_congr fun leg member => ?_
      have positive : 0 < leg.amount.value :=
        holds.lines.positive leg.line (lines ▸ List.mem_map_of_mem member)
      refine covered_iff fun account found against => ?_
      have side : cfg.shared.tables.normal leg.accountId.value = account.side := by
        rw [Tables.normal, found]
      exact available_of_funds busy commits positive (funds leg member (side ▸ against.symm)) found

theorem step (reserving : Reserving cfg) (stepped : cfg.step event = some next)
    (one : serial ⟨cfg, event, next⟩ = true) (once : namesOnce ⟨cfg, event, next⟩ = true)
    (left : leavesHolds ⟨cfg, event, next⟩ = true) : Reserving next := by
  have safe := reserving.steady.safe
  exact ⟨reserving.steady.step stepped (timely_of_upToDate safe reserving.turn),
    reserving.turn.step checked safe stepped one, (reserving.step_iff stepped once).mpr left⟩

theorem steps {start : Config server} (reserving : Reserving start) (run : Steps start trace cfg)
    (all : ∀ moved ∈ trace, serial moved = true ∧ namesOnce moved = true ∧
      leavesHolds moved = true) : Reserving cfg :=
  run.invariant (fun _ _ _ reserving stepped kept => reserving.step stepped kept.1 kept.2.1 kept.2.2)
    reserving all

end Reserving

/-- In serial runs in which authorizations name each account once, holds are covered in
    every state just when no leg takes out more than is free; and as long as that was so,
    settling what is held leaves no posted balance negative. -/
theorem holds_reserved_iff (run : Steps initial trace cfg)
    (allowed : ∀ moved ∈ trace, serial moved = true ∧ namesOnce moved = true) :
    ((∀ moved ∈ trace, Reserved moved.after.shared.tables) ↔
      ∀ moved ∈ trace, leavesHolds moved = true) ∧
    ((∀ moved ∈ trace, leavesHolds moved = true) → ∀ later cfg', Steps cfg later cfg' →
      (∀ moved ∈ later, serial moved = true ∧ authorizing moved = none) →
      ∀ row ∈ cfg'.shared.tables.accounts, 0 ≤ row.postedBalance) := by
  constructor
  · refine run.forall_after_iff (J := Reserving)
      (P := fun cfg : Config server => Reserved cfg.shared.tables) ?_ .initial allowed
    rintro before event after reserving stepped ⟨one, once⟩
    exact ⟨reserving.step_iff stepped once, reserving.step stepped one once⟩
  · intro left later cfg' continued unheld row member
    have before : Reserving cfg := Reserving.initial.steps run fun moved inside =>
      ⟨(allowed moved inside).1, (allowed moved inside).2, left moved inside⟩
    have after : Reserving cfg' := before.steps continued fun moved inside => by
      obtain ⟨one, none⟩ := unheld moved inside
      simp [one, namesOnce, leavesHolds, none]
    exact (held_nonneg after.steady.safe.inv row.id).trans (after.reserved row member)

/-- The deposit is captured, and then two withdrawals are authorized. -/
def withdrawals (first second : Int) : List (Event server) :=
  let withdraw (key : String) (amount : Int) : Request :=
    .authorize ⟨key, [⟨1, 2, amount⟩, ⟨2, 1, amount⟩], ⟨"", .error ""⟩⟩ 6
  deposit ("USD", "USD") ++ .request (.capture 1 5) :: turns 3 12 ++
    .request (withdraw "first" first) :: turns 4 14 ++
    .request (withdraw "second" second) :: turns 5 14

def captures : List (Event server) :=
  .request (.capture 2 8) :: turns 6 12 ++ .request (.capture 3 9) :: turns 7 12

theorem holds_reserved_withdrawals : ∃ trace cfg, Steps initial trace cfg ∧
    (∀ moved ∈ trace, serial moved = true ∧ namesOnce moved = true) ∧
    (∀ moved ∈ trace, leavesHolds moved = true) ∧
    cfg.shared.tables.accounts.map (fun row => cfg.shared.tables.held row.id) = [100, 100] ∧
    ∀ moved ∈ trace, Reserved moved.after.shared.tables := by
  obtain ⟨trace, cfg, run, passed, held⟩ := reached
    (fun moved => serial moved && namesOnce moved && leavesHolds moved) (withdrawals 80 20)
    (fun cfg => cfg.shared.tables.accounts.map fun row => cfg.shared.tables.held row.id)
    (a := [100, 100]) (by decide +kernel)
  simp only [Bool.and_eq_true] at passed
  have left : ∀ moved ∈ trace, leavesHolds moved = true :=
    fun moved member => (passed moved member).2
  have allowed : ∀ moved ∈ trace, serial moved = true ∧ namesOnce moved = true :=
    fun moved member => (passed moved member).1
  exact ⟨trace, cfg, run, allowed, left, held, (holds_reserved_iff run allowed).1.mpr left⟩

/-- The second withdrawal passes because of the first, and capturing both takes out more
    than was there. -/
theorem holds_exceed : ∃ trace cfg later cfg', Steps initial trace cfg ∧ Steps cfg later cfg' ∧
    (∀ moved ∈ trace ++ later, serial moved = true ∧ namesOnce moved = true) ∧
    ¬ Reserved cfg.shared.tables ∧ ∃ row ∈ cfg'.shared.tables.accounts, row.postedBalance < 0 := by
  obtain ⟨trace, cfg, later, cfg', run, continued, passed, columns, posted⟩ := reached_twice
    (fun moved => serial moved && namesOnce moved) (withdrawals 80 100) captures
    (fun cfg => cfg.shared.tables.accounts.map fun row =>
      (cfg.shared.tables.held row.id, row.postedBalance))
    (fun cfg' => cfg'.shared.tables.accounts.map AccountRow.postedBalance)
    (a := [(180, 100), (180, 100)]) (b := [-80, -80]) (by decide +kernel)
  simp only [Bool.and_eq_true] at passed
  refine ⟨trace, cfg, later, cfg', run, continued, passed, fun reserved => ?_, ?_⟩
  · have listed : ((180, 100) : Int × Int) ∈ [(180, 100), (180, 100)] := List.mem_cons_self
    rw [← columns] at listed
    obtain ⟨row, member, pair⟩ := List.mem_map.mp listed
    obtain ⟨held, balance⟩ := Prod.mk.inj pair
    have le := reserved row member
    omega
  · have listed : (-80 : Int) ∈ [-80, -80] := List.mem_cons_self
    rw [← posted] at listed
    obtain ⟨row, member, same⟩ := List.mem_map.mp listed
    exact ⟨row, member, by omega⟩

end Fides.Ledger
