import Fides.Ledger.Admission
import Fides.Ledger.Book

/-! # From legs to balance updates

What parsing and validation say about the legs of a request, and what the
handlers collect from legs or stored entries: one update per account, with the
net of its lines.  Validated totals bound every partial sum, so no sum wraps.
-/

namespace Fides.Ledger

open Domain Service Storage FixedWidth Relational Bookkeeping

/-- Lines whose partial sums all fit into an `i64`. -/
structure Bounded (lines : List (Line Int)) : Prop where
  positive : ∀ line ∈ lines, 0 < line.amount
  debits : total .debit lines ≤ hi 64
  credits : total .credit lines ≤ hi 64

theorem WellFormed.toBounded {lines : List (Line Int)} (formed : WellFormed lines) :
    Bounded lines where
  positive := formed.positive
  debits := formed.bounded
  credits := formed.balanced ▸ formed.bounded

namespace Bounded

variable {lines rest : List (Line Int)}

theorem front (bounded : Bounded (lines ++ rest)) : Bounded lines := by
  have nonneg : ∀ line ∈ rest, 0 ≤ line.amount := fun line member =>
    (bounded.positive line (List.mem_append_right _ member)).le
  have debits := total_nonneg .debit nonneg
  have credits := total_nonneg .credit nonneg
  have upper := bounded.debits
  have lower := bounded.credits
  rw [total_append] at upper lower
  refine ⟨fun line member => bounded.positive line (List.mem_append_left _ member), ?_, ?_⟩ <;> omega

theorem balance_le (bounded : Bounded lines) (normal : Int → Side) (a : Int) :
    |balance normal lines a| ≤ hi 64 := by
  obtain ⟨lower, upper⟩ := balance_bounds normal a fun line member =>
    (bounded.positive line member).le
  have debits := bounded.debits
  have credits := bounded.credits
  rw [abs_le]
  cases side : normal a <;> simp only [side, Side.sign_debit, Side.sign_credit] at lower upper <;>
    constructor <;> omega

theorem amount_le {line : Line Int} (bounded : Bounded lines) (member : line ∈ lines) :
    line.amount ≤ hi 64 := by
  obtain ⟨before, after, rfl⟩ := List.append_of_mem member
  rw [List.append_cons] at bounded
  have front := bounded.front
  have nonneg : ∀ other ∈ before, 0 ≤ other.amount := fun other inside =>
    (front.positive other (List.mem_append_left _ inside)).le
  have debits := front.debits
  have credits := front.credits
  have debitsBefore := total_nonneg .debit nonneg
  have creditsBefore := total_nonneg .credit nonneg
  rw [total_append, total_cons, total_nil] at debits credits
  cases side : line.side <;> simp [side] at debits credits <;> omega

end Bounded

theorem parseTransferLegs_ok {protos : List ProtoTransferLeg} {legs : List TransferLeg}
    (parsed : parseTransferLegs protos = .ok legs) : ∀ leg ∈ legs, 0 < leg.amount.value ∧
      ∃ proto ∈ protos, proto.accountId = leg.accountId.value := by
  obtain ⟨valid, rfl⟩ := parseTransferLegs_iff.mp parsed
  intro leg member
  have listed : legToProto leg ∈ legs.map legToProto := List.mem_map_of_mem member
  exact ⟨(valid _ listed).2.2, _, listed, rfl⟩

/-- What an accepted authorization asks for is a transaction. -/
theorem validated {protos : List ProtoTransferLeg} {legs : List TransferLeg}
    (parsed : parseTransferLegs protos = .ok legs)
    (valid : validateTransactionBalance legs = .ok ()) :
    WellFormed (legs.map TransferLeg.line) := by
  have positive : ∀ leg ∈ legs, 0 < leg.amount.value := fun leg member =>
    (parseTransferLegs_ok parsed leg member).1
  have several : 2 ≤ legs.length := by
    by_contra few
    simp [validateTransactionBalance, not_le.mp few] at valid
  rw [validateTransactionBalance_eq positive several] at valid
  split_ifs at valid with fits differ
  refine ⟨by rwa [List.length_map], ?_, not_not.mp differ, fits.1⟩
  intro line member
  obtain ⟨leg, inside, rfl⟩ := List.mem_map.mp member
  exact positive leg inside

/-- The movement takes a delta `p` times to posted and `q` times to pending. -/
structure Scales (movement : Movement) (p q : Int) : Prop where
  first : ∀ d, |d| ≤ hi 64 → movement.first d = (p * d, q * d)
  more : ∀ b d, |b + d| ≤ hi 64 → movement.more (p * b, q * b) d = (p * (b + d), q * (b + d))

private theorem wrap_eq {x : Int} (small : |x| ≤ hi 64) : wrap 64 x = x := by
  rw [abs_le] at small
  apply wrap_of_fits_64
  rw [fits_iff_64]
  simp only [hi] at small
  omega

theorem hold_scales : Scales .hold 0 1 := by
  constructor
  · intro d _
    simp [Movement.hold]
  · intro b d small
    simp [Movement.hold, wrap_eq small]

theorem capture_scales : Scales .capture 1 (-1) := by
  constructor
  · intro d small
    simp [Movement.capture, wrap_eq ((abs_neg d).trans_le small)]
  · intro b d small
    have negative : -1 * b - d = -1 * (b + d) := by ring
    have small' : |-1 * (b + d)| ≤ hi 64 := by rwa [neg_one_mul, abs_neg]
    simp only [Movement.capture, one_mul, negative, wrap_eq small, wrap_eq small']

theorem void_scales : Scales .void 0 (-1) := by
  constructor
  · intro d small
    simp [Movement.void, wrap_eq ((abs_neg d).trans_le small)]
  · intro b d small
    have negative : -1 * b - d = -1 * (b + d) := by ring
    have small' : |-1 * (b + d)| ≤ hi 64 := by rwa [neg_one_mul, abs_neg]
    simp only [Movement.void, zero_mul, negative, wrap_eq small']

section Accumulate

variable {movement : Movement} {a : AccountId} {d : Int} {updates : List BalanceUpdate}

private theorem accumulate_of_absent (absent : find updates a.value = none) :
    accumulate movement a d updates =
      updates ++ [⟨a, (movement.first d).1, (movement.first d).2⟩] := by
  induction updates with
  | nil => rfl
  | cons update updates ih =>
      rw [find_cons] at absent
      split at absent
      · cases absent
      · rename_i other
        have apart : update.accountId ≠ a := fun same => other (congrArg AccountId.value same)
        rw [accumulate, if_neg apart, ih absent, List.cons_append]

/-- The update of an account after one more delta. -/
private def more (movement : Movement) (a : AccountId) (d : Int) (update : BalanceUpdate) :
    BalanceUpdate :=
  if update.accountId = a then
    ⟨a, (movement.more (update.postedDelta, update.pendingDelta) d).1,
      (movement.more (update.postedDelta, update.pendingDelta) d).2⟩
  else update

private theorem accumulate_of_present {old : BalanceUpdate} (distinct : Distinct updates)
    (present : find updates a.value = some old) :
    accumulate movement a d updates = updates.map (more movement a d) := by
  induction updates with
  | nil => cases present
  | cons update updates ih =>
      obtain ⟨fresh, rest⟩ := List.nodup_cons.mp distinct
      by_cases here : update.accountId = a
      · have tail : updates.map (more movement a d) = updates := by
          conv_rhs => rw [← List.map_id updates]
          apply List.map_congr_left
          intro other member
          have apart : other.accountId ≠ a := fun same =>
            fresh (List.mem_map.mpr ⟨other, member, congrArg AccountId.value (same.trans here.symm)⟩)
          exact if_neg apart
        rw [accumulate, if_pos here, List.map_cons, tail, more, if_pos here]
      · have apart : key update ≠ a.value := fun same => here (AccountId.ext_value same)
        rw [find_cons, if_neg apart] at present
        rw [accumulate, if_neg here, List.map_cons, ih rest present, more, if_neg here]

end Accumulate

theorem findAccount_ok {accounts : List Account} {id : AccountId} {account : Account}
    (found : findAccount accounts id = .ok account) : account ∈ accounts ∧ account.id = id := by
  unfold findAccount at found
  split at found
  · rename_i hit
    cases found
    exact ⟨List.mem_of_find?_eq_some hit, by simpa using List.find?_some hit⟩
  · cases found

/-- The accounts know the normal sides. -/
def Knows (normal : Int → Side) (accounts : List Account) : Prop :=
  ∀ account ∈ accounts, account.normalBalance.side = normal account.id.value

theorem delta_eq {normal : Int → Side} {accounts : List Account} {account : Account}
    {id : AccountId} {entryType : EntryType} {amount : Amount} (knows : Knows normal accounts)
    (found : findAccount accounts id = .ok account) (nonneg : 0 ≤ amount.value)
    (small : amount.value ≤ hi 64) :
    computeBalanceDelta account.normalBalance entryType amount =
      (⟨id.value, entryType.side, amount.value⟩ : Line Int).delta normal := by
  obtain ⟨member, rfl⟩ := findAccount_ok found
  rw [computeBalanceDelta_eq nonneg small, knows account member, Line.delta]

section Netted

/-- The accounts in the order in which they first appear. -/
def firstAppearances (accounts : List Int) : List Int := accounts.eraseDups

private theorem firstAppearances_snoc (accounts : List Int) (a : Int) :
    firstAppearances (accounts ++ [a]) =
      if a ∈ accounts then firstAppearances accounts else firstAppearances accounts ++ [a] := by
  have single : [a].eraseDups = [a] := by simp [List.eraseDups_cons]
  split <;> simp_all [firstAppearances, List.eraseDups_append, List.removeAll]

private theorem mem_firstAppearances {accounts : List Int} {a : Int} :
    a ∈ firstAppearances accounts ↔ a ∈ accounts := List.mem_eraseDups

theorem nodup_firstAppearances (accounts : List Int) : (firstAppearances accounts).Nodup := by
  induction accounts using List.reverseRecOn with
  | nil => simp [firstAppearances]
  | append_singleton accounts a ih =>
    rw [firstAppearances_snoc]
    split
    · exact ih
    · rename_i absent
      rw [← List.concat_eq_append]
      exact ih.concat (by rwa [mem_firstAppearances])

/-- One update for each account, in the order in which the accounts first appear. -/
def netted (normal : Int → Side) (p q : Int) (lines : List (Line Int)) : List BalanceUpdate :=
  (firstAppearances (lines.map Line.account)).map fun a =>
    ⟨⟨a⟩, p * balance normal lines a, q * balance normal lines a⟩

variable {normal : Int → Side} {p q : Int} {movement : Movement} {before : List (Line Int)}
  {line : Line Int}

theorem distinct_netted (lines : List (Line Int)) : Distinct (netted normal p q lines) := by
  rw [Distinct, netted, List.map_map]
  exact (nodup_firstAppearances _).map fun _ _ same => same

theorem netted_nets (lines : List (Line Int)) : Nets normal p q lines (netted normal p q lines) where
  distinct := distinct_netted lines
  covers a := by simp [netted, mem_firstAppearances]
  amounts update member := by
    obtain ⟨a, -, rfl⟩ := List.mem_map.mp member
    exact ⟨rfl, rfl⟩

/-- One more line, one more delta. -/
theorem accumulate_netted (normal : Int → Side) (scales : Scales movement p q)
    (bounded : Bounded (before ++ [line])) :
    accumulate movement ⟨line.account⟩ (line.delta normal) (netted normal p q before) =
      netted normal p q (before ++ [line]) := by
  have elsewhere : ∀ a, line.account ≠ a →
      balance normal (before ++ [line]) a = balance normal before a := by
    intro a apart
    simp [apart]
  have here : balance normal (before ++ [line]) line.account =
      balance normal before line.account + line.delta normal := by simp
  have small := bounded.balance_le normal line.account
  rw [here] at small
  by_cases present : line.account ∈ before.map Line.account
  · have member : (⟨⟨line.account⟩, p * balance normal before line.account,
        q * balance normal before line.account⟩ : BalanceUpdate) ∈ netted normal p q before :=
      List.mem_map.mpr ⟨line.account, mem_firstAppearances.mpr present, rfl⟩
    rw [accumulate_of_present (distinct_netted before) (find_of_mem (distinct_netted before) member),
      netted, netted, List.map_append, List.map_singleton, firstAppearances_snoc, if_pos present,
      List.map_map]
    refine List.map_congr_left fun a _ => ?_
    by_cases same : line.account = a
    · subst same
      simp only [Function.comp, more, if_true, scales.more _ _ small, here]
    · have apart : (⟨a⟩ : AccountId) ≠ ⟨line.account⟩ := fun equal =>
        same (congrArg AccountId.value equal).symm
      simp only [Function.comp, more, if_neg apart, elsewhere a same]
  · have absent : find (netted normal p q before) line.account = none := by
      rw [find_eq_none]
      intro update member same
      obtain ⟨a, listed, rfl⟩ := List.mem_map.mp member
      exact present (mem_firstAppearances.mp (same ▸ listed))
    have zero : balance normal before line.account = 0 := by
      apply balance_of_absent
      intro other member same
      exact present (List.mem_map.mpr ⟨other, member, same⟩)
    rw [zero, zero_add] at here small
    rw [accumulate_of_absent absent, scales.first _ small, netted, netted, List.map_append,
      List.map_singleton, firstAppearances_snoc, if_neg present, List.map_append,
      List.map_singleton, here]
    refine congrArg (· ++ _) (List.map_congr_left fun a listed => ?_)
    rw [elsewhere a fun same => present (same ▸ mem_firstAppearances.mp listed)]

end Netted

/-- What a settlement collects from the stored entries. -/
theorem collectUpdates_netted {normal : Int → Side} {p q : Int} {movement : Movement}
    (scales : Scales movement p q) {accounts : List Account} (knows : Knows normal accounts)
    {entries : List Entry} (before : List (Line Int)) {result : List BalanceUpdate}
    (bounded : Bounded (before ++ entries.map Entry.line))
    (collected : collectUpdates movement accounts entries (netted normal p q before) = .ok result) :
    result = netted normal p q (before ++ entries.map Entry.line) := by
  induction entries generalizing before with
  | nil =>
      cases collected
      rw [List.map_nil, List.append_nil]
  | cons entry entries ih =>
      have member : entry.line ∈ before ++ (entry :: entries).map Entry.line := by simp
      have small := bounded.amount_le member
      have positive := bounded.positive _ member
      simp only [collectUpdates] at collected
      split at collected
      · cases collected
      · rename_i account found
        rw [List.map_cons, List.append_cons] at bounded ⊢
        have added := accumulate_netted normal scales bounded.front
        rw [delta_eq knows found positive.le small] at collected
        exact ih _ bounded (added ▸ collected)

/-- A settlement that has locked the accounts of its entries collects their updates. -/
theorem collectUpdates_total (movement : Movement) {accounts : List Account} {entries : List Entry}
    (found : ∀ entry ∈ entries, ∃ account, findAccount accounts entry.accountId = .ok account)
    (updates : List BalanceUpdate) :
    ∃ result, collectUpdates movement accounts entries updates = .ok result := by
  induction entries generalizing updates with
  | nil => exact ⟨updates, rfl⟩
  | cons entry entries ih =>
      obtain ⟨account, here⟩ := found entry List.mem_cons_self
      simp only [collectUpdates, here]
      exact ih (fun entry member => found entry (List.mem_cons_of_mem _ member)) _

end Fides.Ledger
