import Fides.Ledger.Lines

/-! # What the computed balance of an account is

`computeAccountBalance` adds up four gross sums with checks and subtracts them with
checks.  Amounts are positive, so a sum overflows on the way just when the exact sum
does, and the differences of sums that fit do fit.
-/

namespace Fides.Domain

open FixedWidth

/-- The exact sum of the amounts of one status and type. -/
def grossSum (status : EntryStatus) (entryType : EntryType) (entries : List Entry) : Int :=
  ((entries.filter fun entry => entry.status = status ∧ entry.entryType = entryType).map
    fun entry => entry.amount.value).sum

def grossSums (entries : List Entry) : GrossSums where
  postedDebits := grossSum .posted .debit entries
  postedCredits := grossSum .posted .credit entries
  pendingDebits := grossSum .pending .debit entries
  pendingCredits := grossSum .pending .credit entries

/-- The exact sum of the balance deltas of one status. -/
def deltaSum (normal : NormalBalance) (status : EntryStatus) (entries : List Entry) : Int :=
  ((entries.filter fun entry => entry.status = status).map fun entry =>
    computeBalanceDelta normal entry.entryType entry.amount).sum

namespace GrossSums

instance : Add GrossSums where
  add sums more := ⟨sums.postedDebits + more.postedDebits, sums.postedCredits + more.postedCredits,
    sums.pendingDebits + more.pendingDebits, sums.pendingCredits + more.pendingCredits⟩

theorem add_eq (sums more : GrossSums) : sums + more =
    ⟨sums.postedDebits + more.postedDebits, sums.postedCredits + more.postedCredits,
      sums.pendingDebits + more.pendingDebits, sums.pendingCredits + more.pendingCredits⟩ := rfl

def Nonneg (sums : GrossSums) : Prop :=
  0 ≤ sums.postedDebits ∧ 0 ≤ sums.postedCredits ∧ 0 ≤ sums.pendingDebits ∧
    0 ≤ sums.pendingCredits

/-- No sum exceeds the largest `i64`. -/
def Fit (sums : GrossSums) : Prop :=
  sums.postedDebits ≤ hi 64 ∧ sums.postedCredits ≤ hi 64 ∧ sums.pendingDebits ≤ hi 64 ∧
    sums.pendingCredits ≤ hi 64

instance (sums : GrossSums) : Decidable sums.Fit := inferInstanceAs (Decidable (_ ∧ _))

variable {sums more : GrossSums}

theorem Nonneg.add (low : sums.Nonneg) (also : more.Nonneg) : (sums + more).Nonneg := by
  simp only [Nonneg, add_eq] at *
  omega

/-- Sums that fit after more was added did fit before. -/
theorem Fit.of_add (fit : (sums + more).Fit) (low : more.Nonneg) : sums.Fit := by
  simp only [Fit, Nonneg, add_eq] at *
  omega

end GrossSums

section Sums

variable {entry : Entry} {entries : List Entry} {sums : GrossSums}

private theorem grossSum_single (status : EntryStatus) (entryType : EntryType) :
    grossSum status entryType [entry] =
      if entry.status = status ∧ entry.entryType = entryType then entry.amount.value else 0 := by
  simp only [grossSum, List.filter_cons, List.filter_nil, decide_eq_true_eq]
  split <;> simp

private theorem grossSums_append (before after : List Entry) :
    grossSums (before ++ after) = grossSums before + grossSums after := by
  simp only [grossSums, GrossSums.add_eq, grossSum, List.filter_append, List.map_append,
    List.sum_append]

theorem grossSum_nonneg (positive : ∀ entry ∈ entries, 0 < entry.amount.value)
    (status : EntryStatus) (entryType : EntryType) : 0 ≤ grossSum status entryType entries := by
  apply List.sum_nonneg
  simp only [List.mem_map, forall_exists_index, and_imp]
  rintro _ entry member rfl
  exact (positive entry (List.mem_of_mem_filter member)).le

theorem grossSums_nonneg (positive : ∀ entry ∈ entries, 0 < entry.amount.value) :
    (grossSums entries).Nonneg := by
  have each := grossSum_nonneg positive
  exact ⟨each _ _, each _ _, each _ _, each _ _⟩

/-- One round of the loop adds the entry to its sum, if that fits. -/
private theorem sumEntries_cons (positive : 0 < entry.amount.value) (low : sums.Nonneg)
    (high : sums.Fit) :
    sumEntries (entry :: entries) sums =
      if (sums + grossSums [entry]).Fit then sumEntries entries (sums + grossSums [entry])
      else .error .sumOverflow := by
  have nonneg := low
  simp only [GrossSums.Nonneg] at nonneg
  rw [GrossSums.add_eq]
  cases status : entry.status <;> cases kind : entry.entryType <;>
    simp only [sumEntries, grossSums, grossSum_single, status, kind, reduceCtorEq, and_self,
      and_false, false_and, if_true, if_false, add_zero]
  case voided.debit | voided.credit => exact (if_pos high).symm
  all_goals
    rw [checkedAdd_of_nonneg (by omega)]
    grind [GrossSums.Fit]

/-- The four sums overflow on the way just when the exact sums do. -/
theorem sumEntries_eq (positive : ∀ entry ∈ entries, 0 < entry.amount.value) (low : sums.Nonneg)
    (high : sums.Fit) :
    sumEntries entries sums =
      if (sums + grossSums entries).Fit then .ok (sums + grossSums entries)
      else .error .sumOverflow := by
  induction entries generalizing sums with
  | nil =>
    have same : sums + grossSums [] = sums := by
      simp [GrossSums.add_eq, grossSums, grossSum]
    rw [same, if_pos high, sumEntries]
  | cons entry entries ih =>
    have other : ∀ entry ∈ entries, 0 < entry.amount.value := fun entry member =>
      positive entry (List.mem_cons_of_mem _ member)
    have first : (grossSums [entry]).Nonneg :=
      grossSums_nonneg (by simpa using positive entry List.mem_cons_self)
    have assoc : sums + grossSums (entry :: entries) =
        sums + grossSums [entry] + grossSums entries := by
      rw [← List.singleton_append, grossSums_append]
      simp [GrossSums.add_eq, add_assoc]
    rw [sumEntries_cons (positive entry List.mem_cons_self) low high, assoc]
    by_cases fits : (sums + grossSums [entry]).Fit
    · rw [if_pos fits]
      exact ih other (low.add first) fits
    · rw [if_neg fits, if_neg fun later => fits (later.of_add (grossSums_nonneg other))]

/-- Voided entries are passed over. -/
theorem sumEntries_live : sumEntries entries sums =
    sumEntries (entries.filter fun entry => entry.status ≠ .voided) sums := by
  induction entries generalizing sums with
  | nil => rfl
  | cons entry entries ih =>
    cases status : entry.status <;> cases kind : entry.entryType <;>
      simp [sumEntries, status, kind, ih]

end Sums

section Balance

variable {entries : List Entry}

private theorem amount_le_gross (positive : ∀ entry ∈ entries, 0 < entry.amount.value)
    {entry : Entry} (member : entry ∈ entries) :
    entry.amount.value ≤ grossSum entry.status entry.entryType entries := by
  apply List.single_le_sum
  · simp only [List.mem_map, forall_exists_index, and_imp]
    rintro _ other inside rfl
    exact (positive other (List.mem_of_mem_filter inside)).le
  · exact List.mem_map.mpr ⟨entry, List.mem_filter.mpr ⟨member, by simp⟩, rfl⟩

theorem fit_iff : (grossSums entries).Fit ↔
    ∀ status kind, status ≠ .voided → grossSum status kind entries ≤ hi 64 := by
  constructor
  · rintro ⟨_, _, _, _⟩ status kind live
    cases status <;> cases kind <;> first | assumption | exact absurd rfl live
  · intro each
    exact ⟨each _ _ (by simp), each _ _ (by simp), each _ _ (by simp), each _ _ (by simp)⟩

/-- The deltas of a status are its debits and credits, seen from the normal side. -/
private theorem deltaSum_eq {status : EntryStatus} (normal : NormalBalance)
    (bounded : ∀ entry ∈ entries, entry.status = status →
      0 < entry.amount.value ∧ entry.amount.value ≤ hi 64) :
    deltaSum normal status entries =
      normal.side.sign * (grossSum status .debit entries - grossSum status .credit entries) := by
  induction entries with
  | nil => simp [deltaSum, grossSum]
  | cons entry entries ih =>
    have rest := ih fun other member => bounded other (List.mem_cons_of_mem _ member)
    by_cases here : entry.status = status
    · obtain ⟨positive, small⟩ := bounded entry List.mem_cons_self here
      have delta : computeBalanceDelta normal entry.entryType entry.amount =
          normal.side.sign * entry.entryType.side.sign * entry.amount.value :=
        computeBalanceDelta_eq positive.le small
      have sum : deltaSum normal status (entry :: entries) =
          computeBalanceDelta normal entry.entryType entry.amount +
            deltaSum normal status entries := by
        simp [deltaSum, here]
      have gross : ∀ kind, grossSum status kind (entry :: entries) =
          (if entry.entryType = kind then entry.amount.value else 0) +
            grossSum status kind entries := by
        intro kind
        by_cases own : entry.entryType = kind <;> simp [grossSum, here, own]
      rw [sum, rest, delta, gross, gross]
      cases entry.entryType <;> simp [EntryType.side] <;> ring
    · simpa [deltaSum, grossSum, here] using rest

/-- Differences of sums that fit do fit. -/
private theorem subtractGross_eq (normal : NormalBalance) {debits credits : Int}
    (low : 0 ≤ debits ∧ 0 ≤ credits) (high : debits ≤ hi 64 ∧ credits ≤ hi 64) :
    Fits 64 (normal.side.sign * (debits - credits)) ∧
      subtractGross normal debits credits = .ok (normal.side.sign * (debits - credits)) := by
  have limit : hi 64 = 9223372036854775807 := rfl
  have fits : ∀ {a b : Int}, 0 ≤ a → a ≤ hi 64 → 0 ≤ b → b ≤ hi 64 → Fits 64 (a - b) := by
    intro a b
    rw [fits_iff_64]
    omega
  cases normal with
  | debit =>
    have bounded := fits low.1 high.1 low.2 high.2
    simp [subtractGross, checkedSub, bounded, NormalBalance.side]
  | credit =>
    have bounded := fits low.2 high.2 low.1 high.1
    simp [subtractGross, checkedSub, bounded, NormalBalance.side]

/-- The differences of gross sums that fit are the sums of the deltas. -/
theorem subtractGross_of_fit (normal : NormalBalance)
    (positive : ∀ entry ∈ entries, 0 < entry.amount.value) (fit : (grossSums entries).Fit)
    (status : EntryStatus) (live : status ≠ .voided) :
    Fits 64 (deltaSum normal status entries) ∧
      subtractGross normal (grossSum status .debit entries) (grossSum status .credit entries) =
        .ok (deltaSum normal status entries) := by
  have high := fun kind => fit_iff.mp fit status kind live
  have low := grossSum_nonneg positive status
  have bounded : ∀ entry ∈ entries, entry.status = status →
      0 < entry.amount.value ∧ entry.amount.value ≤ hi 64 := by
    rintro entry member rfl
    exact ⟨positive entry member, (amount_le_gross positive member).trans (high _)⟩
  rw [deltaSum_eq normal bounded]
  exact subtractGross_eq normal ⟨low _, low _⟩ ⟨high _, high _⟩

/-- The result in terms of the exact sums. -/
theorem computeAccountBalance_eq (normal : NormalBalance)
    (positive : ∀ entry ∈ entries, 0 < entry.amount.value) :
    computeAccountBalance normal entries =
      if (grossSums entries).Fit then
        if Fits 64 (deltaSum normal .posted entries - deltaSum normal .pending entries) then
          .ok ⟨deltaSum normal .posted entries, deltaSum normal .pending entries,
            deltaSum normal .posted entries - deltaSum normal .pending entries⟩
        else .error .balanceOverflow
      else .error .sumOverflow := by
  have none : (⟨0, 0, 0, 0⟩ : GrossSums) + grossSums entries = grossSums entries := by
    simp [GrossSums.add_eq]
  have low : (⟨0, 0, 0, 0⟩ : GrossSums).Nonneg := by simp [GrossSums.Nonneg]
  have summed := sumEntries_eq positive low (by decide)
  rw [none] at summed
  rw [computeAccountBalance, summed]
  by_cases fit : (grossSums entries).Fit
  · have posted := (subtractGross_of_fit normal positive fit .posted (by simp)).2
    have pending := (subtractGross_of_fit normal positive fit .pending (by simp)).2
    rw [if_pos fit, if_pos fit]
    simp only [bind, Except.bind, grossSums, posted, pending, checkedSub]
    split_ifs <;> rfl
  · rw [if_neg fit, if_neg fit]
    rfl

/-- The computed balance is exact: the sums overflow just when an exact sum does, the
    differences never do, and neither order nor voided entries matter. -/
theorem balance_computed (normal : NormalBalance) {entries : List Entry}
    (positive : ∀ entry ∈ entries, 0 < entry.amount.value) :
    (computeAccountBalance normal entries = .error .sumOverflow ↔
      ∃ status kind, status ≠ .voided ∧ hi 64 < grossSum status kind entries) ∧
    ((∀ status kind, status ≠ .voided → grossSum status kind entries ≤ hi 64) →
      Fits 64 (deltaSum normal .posted entries) ∧ Fits 64 (deltaSum normal .pending entries) ∧
      (computeAccountBalance normal entries = .error .balanceOverflow ↔
        ¬ Fits 64 (deltaSum normal .posted entries - deltaSum normal .pending entries)) ∧
      (Fits 64 (deltaSum normal .posted entries - deltaSum normal .pending entries) →
        computeAccountBalance normal entries =
          .ok ⟨deltaSum normal .posted entries, deltaSum normal .pending entries,
            deltaSum normal .posted entries - deltaSum normal .pending entries⟩)) ∧
    (∀ entries', entries'.Perm entries →
      computeAccountBalance normal entries' = computeAccountBalance normal entries) ∧
    ∀ entries', (entries'.filter fun entry => entry.status ≠ .voided) =
        (entries.filter fun entry => entry.status ≠ .voided) →
      computeAccountBalance normal entries' = computeAccountBalance normal entries := by
  have exact := computeAccountBalance_eq normal positive
  refine ⟨?_, ?_, ?_, ?_⟩
  · have large : (∃ status kind, status ≠ .voided ∧ hi 64 < grossSum status kind entries) ↔
        ¬ (grossSums entries).Fit := by
      simp [fit_iff]
    rw [exact, large]
    split_ifs <;> simp_all
  · intro small
    have fit := fit_iff.mpr small
    refine ⟨(subtractGross_of_fit normal positive fit .posted (by simp)).1,
      (subtractGross_of_fit normal positive fit .pending (by simp)).1, ?_, ?_⟩
    · rw [exact, if_pos fit]
      split_ifs <;> simp_all
    · intro fits
      rw [exact, if_pos fit, if_pos fits]
  · intro entries' perm
    have same : grossSums entries' = grossSums entries := by
      simp only [grossSums, grossSum, ((perm.filter _).map _).sum_eq]
    have deltas : ∀ status, deltaSum normal status entries' = deltaSum normal status entries :=
      fun status => ((perm.filter _).map _).sum_eq
    rw [exact, computeAccountBalance_eq normal fun entry member =>
      positive entry (perm.mem_iff.mp member), same, deltas, deltas]
  · intro entries' same
    rw [computeAccountBalance, computeAccountBalance, sumEntries_live, same, ← sumEntries_live]

/-- A debit of account 1. -/
private def debited (amount : Int) (status : EntryStatus) (nonzero : amount ≠ 0) : Entry :=
  ⟨⟨1⟩, ⟨1⟩, ⟨1⟩, .debit, ⟨amount⟩, status, 1, nonzero, by decide⟩

/-- Two debits overflow together, unless one of them is voided. -/
theorem balance_computed_limit :
    computeAccountBalance .debit [debited 9223372036854775807 .posted (by decide),
      debited 1 .posted (by decide)] = .error .sumOverflow ∧
    computeAccountBalance .debit [debited 9223372036854775807 .posted (by decide),
      debited 1 .voided (by decide)] =
        .ok ⟨9223372036854775807, 0, 9223372036854775807⟩ := by
  constructor
  · exact (balance_computed .debit (by decide)).1.mpr ⟨.posted, .debit, by decide, by decide⟩
  · have small : ∀ status kind, status ≠ .voided → grossSum status kind
        [debited 9223372036854775807 .posted (by decide), debited 1 .voided (by decide)] ≤
          hi 64 := by
      intro status kind _
      cases status <;> cases kind <;> decide
    exact ((balance_computed .debit (by decide)).2.1 small).2.2.2 (by decide)

end Balance

end Fides.Domain
