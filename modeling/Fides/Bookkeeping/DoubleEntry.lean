import Fides.Relational.Table

/-! # Double-entry bookkeeping

A line debits or credits one account.  An account has a normal side: lines on
that side add to its balance, lines on the other take away from it.  Weighing
each balance with the sign of its account's normal side turns the balances of
all accounts into the difference between what was debited and what was credited.
-/

namespace Bookkeeping

inductive Side where
  | debit
  | credit
  deriving DecidableEq, Repr

def Side.sign : Side → Int
  | .debit => 1
  | .credit => -1

structure Line (A : Type) where
  account : A
  side : Side
  amount : Int
  deriving DecidableEq, Repr

variable {A : Type}

/-- What a line adds to the balance of its account. -/
def Line.delta (normal : A → Side) (line : Line A) : Int :=
  (normal line.account).sign * line.side.sign * line.amount

/-- What the lines debit, or credit, over all accounts. -/
def total (side : Side) (lines : List (Line A)) : Int :=
  (lines.map fun line => if line.side = side then line.amount else 0).sum

def InBalance (lines : List (Line A)) : Prop := total .debit lines = total .credit lines

instance (lines : List (Line A)) : Decidable (InBalance lines) :=
  inferInstanceAs (Decidable (_ = _))

@[simp] theorem Side.sign_debit : Side.debit.sign = 1 := rfl

@[simp] theorem Side.sign_credit : Side.credit.sign = -1 := rfl

@[simp] theorem Side.sign_mul_sign (side : Side) : side.sign * side.sign = 1 := by
  cases side <;> rfl

/-- Seen from the debit side, a line counts its amount with the sign of its own side. -/
theorem Line.sign_mul_delta (normal : A → Side) (line : Line A) :
    (normal line.account).sign * line.delta normal = line.side.sign * line.amount := by
  rw [Line.delta, ← mul_assoc, ← mul_assoc, Side.sign_mul_sign, one_mul]

@[simp] theorem total_nil (side : Side) : total side ([] : List (Line A)) = 0 := rfl

@[simp] theorem total_cons (side : Side) (line : Line A) (lines : List (Line A)) :
    total side (line :: lines) =
      (if line.side = side then line.amount else 0) + total side lines := by
  simp [total]

@[simp] theorem total_append (side : Side) (lines more : List (Line A)) :
    total side (lines ++ more) = total side lines + total side more := by
  simp [total]

/-- What the lines debit, less what they credit. -/
def net (lines : List (Line A)) : Int := (lines.map fun line => line.side.sign * line.amount).sum

@[simp] theorem net_cons (line : Line A) (lines : List (Line A)) :
    net (line :: lines) = line.side.sign * line.amount + net lines := by
  simp [net]

theorem net_eq_totals (lines : List (Line A)) :
    net lines = total .debit lines - total .credit lines := by
  induction lines with
  | nil => rfl
  | cons line lines ih =>
      rw [net_cons, total_cons, total_cons, ih]
      cases line.side <;> simp <;> ring

theorem inBalance_iff_net {lines : List (Line A)} : InBalance lines ↔ net lines = 0 := by
  rw [InBalance, net_eq_totals]
  omega

/-- A total that is not zero has a line of its side. -/
theorem exists_of_total {side : Side} {lines : List (Line A)} (nonzero : total side lines ≠ 0) :
    ∃ line ∈ lines, line.side = side := by
  by_contra absent
  push Not at absent
  apply nonzero
  apply List.sum_eq_zero
  simp only [List.mem_map, forall_exists_index, and_imp]
  rintro _ line member rfl
  exact if_neg (absent line member)

theorem total_nonneg (side : Side) {lines : List (Line A)}
    (nonneg : ∀ line ∈ lines, 0 ≤ line.amount) : 0 ≤ total side lines := by
  induction lines with
  | nil => simp
  | cons line lines ih =>
      have first := nonneg line List.mem_cons_self
      have rest := ih fun line member => nonneg line (List.mem_cons_of_mem _ member)
      rw [total_cons]
      split <;> omega

variable [DecidableEq A]

/-- The balance that the lines give an account. -/
def balance (normal : A → Side) (lines : List (Line A)) (a : A) : Int :=
  (lines.map fun line => if line.account = a then line.delta normal else 0).sum

@[simp] theorem balance_nil (normal : A → Side) (a : A) : balance normal [] a = 0 := rfl

@[simp] theorem balance_cons (normal : A → Side) (line : Line A) (lines : List (Line A)) (a : A) :
    balance normal (line :: lines) a =
      (if line.account = a then line.delta normal else 0) + balance normal lines a := by
  simp [balance]

@[simp] theorem balance_append (normal : A → Side) (lines more : List (Line A)) (a : A) :
    balance normal (lines ++ more) a = balance normal lines a + balance normal more a := by
  simp [balance]

theorem balance_of_absent {normal : A → Side} {lines : List (Line A)} {a : A}
    (absent : ∀ line ∈ lines, line.account ≠ a) : balance normal lines a = 0 := by
  induction lines with
  | nil => rfl
  | cons line lines ih =>
      rw [balance_cons, if_neg (absent line List.mem_cons_self), zero_add]
      exact ih fun line member => absent line (List.mem_cons_of_mem _ member)

/-- Only the normal sides of the accounts that occur matter. -/
theorem balance_congr {normal normal' : A → Side} {lines : List (Line A)}
    (same : ∀ line ∈ lines, normal line.account = normal' line.account) (a : A) :
    balance normal lines a = balance normal' lines a := by
  induction lines with
  | nil => rfl
  | cons line lines ih =>
      have first := same line List.mem_cons_self
      rw [balance_cons, balance_cons, ih fun line member => same line (List.mem_cons_of_mem _ member)]
      simp only [Line.delta, first]

/-- What the lines take out of an account: those on the side against its normal one. -/
def drawn (normal : A → Side) (lines : List (Line A)) (a : A) : Int :=
  (lines.map fun line => if line.account = a ∧ line.side ≠ normal a then line.amount else 0).sum

@[simp] theorem drawn_cons (normal : A → Side) (line : Line A) (lines : List (Line A)) (a : A) :
    drawn normal (line :: lines) a =
      (if line.account = a ∧ line.side ≠ normal a then line.amount else 0) +
        drawn normal lines a := by
  simp [drawn]

@[simp] theorem drawn_append (normal : A → Side) (lines more : List (Line A)) (a : A) :
    drawn normal (lines ++ more) a = drawn normal lines a + drawn normal more a := by
  simp [drawn]

theorem drawn_of_absent {normal : A → Side} {lines : List (Line A)} {a : A}
    (absent : ∀ line ∈ lines, line.account ≠ a) : drawn normal lines a = 0 := by
  induction lines with
  | nil => rfl
  | cons line lines ih =>
      have rest := ih fun line member => absent line (List.mem_cons_of_mem _ member)
      simp [absent line List.mem_cons_self, rest]

/-- Among lines that name each account once, one line says what is taken out of its account. -/
theorem drawn_of_once {normal : A → Side} {lines : List (Line A)}
    (once : (lines.map Line.account).Nodup) {line : Line A} (member : line ∈ lines) :
    drawn normal lines line.account =
      if line.side ≠ normal line.account then line.amount else 0 := by
  induction lines with
  | nil => cases member
  | cons first lines ih =>
      obtain ⟨apart, rest⟩ := List.nodup_cons.mp once
      rcases List.mem_cons.mp member with rfl | later
      · have others : drawn normal lines line.account = 0 := drawn_of_absent fun other inside same =>
          apart (same ▸ List.mem_map_of_mem inside)
        simp [others]
      · have different : first.account ≠ line.account := fun same =>
          apart (same ▸ List.mem_map_of_mem later)
        simp [different, ih rest later]

theorem drawn_nonneg (normal : A → Side) {lines : List (Line A)}
    (nonneg : ∀ line ∈ lines, 0 ≤ line.amount) (a : A) : 0 ≤ drawn normal lines a := by
  induction lines with
  | nil => simp [drawn]
  | cons line lines ih =>
      have first := nonneg line List.mem_cons_self
      have rest := ih fun line member => nonneg line (List.mem_cons_of_mem _ member)
      rw [drawn_cons]
      split <;> omega

/-- A balance falls by no more than what is taken out. -/
theorem neg_drawn_le_balance (normal : A → Side) {lines : List (Line A)}
    (nonneg : ∀ line ∈ lines, 0 ≤ line.amount) (a : A) :
    -drawn normal lines a ≤ balance normal lines a := by
  induction lines with
  | nil => simp [drawn]
  | cons line lines ih =>
      have first := nonneg line List.mem_cons_self
      have rest := ih fun line member => nonneg line (List.mem_cons_of_mem _ member)
      rw [drawn_cons, balance_cons]
      by_cases here : line.account = a
      · rw [if_pos here, Line.delta, here]
        cases line.side <;> cases normal a <;> simp <;> omega
      · simp only [here, false_and, if_false]
        omega

/-- A balance, seen from the debit side, is at most what was debited and at least
    the negative of what was credited. -/
theorem balance_bounds (normal : A → Side) {lines : List (Line A)} (a : A)
    (nonneg : ∀ line ∈ lines, 0 ≤ line.amount) :
    -total .credit lines ≤ (normal a).sign * balance normal lines a ∧
      (normal a).sign * balance normal lines a ≤ total .debit lines := by
  induction lines with
  | nil => simp
  | cons line lines ih =>
      have first := nonneg line List.mem_cons_self
      obtain ⟨lower, upper⟩ := ih fun line member => nonneg line (List.mem_cons_of_mem _ member)
      rw [total_cons, total_cons, balance_cons, mul_add]
      by_cases here : line.account = a
      · rw [if_pos here, ← here, line.sign_mul_delta normal]
        cases line.side <;> simp [here] <;> omega
      · rw [if_neg here, mul_zero]
        cases line.side <;> simp <;> omega

/-- The trial balance: over accounts that cover all lines, the balances weighed by
    their normal sides add up to debits minus credits. -/
theorem sum_balance (normal : A → Side) {accounts : List A} (distinct : accounts.Nodup)
    {lines : List (Line A)} (covered : ∀ line ∈ lines, line.account ∈ accounts) :
    (accounts.map fun a => (normal a).sign * balance normal lines a).sum = net lines := by
  rw [net, ← Relational.sum_by_key distinct Line.account _ covered]
  refine congrArg List.sum (List.map_congr_left fun a _ => ?_)
  rw [balance, ← List.sum_map_mul_left]
  refine congrArg List.sum (List.map_congr_left fun line _ => ?_)
  by_cases here : line.account = a
  · rw [if_pos here, if_pos here, ← here, line.sign_mul_delta normal]
  · rw [if_neg here, if_neg here, mul_zero]

end Bookkeeping
