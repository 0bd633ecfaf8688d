import Fides.Ledger.Lines

/-! # Which legs are admitted

Parsing takes a list of legs just when each of them is valid, and validation adds
up debits and credits with checks: as amounts are positive, the totals pass the
limit on the way just when they do so in the end, in whatever order.
-/

namespace Fides.Service

open Domain FixedWidth Bookkeeping

def ProtoTransferLeg.Valid (leg : ProtoTransferLeg) : Prop :=
  0 < leg.accountId ∧ (leg.entryType = 1 ∨ leg.entryType = 2) ∧ 0 < leg.amount

/-- The exact total of the legs of an entry type. -/
def typeTotal (entryType : Int) (legs : List ProtoTransferLeg) : Int :=
  (legs.map fun leg => if leg.entryType = entryType then leg.amount else 0).sum

/-- A leg as a request has it. -/
def legToProto (leg : TransferLeg) : ProtoTransferLeg :=
  ⟨leg.accountId.value, entryTypeToProto leg.entryType, leg.amount.value⟩

section Parsing

private theorem protoToEntryType_iff {code : Int} {entryType : EntryType} :
    protoToEntryType code = .ok entryType ↔ entryTypeToProto entryType = code := by
  unfold protoToEntryType
  cases entryType <;> grind [entryTypeToProto]

private theorem accountId_iff {value : Int} {id : AccountId} :
    AccountId.new value = .ok id ↔ 0 < value ∧ id.value = value := by
  cases id
  unfold AccountId.new
  grind

private theorem amount_iff {value : Int} {amount : Amount} :
    Amount.new value = .ok amount ↔ 0 ≤ value ∧ amount.value = value := by
  cases amount
  unfold Amount.new
  grind

private theorem transferLeg_iff {accountId : AccountId} {entryType : EntryType} {amount : Amount}
    {leg : TransferLeg} :
    TransferLeg.new accountId entryType amount = .ok leg ↔
      leg.accountId = accountId ∧ leg.entryType = entryType ∧ leg.amount = amount := by
  cases leg
  unfold TransferLeg.new
  grind

/-- A leg is taken just when all its parts are, and then it is what was asked for. -/
theorem parseTransferLeg_iff {proto : ProtoTransferLeg} {leg : TransferLeg} :
    parseTransferLeg proto = .ok leg ↔ proto.Valid ∧ legToProto leg = proto := by
  have read : parseTransferLeg proto = .ok leg ↔ ∃ accountId entryType amount,
      AccountId.new proto.accountId = .ok accountId ∧
      protoToEntryType proto.entryType = .ok entryType ∧ Amount.new proto.amount = .ok amount ∧
      TransferLeg.new accountId entryType amount = .ok leg := by
    unfold parseTransferLeg
    grind
  rw [read]
  simp only [accountId_iff, protoToEntryType_iff, amount_iff, transferLeg_iff]
  constructor
  · rintro ⟨accountId, entryType, amount, ⟨identified, id⟩, typed, ⟨counted, value⟩, rfl, rfl, rfl⟩
    have := leg.amount_ne
    refine ⟨⟨identified, ?_, by omega⟩, ?_⟩
    · rw [← typed]
      cases leg.entryType <;> simp [entryTypeToProto]
    · rw [legToProto, id, typed, value]
  · rintro ⟨⟨identified, -, counted⟩, rfl⟩
    exact ⟨_, _, _, ⟨identified, rfl⟩, rfl, ⟨counted.le, rfl⟩, rfl, rfl, rfl⟩

theorem parseTransferLegs_iff {protos : List ProtoTransferLeg} {legs : List TransferLeg} :
    parseTransferLegs protos = .ok legs ↔
      (∀ proto ∈ protos, proto.Valid) ∧ legs.map legToProto = protos := by
  induction protos generalizing legs with
  | nil => simp [parseTransferLegs, eq_comm]
  | cons proto protos ih =>
    have read : parseTransferLegs (proto :: protos) = .ok legs ↔ ∃ leg rest,
        parseTransferLeg proto = .ok leg ∧ parseTransferLegs protos = .ok rest ∧
        legs = leg :: rest := by
      rw [parseTransferLegs]
      grind
    rw [read]
    simp only [ih, parseTransferLeg_iff]
    constructor
    · rintro ⟨leg, rest, ⟨valid, rfl⟩, ⟨others, rfl⟩, rfl⟩
      exact ⟨by simpa using ⟨valid, by simpa using others⟩, rfl⟩
    · rintro ⟨valid, same⟩
      obtain ⟨leg, rest, rfl, first, last⟩ := List.map_eq_cons_iff.mp same
      exact ⟨leg, rest, ⟨valid proto List.mem_cons_self, first⟩,
        ⟨fun other member => valid other (List.mem_cons_of_mem _ member), last⟩, rfl⟩

private theorem exists_leg {proto : ProtoTransferLeg} (valid : proto.Valid) :
    ∃ leg, legToProto leg = proto := by
  obtain ⟨accountId, entryType, amount⟩ := proto
  obtain ⟨-, typed, counted⟩ := valid
  have nonzero : (⟨amount⟩ : Amount).value ≠ 0 := ne_of_gt counted
  rcases typed with rfl | rfl
  · exact ⟨⟨⟨accountId⟩, .debit, ⟨amount⟩, nonzero⟩, rfl⟩
  · exact ⟨⟨⟨accountId⟩, .credit, ⟨amount⟩, nonzero⟩, rfl⟩

theorem exists_parsed {protos : List ProtoTransferLeg}
    (valid : ∀ proto ∈ protos, proto.Valid) : ∃ legs, parseTransferLegs protos = .ok legs := by
  simp only [parseTransferLegs_iff]
  have made : protos ∈ Set.range (List.map legToProto) := by
    rw [Set.range_list_map]
    exact fun proto member => exists_leg (valid proto member)
  obtain ⟨legs, same⟩ := made
  exact ⟨legs, valid, same⟩

end Parsing

section Totals

variable {legs : List TransferLeg} (positive : ∀ leg ∈ legs, 0 < leg.amount.value)
include positive

private theorem total_nonneg_legs (side : Side) :
    0 ≤ total side (legs.map TransferLeg.line) := by
  apply total_nonneg
  intro line member
  obtain ⟨leg, inside, rfl⟩ := List.mem_map.mp member
  exact (positive leg inside).le

/-- The running totals overflow on the way just when the exact totals do. -/
theorem sumLegs_eq {debits credits : Int} (low : 0 ≤ debits ∧ 0 ≤ credits)
    (high : debits ≤ hi 64 ∧ credits ≤ hi 64) :
    sumLegs legs debits credits =
      if debits + total .debit (legs.map TransferLeg.line) ≤ hi 64 ∧
          credits + total .credit (legs.map TransferLeg.line) ≤ hi 64 then
        .ok (debits + total .debit (legs.map TransferLeg.line),
          credits + total .credit (legs.map TransferLeg.line))
      else .error .sumOverflow := by
  induction legs generalizing debits credits with
  | nil => simp [sumLegs, high]
  | cons leg legs ih =>
    have amount := positive leg List.mem_cons_self
    have others : ∀ leg ∈ legs, 0 < leg.amount.value := fun other member =>
      positive other (List.mem_cons_of_mem _ member)
    have debited := total_nonneg_legs others .debit
    have credited := total_nonneg_legs others .credit
    cases kind : leg.entryType with
    | debit =>
      have sums : total .debit ((leg :: legs).map TransferLeg.line) =
          leg.amount.value + total .debit (legs.map TransferLeg.line) ∧
          total .credit ((leg :: legs).map TransferLeg.line) =
            total .credit (legs.map TransferLeg.line) := by
        simp [TransferLeg.line, kind, EntryType.side]
      simp only [sumLegs, kind, sums.1, sums.2, ← add_assoc]
      rw [checkedAdd_of_nonneg (by omega)]
      by_cases fits : debits + leg.amount.value ≤ hi 64
      · simp only [if_pos fits]
        exact ih others ⟨by omega, low.2⟩ ⟨fits, high.2⟩
      · simp only [if_neg fits]
        rw [if_neg (by omega)]
    | credit =>
      have sums : total .debit ((leg :: legs).map TransferLeg.line) =
          total .debit (legs.map TransferLeg.line) ∧
          total .credit ((leg :: legs).map TransferLeg.line) =
            leg.amount.value + total .credit (legs.map TransferLeg.line) := by
        simp [TransferLeg.line, kind, EntryType.side]
      simp only [sumLegs, kind, sums.1, sums.2, ← add_assoc]
      rw [checkedAdd_of_nonneg (by omega)]
      by_cases fits : credits + leg.amount.value ≤ hi 64
      · simp only [if_pos fits]
        exact ih others ⟨low.1, by omega⟩ ⟨high.1, fits⟩
      · simp only [if_neg fits]
        rw [if_neg (by omega)]

/-- Validation compares the exact totals. -/
theorem validateTransactionBalance_eq (several : 2 ≤ legs.length) :
    validateTransactionBalance legs =
      if total .debit (legs.map TransferLeg.line) ≤ hi 64 ∧
          total .credit (legs.map TransferLeg.line) ≤ hi 64 then
        if total .debit (legs.map TransferLeg.line) ≠ total .credit (legs.map TransferLeg.line) then
          .error (.unbalancedTransaction (total .debit (legs.map TransferLeg.line))
            (total .credit (legs.map TransferLeg.line)))
        else .ok ()
      else .error .sumOverflow := by
  have limit : (0 : Int) ≤ hi 64 := by decide
  rw [validateTransactionBalance, if_neg (by omega),
    sumLegs_eq positive ⟨le_rfl, le_rfl⟩ ⟨limit, limit⟩]
  simp only [zero_add]
  by_cases fits : total .debit (legs.map TransferLeg.line) ≤ hi 64 ∧
      total .credit (legs.map TransferLeg.line) ≤ hi 64
  · rw [if_pos fits, if_pos fits]
  · rw [if_neg fits, if_neg fits]

end Totals

section Admission

private theorem typeTotal_legs (entryType : EntryType) (legs : List TransferLeg) :
    typeTotal (entryTypeToProto entryType) (legs.map legToProto) =
      total entryType.side (legs.map TransferLeg.line) := by
  rw [typeTotal, total, List.map_map, List.map_map]
  refine congrArg List.sum (List.map_congr_left fun leg _ => ?_)
  cases entryType <;> cases kind : leg.entryType <;>
    simp [legToProto, TransferLeg.line, EntryType.side, kind, Storage.entryTypeToI16]

theorem typeTotal_perm {entryType : Int} {legs legs' : List ProtoTransferLeg}
    (perm : legs'.Perm legs) : typeTotal entryType legs' = typeTotal entryType legs :=
  (perm.map _).sum_eq

variable {protos : List ProtoTransferLeg} {legs : List TransferLeg}

/-- What validation makes of legs that were parsed. -/
theorem validate_parsed (parsed : parseTransferLegs protos = .ok legs) :
    validateTransactionBalance legs =
      if protos.length < 2 then .error (.insufficientLegs protos.length)
      else if hi 64 < typeTotal 1 protos ∨ hi 64 < typeTotal 2 protos then .error .sumOverflow
      else if typeTotal 1 protos ≠ typeTotal 2 protos then
        .error (.unbalancedTransaction (typeTotal 1 protos) (typeTotal 2 protos))
      else .ok () := by
  obtain ⟨valid, rfl⟩ := parseTransferLegs_iff.mp parsed
  have positive : ∀ leg ∈ legs, 0 < leg.amount.value := fun leg member =>
    (valid _ (List.mem_map_of_mem member)).2.2
  have debits : typeTotal 1 (legs.map legToProto) = total .debit (legs.map TransferLeg.line) :=
    typeTotal_legs .debit legs
  have credits : typeTotal 2 (legs.map legToProto) = total .credit (legs.map TransferLeg.line) :=
    typeTotal_legs .credit legs
  rw [List.length_map, debits, credits]
  split_ifs with few large differ
  · rw [validateTransactionBalance, if_pos few]
  · rw [validateTransactionBalance_eq positive (by omega), if_neg (by omega)]
  · rw [validateTransactionBalance_eq positive (by omega), if_pos (by omega), if_pos differ]
  · rw [validateTransactionBalance_eq positive (by omega), if_pos (by omega), if_neg differ]

/-- The legs of an admitted transaction are on both sides. -/
private theorem both_sides (parsed : parseTransferLegs protos = .ok legs)
    (several : 2 ≤ protos.length) (balanced : typeTotal 1 protos = typeTotal 2 protos)
    (kind : EntryType) : ∃ leg ∈ legs, leg.entryType = kind := by
  obtain ⟨valid, rfl⟩ := parseTransferLegs_iff.mp parsed
  have positive : ∀ leg ∈ legs, 0 < leg.amount.value := fun leg member =>
    (valid _ (List.mem_map_of_mem member)).2.2
  have same : total .debit (legs.map TransferLeg.line) = total .credit (legs.map TransferLeg.line) :=
    (typeTotal_legs .debit legs).symm.trans (balanced.trans (typeTotal_legs .credit legs))
  have nonzero : total kind.side (legs.map TransferLeg.line) ≠ 0 := by
    -- the first leg counts on its own side, and so the other side counts as much
    cases legs with
    | nil => simp at several
    | cons leg legs =>
      have first := positive leg List.mem_cons_self
      have others : ∀ other ∈ legs, 0 < other.amount.value := fun other member =>
        positive other (List.mem_cons_of_mem _ member)
      have debited := total_nonneg_legs others .debit
      have credited := total_nonneg_legs others .credit
      simp only [List.map_cons, total_cons] at same ⊢
      cases own : leg.entryType <;> cases kind <;>
        simp only [TransferLeg.line, own, EntryType.side] at same ⊢ <;> grind
  obtain ⟨line, member, side⟩ := exists_of_total nonzero
  obtain ⟨leg, inside, rfl⟩ := List.mem_map.mp member
  refine ⟨leg, inside, ?_⟩
  cases own : leg.entryType <;> cases kind <;> simp_all [TransferLeg.line, EntryType.side]

/-- Parsing and validation take just the legs that are valid, at least two and balanced
    within `i64`, as they are and in their order; if validation refuses parsed legs,
    it is for an exact total that does not fit, or else for the exact totals. -/
theorem legs_admitted (protos : List ProtoTransferLeg) :
    ((∃ legs, parseTransferLegs protos = .ok legs ∧ validateTransactionBalance legs = .ok ()) ↔
      2 ≤ protos.length ∧ (∀ leg ∈ protos, leg.Valid) ∧
        typeTotal 1 protos = typeTotal 2 protos ∧ typeTotal 1 protos ≤ hi 64) ∧
    ∀ legs, parseTransferLegs protos = .ok legs →
      legs.map legToProto = protos ∧
      (validateTransactionBalance legs = .ok () →
        ∀ kind, ∃ leg ∈ legs, leg.entryType = kind) ∧
      (∀ e, 2 ≤ protos.length → validateTransactionBalance legs = .error e →
        (e = .sumOverflow ↔ hi 64 < typeTotal 1 protos ∨ hi 64 < typeTotal 2 protos) ∧
        (e ≠ .sumOverflow →
          e = .unbalancedTransaction (typeTotal 1 protos) (typeTotal 2 protos))) ∧
      ∀ protos' legs', protos'.Perm protos → parseTransferLegs protos' = .ok legs' →
        validateTransactionBalance legs' = validateTransactionBalance legs := by
  refine ⟨⟨?_, ?_⟩, fun legs parsed => ⟨(parseTransferLegs_iff.mp parsed).2, ?_, ?_, ?_⟩⟩
  · rintro ⟨legs, parsed, accepted⟩
    rw [validate_parsed parsed] at accepted
    have valid := (parseTransferLegs_iff.mp parsed).1
    grind
  · rintro ⟨several, valid, balanced, small⟩
    obtain ⟨legs, parsed⟩ := exists_parsed valid
    refine ⟨legs, parsed, ?_⟩
    rw [validate_parsed parsed, if_neg (by omega), if_neg (by omega), if_neg (by simpa using balanced)]
  · intro accepted kind
    rw [validate_parsed parsed] at accepted
    exact both_sides parsed (by grind) (by grind) kind
  · intro e several refused
    rw [validate_parsed parsed, if_neg (by omega)] at refused
    grind
  · intro protos' legs' perm reordered
    rw [validate_parsed parsed, validate_parsed reordered, perm.length_eq, typeTotal_perm perm,
      typeTotal_perm perm]

end Admission

end Fides.Service
