import Fides.Ledger.Footprint

/-! # Authorizations in several legs

Every leg that takes from an account is compared with what is available there, and
the balance does not move between the legs of one request.  So one leg cannot take
more than there is, but several legs of the same account can.
-/

namespace Fides.Ledger

open Domain Service Storage FixedWidth Relational Bookkeeping Concurrency

variable {cfg next : Config server} {trace : List (Transition server)}

/-- The leg takes from the balance of the account. -/
def takes (t : Tables) (a : Int) (leg : TransferLeg) : Bool :=
  leg.accountId.value = a && t.normal a ≠ leg.entryType.side

/-- The leg adds to the balance of the account. -/
def adds (t : Tables) (a : Int) (leg : TransferLeg) : Bool :=
  leg.accountId.value = a && t.normal a = leg.entryType.side

def amounts (legs : List TransferLeg) : Int := (legs.map fun leg => leg.amount.value).sum

/-- What the legs take from the balance of an account, all together. -/
def netDecrease (t : Tables) (legs : List TransferLeg) (a : Int) : Int :=
  amounts (legs.filter (takes t a)) - amounts (legs.filter (adds t a))

/-- The accounts that the legs take from more than once have what is taken all together. -/
def SplitsCovered (w : World) (legs : List TransferLeg) : Prop :=
  ∀ a balance, w.cache.get ⟨a⟩ = some balance → 2 ≤ (legs.filter (takes w.tables a)).length →
    amounts (legs.filter (takes w.tables a)) ≤
      amounts (legs.filter (adds w.tables a)) + max 0 balance.available

private theorem amounts_nonneg {legs : List TransferLeg}
    (positive : ∀ leg ∈ legs, 0 < leg.amount.value) : 0 ≤ amounts legs := by
  refine List.sum_nonneg fun amount listed => ?_
  obtain ⟨leg, member, rfl⟩ := List.mem_map.mp listed
  exact (positive leg member).le

/-- A leg that takes from an account was checked against what is available there. -/
private theorem Alone.funded {w w' : World} {l : Session} {req : AuthorizeRequest} {now id : Int}
    {legs : List TransferLeg} (alone : Alone w w' l) (request : l.request = .authorize req now)
    (parsed : parseTransferLegs req.legs = .ok legs)
    (before : w.cache = w.tables.cached [] []) (absent : w.tables.transaction? id = none)
    (present : w'.tables.transaction? id ≠ none) :
    ∀ leg ∈ legs, ∀ a balance, w.cache.get ⟨a⟩ = some balance → takes w.tables a leg = true →
      leg.amount.value ≤ balance.available := by
  cases alone with
  | before _ tables =>
      rw [tables] at present
      exact absurd absent present
  | after _ ready busy same asked _ tables =>
      have uncommitted := ready.uncommitted.1
      rw [asked] at request
      cases ready with
      | reading versions =>
          rw [tables, versions] at present
          exact absurd absent present
      | enrolling asked' => simp [asked'] at request
      | settling asks =>
          rw [request] at asks
          cases asks
      | holding asked' parsed' _ _ funds =>
          rw [asked'] at request
          cases request
          rw [parsed] at parsed'
          cases parsed'
          intro leg member a balance got taken
          simp only [takes, Bool.and_eq_true, decide_eq_true_eq] at taken
          obtain ⟨rfl, against⟩ := taken
          rw [same] at funds
          obtain ⟨seen, enough, read⟩ := funds leg member against
          obtain ⟨row, found, rfl⟩ := busy.known uncommitted read
          rw [same] at found
          rw [before, Tables.get_cached, found] at got
          cases got
          simpa [AccountBalance.hasAvailable] using enough

/-- What one authorization takes from an account was available there, just when this is so
    for the accounts that it takes from in several legs. -/
theorem split_legs (run : Steps initial trace cfg) (one : ∀ moved ∈ trace, serial moved = true)
    (quiet : cfg.quiet = true) {req : AuthorizeRequest} {now : Int} {choices : List Weather}
    {transaction : ProtoTransaction} {entries : List ProtoEntry} {own : Session}
    (played : cfg.play serial (cfg.serving (.authorize req now) choices) = some next)
    (ended : next.threads[cfg.threads.length]? =
      some ⟨some (.done (.ok (.authorized transaction entries))), own⟩)
    (absent : cfg.shared.tables.transaction? transaction.id = none)
    (present : next.shared.tables.transaction? transaction.id ≠ none) {legs : List TransferLeg}
    (parsed : parseTransferLegs req.legs = .ok legs) :
    (∀ a balance, cfg.shared.cache.get ⟨a⟩ = some balance →
      0 < netDecrease cfg.shared.tables legs a →
        netDecrease cfg.shared.tables legs a ≤ balance.available) ↔
      SplitsCovered cfg.shared legs := by
  obtain ⟨request, -, alone, before, -⟩ := served_alone run one quiet played ended
  have funded := alone.funded request parsed before absent present
  have positive := fun leg member => (parseTransferLegs_ok parsed leg member).1
  refine ⟨fun covered a balance got _ => ?_, fun covered a balance got decreased => ?_⟩
  · have net := covered a balance got
    unfold netDecrease at net
    omega
  · have added : 0 ≤ amounts (legs.filter (adds cfg.shared.tables a)) :=
      amounts_nonneg fun leg member => positive leg (List.mem_of_mem_filter member)
    unfold netDecrease at decreased ⊢
    cases taking : legs.filter (takes cfg.shared.tables a) with
    | nil =>
        rw [taking] at decreased
        simp [amounts] at decreased added
        omega
    | cons leg rest =>
        cases rest with
        | nil =>
            have listed : leg ∈ legs.filter (takes cfg.shared.tables a) := by simp [taking]
            obtain ⟨member, taken⟩ := List.mem_filter.mp listed
            have enough := funded leg member a balance got taken
            simp only [amounts, List.map_cons, List.map_nil, List.sum_cons, List.sum_nil] at added ⊢
            omega
        | cons other rest =>
            have net := covered a balance got (by simp [taking])
            rw [taking] at net decreased
            omega

/-- A withdrawal from both accounts of a deposit, in two equal legs each. -/
def withdrawing (amount : Int) : AuthorizeRequest :=
  ⟨"withdraw", [⟨1, 2, amount⟩, ⟨1, 2, amount⟩, ⟨2, 1, amount⟩, ⟨2, 1, amount⟩], ⟨"", .error ""⟩⟩

/-- What the withdrawal finds after a captured deposit of 100, and that it succeeds. -/
private theorem withdrawn (amount net : Int) (legs : List TransferLeg)
    (played : ((initial.play serial
      (deposit ("USD", "USD") ++ .request (.capture 1 3) :: turns 3 12)).map fun cfg => decide
        (cfg.quiet = true ∧ ((cfg.serve (.authorize (withdrawing amount) 4)
          (List.replicate 18 .fair)).map fun
            | .ok (.authorized transaction _) => transaction.id
            | _ => 0) = some 2 ∧
        ((cfg.play serial (cfg.serving (.authorize (withdrawing amount) 4)
          (List.replicate 18 .fair))).map fun next =>
            (next.shared.tables.transaction? 2).isSome) = some true ∧
        cfg.shared.tables.transaction? 2 = none ∧
        ∀ a ∈ [1, 2], netDecrease cfg.shared.tables legs a = net ∧
          (cfg.shared.cache.get ⟨a⟩).map AccountBalance.available = some 100)) = some true) :
    ∃ trace cfg next transaction entries own, Steps initial trace cfg ∧
      (∀ moved ∈ trace, serial moved = true) ∧ cfg.quiet = true ∧
      cfg.play serial (cfg.serving (.authorize (withdrawing amount) 4) (List.replicate 18 .fair)) =
        some next ∧
      next.threads[cfg.threads.length]? =
        some ⟨some (.done (.ok (.authorized transaction entries))), own⟩ ∧
      cfg.shared.tables.transaction? transaction.id = none ∧
      next.shared.tables.transaction? transaction.id ≠ none ∧
      ∀ a ∈ [1, 2], netDecrease cfg.shared.tables legs a = net ∧
        ∃ balance, cfg.shared.cache.get ⟨a⟩ = some balance ∧ balance.available = 100 := by
  obtain ⟨trace, cfg, run, one, computed⟩ := reached serial _ _ played
  simp only [decide_eq_true_eq, Option.map_eq_some_iff] at computed
  obtain ⟨quiet, ⟨outcome, served, shown⟩, ⟨next, after, present⟩, absent, known⟩ := computed
  obtain ⟨_, own, played', ended⟩ := Config.exists_of_serve served
  rw [after] at played'
  cases played'
  split at shown
  · rename_i transaction entries
    refine ⟨trace, cfg, next, transaction, entries, own, run, one, quiet, after, ended, ?_, ?_,
      known⟩
    · rw [shown, absent]
    · rw [shown]
      exact Option.isSome_iff_ne_none.mp present
  · cases shown

/-- All that is available is taken in two legs. -/
theorem split_legs_covered : ∃ trace cfg next legs, Steps initial trace cfg ∧
    cfg.play serial (cfg.serving (.authorize (withdrawing 50) 4) (List.replicate 18 .fair)) =
      some next ∧
    parseTransferLegs (withdrawing 50).legs = .ok legs ∧ SplitsCovered cfg.shared legs ∧
    netDecrease cfg.shared.tables legs 1 = 100 ∧
    ∀ a balance, cfg.shared.cache.get ⟨a⟩ = some balance →
      0 < netDecrease cfg.shared.tables legs a →
        netDecrease cfg.shared.tables legs a ≤ balance.available := by
  obtain ⟨legs, parsed, same⟩ : ∃ legs, parseTransferLegs (withdrawing 50).legs = .ok legs ∧
    legs = _ := ⟨_, rfl, rfl⟩
  obtain ⟨trace, cfg, next, transaction, entries, own, run, one, quiet, played, ended, absent,
    present, known⟩ := withdrawn 50 100 legs (by rw [same]; decide +kernel)
  have covered : SplitsCovered cfg.shared legs := by
    intro a balance got several
    have named : a ∈ [1, 2] := by
      obtain ⟨leg, listed⟩ := List.exists_mem_of_length_pos (lt_of_lt_of_le two_pos several)
      obtain ⟨member, taken⟩ := List.mem_filter.mp listed
      obtain ⟨-, proto, asked, here⟩ := parseTransferLegs_ok parsed leg member
      simp only [takes, Bool.and_eq_true, decide_eq_true_eq] at taken
      rw [← taken.1, ← here]
      simp [withdrawing] at asked
      rcases asked with rfl | rfl <;> simp
    obtain ⟨net, balance', got', available⟩ := known a named
    cases got.symm.trans got'
    unfold netDecrease at net
    omega
  exact ⟨trace, cfg, next, legs, run, played, parsed, covered, (known 1 (by simp)).1,
    (split_legs run one quiet played ended absent present parsed).mpr covered⟩

/-- Two legs of 60 each are taken from an account with 100 available. -/
theorem split_legs_overspent : ∃ trace cfg next transaction entries own legs balance,
    Steps initial trace cfg ∧ (∀ moved ∈ trace, serial moved = true) ∧ cfg.quiet = true ∧
    cfg.play serial (cfg.serving (.authorize (withdrawing 60) 4) (List.replicate 18 .fair)) =
      some next ∧
    next.threads[cfg.threads.length]? =
      some ⟨some (.done (.ok (.authorized transaction entries))), own⟩ ∧
    cfg.shared.tables.transaction? transaction.id = none ∧
    next.shared.tables.transaction? transaction.id ≠ none ∧
    parseTransferLegs (withdrawing 60).legs = .ok legs ∧
    cfg.shared.cache.get ⟨1⟩ = some balance ∧ balance.available = 100 ∧
    netDecrease cfg.shared.tables legs 1 = 120 := by
  obtain ⟨legs, parsed, same⟩ : ∃ legs, parseTransferLegs (withdrawing 60).legs = .ok legs ∧
    legs = _ := ⟨_, rfl, rfl⟩
  obtain ⟨trace, cfg, next, transaction, entries, own, run, one, quiet, played, ended, absent,
    present, known⟩ := withdrawn 60 120 legs (by rw [same]; decide +kernel)
  obtain ⟨net, balance, got, available⟩ := known 1 (by simp)
  exact ⟨trace, cfg, next, transaction, entries, own, legs, balance, run, one, quiet, played, ended,
    absent, present, parsed, got, available, net⟩

end Fides.Ledger
