import Fides.Concurrency.WaitFor
import Fides.Ledger.Runs

/-! # No deadlock

A handler waits for the lock of an account, of an idempotency key, of a
transaction or of an entry.  All handlers take locks in the order of their ranks,
so no handlers ever wait for each other in a circle.
-/

namespace Fides.Ledger

open Domain Service Storage Concurrency

variable {cfg : Config server} {trace : List (Transition server)}

/-- Thread `i` is at a call for which it still needs a lock. -/
private def Wants (cfg : Config server) (i : Nat) (r : Resource) : Prop :=
  ∃ c rest own, cfg.threads[i]? = some ⟨some (.call c rest), own⟩ ∧
    r ∈ c.needs (own.tx.view cfg.shared.database) ∧ r ∉ own.tx.held

private def Holding (cfg : Config server) (i : Nat) (r : Resource) : Prop :=
  ∃ thread, cfg.threads[i]? = some thread ∧ r ∈ thread.own.tx.held

private theorem awaits_of_waitsFor {i j : Nat} (waiting : cfg.WaitsFor i j) :
    Awaits (Wants cfg) (Holding cfg) i j := by
  obtain ⟨-, c, rest, own, other, found, there, waits⟩ := waiting
  obtain ⟨r, needed, conflict⟩ := List.any_eq_true.mp waits
  simp only [Bool.and_eq_true, decide_eq_true_eq] at conflict
  exact ⟨r, ⟨c, rest, own, found, needed, conflict.1⟩, other, there, conflict.2⟩

private theorem rank_increases (safe : protocol.Safe cfg) (i : Nat) (r r' : Resource)
    (held : Holding cfg i r) (wanted : Wants cfg i r') : r.rank < r'.rank := by
  obtain ⟨c, rest, own, found, needed, missing⟩ := wanted
  obtain ⟨thread, there, mine⟩ := held
  rw [found] at there
  cases there
  exact (safe.pre found).1 r' needed missing r mine

theorem waits_acyclic (safe : protocol.Safe cfg) (i : Nat) :
    ¬ Relation.TransGen cfg.WaitsFor i i := fun circle =>
  Awaits.acyclic (rank_increases safe) i
    (circle.lift id fun _ _ waiting => awaits_of_waitsFor waiting)

/-- In every run no threads wait for each other in a circle, and the accounts of
    legs or entries are locked one by one in ascending order. -/
theorem deadlock_free (run : Steps initial trace cfg) :
    (∀ i, ¬ Relation.TransGen cfg.WaitsFor i i) ∧
    (∀ legs : List TransferLeg,
      (lockOrder (legs.map TransferLeg.accountId)).Pairwise (fun a b => a.value < b.value) ∧
      ∀ id, id ∈ lockOrder (legs.map TransferLeg.accountId) ↔ ∃ leg ∈ legs, leg.accountId = id) ∧
    ∀ entries : List Entry,
      (lockOrder (entries.map Entry.accountId)).Pairwise (fun a b => a.value < b.value) ∧
      ∀ id, id ∈ lockOrder (entries.map Entry.accountId) ↔
        ∃ entry ∈ entries, entry.accountId = id := by
  refine ⟨waits_acyclic (safe run), fun legs => ?_, fun entries => ?_⟩
  · exact ⟨lockOrder_increasing _, fun id => mem_lockOrder.trans List.mem_map⟩
  · exact ⟨lockOrder_increasing _, fun id => mem_lockOrder.trans List.mem_map⟩

def waiting (cfg : Config server) (i j : Nat) : Bool :=
  match cfg.threads[i]?, cfg.threads[j]? with
  | some ⟨some (.call c _), own⟩, some other => i != j && waits c cfg.shared own other.own
  | _, _ => false

theorem waitsFor_of_waiting {i j : Nat} (waits : waiting cfg i j = true) :
    cfg.WaitsFor i j := by
  unfold waiting at waits
  split at waits
  · obtain ⟨different, waits⟩ := Bool.and_eq_true_iff.mp waits
    exact ⟨by simpa using different, _, _, _, _, ‹_›, ‹_›, waits⟩
  · cases waits

/-- A second capture waits for the first, and not in a circle. -/
theorem deadlock_free_captures : ∃ trace cfg, Steps initial trace cfg ∧ cfg.WaitsFor 4 3 ∧
    ¬ Relation.TransGen cfg.WaitsFor 4 4 := by
  obtain ⟨trace, cfg, run, -, waits⟩ := reached (fun _ => true)
    (deposit ("USD", "USD") ++ .request (.capture 1 5) :: .request (.capture 1 6) ::
      turns 3 4 ++ turns 4 3) (waiting · 4 3) (a := true) (by decide +kernel)
  exact ⟨trace, cfg, run, waitsFor_of_waiting waits, (deadlock_free run).1 4⟩

end Fides.Ledger
