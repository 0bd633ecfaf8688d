import Fides.Ledger.Reading
import Fides.Service.Streaming

/-! # Listings as streams

The entries that `GetEntries` has read are sent to the client by a task of their own.  Whatever
bounded channel they go through, and however the task and the client take turns, the client
gets what was committed.
-/

namespace Fides.Ledger

open Domain Service Storage Relational Concurrency

variable {cfg : Config server} {trace : List (Transition server)} {i : Nat}

/-- The entries of the account as they are committed. -/
def committedEntries (a : Int) (w : World) : List ProtoEntry :=
  (w.tables.entries.filter fun e => e.accountId = a).map EntryRow.proto

/-- A listing has the committed entries of the moment it was read in. -/
private theorem listed_moment (run : Steps initial trace cfg) {response : Response} {own : Session}
    (ended : cfg.threads[i]? = some ⟨some (.done (.ok response)), own⟩) {a : Int}
    (request : own.request = .getEntries a) :
    Met trace i fun w => response = .entries (committedEntries a w) := by
  obtain ⟨entries, seen, rfl⟩ := (((safe run).post ended).2.1 response rfl).listed a request
  obtain ⟨earlier, later, split⟩ := List.append_of_mem seen
  have heard : Heard own earlier ⟨.getEntriesForAccount ⟨a⟩, .ok entries⟩ :=
    ⟨later, by rw [split, List.append_assoc]; rfl⟩
  obtain ⟨moved, l, made⟩ := made_of_heard run ended heard
  obtain ⟨⟨before, reached⟩, -⟩ := made.split run
  obtain ⟨weather, -, w', l', ran⟩ := made.called
  have fair := exec_fair ran rfl
  rw [exec_getEntriesForAccount (safe reached).inv (made.allowed run)] at fair
  refine made.met ?_
  rw [committedEntries, ← buildEntries_proto (Prod.mk.inj (Option.some.inj fair)).1]

section Delivery

variable {channel : Channel ProtoEntry} (bounded : channel.Bounded streamCapacity)
  {items : List ProtoEntry} {s s' : Stream channel} {turn : Turn} {turns : List Turn}

/-- The entries between the task and the client. -/
def underWay (s : Stream channel) : List ProtoEntry := (bounded.view s.state).held

/-- Everything a turn can be. -/
inductive Takes (s : Stream channel) : Turn → Stream channel → Prop where
  | sends {entry entries state} (left : s.task = some (entry :: entries))
      (present : (bounded.view s.state).deserted = false)
      (sent : bounded.view state =
        { bounded.view s.state with held := (bounded.view s.state).held ++ [entry] }) :
      Takes s .task { s with task := some entries, state := state }
  | stops {entries state} (left : s.task = some entries)
      (done : entries = [] ∨ (bounded.view s.state).deserted = true)
      (closed : bounded.view state = { bounded.view s.state with closed := true }) :
      Takes s .task { s with task := none, state := state }
  | receives {entry entries state} (listening : s.client = .listening)
      (held : (bounded.view s.state).held = entry :: entries)
      (left : bounded.view state = { bounded.view s.state with held := entries }) :
      Takes s .receive { s with state := state, received := s.received ++ [entry] }
  | ends {state} (listening : s.client = .listening) (empty : (bounded.view s.state).held = [])
      (closed : (bounded.view s.state).closed = true)
      (same : bounded.view state = bounded.view s.state) :
      Takes s .receive { s with state := state, client := .ended }
  | leaves {lost} (listening : s.client = .listening)
      (gone : bounded.view (channel.hangUp s.state) = ⟨lost, (bounded.view s.state).closed, true⟩) :
      Takes s .hangUp { s with state := channel.hangUp s.state, client := .gone }

private theorem takes_send (stepped : s.sendEntries = some s') : Takes bounded s .task s' := by
  unfold Stream.sendEntries at stepped
  split at stepped
  · cases stepped
  · rename_i left
    cases stepped
    exact .stops left (.inl rfl) (bounded.close s.state)
  · rename_i entry entries left
    split at stepped
    · cases stepped
    · rename_i state sent
      cases stepped
      obtain ⟨-, present, grown⟩ | ⟨refused, -⟩ := bounded.send_cases sent
      · exact .sends left present grown
      · cases refused
    · rename_i state sent
      cases stepped
      obtain ⟨taken, -⟩ | ⟨-, deserted, same⟩ := bounded.send_cases sent
      · cases taken
      · exact .stops left (.inr deserted) (by rw [bounded.close, same])

private theorem takes_receive (listening : s.client = .listening) (stepped : s.takeNext = some s') :
    Takes bounded s .receive s' := by
  unfold Stream.takeNext at stepped
  split at stepped
  · cases stepped
  · rename_i entry state received
    cases stepped
    obtain ⟨item, rest, same, held, left⟩ | ⟨none, -⟩ := bounded.receive_cases received
    · cases same
      exact .receives listening held left
    · cases none
  · rename_i state received
    cases stepped
    obtain ⟨item, rest, some, -⟩ | ⟨-, empty, closed, same⟩ := bounded.receive_cases received
    · cases some
    · exact .ends listening empty closed same

theorem takes_step (stepped : s.step turn = some s') : Takes bounded s turn s' := by
  cases turn with
  | task => exact takes_send bounded stepped
  | receive =>
    obtain ⟨listening, polled⟩ := Option.ite_none_right_eq_some.mp stepped
    exact takes_receive bounded listening polled
  | hangUp =>
    obtain ⟨listening, same⟩ := Option.ite_none_right_eq_some.mp stepped
    cases same
    obtain ⟨lost, gone⟩ := bounded.hangUp s.state
    exact .leaves listening gone

/-- Where the entries are, and what both ends of the channel know of each other. -/
structure Carries (items : List ProtoEntry) (s : Stream channel) : Prop where
  order : s.received <+: items
  whole : s.client ≠ .gone → s.received ++ underWay bounded s ++ s.task.getD [] = items
  closed : (bounded.view s.state).closed = s.task.isNone
  deserted : (bounded.view s.state).deserted = true ↔ s.client = .gone
  ended : s.client = .ended → s.task = none ∧ underWay bounded s = []

theorem carries_start (items : List ProtoEntry) :
    Carries bounded items ⟨some items, channel.new, [], .listening⟩ where
  order := List.nil_prefix
  whole _ := by simp [underWay, bounded.new]
  closed := by simp [bounded.new]
  deserted := by simp [bounded.new]
  ended now := by cases now

variable {bounded}

theorem Carries.step (carries : Carries bounded items s) (taken : Takes bounded s turn s') :
    Carries bounded items s' := by
  obtain ⟨order, whole, closed, deserted, ended⟩ := carries
  cases taken with
  | @sends entry entries state left present sent =>
    have here : s.client ≠ .gone := fun gone => by simp [deserted.mpr gone] at present
    refine ⟨order, fun _ => ?_, ?_, by rw [sent]; exact deserted, fun now => ?_⟩
    · rw [← whole here]
      simp [underWay, sent, left]
    · rw [sent, closed, left]
      rfl
    · cases left.symm.trans (ended now).1
  | @stops entries state left done stopped =>
    refine ⟨order, fun here => ?_, by rw [stopped]; rfl, by rw [stopped]; exact deserted,
      fun now => ?_⟩
    · have all : entries = [] := done.resolve_right fun gone => here (deserted.mp gone)
      rw [← whole here]
      simp [underWay, stopped, left, all]
    · cases left.symm.trans (ended now).1
  | @receives entry entries state listening held left =>
    have here : s.client ≠ .gone := by simp [listening]
    have moved : s.received ++ [entry] ++ entries ++ s.task.getD [] = items := by
      rw [← whole here]
      simp [underWay, held]
    refine ⟨⟨entries ++ s.task.getD [], by rw [← moved, List.append_assoc _ entries]⟩, fun _ => ?_,
      by rw [left]; exact closed, by rw [left]; exact deserted, fun now => ?_⟩
    · simpa [underWay, left] using moved
    · cases listening.symm.trans now
  | ends listening empty shut same =>
    have here : s.client ≠ .gone := by simp [listening]
    have done : s.task = none := by simpa [shut] using closed.symm
    refine ⟨order, fun _ => ?_, by rw [same]; exact closed, ?_, fun _ => ⟨done, ?_⟩⟩
    · rw [← whole here]
      simp [underWay, same]
    · rw [same, deserted]
      simp [listening]
    · rw [underWay, same, empty]
  | leaves listening gone =>
    refine ⟨order, fun here => absurd rfl here, by rw [gone]; exact closed, by rw [gone]; simp,
      fun now => by cases now⟩

theorem Carries.run (carries : Carries bounded items s) (ran : s.run turns = some s') :
    Carries bounded items s' := by
  induction turns generalizing s with
  | nil =>
    cases ran
    exact carries
  | cons turn turns ih =>
    obtain ⟨middle, stepped, rest⟩ := Option.bind_eq_some_iff.mp ran
    exact ih (carries.step (takes_step bounded stepped)) rest

/-- A task that is over has handed everything over, unless the client has hung up. -/
theorem Carries.handed (carries : Carries bounded items s) (done : s.task = none)
    (here : s.client ≠ .gone) : s.received ++ underWay bounded s = items := by
  simpa [done] using carries.whole here

/-- A client that has seen the end has got everything. -/
theorem Carries.complete (carries : Carries bounded items s) (ended : s.client = .ended) :
    s.received = items := by
  obtain ⟨done, none⟩ := carries.ended ended
  simpa [none] using carries.handed done (by simp [ended])

/-- The turns that are left at most. -/
def turnsLeft (bounded : channel.Bounded streamCapacity) (s : Stream channel) : Nat :=
  2 * (s.task.getD []).length + (if s.task.isSome then 1 else 0) +
    if s.client = .listening then (underWay bounded s).length + 1 else 0

theorem turnsLeft_step (taken : Takes bounded s turn s') :
    turnsLeft bounded s' < turnsLeft bounded s := by
  cases taken with
  | sends left present sent =>
    simp only [turnsLeft, underWay, left, sent, Option.getD_some, Option.isSome_some, if_true,
      List.length_append, List.length_cons, List.length_nil]
    by_cases listening : s.client = .listening
    · rw [if_pos listening, if_pos listening]
      omega
    · rw [if_neg listening, if_neg listening]
      omega
  | stops left done stopped =>
    simp only [turnsLeft, underWay, left, stopped, Option.getD_none, Option.getD_some,
      Option.isSome_none, Option.isSome_some, if_true, List.length_nil, Bool.false_eq_true, if_false]
    omega
  | receives listening held left => simp [turnsLeft, underWay, listening, held, left]
  | ends listening empty closed same => simp [turnsLeft, listening]
  | leaves listening gone => simp [turnsLeft, listening]

/-- However the turns are taken, there are not more than these. -/
theorem length_le_turnsLeft (bounded : channel.Bounded streamCapacity)
    (ran : s.run turns = some s') :
    turns.length + turnsLeft bounded s' ≤ turnsLeft bounded s := by
  induction turns generalizing s with
  | nil =>
    cases ran
    simp
  | cons turn turns ih =>
    obtain ⟨middle, stepped, rest⟩ := Option.bind_eq_some_iff.mp ran
    have later := ih rest
    have now := turnsLeft_step (takes_step bounded stepped)
    simp only [List.length_cons]
    omega

/-- Until both are done, the task or the client can take a turn. -/
theorem Carries.exists_step (carries : Carries bounded items s) (unfinished : s.finished = false) :
    ∃ turn ≠ .hangUp, (s.step turn).isSome := by
  by_cases listening : s.client = .listening
  · cases held : (bounded.view s.state).held with
    | cons entry rest =>
      obtain ⟨state, received, -⟩ := bounded.receive_held s.state entry rest held
      exact ⟨.receive, by simp, by simp [Stream.step, Stream.takeNext, listening, received]⟩
    | nil =>
      cases left : s.task with
      | none =>
        obtain ⟨state, received, -⟩ :=
          bounded.receive_closed s.state held (by rw [carries.closed, left]; rfl)
        exact ⟨.receive, by simp, by simp [Stream.step, Stream.takeNext, listening, received]⟩
      | some entries =>
        refine ⟨.task, by simp, ?_⟩
        cases entries with
        | nil => simp [Stream.step, Stream.sendEntries, left]
        | cons entry entries =>
          have present : (bounded.view s.state).deserted = false := by
            rw [Bool.eq_false_iff, Ne, carries.deserted, listening]
            simp
          obtain ⟨state, sent, -⟩ :=
            bounded.send_room s.state entry present (by rw [held]; decide)
          simp [Stream.step, Stream.sendEntries, left, sent]
  · -- only a task can be left, and it does not wait for a client that is gone
    obtain ⟨entries, left⟩ : ∃ entries, s.task = some entries :=
      Option.isSome_iff_exists.mp (by simpa [Stream.finished, listening] using unfinished)
    have gone : s.client = .gone := by
      cases now : s.client with
      | listening => exact absurd now listening
      | ended => cases left.symm.trans (carries.ended now).1
      | gone => rfl
    refine ⟨.task, by simp, ?_⟩
    cases entries with
    | nil => simp [Stream.step, Stream.sendEntries, left]
    | cons entry entries =>
      obtain ⟨state, refused, -⟩ :=
        bounded.send_deserted s.state entry (carries.deserted.mpr gone)
      simp [Stream.step, Stream.sendEntries, left, refused]

end Delivery

/-- What has come of the stream of these entries after some turns: the client has got a beginning
    of them, and all of them if it has seen the end; the task has handed them all over if it is
    done, unless the client has hung up; until both are done one of them can take a turn, and the
    turns run out. -/
structure Delivers {channel : Channel ProtoEntry} (bounded : channel.Bounded streamCapacity)
    (items : List ProtoEntry) (turns : List Turn) (s : Stream channel) : Prop where
  order : s.received <+: items
  complete : s.client = .ended → s.received = items
  handed : s.task = none → s.client ≠ .gone → s.received ++ underWay bounded s = items
  progress : s.finished = false → ∃ turn ≠ .hangUp, (s.step turn).isSome
  turns : turns.length ≤ 2 * items.length + 2

/-- In every run, a listing that was answered delivers the entries of the account that were
    committed at one of the calls of the request, through any channel that keeps to the laws of a
    bounded one, however the task and the client take turns. -/
theorem entries_streamed {channel : Channel ProtoEntry} (bounded : channel.Bounded streamCapacity)
    (run : Steps initial trace cfg) {response : Response} {own : Session}
    (ended : cfg.threads[i]? = some ⟨some (.done (.ok response)), own⟩) {a : Int}
    (request : own.request = .getEntries a) :
    ∃ stream, entriesStream channel response = some stream ∧ Met trace i fun w =>
      ∀ turns s, stream.run turns = some s → Delivers bounded (committedEntries a w) turns s := by
  obtain ⟨moved, member, called, rfl⟩ := listed_moment run ended request
  refine ⟨_, rfl, moved, member, called, fun turns s ran => ?_⟩
  have start := carries_start bounded (committedEntries a moved.before.shared)
  have carries := start.run ran
  refine ⟨carries.order, carries.complete, carries.handed, carries.exists_step, ?_⟩
  have most := length_le_turnsLeft bounded ran
  simp only [turnsLeft, underWay, bounded.new, Option.getD_some, Option.isSome_some, if_true,
    List.length_nil] at most
  omega

/-- The one entry of an account is sent through a queue and received. -/
theorem entries_streamed_deposit : ∃ trace cfg own,
    ∃ stream s : Stream (Channel.queue ProtoEntry streamCapacity),
    Steps initial trace cfg ∧
    cfg.threads[3]? = some ⟨some (.done (.ok (.entries [⟨1, 1, 1, 1, 100, 1, 2⟩]))), own⟩ ∧
    entriesStream _ (.entries [⟨1, 1, 1, 1, 100, 1, 2⟩]) = some stream ∧
    stream.run [.task, .receive, .task, .receive] = some s ∧ s.client = .ended ∧
    Met trace 3 fun w => Delivers (Channel.queueBounded ProtoEntry streamCapacity)
      (committedEntries 1 w) [.task, .receive, .task, .receive] s := by
  obtain ⟨trace, cfg, run, -, answered⟩ := reached (fun _ => true)
    (deposit ("USD", "USD") ++ .request (.getEntries 1) :: turns 3 4) (answer · 3)
    (a := some (.getEntries 1, .entries [⟨1, 1, 1, 1, 100, 1, 2⟩])) (by decide +kernel)
  obtain ⟨own, found, request⟩ := answer_eq_some answered
  obtain ⟨stream, streamed, moved, member, called, delivers⟩ :=
    entries_streamed (Channel.queueBounded ProtoEntry streamCapacity) run found request
  cases streamed
  exact ⟨trace, cfg, own, _, _, run, found, rfl, rfl, rfl, moved, member, called, delivers _ _ rfl⟩

end Fides.Ledger
