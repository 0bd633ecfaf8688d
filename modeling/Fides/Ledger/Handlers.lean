import Fides.Ledger.Authorizing
import Fides.Ledger.Settling

/-! # Every handler follows the protocol -/

namespace Fides.Ledger

open Domain Service Storage FixedWidth Relational Concurrency

variable {w : World} {l : Session}

/-- The requests that only read. -/
inductive Reads : Request → Prop where
  | account (id : Int) : Reads (.getAccount id)
  | balance (id : Int) : Reads (.getBalance id)
  | entries (id : Int) : Reads (.getEntries id)

private theorem reports_of_reads {response : Response} (reads : Reads l.request)
    (listed : ∀ a, l.request = .getEntries a → ∃ entries,
      (⟨.getEntriesForAccount ⟨a⟩, .ok entries⟩ : Answered) ∈ l.history ∧
        response = .entries (entries.map entryToProto)) : Reports l response where
  created _ _ other := by
    rw [other] at reads
    cases reads
  authorized _ _ other := by
    rw [other] at reads
    cases reads
  settled _ _ _ asks := by
    generalize l.request = request at reads asks
    cases reads <;> cases asks
  listed := listed

/-- A session that only reads owes nothing and reports nothing that it has done. -/
private theorem promise_read {response : Response} (unwritten : Unwritten l)
    (reads : Reads l.request)
    (listed : ∀ a, l.request = .getEntries a → ∃ entries,
      (⟨.getEntriesForAccount ⟨a⟩, .ok entries⟩ : Answered) ∈ l.history ∧
        response = .entries (entries.map entryToProto)) :
    Promise (.ok response) (l.record .commit (.ok ()) .idle) := by
  refine ⟨?_, fun _ same => reports_of_reads reads fun a asked => ?_, nofun⟩
  · intro _
    rw [Session.summary_record, unwritten.summary]
    exact ⟨rfl, rfl⟩
  · cases same
    obtain ⟨entries, read, shown⟩ := listed a asked
    exact ⟨entries, List.mem_append_left _ read, shown⟩

theorem meets_getAccount {accountId : Int} (request : l.request = .getAccount accountId)
    (unwritten : Unwritten l) : Meets (getAccount accountId) w l := by
  apply meets_orReject unwritten.uncommitted
  intro id _
  apply meets_inTransaction unwritten
  intro w₁
  have unwritten₁ : Unwritten (l.record .begin (.ok ()) l.tx) := unwritten.read rfl
  apply meets_getAccountRow unwritten₁
  intro w₂ answer
  have unwritten₂ : Unwritten ((l.record .begin (.ok ()) l.tx).record (.getAccount id)
    (.ok answer) l.tx) := unwritten₁.read rfl
  cases answer with
  | none => exact promise_error unwritten₂.uncommitted
  | some account =>
      apply meets_commit unwritten₂.uncommitted
      · exact fun _ _ _ => .reading unwritten₂.versions unwritten₂.summary
      · exact fun _ => promise_read unwritten₂ (request ▸ .account accountId)
          (by simp [request])

theorem meets_getBalance {accountId : Int} (request : l.request = .getBalance accountId)
    (unwritten : Unwritten l) : Meets (getBalance accountId) w l := by
  apply meets_orReject unwritten.uncommitted
  intro id _
  apply meets_cacheGet
  intro w₁ answer _
  have unwritten₁ : Unwritten (l.record (.cacheGet id) answer l.tx) := unwritten.read rfl
  cases answer with
  | none => exact promise_error unwritten₁.uncommitted
  | some balance =>
      refine ⟨fun committed => ?_, fun _ _ => reports_of_reads (request ▸ .balance accountId)
        (by simp [request]), nofun⟩
      rw [unwritten₁.uncommitted] at committed
      cases committed

theorem meets_getEntries {accountId : Int} (request : l.request = .getEntries accountId)
    (unwritten : Unwritten l) : Meets (getEntries accountId) w l := by
  apply meets_orReject unwritten.uncommitted
  intro id parsed
  obtain rfl := AccountId.new_eq_ok (mapError_eq_ok.mp parsed)
  apply meets_inTransaction unwritten
  intro w₁
  have unwritten₁ : Unwritten (l.record .begin (.ok ()) l.tx) := unwritten.read rfl
  apply meets_getAccountRow unwritten₁
  intro w₂ answer
  have unwritten₂ : Unwritten ((l.record .begin (.ok ()) l.tx).record (.getAccount ⟨accountId⟩)
    (.ok answer) l.tx) := unwritten₁.read rfl
  cases answer with
  | none => exact promise_error unwritten₂.uncommitted
  | some account =>
      apply meets_getEntriesForAccount unwritten₂
      intro w₃ entries
      have unwritten₃ : Unwritten (((l.record .begin (.ok ()) l.tx).record (.getAccount ⟨accountId⟩)
        (.ok (some account)) l.tx).record (.getEntriesForAccount ⟨accountId⟩) (.ok entries) l.tx) :=
        unwritten₂.read rfl
      apply meets_commit unwritten₃.uncommitted
      · exact fun _ _ _ => .reading unwritten₃.versions unwritten₃.summary
      · refine fun _ => promise_read unwritten₃ (request ▸ .entries accountId) fun a asked => ?_
        simp only [Session.request_record, request, Request.getEntries.injEq] at asked
        subst asked
        exact ⟨entries, by simp, rfl⟩

private theorem fresh_account {id : Int} (book : Consistent w.tables w.sequences)
    (drawn : id = w.sequences.accounts + 1) : w.tables.account? id = none := by
  rw [Tables.account?, find_eq_none]
  intro row member same
  have le := (book.accountRows row member).2
  change row.id = id at same
  omega

private theorem account_sound {id : Int} {accountType : AccountType} {code : String} {scale : Nat}
    {now : Int} (filled : code ≠ "")
    (checked : (⟨id, accountTypeToI16 accountType, code, scale, 0, 0, 0, now⟩ : AccountRow).check =
      .ok ⟨id, accountTypeToI16 accountType, code, scale, 0, 0, 0, now⟩) :
    (⟨id, accountTypeToI16 accountType, code, scale, 0, 0, 0, now⟩ : AccountRow).Sound := by
  obtain ⟨-, kind, scales, created, -⟩ := AccountRow.check_ok checked
  exact ⟨kind, filled, scales, by simp; decide, by simp; decide, by simp; decide, created⟩

theorem meets_createAccount {req : CreateAccountRequest} {now : Int}
    (request : l.request = .createAccount req now) (unwritten : Unwritten l) :
    Meets (createAccount req now) w l := by
  apply meets_orReject unwritten.uncommitted
  intro accountType _
  change Meets (if req.assetCode = "" then _ else if (req.assetScale % 256).toNat > 18 then _ else _)
    w l
  split
  · exact promise_error unwritten.uncommitted
  rename_i filled
  split
  · exact promise_error unwritten.uncommitted
  rename_i scale
  apply meets_inTransaction unwritten
  intro w₁
  have unwritten₁ : Unwritten (l.record .begin (.ok ()) l.tx) := unwritten.read rfl
  apply meets_createAccountRow unwritten₁
  intro w₂ w₃ id code row book₂ kept drawn made checked tables sequences
  have same : id = ⟨row.id⟩ := by rw [made]
  have sound : row.Sound := by
    rw [made] at checked ⊢
    exact account_sound (varchar_ne_empty kept filled (by decide)) checked
  have fresh : w₃.tables.account? row.id = none := by
    rw [tables, made]
    exact fresh_account book₂ drawn
  have within : row.id ≤ w₃.sequences.accounts := by rw [sequences, made]
  generalize recorded : Session.record _ (.createAccount ..) _ _ = l₃
  have request₃ : l₃.request = .createAccount req now := by
    rw [← recorded]
    exact request
  have summary₃ : l₃.summary = { Summary.blank with opened := [⟨row.id⟩] } := by
    rw [← recorded, Session.summary_record, unwritten₁.summary, same]
    rfl
  apply meets_commit (by rw [summary₃]; rfl)
  · intro w₄ book₄ keeps₄
    have held : .account row.id ∈ l₃.tx.held := by
      rw [← recorded]
      exact List.mem_append_right _ List.mem_cons_self
    refine .enrolling request₃ ⟨(keeps₄.accounts _ held).trans fresh, sound,
      within.trans keeps₄.sequences.accounts, by rw [made]; exact ⟨rfl, rfl, rfl⟩⟩ ?_ summary₃
    rw [← recorded]
    simp only [Session.tx_record, Tx.writeAccount, unwritten.versions]
    rfl
  intro w₄
  have summary₄ : (l₃.record .commit (.ok ()) .idle).summary =
      { Summary.blank with committed := true, opened := [id] } := by
    rw [Session.summary_record, summary₃, same]
    rfl
  have request₄ : (l₃.record .commit (.ok ()) .idle).request = .createAccount req now := request₃
  apply meets_cacheSet request₄ summary₄
  intro w₅
  have created : 0 < now := by simpa [made] using sound.createdAt
  obtain ⟨account, new⟩ :=
    Account.new_ok id accountType filled (not_lt.mp scale) (le_refl 0) created
  have named : (accountToProto account).id = id.value := by
    rw [accountToProto, (Account.new_eq_ok new).1]
  apply meets_answer (mapError_eq_ok.mpr new)
  · intro _
    rw [Session.summary_record, summary₄]
    exact ⟨rfl, rfl⟩
  · refine Reports.of_create (show _ = Request.createAccount req now from request₄) ?_ ?_
    · rw [Session.summary_record, summary₄]
      rfl
    · rw [Session.summary_record, summary₄, named]
      rfl

/-- All handlers of the service are checked. -/
theorem checked : protocol.Checked := by
  intro request w book
  have unwritten : Unwritten (server.arrive request) := ⟨rfl, rfl⟩
  cases request with
  | createAccount req now => exact meets_createAccount rfl unwritten
  | getAccount id => exact meets_getAccount rfl unwritten
  | getBalance id => exact meets_getBalance rfl unwritten
  | authorize req now => exact meets_authorize rfl unwritten rfl
  | capture id now => exact meets_settle (capture_proper now) (.capture id now) unwritten rfl
  | void id => exact meets_settle void_proper (.void id) unwritten rfl
  | getEntries id => exact meets_getEntries rfl unwritten

/-- In every run of the server, under every schedule, the protocol is kept. -/
theorem safe {trace : List (Transition server)} {cfg : Config server}
    (run : Steps initial trace cfg) : protocol.Safe cfg := by
  apply Discipline.Safe.steps checked _ run
  exact ⟨Consistent.empty, by simp [initial], by simp [initial]⟩

end Fides.Ledger
