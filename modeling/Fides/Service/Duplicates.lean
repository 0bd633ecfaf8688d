import Fides.Service.Proto
import Fides.Storage.Postgres
import Fides.Text.Slices
import Mathlib.Data.List.TakeWhile

/-! # The key that a duplicate is reported with -/

namespace Fides.Storage

open Text

/-- The duplicate value as the conversion of a unique violation slices it out of the
    detail text; the outer `none` is the panic of a slice. -/
def extractKey (detail : String) : Option (Option String) :=
  match find detail ")=(" with
  | none => some none
  | some start => do
      let rest ← sliceFrom detail (start + 3)
      match find rest ")" with
      | none => some none
      | some stop => do
          let key ← sliceTo rest stop
          some (some key)

section Slicing

/-- The search by offsets and the search by texts find the same occurrence. -/
private theorem afterFirst_cases (pattern text : List Char) :
    offset pattern text = none ∧ afterFirst pattern text = none ∨
      ∃ before after, text = before ++ (pattern ++ after) ∧
        offset pattern text = some (String.ofList before).utf8ByteSize ∧
        afterFirst pattern text = some after := by
  induction text with
  | nil =>
    by_cases empty : pattern = []
    · exact .inr ⟨[], [], by simp [empty], by simp [offset, empty], by simp [afterFirst, empty]⟩
    · exact .inl ⟨by simp [offset, empty], by simp [afterFirst, empty]⟩
  | cons c text ih =>
    by_cases here : pattern.isPrefixOf (c :: text) = true
    · obtain ⟨after, same⟩ := List.isPrefixOf_iff_prefix.mp here
      refine .inr ⟨[], after, by simp [same], ?_, ?_⟩
      · rw [offset, if_pos here]
        rfl
      · rw [afterFirst, if_pos here, ← same, List.drop_left]
    · rw [offset, if_neg here, afterFirst, if_neg here]
      rcases ih with ⟨absent, missing⟩ | ⟨before, after, same, found, rest⟩
      · exact .inl ⟨by rw [absent]; rfl, missing⟩
      · refine .inr ⟨c :: before, after, by rw [same]; rfl, ?_, rest⟩
        rw [found, utf8ByteSize_cons]
        rfl

private theorem find_close (rest : String) (absent : ')' ∉ rest.toList) : find rest ")" = none := by
  cases found : find rest ")" with
  | none => rfl
  | some n =>
    obtain ⟨before, after, rfl, _⟩ := exists_of_find found
    simp at absent

/-- The part of a text before the first parenthesis that closes. -/
private theorem sliced_close {rest : List Char} (present : ')' ∈ rest) :
    ∃ n, find (String.ofList rest) ")" = some n ∧
      sliceTo (String.ofList rest) n = some (String.ofList (rest.takeWhile (· ≠ ')'))) := by
  obtain ⟨before, after, rfl, first⟩ := List.eq_append_cons_of_mem present
  have parts : String.ofList (before ++ ')' :: after) =
      String.ofList before ++ ")" ++ String.ofList after := by
    rw [← String.toList_inj]
    simp
  have ends : (before ++ ')' :: after).takeWhile (· ≠ ')') = before := by
    have plain : ∀ c ∈ before, decide (c ≠ ')') = true := by
      intro c member
      rw [decide_eq_true_iff]
      rintro rfl
      exact first member
    rw [List.takeWhile_append_of_pos plain]
    simp
  refine ⟨(String.ofList before).utf8ByteSize, ?_, ?_⟩
  · rw [parts]
    exact find_mark (c := ')') rfl (by simpa using first)
  · rw [parts, ends, String.append_assoc]
    exact sliceTo_append _ _

/-- What is sliced out once the text after `)=(` is known. -/
private theorem extractKey_of_rest {detail : String} {start : Nat} {rest : List Char}
    (found : find detail ")=(" = some start)
    (follows : sliceFrom detail (start + 3) = some (String.ofList rest)) :
    extractKey detail =
      some (if ')' ∈ rest then some (String.ofList (rest.takeWhile (· ≠ ')'))) else none) := by
  simp only [extractKey, found, follows, Option.bind_eq_bind, Option.bind_some]
  split_ifs with closes
  · obtain ⟨n, stop, value⟩ := sliced_close closes
    simp only [stop, value, Option.bind_some]
  · simp only [find_close (String.ofList rest) (by simpa using closes)]

/-- No slice is out of range, whatever the detail says. -/
theorem extractKey_eq (detail : String) : extractKey detail = some (duplicateValue detail) := by
  rcases afterFirst_cases ")=(".toList detail.toList with
    ⟨absent, missing⟩ | ⟨before, after, same, found, rest⟩
  · have nowhere : find detail ")=(" = none := absent
    simp only [extractKey, nowhere, duplicateValue, missing]
  · have parts : detail = String.ofList before ++ ")=(" ++ String.ofList after := by
      rw [← String.toList_inj]
      simp [same]
    have width : (String.ofList before).utf8ByteSize + 3 =
        (String.ofList before ++ ")=(").utf8ByteSize := by
      rw [String.utf8ByteSize_append]
      rfl
    have follows : sliceFrom detail ((String.ofList before).utf8ByteSize + 3) =
        some (String.ofList after) := by
      rw [width, parts]
      exact sliceFrom_append _ _
    simp only [extractKey_of_rest found follows, duplicateValue, rest]

/-- The key up to the first parenthesis that closes in it. -/
theorem duplicateValue_detail (key : String) :
    duplicateValue (duplicateDetail key) =
      some (String.ofList (key.toList.takeWhile (· ≠ ')'))) := by
  have parts : duplicateDetail key =
      "Key (idempotency_key" ++ ")=(" ++ (key ++ ") already exists.") := by
    have column : "Key (idempotency_key" ++ ")=(" = "Key (idempotency_key)=(" := by
      rw [← String.toList_inj, String.toList_append]
      rfl
    exact String.append_assoc.trans (congrArg (· ++ (key ++ ") already exists.")) column.symm)
  have found : find (duplicateDetail key) ")=(" = some "Key (idempotency_key".utf8ByteSize := by
    rw [parts]
    exact find_first ⟨')', ['=', '('], rfl, by decide⟩ (by decide)
  have follows : sliceFrom (duplicateDetail key) ("Key (idempotency_key".utf8ByteSize + 3) =
      some (String.ofList (key.toList ++ ") already exists.".toList)) := by
    have width : "Key (idempotency_key".utf8ByteSize + 3 =
        ("Key (idempotency_key" ++ ")=(").utf8ByteSize := by decide
    rw [width, parts, sliceFrom_append, ← String.toList_append, String.ofList_toList]
  have closes : ')' ∈ key.toList ++ ") already exists.".toList := by simp
  have computed := extractKey_of_rest found follows
  rw [extractKey_eq, if_pos closes, Option.some_inj] at computed
  rw [computed, List.takeWhile_append]
  split_ifs with whole
  · have all := (List.takeWhile_prefix (· ≠ ')')).eq_of_length whole
    rw [all]
    simp
  · rfl

end Slicing

end Fides.Storage

namespace Fides.Service

open Storage

/-- A duplicate is reported under its key just when no parenthesis closes in the key. -/
theorem duplicate_named (key : String) :
    (∃ value, extractKey (duplicateDetail key) = some (some value)) ∧
    (StorageError.ofSqlx (.uniqueViolation (duplicateDetail key)) = .duplicateKey key ↔
      ')' ∉ key.toList) ∧
    (ServiceError.ofStorage (.ofSqlx (.uniqueViolation (duplicateDetail key))) =
      .duplicateTransaction key ↔ ')' ∉ key.toList) := by
  have whole : String.ofList (key.toList.takeWhile (· ≠ ')')) = key ↔ ')' ∉ key.toList := by
    rw [← String.toList_inj, String.toList_ofList, List.takeWhile_eq_self_iff]
    grind
  refine ⟨⟨_, by rw [extractKey_eq, duplicateValue_detail]⟩, ?_, ?_⟩
  · rw [StorageError.ofSqlx, duplicateValue_detail, Option.getD_some,
      StorageError.duplicateKey.injEq]
    exact whole
  · rw [StorageError.ofSqlx, duplicateValue_detail, Option.getD_some, ServiceError.ofStorage,
      ServiceError.duplicateTransaction.injEq]
    exact whole

/-- A key with a parenthesis is reported only up to it. -/
theorem duplicate_misnamed :
    ServiceError.ofStorage (.ofSqlx (.uniqueViolation (duplicateDetail "order(1)-retry"))) =
      .duplicateTransaction "order(1" := by
  decide

end Fides.Service
