import Mathlib.Tactic

/-! # Searching and slicing texts

Positions in a text are byte offsets of its UTF-8 encoding.  A search answers with
the offset of the first occurrence, and a slice at an offset that is past the end
of the text or inside a character is an error, here `none`.
-/

namespace Text

/-- The offset of the first occurrence of a pattern. -/
def offset (pattern : List Char) : List Char → Option Nat
  | [] => if pattern = [] then some 0 else none
  | c :: text =>
      if pattern.isPrefixOf (c :: text) then some 0
      else (offset pattern text).map (c.utf8Size + ·)

/-- The characters before and after an offset. -/
def cut : List Char → Nat → Option (List Char × List Char)
  | text, 0 => some ([], text)
  | [], _ + 1 => none
  | c :: text, n + 1 =>
      if c.utf8Size ≤ n + 1 then
        (cut text (n + 1 - c.utf8Size)).map fun parts => (c :: parts.1, parts.2)
      else none

/-- `text.find(pattern)` -/
def find (text pattern : String) : Option Nat := offset pattern.toList text.toList

/-- `&text[n..]` -/
def sliceFrom (text : String) (n : Nat) : Option String :=
  (cut text.toList n).map fun parts => String.ofList parts.2

/-- `&text[..n]` -/
def sliceTo (text : String) (n : Nat) : Option String :=
  (cut text.toList n).map fun parts => String.ofList parts.1

section Offsets

theorem utf8ByteSize_cons (c : Char) (text : List Char) :
    (String.ofList (c :: text)).utf8ByteSize =
      c.utf8Size + (String.ofList text).utf8ByteSize := by
  rw [← List.singleton_append, String.ofList_append, String.utf8ByteSize_append,
    ← String.singleton_eq_ofList, String.utf8ByteSize_singleton]

private theorem cut_append (before after : List Char) :
    cut (before ++ after) (String.ofList before).utf8ByteSize = some (before, after) := by
  induction before with
  | nil => simp [cut]
  | cons c before ih =>
    have := c.utf8Size_pos
    rw [utf8ByteSize_cons, List.cons_append]
    obtain ⟨n, size⟩ : ∃ n, c.utf8Size + (String.ofList before).utf8ByteSize = n + 1 :=
      ⟨_, (Nat.succ_pred_eq_of_pos (by omega)).symm⟩
    have rest : n + 1 - c.utf8Size = (String.ofList before).utf8ByteSize := by omega
    rw [size, cut, if_pos (by omega), rest, ih]
    rfl

/-- A text is sliced between any two of its characters. -/
theorem sliceFrom_append (before after : String) :
    sliceFrom (before ++ after) before.utf8ByteSize = some after := by
  have here := cut_append before.toList after.toList
  rw [String.ofList_toList] at here
  simp [sliceFrom, here]

theorem sliceTo_append (before after : String) :
    sliceTo (before ++ after) before.utf8ByteSize = some before := by
  have here := cut_append before.toList after.toList
  rw [String.ofList_toList] at here
  simp [sliceTo, here]

/-- Nothing of a pattern comes back in it, so that no two occurrences overlap. -/
def Unbordered (pattern : List Char) : Prop := ∃ c cs, pattern = c :: cs ∧ c ∉ cs

/-- A pattern that is not in the text before it has no earlier occurrence. -/
private theorem not_prefix {pattern before : List Char} (unbordered : Unbordered pattern)
    (after : List Char) (nonempty : before ≠ []) (absent : ¬ pattern <:+: before) :
    ¬ pattern <+: before ++ (pattern ++ after) := by
  obtain ⟨c, cs, rfl, once⟩ := unbordered
  rintro ⟨rest, same⟩
  rcases List.append_eq_append_iff.mp same with ⟨more, longer, _⟩ | ⟨more, shorter, tail⟩
  · exact absent ⟨[], more, by simpa using longer.symm⟩
  · cases before with
    | nil => exact nonempty rfl
    | cons d before =>
      -- the occurrence would reach over the end of `before`, to the next `c`
      cases more with
      | nil => exact absent ⟨[], [], by simpa using shorter⟩
      | cons e more =>
        have head : c = e := (List.cons.inj tail).1
        have inside : e ∈ cs := by
          rw [(List.cons.inj shorter).2]
          simp
        exact once (head ▸ inside)

private theorem offset_first {pattern before : List Char} (unbordered : Unbordered pattern)
    (absent : ¬ pattern <:+: before) (after : List Char) :
    offset pattern (before ++ (pattern ++ after)) = some (String.ofList before).utf8ByteSize := by
  induction before with
  | nil =>
    obtain ⟨c, cs, rfl, _⟩ := unbordered
    simp [offset]
  | cons d before ih =>
    have later : ¬ pattern <:+: before := fun inside =>
      absent (inside.trans (List.suffix_cons d before).isInfix)
    have here := not_prefix unbordered after (List.cons_ne_nil d before) absent
    rw [List.cons_append, ← List.isPrefixOf_iff_prefix] at here
    rw [List.cons_append, offset, if_neg here, ih later, utf8ByteSize_cons]
    rfl

/-- Where a search finds the pattern, the text has it. -/
private theorem offset_sound {pattern text : List Char} {n : Nat}
    (found : offset pattern text = some n) :
    ∃ before after, text = before ++ (pattern ++ after) ∧
      (String.ofList before).utf8ByteSize = n := by
  induction text generalizing n with
  | nil =>
    simp only [offset] at found
    split at found
    · rename_i empty
      cases found
      exact ⟨[], [], by simp [empty], rfl⟩
    · cases found
  | cons c text ih =>
    rw [offset] at found
    split at found
    · rename_i here
      cases found
      obtain ⟨after, same⟩ := List.isPrefixOf_iff_prefix.mp here
      exact ⟨[], after, by simp [same], rfl⟩
    · obtain ⟨m, below, rfl⟩ := Option.map_eq_some_iff.mp found
      obtain ⟨before, after, rfl, size⟩ := ih below
      exact ⟨c :: before, after, rfl, by rw [utf8ByteSize_cons, size]⟩

end Offsets

variable {before pattern after text : String}

theorem find_first (unbordered : Unbordered pattern.toList)
    (absent : ¬ pattern.toList <:+: before.toList) :
    find (before ++ pattern ++ after) pattern = some before.utf8ByteSize := by
  have first := offset_first unbordered absent after.toList
  rw [String.ofList_toList] at first
  simpa [find, String.toList_append] using first

/-- A mark of one character is found where it first stands. -/
theorem find_mark {c : Char} (mark : pattern.toList = [c]) (absent : c ∉ before.toList) :
    find (before ++ pattern ++ after) pattern = some before.utf8ByteSize := by
  apply find_first
  · exact ⟨c, [], mark, by simp⟩
  · rw [mark, List.singleton_infix_iff]
    exact absent

theorem exists_of_find {n : Nat} (found : find text pattern = some n) :
    ∃ before after, text = before ++ pattern ++ after ∧ before.utf8ByteSize = n := by
  obtain ⟨before, after, same, size⟩ := offset_sound found
  refine ⟨String.ofList before, String.ofList after, ?_, size⟩
  rw [← String.toList_inj]
  simp [String.toList_append, same]

end Text
