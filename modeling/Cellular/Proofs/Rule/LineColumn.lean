import Cellular.Proofs.Rule.Accounting
import Mathlib.Data.Prod.Lex

/-!
# Lines and columns

A line and a column stand for one place of a text.  Both grow from one character to the
next in the order of lines and then columns (`lineColumn_lt`), they count the line feeds
before the place and the characters behind the last of them (`exists_breaksInto`), and
the place can be read off them again (`offsetAt_lineColumn`).  No place is blamed twice
in a compilation, so the diagnostics that are shown by line and column are told apart by
them (`lineColumn_identifies`).
-/

namespace Cellular

variable {text front whole line : List Char} {offset later : Nat}

/-! ## One character further -/

theorem lineColumn_succ (h : offset < text.length) :
    lineColumn text (offset + 1) = advance (lineColumn text offset) text[offset] := by
  rw [lineColumn, List.take_succ_eq_append_getElem h, List.foldl_append]
  rfl

theorem lineColumn_of_length_le (h : text.length ≤ offset) :
    lineColumn text offset = lineColumn text text.length := by
  rw [lineColumn, lineColumn, List.take_of_length_le h, List.take_length]

theorem toLex_lt_advance (place : Nat × Nat) (c : Char) :
    toLex place < toLex (advance place c) := by
  rw [Prod.Lex.toLex_lt_toLex, advance]
  split
  · exact .inl (Nat.lt_succ_self place.1)
  · exact .inr ⟨rfl, Nat.lt_succ_self place.2⟩

theorem lineColumn_lt (h : offset < later) (hlater : later ≤ text.length) :
    toLex (lineColumn text offset) < toLex (lineColumn text later) := by
  induction later with
  | zero => exact absurd h (Nat.not_lt_zero offset)
  | succ later ih =>
      have hstep : toLex (lineColumn text later) < toLex (lineColumn text (later + 1)) := by
        rw [lineColumn_succ hlater]
        exact toLex_lt_advance _ _
      rcases Nat.lt_succ_iff_lt_or_eq.mp h with hlt | rfl
      · exact (ih hlt (Nat.le_of_succ_le hlater)).trans hstep
      · exact hstep

/-! ## What stands before a place -/

/-- What stands before a place is whole lines, each with its line feed, and the beginning
of the line that the place is on. -/
structure BreaksInto (front whole line : List Char) : Prop where
  eq_append : front = whole ++ line
  ended : whole = [] ∨ whole.getLast? = some '\n'
  begun : '\n' ∉ line

theorem exists_foldl_advance (front : List Char) :
    ∃ whole line, BreaksInto front whole line ∧
      front.foldl advance (1, 1) = (front.count '\n' + 1, line.length + 1) := by
  -- From the end: the last character either ends its line or is the last of it.
  induction front using List.reverseRecOn with
  | nil => exact ⟨[], [], ⟨rfl, .inl rfl, List.not_mem_nil⟩, rfl⟩
  | append_singleton front c ih =>
      obtain ⟨whole, line, ⟨heq, hended, hbegun⟩, hplace⟩ := ih
      rw [List.foldl_append, hplace, List.count_append]
      by_cases hc : c = '\n'
      · subst hc
        exact ⟨front ++ ['\n'], [], ⟨(List.append_nil _).symm,
          .inr List.getLast?_concat, List.not_mem_nil⟩, rfl⟩
      · refine ⟨whole, line ++ [c], ⟨by rw [heq, List.append_assoc], hended, ?_⟩, ?_⟩
        · simpa [hbegun] using Ne.symm hc
        · simp [advance, hc]

theorem exists_breaksInto (text : List Char) (offset : Nat) :
    ∃ whole line, BreaksInto (text.take offset) whole line ∧
      lineColumn text offset = ((text.take offset).count '\n' + 1, line.length + 1) :=
  exists_foldl_advance (text.take offset)

/-! ## Back to the place -/

def lineStart : List Char → Nat → Nat
  | _, 0 => 0
  | [], _ + 1 => 0
  | c :: rest, count + 1 => lineStart rest (if c = '\n' then count else count + 1) + 1

def offsetAt (text : List Char) (place : Nat × Nat) : Nat :=
  lineStart text (place.1 - 1) + (place.2 - 1)

theorem lineStart_append (hended : whole = [] ∨ whole.getLast? = some '\n')
    (rest : List Char) : lineStart (whole ++ rest) (whole.count '\n') = whole.length := by
  induction whole with
  | nil => cases rest <;> rfl
  | cons c whole ih =>
      have hlast : (c :: whole).getLast? = some '\n' :=
        hended.resolve_left (List.cons_ne_nil c whole)
      have hrest : whole = [] ∨ whole.getLast? = some '\n' := by
        cases whole with
        | nil => exact .inl rfl
        | cons next whole => exact .inr (by rwa [List.getLast?_cons_cons] at hlast)
      obtain ⟨count, hcount⟩ := Nat.exists_eq_add_one.mpr
        (List.count_pos_iff.mpr (List.mem_of_getLast? hlast))
      have hleft : (if c = '\n' then count else count + 1) = whole.count '\n' := by
        rw [List.count_cons] at hcount
        split <;> simp_all
      rw [hcount, List.cons_append, lineStart, hleft, ih hrest, List.length_cons]

theorem offsetAt_lineColumn (h : offset ≤ text.length) :
    offsetAt text (lineColumn text offset) = offset := by
  obtain ⟨whole, line, ⟨heq, hended, hbegun⟩, hplace⟩ := exists_breaksInto text offset
  have hcount : (text.take offset).count '\n' = whole.count '\n' := by
    rw [heq, List.count_append, List.count_eq_zero.mpr hbegun, Nat.add_zero]
  have htext : text = whole ++ (line ++ text.drop offset) := by
    rw [← List.append_assoc, ← heq, List.take_append_drop]
  have hlength : whole.length + line.length = offset := by
    rw [← List.length_append, ← heq, List.length_take_of_le h]
  rw [offsetAt, hplace, hcount, Nat.add_sub_cancel, Nat.add_sub_cancel]
  conv_lhs => rw [htext]
  rw [lineStart_append hended, hlength]

/-! ## Diagnostics by line and column -/

namespace Compiler

theorem pairwise_offsets (compiler : Compiler) (text : String) :
    (compiler.compile text).diagnostics.Pairwise (·.offset < ·.offset) := by
  rcases Nat.lt_or_ge compiler.limits.rulesMax (compiler.compile text).table.size with
    hmany | hfew
  · rw [diagnostics_compile_of_lt hmany]
    exact List.pairwise_singleton _ _
  · exact pairwise_diagnostics_compile hfew

theorem offset_le_length {compiler : Compiler} {text : String} {diagnostic : Diagnostic}
    (h : diagnostic ∈ (compiler.compile text).diagnostics) :
    diagnostic.offset ≤ text.length := by
  rcases Nat.lt_or_ge compiler.limits.rulesMax (compiler.compile text).table.size with
    hmany | hfew
  · rw [diagnostics_compile_of_lt hmany, List.mem_singleton] at h
    rw [h]
    exact Nat.zero_le _
  · rcases diagnostic_place hfew h with ⟨token, htoken, hplace⟩ | hplace
    · rw [hplace]
      exact Nat.le_of_lt (offset_lt_length htoken)
    · exact Nat.le_of_eq hplace

/-- Up to the end of a text the lines and columns of its places ascend, and they stay what
they are there behind it.  The line counts the line feeds before the place, and the column
the characters on the line before it.  The place can be read off them, so the diagnostics
of a compilation, whose lines and columns ascend, have no line and column in common. -/
theorem lineColumn_identifies (text : String) :
    (∀ offset later, offset < later → later ≤ text.length →
      toLex (lineColumn text.toList offset) < toLex (lineColumn text.toList later)) ∧
      (∀ offset, text.length ≤ offset →
        lineColumn text.toList offset = lineColumn text.toList text.length) ∧
      (∀ offset, ∃ whole line, BreaksInto (text.toList.take offset) whole line ∧
        lineColumn text.toList offset =
          ((text.toList.take offset).count '\n' + 1, line.length + 1)) ∧
      (∀ offset ≤ text.length,
        offsetAt text.toList (lineColumn text.toList offset) = offset) ∧
      ∀ compiler : Compiler,
        ((compiler.compile text).diagnostics.Pairwise fun first second =>
          toLex (lineColumn text.toList first.offset) <
            toLex (lineColumn text.toList second.offset)) ∧
        (∀ first ∈ (compiler.compile text).diagnostics,
          ∀ second ∈ (compiler.compile text).diagnostics,
          lineColumn text.toList first.offset = lineColumn text.toList second.offset →
            first = second) ∧
        ∀ diagnostic ∈ (compiler.compile text).diagnostics,
          offsetAt text.toList (lineColumn text.toList diagnostic.offset) =
            diagnostic.offset := by
  have hlength : text.toList.length = text.length := String.length_toList
  have hback : ∀ offset ≤ text.length,
      offsetAt text.toList (lineColumn text.toList offset) = offset :=
    fun offset h => offsetAt_lineColumn (h.trans_eq hlength.symm)
  refine ⟨fun offset later h hlater => lineColumn_lt h (hlater.trans_eq hlength.symm),
    fun offset h => ?past, exists_breaksInto text.toList, hback, fun compiler =>
      ⟨?ascending, ?apart, fun diagnostic hmem => hback _ (offset_le_length hmem)⟩⟩
  case past =>
    rw [lineColumn_of_length_le (hlength.trans_le h), hlength]
  case ascending =>
    refine (compiler.pairwise_offsets text).imp_of_mem fun _ hsecond hlt => ?_
    exact lineColumn_lt hlt ((offset_le_length hsecond).trans_eq hlength.symm)
  case apart =>
    intro first hfirst second hsecond heq
    have hoffset : first.offset = second.offset := by
      rw [← hback _ (offset_le_length hfirst), heq, hback _ (offset_le_length hsecond)]
    have hnodup := List.pairwise_map.mpr
      ((compiler.pairwise_offsets text).imp Nat.ne_of_lt)
    exact List.inj_on_of_nodup_map hnodup hfirst hsecond hoffset

def foreignText : String := "é\nÿ\n\n€ a/"

theorem lineColumn_identifies_foreign :
    ((wordCompiler.compile foreignText).diagnostics.map fun diagnostic =>
        lineColumn foreignText.toList diagnostic.offset) =
        [(1, 1), (2, 1), (4, 1), (4, 3)] ∧
      (∀ diagnostic ∈ (wordCompiler.compile foreignText).diagnostics,
        offsetAt foreignText.toList (lineColumn foreignText.toList diagnostic.offset) =
          diagnostic.offset) ∧
      offsetAt foreignText.toList (4, 3) = 7 := by
  obtain ⟨-, -, -, hback, hcompiled⟩ := lineColumn_identifies foreignText
  have hplace : lineColumn foreignText.toList 7 = (4, 3) := by decide +kernel
  have hsize : (wordCompiler.compile foreignText).table.size ≤
      wordCompiler.limits.rulesMax := by decide +kernel
  have hfound : (Token.scan foreignText.toList).filterMap Token.illegality? ++
      (collect [] (wordCompiler.textOutcomes foreignText)).2 =
        [⟨0, .illegalCharacter 'é'⟩, ⟨2, .illegalCharacter 'ÿ'⟩,
          ⟨5, .illegalCharacter '€'⟩, ⟨7, .invalidFirstState "A"⟩] := by
    decide +kernel
  refine ⟨?_, (hcompiled wordCompiler).2.2, hplace ▸ hback 7 (by decide +kernel)⟩
  rw [diagnostics_compile hsize, hfound, List.mergeSort_of_pairwise (by decide)]
  decide +kernel

end Compiler

end Cellular
