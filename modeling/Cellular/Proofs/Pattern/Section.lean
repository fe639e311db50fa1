import Cellular.Pattern.Section
import Cellular.Proofs.Text.Words

/-!
# Sections that are written and read

A text that is made of sections, each a marker and lines that are no markers, is
split into just these sections (`exists_body?`).
-/

namespace Cellular.Section

open Text

variable {part : Section}

theorem mem_all (part : Section) : part ∈ all := by cases part <;> decide

/-! ## Markers -/

theorem ofLine?_marker (part : Section) : ofLine? part.marker.toList = some part := by
  cases part <;> decide

theorem isMarker_marker (part : Section) : isMarker part.marker.toList = true := by
  rw [isMarker, ofLine?_marker]
  rfl

theorem isMarker_eq_true_iff {line : List Char} :
    isMarker line = true ↔
      ∃ part : Section, part.marker.toList = (trim line).map Char.toUpper := by
  constructor
  · intro h
    obtain ⟨part, hpart⟩ := Option.isSome_iff_exists.mp h
    exact ⟨part, by simpa using List.find?_some hpart⟩
  · rintro ⟨part, hpart⟩
    rw [isMarker, ofLine?, List.find?_isSome]
    exact ⟨part, part.mem_all, by simpa using hpart⟩

theorem isMarker_stripReturn (line : List Char) :
    isMarker (stripReturn line) = isMarker line := by
  simp only [isMarker, ofLine?, trim_stripReturn]

theorem isMarker_append {word rest : List Char} (hword : IsWord word)
    (hbracket : '[' ∉ word) : isMarker (word ++ rest) = false := by
  obtain ⟨c, letters, rfl, hblank⟩ := hword.head
  rw [← Bool.not_eq_true, isMarker_eq_true_iff]
  rintro ⟨part, hpart⟩
  have hhead := congrArg List.head? hpart
  rw [List.head?_map, List.cons_append, head?_trim hblank] at hhead
  have hfirst : part.marker.toList.head? = some '[' := by cases part <;> rfl
  have hupper : '['.toNat = c.toUpper.toNat := by
    rw [hfirst] at hhead
    exact congrArg Char.toNat (Option.some.inj hhead)
  have hcode : '['.toNat = 91 := rfl
  rw [toNat_toUpper, hcode] at hupper
  have hc : '['.toNat = c.toNat := by split at hupper <;> omega
  exact hbracket (Char.toNat_inj.mp hc ▸ List.mem_cons_self)

theorem ofLine?_eq_none {line : List Char} (h : isMarker line = false) :
    ofLine? line = none := by
  simpa [isMarker] using h

structure IsPlain (line : List Char) : Prop where
  unbroken : Unbroken line
  isMarker_eq_false : isMarker line = false

/-! ## Bodies -/

variable {front body rest : List NumberedLine}

theorem body?_append_of_ne (h : ∀ line ∈ front, ofLine? line.text ≠ some part) :
    part.body? (front ++ rest) = part.body? rest := by
  rw [body?, List.dropWhile_append_of_pos (by simpa using h), body?]

theorem body?_cons_append {marker : NumberedLine}
    (hmarker : ofLine? marker.text = some part)
    (hbody : ∀ line ∈ body, isMarker line.text = false)
    (hrest : ∀ line ∈ rest.head?, isMarker line.text = true) :
    part.body? (marker :: (body ++ rest)) = some body := by
  have hstop : rest.takeWhile (fun line => !isMarker line.text) = [] := by
    cases rest with
    | nil => rfl
    | cons line rest =>
        rw [List.takeWhile_cons_of_neg (by simp [hrest line rfl])]
  rw [body?, List.dropWhile_cons_of_neg (by simp [hmarker])]
  dsimp only
  rw [List.takeWhile_append_of_pos (by simpa using hbody), hstop, List.append_nil]

/-- Every section of a text in sections has the lines that stand below its
marker. -/
theorem exists_body? {parts : List Section} {linesOf : Section → List (List Char)}
    {text : List NumberedLine}
    (htext : text.map NumberedLine.text =
      parts.flatMap fun part => part.marker.toList :: linesOf part)
    (hplain : ∀ part ∈ parts, ∀ line ∈ linesOf part, isMarker line = false)
    (hnodup : parts.Nodup) (hmem : part ∈ parts) :
    ∃ body, part.body? text = some body ∧
      body.map NumberedLine.text = linesOf part := by
  -- The sections in front of the wanted one are passed over as a whole.
  induction parts generalizing text with
  | nil => cases hmem
  | cons first parts ih =>
      rw [List.forall_mem_cons] at hplain
      rw [List.nodup_cons] at hnodup
      rw [List.flatMap_cons, List.cons_append, List.map_eq_cons_iff] at htext
      obtain ⟨marker, text, rfl, hmarker, htext⟩ := htext
      obtain ⟨body, rest, rfl, hbody, hrest⟩ := List.map_eq_append_iff.mp htext
      have hopens : ofLine? marker.text = some first :=
        hmarker ▸ ofLine?_marker first
      have hbodyPlain : ∀ line ∈ body, isMarker line.text = false := by
        intro line hline
        exact hplain.1 _ (hbody ▸ List.mem_map_of_mem hline)
      by_cases hfirst : part = first
      · subst hfirst
        refine ⟨body, body?_cons_append hopens hbodyPlain ?_, hbody⟩
        cases parts with
        | nil => simp [List.map_eq_nil_iff.mp hrest]
        | cons next parts =>
            obtain ⟨line, rest, rfl, hline, -⟩ := List.map_eq_cons_iff.mp hrest
            rintro _ ⟨⟩
            rw [hline, isMarker_marker]
      · have hpassed : ∀ line ∈ marker :: body, ofLine? line.text ≠ some part := by
          rw [List.forall_mem_cons]
          refine ⟨fun heq => hfirst (Option.some.inj (heq.symm.trans hopens)), ?_⟩
          intro line hline
          simp [ofLine?_eq_none (hbodyPlain line hline)]
        have hlater : part ∈ parts := (List.mem_cons.mp hmem).resolve_left hfirst
        rw [← List.cons_append, body?_append_of_ne hpassed]
        exact ih hrest hplain.2 hnodup.2 hlater

end Cellular.Section
