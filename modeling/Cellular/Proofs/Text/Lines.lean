import Cellular.Text.Lines
import Mathlib.Data.List.Basic

/-!
# Lines that are written and read

Lines without line feeds are read back as they were written, but for a carriage
return at the end of a line (`lines_unlines`).  A text without carriage returns
is its lines with line feeds in between, unless it ends in a line feed
(`intercalate_lines`), and joining lines makes no new ones
(`mem_of_mem_lines_intercalate`).
-/

namespace Cellular.Text

def stripReturn : List Char → List Char
  | [] => []
  | ['\r'] => []
  | c :: rest => c :: stripReturn rest

@[simp] theorem stripReturn_nil : stripReturn [] = [] := rfl

theorem stripReturn_cons_of_ne_nil {c : Char} {rest : List Char} (h : rest ≠ []) :
    stripReturn (c :: rest) = c :: stripReturn rest := by
  cases rest with
  | nil => exact absurd rfl h
  | cons next rest => rw [stripReturn]; simp

theorem stripReturn_cons_of_ne_return {c : Char} {rest : List Char} (h : c ≠ '\r') :
    stripReturn (c :: rest) = c :: stripReturn rest := by
  rw [stripReturn]
  rintro rfl
  exact absurd rfl h

theorem eq_stripReturn_or (line : List Char) :
    line = stripReturn line ∨ line = stripReturn line ++ ['\r'] := by
  induction line with
  | nil => exact .inl rfl
  | cons c rest ih =>
      cases rest with
      | nil =>
          by_cases h : c = '\r'
          · subst h
            exact .inr rfl
          · rw [stripReturn_cons_of_ne_return h]
            exact .inl rfl
      | cons next rest =>
          rw [stripReturn_cons_of_ne_nil (by simp), List.cons_append]
          exact ih.imp (congrArg (c :: ·)) (congrArg (c :: ·))

theorem stripReturn_eq_self {line : List Char} (h : '\r' ∉ line) :
    stripReturn line = line := by
  rcases eq_stripReturn_or line with hline | hline
  · exact hline.symm
  · rw [hline] at h
    simp at h

/-! ## Texts on one line -/

def Unbroken (text : List Char) : Prop := '\n' ∉ text ∧ '\r' ∉ text

instance {text : List Char} : Decidable (Unbroken text) :=
  inferInstanceAs (Decidable (_ ∧ _))

@[simp] theorem unbroken_append {first second : List Char} :
    Unbroken (first ++ second) ↔ Unbroken first ∧ Unbroken second := by
  simp only [Unbroken, List.mem_append, not_or]
  tauto

theorem notMem_intercalate {c : Char} {separator : List Char}
    {pieces : List (List Char)} (hseparator : c ∉ separator)
    (h : ∀ piece ∈ pieces, c ∉ piece) : c ∉ separator.intercalate pieces := by
  induction pieces with
  | nil => simp
  | cons piece pieces ih =>
      rw [List.forall_mem_cons] at h
      cases pieces with
      | nil => exact (List.intercalate_singleton).symm ▸ h.1
      | cons next pieces =>
          rw [List.intercalate_cons_of_ne_nil (by simp)]
          simp [h.1, hseparator, ih h.2]

theorem unbroken_intercalate {separator : List Char} {pieces : List (List Char)}
    (hseparator : Unbroken separator) (h : ∀ piece ∈ pieces, Unbroken piece) :
    Unbroken (separator.intercalate pieces) :=
  ⟨notMem_intercalate hseparator.1 fun piece hmem => (h piece hmem).1,
    notMem_intercalate hseparator.2 fun piece hmem => (h piece hmem).2⟩

/-! ## Reading what was written -/

theorem lines_cons_cons {c next : Char} {rest : List Char} (hc : c ≠ '\n')
    (hnext : next ≠ '\n') {line : List Char} {others : List (List Char)}
    (h : lines (next :: rest) = line :: others) :
    lines (c :: next :: rest) = (c :: line) :: others := by
  rw [lines]
  · rw [h]
  · exact hc
  · rintro rest rfl ⟨⟩
    exact hnext rfl

theorem lines_append {line : List Char} (h : '\n' ∉ line) (rest : List Char) :
    lines (line ++ '\n' :: rest) = stripReturn line :: lines rest := by
  induction line with
  | nil => rw [List.nil_append, lines, stripReturn_nil]
  | cons c line ih =>
      rw [List.mem_cons, not_or] at h
      obtain ⟨hc, hline⟩ := h
      cases line with
      | nil =>
          -- A carriage return in front of the line feed goes with it.
          by_cases hreturn : c = '\r'
          · subst hreturn
            rw [List.singleton_append, lines]
            rfl
          · rw [List.singleton_append, stripReturn_cons_of_ne_return hreturn, lines]
            · rw [lines]
              rfl
            · exact Ne.symm hc
            · exact fun _ heq => absurd heq hreturn
      | cons next line =>
          have hnext : next ≠ '\n' := fun heq => hline (heq ▸ List.mem_cons_self)
          rw [stripReturn_cons_of_ne_nil (by simp)]
          exact lines_cons_cons (Ne.symm hc) hnext (ih hline)

theorem lines_unlines {written : List (List Char)}
    (h : ∀ line ∈ written, '\n' ∉ line) :
    lines (unlines written) = written.map stripReturn := by
  induction written with
  | nil => rfl
  | cons line written ih =>
      rw [List.forall_mem_cons] at h
      rw [unlines, List.flatMap_cons, List.append_assoc, List.singleton_append,
        lines_append h.1, List.map_cons]
      exact congrArg _ (ih h.2)

theorem lines_unlines_eq_self {written : List (List Char)}
    (h : ∀ line ∈ written, Unbroken line) : lines (unlines written) = written := by
  rw [lines_unlines fun line hmem => (h line hmem).1,
    List.map_congr_left fun line hmem => stripReturn_eq_self (h line hmem).2,
    List.map_id']

/-! ## The lines of a text -/

theorem lines_eq_nil_iff {text : List Char} : lines text = [] ↔ text = [] := by
  constructor
  · fun_cases lines text <;> simp
  · rintro rfl
    rfl

theorem mem_of_mem_lines {c : Char} {line text : List Char} (h : line ∈ lines text)
    (hc : c ∈ line) : c ∈ text ∧ c ≠ '\n' := by
  fun_induction lines text generalizing line with
  | case1 => cases h
  | case2 rest ih =>
      rcases List.mem_cons.mp h with rfl | hrest
      · cases hc
      · exact (ih hrest hc).imp_left (List.mem_cons_of_mem _)
  | case3 rest ih =>
      rcases List.mem_cons.mp h with rfl | hrest
      · cases hc
      · exact (ih hrest hc).imp_left fun hmem => by simp [hmem]
  | case4 first rest hfirst _ _ _ =>
      rw [List.mem_singleton.mp h, List.mem_singleton] at hc
      exact ⟨hc ▸ List.mem_cons_self, fun heq => hfirst (hc ▸ heq)⟩
  | case5 first rest hfirst _ line' others hlines ih =>
      have hlater : ∀ {line}, line ∈ line' :: others → c ∈ line →
          c ∈ first :: rest ∧ c ≠ '\n' := fun hmem hc =>
        (ih (hlines ▸ hmem) hc).imp_left (List.mem_cons_of_mem _)
      rcases List.mem_cons.mp h with rfl | hothers
      · rcases List.mem_cons.mp hc with rfl | hline
        · exact ⟨List.mem_cons_self, hfirst⟩
        · exact hlater List.mem_cons_self hline
      · exact hlater (List.mem_cons_of_mem _ hothers) hc

theorem intercalate_lines {text : List Char} (hreturn : '\r' ∉ text)
    (hlast : text.getLast? ≠ some '\n') :
    ['\n'].intercalate (lines text) = text := by
  fun_induction lines text with
  | case1 => rfl
  | case2 rest ih =>
      cases rest with
      | nil => exact absurd rfl hlast
      | cons next rest =>
          have hsome : lines (next :: rest) ≠ [] := by simp [lines_eq_nil_iff]
          rw [List.getLast?_cons_cons] at hlast
          rw [List.intercalate_cons_of_ne_nil hsome,
            ih (mt (List.mem_cons_of_mem _) hreturn) hlast]
          rfl
  | case3 rest _ => exact absurd List.mem_cons_self hreturn
  | case4 first rest _ _ hrest _ =>
      rw [lines_eq_nil_iff.mp hrest, List.intercalate_singleton]
  | case5 first rest _ _ line others hrest ih =>
      cases rest with
      | nil => cases hrest
      | cons next rest =>
          rw [List.getLast?_cons_cons] at hlast
          rw [List.intercalate_cons_cons_left, ← hrest,
            ih (mt (List.mem_cons_of_mem _) hreturn) hlast]

theorem unbroken_of_mem_lines {line text : List Char} (hreturn : '\r' ∉ text)
    (h : line ∈ lines text) : Unbroken line :=
  ⟨fun hmem => (mem_of_mem_lines h hmem).2 rfl,
    fun hmem => hreturn (mem_of_mem_lines h hmem).1⟩

theorem lines_eq_singleton {line : List Char} (hsome : line ≠ []) (h : Unbroken line) :
    lines line = [line] := by
  fun_induction lines line with
  | case1 => exact absurd rfl hsome
  | case2 rest _ => exact absurd List.mem_cons_self h.1
  | case3 rest _ => exact absurd List.mem_cons_self h.2
  | case4 first rest _ _ hrest _ => rw [lines_eq_nil_iff.mp hrest]
  | case5 first rest _ _ line others hrest ih =>
      have hparts : Unbroken ([first] ++ rest) := h
      have hunbroken : Unbroken rest := (unbroken_append.mp hparts).2
      have hne : rest ≠ [] := by
        rintro rfl
        cases hrest
      obtain ⟨rfl, rfl⟩ := List.cons.inj (hrest.symm.trans (ih hne hunbroken))
      rfl

theorem mem_of_mem_lines_intercalate {written : List (List Char)}
    (hwritten : ∀ line ∈ written, Unbroken line) {line : List Char}
    (h : line ∈ lines (['\n'].intercalate written)) : line ∈ written := by
  induction written with
  | nil => cases h
  | cons first written ih =>
      rw [List.forall_mem_cons] at hwritten
      cases written with
      | nil =>
          rw [List.intercalate_singleton] at h
          by_cases hsome : first = []
          · rw [hsome] at h
            cases h
          · rwa [lines_eq_singleton hsome hwritten.1] at h
      | cons next written =>
          rw [List.intercalate_cons_of_ne_nil (by simp), List.append_assoc,
            List.singleton_append, lines_append hwritten.1.1,
            stripReturn_eq_self hwritten.1.2, List.mem_cons] at h
          rcases h with rfl | hlater
          · exact List.mem_cons_self
          · exact List.mem_cons_of_mem _ (ih hwritten.2 hlater)

end Cellular.Text
