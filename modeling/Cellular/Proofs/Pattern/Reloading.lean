import Cellular.Proofs.Pattern.Reading

/-!
# Loading and saving again

The reader takes more than the writer makes: sections in any order and more than once,
markers and names in any letter case, blank lines, lines in front of the first marker.
All of this is gone after the first load, and from then on a pattern is the same each
time that it is written and read (`reload_of_parse`).
-/

namespace Cellular.Pattern

def reload : Nat → Pattern → Except PatternError Pattern
  | 0, pattern => .ok pattern
  | times + 1, pattern => do reload times (← parse pattern.render)

variable {pattern : Pattern}

theorem IsStorable.withSettings (h : pattern.IsStorable) (settings : String) :
    (pattern.withSettings settings).IsStorable :=
  { h with }

theorem IsStorable.exists_reload (h : pattern.IsStorable) (times : Nat) :
    ∃ settings, reload times pattern = .ok (pattern.withSettings settings) := by
  induction times generalizing pattern with
  | zero => exact ⟨pattern.settings, rfl⟩
  | succ times ih =>
      obtain ⟨settings, hsettings⟩ := ih (h.withSettings pattern.readSummary)
      exact ⟨settings, by rw [reload, h.parse_render_eq_ok]; exact hsettings⟩

theorem IsStorable.reload_eq_self (h : pattern.IsStorable)
    (hsummary : pattern.readSummary = pattern.settings) (times : Nat) :
    reload times pattern = .ok pattern := by
  induction times with
  | zero => rfl
  | succ times ih =>
      rw [reload, h.parse_render_eq_ok, hsummary]
      exact ih

/-- What was read from a text without carriage returns is written and read back with
the same states, rules, neighborhood and grid, any number of times, and with the same
summary unless that ends in a line feed. -/
theorem reload_of_parse {text : String} (h : parse text = .ok pattern)
    (hreturn : '\r' ∉ text.toList) :
    (∃ settings, parse pattern.render = .ok { pattern with settings := settings } ∧
      (pattern.settings.toList.getLast? ≠ some '\n' → settings = pattern.settings)) ∧
    ∀ times, ∃ settings,
      reload times pattern = .ok { pattern with settings := settings } ∧
      (pattern.settings.toList.getLast? ≠ some '\n' → settings = pattern.settings) := by
  have hstorable := isStorable_of_parse h hreturn
  obtain ⟨hsettings, hplain⟩ := isPlain_settings_of_parse h hreturn
  have hsummary : pattern.settings.toList.getLast? ≠ some '\n' →
      pattern.readSummary = pattern.settings := fun hlast =>
    readSummary_eq_self hsettings hlast hplain
  refine ⟨⟨_, hstorable.parse_render_eq_ok, hsummary⟩, fun times => ?_⟩
  by_cases hlast : pattern.settings.toList.getLast? = some '\n'
  · obtain ⟨settings, hreload⟩ := hstorable.exists_reload times
    exact ⟨settings, hreload, fun hne => absurd hlast hne⟩
  · exact ⟨pattern.settings, hstorable.reload_eq_self (hsummary hlast) times, fun _ => rfl⟩

/-- A file with its sections out of order, one of them twice, and a cell drawn twice. -/
def handwritten : String :=
  "drawn by hand\n [size]\n\n 2 +3\n[Cells]\n0 0 b;\n\n0 0 A ;\n-1 -1 b;\n" ++
    "[States]\n a;\nB ;;\n[neighbors]\nnw e\nE n\n[RULES]\n\n" ++
    "free/a:([nw]@=#a);\n[algorithm settings]\nEpoch: 3\n\nby hand\n[size]\n9 9"

theorem reload_handwritten :
    '\r' ∉ handwritten.toList ∧
      ∃ pattern, parse handwritten = .ok pattern ∧
        pattern.settings = "Epoch: 3\n\nby hand" ∧
        pattern.states.userNames = ["A", "B"] ∧ pattern.grid.liveCount = 2 ∧
        ∀ times, reload times pattern = .ok pattern := by
  have hreturn : '\r' ∉ handwritten.toList := by decide +kernel
  have hread : (parse handwritten).map
      (fun pattern => (pattern.settings, pattern.states.userNames,
        pattern.grid.liveCount)) =
      .ok ("Epoch: 3\n\nby hand", ["A", "B"], 2) := by
    decide +kernel
  obtain ⟨pattern, hpattern, hparts⟩ := exists_ok_of_map_eq_ok hread
  simp only [Prod.mk.injEq] at hparts
  obtain ⟨hsettings, hnames, hcount⟩ := hparts
  refine ⟨hreturn, pattern, hpattern, hsettings, hnames, hcount, fun times => ?_⟩
  obtain ⟨settings, hreload, hsame⟩ := (reload_of_parse hpattern hreturn).2 times
  have hlast : pattern.settings.toList.getLast? ≠ some '\n' := by
    rw [hsettings]
    decide
  rw [hreload, hsame hlast]

end Cellular.Pattern
