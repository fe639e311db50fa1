import Cellular.Proofs.Success
import Cellular.Rule.Statement
import Cellular.Total

/-!
# Reading from a cursor

A cursor passes over a list of token kinds if these stand at its front and fit
the limit on the length of a rule.  Passing composes
(`Cursor.passes_append_iff`), and taking a token is passing over its kind
(`Cursor.take_eq_ok_iff`).  A production reads a relation between kinds and
values if it succeeds exactly by passing over kinds that are related to its
value (`Reads`).
-/

namespace Cellular

namespace Cursor

variable {limits : Limits} {before after : Cursor} {kind : TokenKind}
  {kinds : List TokenKind}

def kind? (cursor : Cursor) : Option TokenKind :=
  cursor.rest.head?.map Token.kind

/-- The kinds stand at the front of `before`, and `after` is what is left.  An
empty list costs nothing; any other has to fit the limit. -/
structure Passes (limits : Limits) (before : Cursor) (kinds : List TokenKind)
    (after : Cursor) : Prop where
  rest : ∃ taken : List Token, taken.map Token.kind = kinds ∧
    before.rest = taken ++ after.rest ∧
    after.used = before.used + total (taken.map Token.length)
  ending : after.ending = before.ending
  fits : kinds ≠ [] → after.used ≤ limits.ruleCharsMax

theorem passes_nil_iff : Passes limits before [] after ↔ after = before := by
  constructor
  · rintro ⟨⟨taken, htaken, hrest, hused⟩, hending, -⟩
    rw [List.map_eq_nil_iff] at htaken
    subst htaken
    cases before
    cases after
    simp_all
  · rintro rfl
    exact ⟨⟨[], rfl, rfl, by simp⟩, rfl, fun h => absurd rfl h⟩

theorem passes_append_iff {first second : List TokenKind} :
    Passes limits before (first ++ second) after ↔
      ∃ middle, Passes limits before first middle ∧
        Passes limits middle second after := by
  constructor
  · rintro ⟨⟨taken, htaken, hrest, hused⟩, hending, hfits⟩
    obtain ⟨head, tail, rfl, rfl, rfl⟩ := List.map_eq_append_iff.mp htaken
    rw [List.map_append, total_append] at hused
    refine ⟨⟨tail ++ after.rest, before.ending,
      before.used + total (head.map Token.length)⟩, ?_, ?_⟩
    · refine ⟨⟨head, rfl, by simp [hrest], rfl⟩, rfl, fun hne => ?_⟩
      have hlimit := hfits (by simp_all)
      simp only
      omega
    · refine ⟨⟨tail, rfl, rfl, by simp only; omega⟩, hending, fun hne => ?_⟩
      exact hfits (by simp_all)
  · rintro ⟨middle, ⟨⟨head, rfl, hrest, hused⟩, hending, hfits⟩,
      ⟨⟨tail, rfl, hrest', hused'⟩, hending', hfits'⟩⟩
    refine ⟨⟨head ++ tail, by simp, by rw [hrest, hrest']; simp, ?_⟩,
      hending'.trans hending, fun hne => ?_⟩
    · rw [List.map_append, total_append]
      omega
    · cases tail with
      | nil =>
          have hlimit := hfits (by simpa using hne)
          simp only [List.map_nil, total_nil] at hused'
          omega
      | cons token tail => exact hfits' (by simp)

theorem passes_cons_iff :
    Passes limits before (kind :: kinds) after ↔
      ∃ middle, Passes limits before [kind] middle ∧
        Passes limits middle kinds after := by
  rw [← List.singleton_append, passes_append_iff]

theorem Passes.kind? (h : Passes limits before (kind :: kinds) after) :
    before.kind? = some kind := by
  obtain ⟨⟨taken, htaken, hrest, -⟩, -⟩ := h
  obtain ⟨token, others, rfl, rfl, -⟩ := List.map_eq_cons_iff.mp htaken
  simp [Cursor.kind?, hrest]

theorem Passes.length (h : Passes limits before kinds after) :
    before.rest.length = kinds.length + after.rest.length := by
  obtain ⟨⟨taken, rfl, hrest, -⟩, -⟩ := h
  simp [hrest]

/-! ## Looking ahead -/

theorem atSymbol_iff {character : Char} :
    before.atSymbol character = true ↔
      before.kind? = some (.symbol character) := by
  cases hrest : before.rest <;>
    simp [atSymbol, Cursor.kind?, hrest, Token.isSymbol]

theorem atWord_iff {word : String} :
    before.atWord word = true ↔
      before.kind? = some (.word word.toList) := by
  cases hrest : before.rest <;>
    simp [atWord, Cursor.kind?, hrest, Token.isWord]

theorem word?_eq_some_iff {letters : List Char} :
    before.word? = some letters ↔ before.kind? = some (.word letters) := by
  match hrest : before.rest with
  | [] => simp [word?, Cursor.kind?, hrest]
  | ⟨.word other, _, _⟩ :: _ => simp [word?, Cursor.kind?, hrest]
  | ⟨.symbol _, _, _⟩ :: _ => simp [word?, Cursor.kind?, hrest]
  | ⟨.illegal _, _, _⟩ :: _ => simp [word?, Cursor.kind?, hrest]

/-! ## Taking a token -/

theorem take_eq_ok_iff (hkind : before.kind? = some kind) :
    before.take limits = .ok after ↔ Passes limits before [kind] after := by
  obtain ⟨rest, ending, used⟩ := before
  match rest with
  | [] => simp [Cursor.kind?] at hkind
  | token :: rest =>
      simp only [Cursor.kind?, List.head?_cons, Option.map_some,
        Option.some.injEq] at hkind
      simp only [take]
      split
      · rename_i hlong
        constructor
        · intro h
          cases h
        · rintro ⟨⟨taken, htaken, hrest, hused⟩, -, hfits⟩
          obtain ⟨other, rfl, -⟩ := List.map_eq_singleton_iff.mp htaken
          obtain ⟨rfl, -⟩ := List.cons_eq_cons.mp hrest
          have hlimit := hfits (by simp)
          simp only [List.map_cons, List.map_nil, total_cons, total_nil] at hused
          omega
      · rename_i hshort
        rw [Except.ok.injEq]
        constructor
        · rintro rfl
          exact ⟨⟨[token], by simp [hkind], rfl, by simp⟩, rfl,
            fun _ => by simpa using hshort⟩
        · rintro ⟨⟨taken, htaken, hrest, hused⟩, hending, -⟩
          obtain ⟨other, rfl, -⟩ := List.map_eq_singleton_iff.mp htaken
          obtain ⟨rfl, hrest⟩ := List.cons_eq_cons.mp hrest
          cases after
          simp_all

theorem take_bind_eq_ok_iff {α : Type} (hkind : before.kind? = some kind)
    {value result : α} :
    (do
      let next ← before.take limits
      Except.ok (value, next)) = Except.ok (result, after) ↔
      value = result ∧ Passes limits before [kind] after := by
  rw [bind_eq_ok_iff]
  constructor
  · rintro ⟨next, htake, hnext⟩
    cases hnext
    exact ⟨rfl, (take_eq_ok_iff hkind).mp htake⟩
  · rintro ⟨rfl, hpasses⟩
    exact ⟨after, (take_eq_ok_iff hkind).mpr hpasses, rfl⟩

theorem takeSymbol_eq_ok_iff {character : Char} {what : Expected} :
    before.takeSymbol limits character what = .ok after ↔
      Passes limits before [.symbol character] after := by
  rw [takeSymbol]
  split
  · rename_i hat
    exact take_eq_ok_iff (atSymbol_iff.mp hat)
  · rename_i hat
    constructor
    · intro h
      cases h
    · intro h
      exact absurd (atSymbol_iff.mpr h.kind?) hat

end Cursor

/-- The parser succeeds exactly by passing over kinds that mean its value. -/
def Reads {α : Type} (limits : Limits)
    (parser : Cursor → Except Diagnostic (α × Cursor))
    (meaning : List TokenKind → α → Prop) : Prop :=
  ∀ before value after, parser before = .ok (value, after) ↔
    ∃ kinds, before.Passes limits kinds after ∧ meaning kinds value

end Cellular
