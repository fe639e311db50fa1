import Cellular.Proofs.Rule.Productions
import Cellular.Proofs.Rule.Terms

/-!
# Lists

The loops over the terms of a formula and over the directions of a scope read the
lists of the grammar.  Both are inductions on the fuel, which the number of tokens
left always covers.
-/

namespace Cellular.Compiler

variable {compiler : Compiler} {before after : Cursor}

/-! ## Terms -/

theorem connective?_eq_some_iff {connective : Connective} :
    before.connective? = some connective ↔
      ∃ kind, before.kind? = some kind ∧ Grammar.Marks connective kind := by
  have hand : (before.atSymbol '&' || before.atWord "AND") = true ↔
      ∃ kind, before.kind? = some kind ∧ Grammar.IsAnd kind := by
    simp [Cursor.atSymbol_iff, Cursor.atWord_iff, Grammar.IsAnd, and_or_left,
      exists_or]
  have hor : (before.atSymbol '|' || before.atWord "OR") = true ↔
      ∃ kind, before.kind? = some kind ∧ Grammar.IsOr kind := by
    simp [Cursor.atSymbol_iff, Cursor.atWord_iff, Grammar.IsOr, and_or_left,
      exists_or]
  rw [Cursor.connective?]
  split
  · rename_i h
    cases connective with
    | and => simpa [Grammar.Marks] using hand.mp h
    | or =>
        obtain ⟨kind, hkind, hmark⟩ := hand.mp h
        simp only [hkind, Grammar.Marks]
        rcases hmark with rfl | rfl <;> simp [Grammar.IsOr]
  · rename_i h
    rw [hand] at h
    split
    · rename_i h'
      cases connective with
      | and => simpa [Grammar.Marks] using h
      | or => simpa [Grammar.Marks] using hor.mp h'
    · rename_i h'
      rw [hor] at h'
      cases connective with
      | and => simpa [Grammar.Marks] using h
      | or => simpa [Grammar.Marks] using h'

theorem not_marks_symbol {connective : Connective} {closing : Char}
    (hand : closing ≠ '&') (hor : closing ≠ '|') :
    ¬Grammar.Marks connective (.symbol closing) := by
  cases connective <;> simp [Grammar.Marks, Grammar.IsAnd, Grammar.IsOr, hand, hor]

variable {α : Type} {closing : Char} {what : Expected}
  {term : Cursor → Except Diagnostic (α × Cursor)}
  {item : List TokenKind → α → Prop}

theorem terms_succ_eq_ok_iff (hand : closing ≠ '&') (hor : closing ≠ '|')
    {fuel : Nat} {others : List (Connective × α)} :
    compiler.terms closing what term (fuel + 1) before = .ok (others, after) ↔
      (others = [] ∧ before.Passes compiler.limits [.symbol closing] after) ∨
        ∃ connective kind afterMark value afterTerm more,
          Grammar.Marks connective kind ∧
            before.Passes compiler.limits [kind] afterMark ∧
            term afterMark = .ok (value, afterTerm) ∧
            compiler.terms closing what term fuel afterTerm = .ok (more, after) ∧
            others = (connective, value) :: more := by
  rw [terms]
  constructor
  · intro h
    split at h
    · rename_i hclosing
      have hkind := Cursor.atSymbol_iff.mp hclosing
      obtain ⟨rfl, hpasses⟩ := (Cursor.take_bind_eq_ok_iff hkind).mp h
      exact .inl ⟨rfl, hpasses⟩
    · split at h
      · cases h
      · rename_i connective hconnective
        obtain ⟨kind, hkind, hmark⟩ := connective?_eq_some_iff.mp hconnective
        simp only [bind_eq_ok_iff, Prod.exists] at h
        obtain ⟨afterMark, htake, value, afterTerm, hvalue, more, last, hmore,
          hlast⟩ := h
        cases hlast
        exact .inr ⟨connective, kind, afterMark, value, afterTerm, more, hmark,
          (Cursor.take_eq_ok_iff hkind).mp htake, hvalue, hmore, rfl⟩
  · rintro (⟨rfl, hpasses⟩ | ⟨connective, kind, afterMark, value, afterTerm, more,
      hmark, hpasses, hvalue, hmore, rfl⟩)
    · rw [if_pos (Cursor.atSymbol_iff.mpr hpasses.kind?)]
      exact (Cursor.take_bind_eq_ok_iff hpasses.kind?).mpr ⟨rfl, hpasses⟩
    · have hclosing : ¬before.atSymbol closing = true := by
        rw [Cursor.atSymbol_iff, hpasses.kind?, Option.some.injEq]
        rintro rfl
        exact not_marks_symbol hand hor hmark
      have hconnective : before.connective? = some connective :=
        connective?_eq_some_iff.mpr ⟨kind, hpasses.kind?, hmark⟩
      have htake := (Cursor.take_eq_ok_iff hpasses.kind?).mpr hpasses
      rw [if_neg hclosing, hconnective]
      simp only [htake, hvalue, hmore, bind, Except.bind]

theorem terms_eq_ok_iff (hterm : Reads compiler.limits term item)
    (hand : closing ≠ '&') (hor : closing ≠ '|') {fuel : Nat}
    (hfuel : before.rest.length ≤ fuel) {others : List (Connective × α)} :
    compiler.terms closing what term fuel before = .ok (others, after) ↔
      ∃ kinds, before.Passes compiler.limits kinds after ∧
        Grammar.Further item (.symbol closing) kinds others := by
  induction fuel generalizing before others with
  | zero =>
      constructor
      · intro h
        cases h
      · rintro ⟨kinds, hpasses, hfurther⟩
        have hlength := hpasses.length
        cases hfurther <;> simp at hlength <;> omega
  | succ fuel ih =>
      rw [terms_succ_eq_ok_iff hand hor]
      constructor
      · rintro (⟨rfl, hpasses⟩ | ⟨connective, kind, afterMark, value, afterTerm,
          more, hmark, hmarked, hvalue, hmore, rfl⟩)
        · exact ⟨_, hpasses, .stop⟩
        · obtain ⟨kinds, hkinds, hitem⟩ := (hterm _ _ _).mp hvalue
          -- The mark pays for the round, even if the term took nothing.
          have hlength := hmarked.length
          have hlength' := hkinds.length
          rw [List.length_singleton] at hlength
          obtain ⟨tail, htail, hfurther⟩ := (ih (by omega)).mp hmore
          have hlater := Cursor.passes_append_iff.mpr ⟨_, hkinds, htail⟩
          exact ⟨_, Cursor.passes_cons_iff.mpr ⟨_, hmarked, hlater⟩,
            .next hmark hitem hfurther⟩
      · rintro ⟨_, hpasses, hfurther⟩
        cases hfurther with
        | stop => exact .inl ⟨rfl, hpasses⟩
        | next hmark hitem hrest =>
            obtain ⟨afterMark, hmarked, hlater⟩ :=
              Cursor.passes_cons_iff.mp hpasses
            obtain ⟨afterTerm, hkinds, htail⟩ :=
              Cursor.passes_append_iff.mp hlater
            have hlength := hmarked.length
            have hlength' := hkinds.length
            rw [List.length_singleton] at hlength
            exact .inr ⟨_, _, afterMark, _, afterTerm, _, hmark, hmarked,
              (hterm _ _ _).mpr ⟨_, hkinds, hitem⟩,
              (ih (by omega)).mpr ⟨_, htail, hrest⟩, rfl⟩

theorem formula_eq_ok_iff (hterm : Reads compiler.limits term item)
    (hand : closing ≠ '&') (hor : closing ≠ '|') {formula : Formula α} :
    compiler.formula closing what term before = .ok (formula, after) ↔
      ∃ kinds, before.Passes compiler.limits (kinds ++ [.symbol closing]) after ∧
        Grammar.Terms item kinds formula := by
  simp only [Compiler.formula, bind_eq_ok_iff, Prod.exists]
  constructor
  · rintro ⟨first, afterFirst, hfirst, others, last, hothers, hlast⟩
    cases hlast
    obtain ⟨firsts, hfirsts, hitem⟩ := (hterm _ _ _).mp hfirst
    obtain ⟨tail, htail, hfurther⟩ :=
      (terms_eq_ok_iff hterm hand hor (Nat.le_refl _)).mp hothers
    obtain ⟨body, hbody, heq⟩ := Grammar.terms_iff_further.mpr
      ⟨_, _, _, _, hitem, hfurther, rfl, rfl⟩
    exact ⟨body, heq ▸ Cursor.passes_append_iff.mpr ⟨_, hfirsts, htail⟩, hbody⟩
  · rintro ⟨kinds, hpasses, hterms⟩
    obtain ⟨firsts, first, tail, later, hitem, hfurther, heq, rfl⟩ :=
      Grammar.terms_iff_further.mp ⟨kinds, hterms, rfl⟩
    rw [heq] at hpasses
    obtain ⟨afterFirst, hfirsts, htail⟩ := Cursor.passes_append_iff.mp hpasses
    exact ⟨_, _, (hterm _ _ _).mpr ⟨_, hfirsts, hitem⟩, _, _,
      (terms_eq_ok_iff hterm hand hor (Nat.le_refl _)).mpr ⟨_, htail, hfurther⟩, rfl⟩

/-! ## Directions -/

theorem nodup_append_singleton {seen : List Direction} {direction : Direction}
    (hseen : seen.Nodup) :
    (seen ++ [direction]).Nodup ↔ direction ∉ seen := by
  rw [List.nodup_append]
  constructor
  · rintro ⟨-, -, hapart⟩ hmem
    exact hapart direction hmem direction (by simp) rfl
  · intro hnew
    refine ⟨hseen, by simp, fun first hfirst second hsecond heq => ?_⟩
    rw [← List.mem_singleton.mp hsecond, ← heq] at hnew
    exact hnew hfirst

theorem directionList_succ_eq_ok_iff {fuel : Nat} {seen listed : List Direction} :
    compiler.directionList (fuel + 1) seen before = .ok (listed, after) ↔
      ∃ kinds direction next, before.Passes compiler.limits kinds next ∧
        Grammar.Toward compiler kinds direction ∧ direction ∉ seen ∧
        ((listed = seen ++ [direction] ∧
            next.Passes compiler.limits [.symbol ']'] after) ∨
          ∃ afterComma, next.Passes compiler.limits [.symbol ','] afterComma ∧
            compiler.directionList fuel (seen ++ [direction]) afterComma =
              .ok (listed, after)) := by
  simp only [directionList, bind_eq_ok_iff, Prod.exists]
  constructor
  · rintro ⟨direction, next, hdirection, h⟩
    obtain ⟨kinds, hkinds, htoward⟩ := (reads_direction _ _ _ _).mp hdirection
    split at h
    · cases h
    · rename_i hnew
      refine ⟨kinds, direction, next, hkinds, htoward, hnew, ?_⟩
      split at h
      · rename_i hcomma
        have hkind := Cursor.atSymbol_iff.mp hcomma
        obtain ⟨afterComma, htake, hlist⟩ := bind_eq_ok_iff.mp h
        exact .inr ⟨afterComma, (Cursor.take_eq_ok_iff hkind).mp htake, hlist⟩
      · split at h
        · rename_i hclosing
          have hkind := Cursor.atSymbol_iff.mp hclosing
          obtain ⟨rfl, hpasses⟩ := (Cursor.take_bind_eq_ok_iff hkind).mp h
          exact .inl ⟨rfl, hpasses⟩
        · cases h
  · rintro ⟨kinds, direction, next, hkinds, htoward, hnew, h⟩
    refine ⟨direction, next, (reads_direction _ _ _ _).mpr ⟨_, hkinds, htoward⟩, ?_⟩
    rw [if_neg hnew]
    rcases h with ⟨rfl, hpasses⟩ | ⟨afterComma, hpasses, hlist⟩
    · have hcomma : ¬next.atSymbol ',' = true := by
        rw [Cursor.atSymbol_iff, hpasses.kind?]
        simp
      rw [if_neg hcomma, if_pos (Cursor.atSymbol_iff.mpr hpasses.kind?)]
      exact (Cursor.take_bind_eq_ok_iff hpasses.kind?).mpr ⟨rfl, hpasses⟩
    · have htake := (Cursor.take_eq_ok_iff hpasses.kind?).mpr hpasses
      rw [if_pos (Cursor.atSymbol_iff.mpr hpasses.kind?), htake]
      exact hlist

theorem directionList_eq_ok_iff {fuel : Nat}
    (hfuel : before.rest.length ≤ fuel) {seen listed : List Direction}
    (hseen : seen.Nodup) :
    compiler.directionList fuel seen before = .ok (listed, after) ↔
      ∃ kinds more, before.Passes compiler.limits (kinds ++ [.symbol ']']) after ∧
        Grammar.Joined (Grammar.Toward compiler) Grammar.IsComma kinds more ∧
        listed = seen ++ more ∧ listed.Nodup := by
  induction fuel generalizing before seen listed with
  | zero =>
      constructor
      · intro h
        cases h
      · rintro ⟨kinds, more, hpasses, -⟩
        have hlength := hpasses.length
        simp at hlength
        omega
  | succ fuel ih =>
      rw [directionList_succ_eq_ok_iff]
      constructor
      · rintro ⟨kinds, direction, next, hkinds, htoward, hnew, h⟩
        have hnodup := (nodup_append_singleton hseen).mpr hnew
        rcases h with ⟨rfl, hmarked⟩ | ⟨afterComma, hmarked, hlist⟩
        · exact ⟨kinds, [direction],
            Cursor.passes_append_iff.mpr ⟨_, hkinds, hmarked⟩,
            .last htoward, rfl, hnodup⟩
        · have hlength := hkinds.length
          have hlength' := hmarked.length
          rw [List.length_singleton] at hlength'
          obtain ⟨rest, more, hrest, hjoined, hlisted, hall⟩ :=
            (ih (by omega) hnodup).mp hlist
          have hlater := Cursor.passes_cons_iff.mpr ⟨_, hmarked, hrest⟩
          have hpasses := Cursor.passes_append_iff.mpr ⟨_, hkinds, hlater⟩
          exact ⟨kinds ++ .symbol ',' :: rest, direction :: more,
            by simpa using hpasses, .more htoward rfl hjoined,
            by simpa using hlisted, hall⟩
      · rintro ⟨kinds, more, hpasses, hjoined, rfl, hall⟩
        cases hjoined with
        | @last _ direction htoward =>
            obtain ⟨next, hkinds, hmarked⟩ := Cursor.passes_append_iff.mp hpasses
            exact ⟨kinds, direction, next, hkinds, htoward,
              (nodup_append_singleton hseen).mp hall, .inl ⟨rfl, hmarked⟩⟩
        | @more first rest kind direction others htoward hkind hjoined =>
            rw [Grammar.IsComma] at hkind
            subst hkind
            rw [List.append_assoc, List.cons_append] at hpasses
            obtain ⟨next, hkinds, hlater⟩ := Cursor.passes_append_iff.mp hpasses
            obtain ⟨afterComma, hmarked, hrest⟩ :=
              Cursor.passes_cons_iff.mp hlater
            have hlength := hkinds.length
            have hlength' := hmarked.length
            rw [List.length_singleton] at hlength'
            rw [List.append_cons] at hall ⊢
            have hnodup := (List.nodup_append.mp hall).1
            exact ⟨first, direction, next, hkinds, htoward,
              (nodup_append_singleton hseen).mp hnodup,
              .inr ⟨afterComma, hmarked, (ih (by omega) hnodup).mpr
                ⟨rest, others, hrest, hjoined, rfl, hall⟩⟩⟩

end Cellular.Compiler
