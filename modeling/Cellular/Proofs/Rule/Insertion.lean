import Cellular.Proofs.Rule.Extents

/-!
# Inserting an illegal character

An illegal character put into a text without diagnostics is the only diagnostic of the
new text.  It costs the rule that it is put into, if there is one, and all other rules
keep their statements (`compile_insert`).
-/

namespace Cellular

variable {before after whole : List Token}

/-! ## The statement around a place -/

theorem Token.Joins.legal (h : Token.Joins before after whole)
    (hlegal : ∀ token ∈ whole, token.isIllegal = false) :
    (∀ token ∈ before, token.isIllegal = false) ∧
      ∀ token ∈ after, token.isIllegal = false := by
  cases h with
  | apart => exact List.forall_mem_append.mp hlegal
  | @word front rest left right joined hleft hright hwhole hoffset =>
      have hword : ∀ {token : Token}, (∃ letters, token.kind = .word letters) →
          token.isIllegal = false := by
        rintro token ⟨letters, hkind⟩
        simp [Token.isIllegal, hkind]
      simp only [List.forall_mem_append, List.forall_mem_cons] at hlegal ⊢
      refine ⟨⟨hlegal.1, hword hleft, ?_⟩, hword hright, hlegal.2.2⟩
      simp

theorem Token.Joins.of_open (h : Token.Joins before after whole)
    (hafter : ∀ token ∈ after, token.kind ≠ .symbol ';')
    (hwhole : ∀ last ∈ whole.getLast?, last.kind = .symbol ';') :
    after = [] ∧ whole = before := by
  cases h with
  | apart =>
      rcases List.eq_nil_or_concat' after with rfl | ⟨rest, last, rfl⟩
      · simp
      · have hlast := hwhole last (by simp)
        exact absurd hlast (hafter last (by simp))
  | @word front rest left right joined hleft hright hjoined hoffset =>
      rcases List.eq_nil_or_concat' rest with rfl | ⟨rest, last, rfl⟩
      · have hlast := hwhole joined (by simp)
        obtain ⟨letters, hkind⟩ := hjoined
        rw [hkind] at hlast
        cases hlast
      · have hlast := hwhole last (by simp [List.getLast?_cons])
        exact absurd hlast (hafter last (by simp))

/-- In front of a semicolon stands one statement, with the tokens behind the last
semicolon before the place and those up to the next one. -/
theorem Token.Joins.exists_inner {front left right rest : List Token} {last : Token}
    (h : Token.Joins (front ++ left) (right ++ last :: rest) whole)
    (hfront : ∀ token ∈ front.getLast?, token.kind = .symbol ';')
    (hleft : ∀ token ∈ left, token.kind ≠ .symbol ';')
    (hright : ∀ token ∈ right, token.kind ≠ .symbol ';')
    (hlast : last.kind = .symbol ';') :
    ∃ inner, whole = front ++ (inner ++ last :: rest) ∧
      (∀ token ∈ inner, token.kind ≠ .symbol ';') ∧
      (left = [] → inner = right) ∧
      ∀ first ∈ left.head?, ∃ head ∈ inner.head?, head.offset = first.offset := by
  generalize hbefore : front ++ left = before at h
  generalize hafter : right ++ last :: rest = after at h
  cases h with
  | apart =>
      subst hbefore hafter
      refine ⟨left ++ right, by simp, ?_, by rintro rfl; rfl, ?_⟩
      · rw [List.forall_mem_append]
        exact ⟨hleft, hright⟩
      · intro first hfirst
        exact ⟨first, by simp [List.head?_append, Option.mem_def.mp hfirst], rfl⟩
  | @word outer others before after joined hbeforeWord hafterWord hjoined hoffset =>
      have hword : ∀ {token : Token}, (∃ letters, token.kind = .word letters) →
          token.kind ≠ .symbol ';' := by
        rintro token ⟨letters, hkind⟩
        simp [hkind]
      -- The halves of the word are the last token on the left and the first on the right.
      rcases List.eq_nil_or_concat' left with rfl | ⟨left, other, rfl⟩
      · rw [List.append_nil] at hbefore
        exact absurd (hfront before (by simp [hbefore])) (hword hbeforeWord)
      · rw [← List.append_assoc] at hbefore
        obtain ⟨rfl, hother⟩ := List.append_inj' hbefore rfl
        obtain rfl : other = before := by simpa using hother
        cases right with
        | nil =>
            obtain ⟨rfl, rfl⟩ := List.cons_eq_cons.mp hafter
            exact absurd hlast (hword hafterWord)
        | cons first right =>
            obtain ⟨rfl, rfl⟩ := List.cons_eq_cons.mp hafter
            rw [List.forall_mem_append] at hleft
            rw [List.forall_mem_cons] at hright
            refine ⟨left ++ joined :: right, by simp, ?_, by simp, ?_⟩
            · rw [List.forall_mem_append, List.forall_mem_cons]
              exact ⟨hleft.1, hword hjoined, hright.2⟩
            · intro head hhead
              cases left with
              | nil =>
                  obtain rfl : other = head := by simpa using hhead
                  exact ⟨joined, rfl, hoffset⟩
              | cons token left =>
                  obtain rfl : token = head := by simpa using hhead
                  exact ⟨token, rfl, rfl⟩

theorem Compilation.eq_mk {compilation : Compilation} {rules : List Rule}
    {diagnostics : List Diagnostic} (hrules : compilation.table.rules = rules)
    (hdiagnostics : compilation.diagnostics = diagnostics) :
    compilation = ⟨⟨rules⟩, diagnostics⟩ := by
  subst hrules hdiagnostics
  rfl

namespace Compiler

variable {compiler : Compiler} {text front back : String} {c : Char}

/-! ## Places in the new text -/

def past (place offset : Nat) : Nat := if offset < place then offset else offset + 1

def withStray (place : Nat) (c : Char) (before after : List Token) : List Token :=
  before.map (Token.relocate (past place)) ++
    ⟨.illegal c, place, 1⟩ :: after.map (Token.relocate (past place))

theorem withStray_append (place : Nat) (c : Char) (outer before after rest : List Token) :
    withStray place c (outer ++ before) (after ++ rest) =
      outer.map (Token.relocate (past place)) ++
        (withStray place c before after ++ rest.map (Token.relocate (past place))) := by
  simp [withStray]

theorem closed_withStray {last : Token} (hlast : last.kind = .symbol ';') (place : Nat)
    (c : Char) (before after : List Token) :
    Closed (withStray place c before (after ++ [last])) := by
  refine closed_of_getLast? ?_
  simpa [withStray, List.getLast?_cons] using hlast

theorem scan_insert (hstray : Token.IsStray c) (hplace : ¬Token.InComment front.toList) :
    Token.scan (front ++ String.singleton c ++ back).toList =
      withStray front.length c (Token.scan front.toList)
        (Token.scanFrom false front.length back.toList) := by
  have htext : (front ++ String.singleton c ++ back).toList =
      front.toList ++ c :: back.toList := by simp
  have houtside : Token.commentAfter false front.toList = false := by
    rwa [Token.inComment_iff, Bool.not_eq_true] at hplace
  have hhere : Token.scanFrom false front.length (c :: back.toList) =
      ⟨.illegal c, front.length, 1⟩ ::
        Token.scanFrom false (front.length + 1) back.toList := by
    simp [Token.scanFrom, hstray.blank, hstray.name, hstray.mark, hstray.symbol]
  have hbefore : (Token.scan front.toList).map (Token.relocate (past front.length)) =
      Token.scan front.toList := by
    refine (List.map_congr_left (g := id) fun token hmem => ?_).trans (List.map_id _)
    have hlt := offset_lt_length hmem
    simp [Token.relocate, past, hlt]
  have hbehind : (Token.scanFrom false front.length back.toList).map
        (Token.relocate (past front.length)) =
      (Token.scanFrom false front.length back.toList).map (Token.relocate (· + 1)) := by
    refine List.map_congr_left fun token hmem => ?_
    have hle := Token.le_offset_of_mem_scanFrom hmem
    simp [Token.relocate, past, Nat.not_lt.mpr hle]
  rw [withStray, hbefore, hbehind, htext, Token.scan,
    Token.scanFrom_append (Token.apart_cons hstray.name), houtside, Nat.zero_add,
    String.length_toList, hhere, Token.scanFrom_shift]
  rfl

theorem joins_scan (back : String) (hplace : ¬Token.InComment front.toList) :
    Token.Joins (Token.scan front.toList) (Token.scanFrom false front.length back.toList)
      (Token.scan (front ++ back).toList) := by
  rw [Token.inComment_iff, Bool.not_eq_true] at hplace
  have hcut := Token.joins_scanFrom false 0 front.toList back.toList hplace
  rwa [Nat.zero_add, String.length_toList, ← String.toList_append] at hcut

/-! ## Texts without diagnostics -/

/-- Every statement of a text without diagnostics is a rule of the table. -/
structure IsClean (compiler : Compiler) (text : String) : Prop where
  size : (compiler.compile text).table.size ≤ compiler.limits.rulesMax
  legal : ∀ token ∈ Token.scan text.toList, token.isIllegal = false
  faults : ∀ diagnostic, .fault diagnostic ∉ compiler.textOutcomes text
  rules : (compiler.compile text).table.rules =
    (compiler.textOutcomes text).filterMap Outcome.rule?

theorem isClean_of_isOk (h : (compiler.compile text).isOk = true) :
    compiler.IsClean text := by
  have hnone : (compiler.compile text).diagnostics = [] := List.isEmpty_iff.mp h
  have hsize := size_le_of_isOk h
  have hperm := perm_diagnostics_compile hsize
  rw [hnone, List.nil_perm, List.append_eq_nil_iff, List.filterMap_eq_nil_iff] at hperm
  obtain ⟨hfaults, hrules⟩ := of_collect_eq_nil hperm.2
  exact ⟨hsize, fun token hmem => Token.illegality?_eq_none_iff.mp (hperm.1 token hmem),
    hfaults, (rules_eq_collect compiler text).trans hrules⟩

theorem IsClean.exists_rule (h : compiler.IsClean text) :
    ∀ part ∈ statements (Token.scan text.toList), ∃ rule place,
      compiler.readStatement text.length part = .rule rule place ∧ IsStatement part := by
  intro part hpart
  have houtcome := List.mem_map_of_mem (f := compiler.readStatement text.length) hpart
  obtain ⟨hrun, hwithin⟩ := (divided_statements _).isRun part hpart
  cases hread : compiler.readStatement text.length part with
  | rule rule place => exact ⟨rule, place, rfl, (readStatement_eq_rule hrun hread).1⟩
  | fault diagnostic => exact absurd (hread ▸ houtcome) (h.faults diagnostic)
  | tainted =>
      obtain ⟨token, hmem, hillegal⟩ := readStatement_eq_tainted hread
      rw [h.legal token (hwithin.subset hmem)] at hillegal
      cases hillegal

theorem IsClean.getLast?_scan (h : compiler.IsClean text) :
    ∀ last ∈ (Token.scan text.toList).getLast?, last.kind = .symbol ';' := by
  refine (divided_statements _).getLast?_eq h.legal fun part hpart => ?_
  obtain ⟨rule, place, -, hstatement⟩ := h.exists_rule part hpart
  obtain ⟨body, last, rfl, hlast, -⟩ := hstatement.semicolon
  exact ⟨last, by simp, hlast⟩

/-! ## Outcomes in the new text -/

/-- The new outcomes are the old ones without faults, and without the rules that span the
place, which are at most `most`. -/
structure Spares (text : String) (place most : Nat) (old new : List Outcome) : Prop where
  faults : ∀ diagnostic, .fault diagnostic ∉ new
  rules : new.filterMap Outcome.rule? =
    ((old.filterMap Outcome.rule?).filter fun rule => !rule.spans text place).map
      (Rule.relocate (past place))
  lost : ((old.filterMap Outcome.rule?).filter fun rule =>
    rule.spans text place).length ≤ most

theorem Spares.mono {place most most' : Nat} {old new : List Outcome}
    (h : Spares text place most old new) (hle : most ≤ most') :
    Spares text place most' old new :=
  ⟨h.faults, h.rules, h.lost.trans hle⟩

theorem Spares.append {place most most' : Nat} {old new old' new' : List Outcome}
    (h : Spares text place most old new) (h' : Spares text place most' old' new') :
    Spares text place (most + most') (old ++ old') (new ++ new') := by
  refine ⟨fun diagnostic hmem => ?_, ?_, ?_⟩
  · rcases List.mem_append.mp hmem with hfirst | hsecond
    · exact h.faults diagnostic hfirst
    · exact h'.faults diagnostic hsecond
  · simp only [List.filterMap_append, List.filter_append, List.map_append, h.rules,
      h'.rules]
  · rw [List.filterMap_append, List.filter_append, List.length_append]
    exact Nat.add_le_add h.lost h'.lost

theorem spares_append {place most most' ending ending' : Nat}
    {first first' second second' : List Token} (hclosed : Closed first)
    (hclosed' : Closed first')
    (h : Spares text place most (compiler.outcomes ending first)
      (compiler.outcomes ending' first'))
    (h' : Spares text place most' (compiler.outcomes ending second)
      (compiler.outcomes ending' second')) :
    Spares text place (most + most') (compiler.outcomes ending (first ++ second))
      (compiler.outcomes ending' (first' ++ second')) := by
  rw [outcomes_append hclosed, outcomes_append hclosed']
  exact h.append h'

theorem spares_relocate {place ending : Nat} (ending' : Nat) {tokens : List Token}
    (htokens : tokens <:+: Token.scan text.toList)
    (hside : (∀ token ∈ tokens, token.offset < place) ∨
      ∀ token ∈ tokens, place ≤ token.offset)
    (hmove : Closed tokens ∨ ending' = past place ending)
    (hfaults : ∀ diagnostic, .fault diagnostic ∉ compiler.outcomes ending tokens) :
    Spares text place 0 (compiler.outcomes ending tokens)
      (compiler.outcomes ending' (tokens.map (Token.relocate (past place)))) := by
  have hrules : ∀ rule ∈ (compiler.outcomes ending tokens).filterMap Outcome.rule?,
      rule.spans text place = false := by
    intro rule hmem
    obtain ⟨target, houtcome⟩ := Outcome.exists_of_mem_rules hmem
    obtain ⟨last, hlast, -, hspans⟩ := spans_iff houtcome htokens
    obtain ⟨first, _, _, _, hwithin, -, hoffset, -⟩ := exists_statement_of_rule houtcome
    have hfirst := hwithin.subset List.mem_cons_self
    rw [← Bool.not_eq_true, hspans]
    rintro ⟨hstart, hend⟩
    rcases hside with hleft | hright
    · exact absurd hend (Nat.not_le.mpr (hleft last hlast))
    · exact absurd (hright first hfirst) (Nat.not_le.mpr (hoffset ▸ hstart))
  have hread : ∀ outcome : Outcome, (outcome.relocate (past place)).rule? =
      outcome.rule?.map (Rule.relocate (past place)) := by
    intro outcome
    cases outcome <;> rfl
  rw [outcomes_relocate compiler (past place) hmove]
  refine ⟨fun diagnostic hmem => ?_, ?_, ?_⟩
  · obtain ⟨outcome, houtcome, heq⟩ := List.mem_map.mp hmem
    cases outcome <;> cases heq
    exact hfaults _ houtcome
  · have hkept : ((compiler.outcomes ending tokens).filterMap Outcome.rule?).filter
        (fun rule => !rule.spans text place) =
          (compiler.outcomes ending tokens).filterMap Outcome.rule? := by
      rw [List.filter_eq_self]
      intro rule hmem
      simp [hrules rule hmem]
    rw [hkept, List.filterMap_map, List.map_filterMap]
    exact congrArg (List.filterMap · _) (funext hread)
  · rw [Nat.le_zero, List.length_eq_zero_iff, List.filter_eq_nil_iff]
    intro rule hmem
    simp [hrules rule hmem]

theorem spans_of_statement {place ending : Nat} {head last : Token} {inner : List Token}
    {rule : Rule} (hinner : head :: inner ++ [last] <:+: Token.scan text.toList)
    (hlegal : head.isIllegal = false)
    (hopen : ∀ token ∈ head :: inner, token.kind ≠ .symbol ';')
    (hlast : last.kind = .symbol ';')
    (hrule : rule ∈ (compiler.outcomes ending (head :: inner ++ [last])).filterMap
      Outcome.rule?)
    (hstart : head.offset < place) (hend : place ≤ last.offset) :
    rule.spans text place = true := by
  obtain ⟨target, houtcome⟩ := Outcome.exists_of_mem_rules hrule
  obtain ⟨final, hfinal, hkind, hspans⟩ := spans_iff houtcome hinner
  rw [outcomes, statements_semicolon (by simpa using hlegal) hopen hlast,
    List.map_singleton, List.mem_singleton] at houtcome
  have hrun : IsRun (head :: inner ++ [last]) := .inl ⟨_, last, rfl, hlast, hopen⟩
  obtain ⟨-, first, slash, second, others, heq, hoffset, -⟩ :=
    readStatement_eq_rule hrun houtcome.symm
  obtain ⟨rfl, -⟩ := List.cons_eq_cons.mp heq
  obtain rfl : final = last := by
    rcases List.mem_append.mp hfinal with hmem | hmem
    · exact absurd hkind (hopen final hmem)
    · exact List.mem_singleton.mp hmem
  rw [hspans, hoffset]
  exact ⟨hstart, hend⟩

theorem outcomes_tainted (compiler : Compiler) (ending : Nat)
    {first stray last : Token} {left right : List Token}
    (hfirst : first.isIllegal = false) (hstray : stray.isIllegal = true)
    (hleft : ∀ token ∈ first :: left, token.kind ≠ .symbol ';')
    (hright : ∀ token ∈ right, token.kind ≠ .symbol ';')
    (hlast : last.kind = .symbol ';') :
    compiler.outcomes ending (first :: left ++ stray :: (right ++ [last])) = [.tainted] := by
  have hopen : ∀ token ∈ first :: left ++ stray :: right, token.kind ≠ .symbol ';' := by
    refine List.forall_mem_append.mpr ⟨hleft, List.forall_mem_cons.mpr ⟨?_, hright⟩⟩
    intro hkind
    simp [Token.isIllegal, hkind] at hstray
  have hrun : IsRun (first :: left ++ stray :: right ++ [last]) :=
    .inl ⟨_, last, rfl, hlast, hopen⟩
  have hcut : first :: left ++ stray :: (right ++ [last]) =
      first :: left ++ stray :: right ++ [last] := by simp
  rw [hcut, outcomes, statements_semicolon (by simpa using hfirst) hopen hlast,
    List.map_singleton, readStatement_of_illegal compiler ending hrun ⟨stray, by simp, hstray⟩]

theorem spares_statement (c : Char) {place ending : Nat} (ending' : Nat)
    {inner left right : List Token} {last : Token}
    (hinner : inner ++ [last] <:+: Token.scan text.toList)
    (hlegal : ∀ token ∈ Token.scan text.toList, token.isIllegal = false)
    (hfaults : ∀ diagnostic, .fault diagnostic ∉ compiler.outcomes ending (inner ++ [last]))
    (hopen : ∀ token ∈ inner, token.kind ≠ .symbol ';')
    (hlast : last.kind = .symbol ';')
    (hleft : ∀ token ∈ left, token.kind ≠ .symbol ';' ∧ token.isIllegal = false ∧
      token.offset < place)
    (hright : ∀ token ∈ right, token.kind ≠ .symbol ';')
    (hplaces : ∀ token ∈ right ++ [last], place ≤ token.offset)
    (hempty : left = [] → inner = right)
    (hhead : ∀ first ∈ left.head?, ∃ head ∈ inner.head?, head.offset = first.offset) :
    Spares text place 1 (compiler.outcomes ending (inner ++ [last]))
      (compiler.outcomes ending' (withStray place c left (right ++ [last]))) := by
  cases left with
  | nil =>
      obtain rfl := hempty rfl
      rw [withStray, List.map_nil, List.nil_append, outcomes_illegal rfl]
      exact (spares_relocate ending' hinner (.inr hplaces)
        (.inl (closed_append_semicolon hlast)) hfaults).mono (Nat.zero_le 1)
  | cons first left =>
      obtain ⟨head, hmem, hoffset⟩ := hhead first rfl
      obtain ⟨-, hfirst, hstart⟩ := hleft first List.mem_cons_self
      have hend := hplaces last (by simp)
      cases inner with
      | nil => cases hmem
      | cons other inner =>
          obtain rfl : other = head := by simpa using hmem
          have hlegalHead := hlegal other (hinner.subset List.mem_cons_self)
          have hone : (compiler.outcomes ending (other :: inner ++ [last])).length = 1 := by
            rw [outcomes, statements_semicolon (by simpa using hlegalHead) hopen hlast]
            rfl
          have hnew : compiler.outcomes ending'
              (withStray place c (first :: left) (right ++ [last])) = [.tainted] := by
            rw [withStray, List.map_cons, List.map_append, List.map_singleton]
            refine outcomes_tainted compiler ending' hfirst rfl ?_ ?_ hlast
            · simpa using fun token hmem => (hleft token hmem).1
            · simpa using hright
          have hnone : ((compiler.outcomes ending
              (other :: inner ++ [last])).filterMap Outcome.rule?).filter
                (fun rule => !rule.spans text place) = [] := by
            rw [List.filter_eq_nil_iff]
            intro rule hrule
            rw [spans_of_statement hinner hlegalHead hopen hlast hrule (by omega) hend]
            simp
          rw [hnew]
          refine ⟨by simp, by rw [hnone]; rfl, ?_⟩
          exact (List.length_filter_le _ _).trans
            ((List.length_filterMap_le _ _).trans hone.le)

/-- Tokens cut at the place stand in a row of statements in front of the place, the one
around it and those behind. -/
theorem spares_of_joins {place ending' : Nat} (c : Char) (hclean : compiler.IsClean text)
    (hjoins : Token.Joins before after (Token.scan text.toList))
    (hbefore : ∀ token ∈ before, token.offset < place)
    (hafter : ∀ token ∈ after, place ≤ token.offset)
    (hending : ending' = past place text.length) :
    Spares text place 1 (compiler.textOutcomes text)
      (compiler.outcomes ending' (withStray place c before after)) := by
  have hfaults := hclean.faults
  have hlegal := hclean.legal
  have hlast := hclean.getLast?_scan
  rw [textOutcomes] at hfaults ⊢
  rcases exists_append_semicolon after with hopen | ⟨right, last, rest, rfl, hkind, hright⟩
  · -- Nothing stands behind the place.
    obtain ⟨rfl, hwhole⟩ := hjoins.of_open hopen hlast
    have hclosed : Closed before := hwhole ▸ closed_of_getLast? hlast
    have hwithin : before <:+: Token.scan text.toList := by simp [hwhole]
    have hspares := spares_relocate ending' hwithin (.inl hbefore) (.inl hclosed)
      (hwhole ▸ hfaults)
    rw [hwhole, withStray, outcomes_append (hclosed.relocate _), outcomes_illegal rfl]
    simpa [outcomes, statements, splitStatements] using hspares.mono (Nat.zero_le 1)
  · obtain ⟨outer, left, rfl, houter, hleft⟩ := exists_append_open before
    obtain ⟨inner, hwhole, hinner, hempty, hhead⟩ :=
      hjoins.exists_inner houter hleft hright hkind
    have hleftLegal := (List.forall_mem_append.mp (hjoins.legal hlegal).1).2
    have houterClosed : Closed outer := closed_of_getLast? houter
    have hinnerClosed : Closed (inner ++ [last]) := closed_append_semicolon hkind
    rw [List.append_cons] at hwhole hafter ⊢
    rw [List.forall_mem_append] at hbefore hafter
    rw [hwhole, outcomes_append houterClosed, outcomes_append hinnerClosed] at hfaults
    simp only [List.mem_append, not_or, forall_and] at hfaults
    obtain ⟨houterFaults, hinnerFaults, hrestFaults⟩ := hfaults
    have hbehind : inner ++ [last] ++ rest <:+: Token.scan text.toList :=
      hwhole ▸ (List.suffix_append _ _).isInfix
    have hfront := spares_relocate ending' (hwhole ▸ (List.prefix_append _ _).isInfix)
      (.inl hbefore.1) (.inl houterClosed) houterFaults
    have hhere := spares_statement c ending' ((List.prefix_append _ _).isInfix.trans hbehind)
      hlegal hinnerFaults hinner hkind
      (fun token hmem => ⟨hleft token hmem, hleftLegal token hmem, hbefore.2 token hmem⟩)
      hright hafter.1 hempty hhead
    have hrest := spares_relocate ending' ((List.suffix_append _ _).isInfix.trans hbehind)
      (.inr hafter.2) (.inr hending) hrestFaults
    rw [hwhole, withStray_append]
    exact spares_append houterClosed (houterClosed.relocate _) hfront
      (spares_append hinnerClosed (closed_withStray hkind place c left right) hhere hrest)

theorem spares_insert (hclean : compiler.IsClean (front ++ back))
    (hstray : Token.IsStray c) (hplace : ¬Token.InComment front.toList) :
    Spares (front ++ back) front.length 1 (compiler.textOutcomes (front ++ back))
      (compiler.textOutcomes (front ++ String.singleton c ++ back)) := by
  have hending : (front ++ String.singleton c ++ back).length =
      past front.length (front ++ back).length := by
    have hone : (String.singleton c).length = 1 := by simp
    simp only [String.length_append, hone, past]
    split <;> omega
  rw [textOutcomes, textOutcomes, scan_insert hstray hplace]
  exact spares_of_joins c hclean (joins_scan back hplace) (fun _ => offset_lt_length)
    (fun _ => Token.le_offset_of_mem_scanFrom) hending

theorem illegalities_insert (hclean : compiler.IsClean (front ++ back))
    (hstray : Token.IsStray c) (hplace : ¬Token.InComment front.toList) :
    (Token.scan (front ++ String.singleton c ++ back).toList).filterMap
      Token.illegality? = [⟨front.length, .illegalCharacter c⟩] := by
  have hlegal := (joins_scan back hplace).legal hclean.legal
  have hnone : ∀ {tokens : List Token}, (∀ token ∈ tokens, token.isIllegal = false) →
      (tokens.map (Token.relocate (past front.length))).filterMap Token.illegality? = [] := by
    intro tokens htokens
    rw [List.filterMap_eq_nil_iff, List.forall_mem_map]
    exact fun token hmem => Token.illegality?_eq_none_iff.mpr (htokens token hmem)
  have hhere : Token.illegality? ⟨.illegal c, front.length, 1⟩ =
      some ⟨front.length, .illegalCharacter c⟩ := rfl
  rw [scan_insert hstray hplace, withStray, List.filterMap_append, hnone hlegal.1,
    List.filterMap_cons_some hhere, hnone hlegal.2, List.nil_append]

/-- An illegal character in a text without diagnostics is the only diagnostic.  The rule
around it is lost, at most one, and the others move along with their statements. -/
theorem compile_insert (hclean : (compiler.compile (front ++ back)).isOk = true)
    (hstray : Token.IsStray c) (hplace : ¬Token.InComment front.toList) :
    let old := compiler.compile (front ++ back)
    let around := fun rule : Rule => rule.spans (front ++ back) front.length
    compiler.compile (front ++ String.singleton c ++ back) =
        ⟨⟨(old.table.rules.filter fun rule => !around rule).map
          (Rule.relocate (past front.length))⟩,
          [⟨front.length, .illegalCharacter c⟩]⟩ ∧
      (old.table.rules.filter around).length ≤ 1 := by
  have hclean := isClean_of_isOk hclean
  have hspares := spares_insert hclean hstray hplace
  have hkept := hspares.rules
  rw [← hclean.rules] at hkept
  have hnodup : (((compiler.textOutcomes (front ++ String.singleton c ++ back)).filterMap
      Outcome.rule?).map Rule.signature).Nodup := by
    rw [hkept, List.map_map]
    exact (nodup_signatures_compile compiler (front ++ back)).sublist
      (List.filter_sublist.map _)
  have hcollect := collect_eq_rules hspares.faults hnodup fun _ _ => List.not_mem_nil
  have hrules := (rules_eq_collect compiler _).trans
    ((congrArg Prod.fst hcollect).trans hkept)
  have hsize : (compiler.compile (front ++ String.singleton c ++ back)).table.size ≤
      compiler.limits.rulesMax := by
    rw [RuleTable.size, hrules, List.length_map]
    exact (List.length_filter_le _ _).trans hclean.size
  have hperm := perm_diagnostics_compile hsize
  rw [illegalities_insert hclean hstray hplace, hcollect, List.append_nil,
    List.perm_singleton] at hperm
  have hlost := hspares.lost
  rw [← hclean.rules] at hlost
  exact ⟨Compilation.eq_mk hrules hperm, hlost⟩

def cutText : String × String := ("3/free; ! $\nan", "d/3; free/3;")

theorem compile_insert_words :
    (wordCompiler.compile (cutText.1 ++ cutText.2)).isOk = true ∧
      Token.IsStray '$' ∧ ¬Token.InComment cutText.1.toList ∧
      (wordCompiler.compile
          (cutText.1 ++ String.singleton '$' ++ cutText.2)).table.rules.map
        Rule.offset = [0, 20] ∧
      (wordCompiler.compile
          (cutText.1 ++ String.singleton '$' ++ cutText.2)).diagnostics =
        [⟨14, .illegalCharacter '$'⟩] := by
  have hclean : (wordCompiler.compile (cutText.1 ++ cutText.2)).isOk = true := by
    decide +kernel
  have hstray : Token.IsStray '$' := ⟨by decide, by decide, by decide, by decide⟩
  have hplace : ¬Token.InComment cutText.1.toList := by decide
  have hall := compile_insert hclean hstray hplace
  rw [hall.1]
  exact ⟨hclean, hstray, hplace, by decide +kernel, by decide⟩

end Compiler

end Cellular
