import Cellular.Proofs.Rule.Accounting
import Cellular.Proofs.Rule.Growth

/-!
# How much rules grow in print

Next to the tokens that a rule is read from, its text has one character more for each
count and each equals sign that was left out.  Either takes at least three characters of
tokens, so the text is at most a third longer (`three_mul_chars_le`).  A text that
compiles under some limit is therefore read back under a limit a third larger, but not
always under the same limit (`recompile_limited`, `recompile_bare`).
-/

namespace Cellular

open Text

variable {compiler : Compiler} {kinds : List TokenKind}

/-! ## Characters that are not blank -/

def solid (text : List Char) : Nat := text.countP fun c => !isBlank c

@[simp] theorem solid_append (first second : List Char) :
    solid (first ++ second) = solid first + solid second := List.countP_append

theorem solid_le_length (text : List Char) : solid text ≤ text.length :=
  List.countP_le_length

theorem Text.length_trim_le (text : List Char) : (trim text).length ≤ text.length := by
  rw [trim, trimEnd, List.length_reverse]
  calc ((trimStart text).reverse.dropWhile isBlank).length
      ≤ (trimStart text).reverse.length := (List.dropWhile_suffix _).length_le
    _ = (trimStart text).length := List.length_reverse
    _ ≤ text.length := (List.dropWhile_suffix _).length_le

theorem Token.total_length_consLetter (offset : Nat) (letter : Char)
    (tokens : List Token) :
    total ((consLetter offset letter tokens).map Token.length) =
      total (tokens.map Token.length) + 1 := by
  unfold consLetter
  split
  · split
    · simp only [List.map_cons, total_cons]
      omega
    · simp only [List.map_cons, total_cons]
      omega
  · simp only [List.map_cons, total_cons]
    omega

theorem Token.total_length_scanFrom_le (comment : Bool) (offset : Nat)
    (text : List Char) :
    total ((scanFrom comment offset text).map Token.length) ≤ solid text := by
  induction text generalizing comment offset with
  | nil => exact Nat.le_refl 0
  | cons c rest ih =>
      have hpassed : ∀ comment, total ((scanFrom comment (offset + 1) rest).map
          Token.length) ≤ solid (c :: rest) := by
        intro comment
        refine (ih comment (offset + 1)).trans ?_
        rw [← List.singleton_append, solid_append]
        omega
      rw [scanFrom]
      split
      · exact hpassed _
      · split
        · exact hpassed _
        · split
          · exact hpassed _
          · rename_i hblank
            have hsolid : solid (c :: rest) = solid rest + 1 := by
              simp [solid, hblank]
            have hrest := ih false (offset + 1)
            split
            · rw [total_length_consLetter]
              omega
            · rw [List.map_cons, total_cons]
              dsimp only
              omega

theorem Rule.chars_le_solid (rule : Rule) : rule.chars ≤ solid rule.render.toList :=
  Token.total_length_scanFrom_le false 0 _

/-! ## Lists of terms -/

theorem Scope.solid_render_le (directions : List Direction) :
    solid (Scope.directions directions).render.toList ≤
      solid (",".intercalate (directions.map Direction.name)).toList + 2 := by
  match directions with
  | [] => decide
  | [direction] =>
      rw [List.map_singleton, String.intercalate_singleton]
      exact Nat.le_add_right _ 2
  | first :: second :: others =>
      have hrender : (Scope.directions (first :: second :: others)).render = "[" ++
          ",".intercalate ((first :: second :: others).map Direction.name) ++ "]" := rfl
      have hopen : solid "[".toList = 1 := by decide
      have hclose : solid "]".toList = 1 := by decide
      rw [hrender, String.toList_append, String.toList_append, solid_append,
        solid_append, hopen, hclose]
      omega

namespace Grammar

def Spans (kinds : List TokenKind) (text : List Char) : Prop :=
  solid text ≤ total (kinds.map TokenKind.length)

/-- The text is at most a third longer than the tokens. -/
def Stretches (kinds : List TokenKind) (text : List Char) : Prop :=
  3 * solid text ≤ 4 * total (kinds.map TokenKind.length)

def IsSigned (kinds : List TokenKind) : Prop :=
  kinds.head? = some (.symbol '+') ∨ kinds.head? = some (.symbol '-')

/-- Up to a part of a character the text is at most a third longer than the tokens, and
if these start with a sign, it is so exactly. -/
structure Expands (kinds : List TokenKind) (text : List Char) : Prop where
  bound : 3 * solid text ≤ 4 * total (kinds.map TokenKind.length) + 1
  signed : IsSigned kinds → Stretches kinds text

section Lists

variable {α : Type} {item : List TokenKind → α → Prop} {mark : TokenKind → Prop}
  {values : List α} {property : List TokenKind → List Char → Prop}

theorem Joined.intercalate {text : α → String} {separator : String}
    (h : Joined item mark kinds values)
    (hitem : ∀ kinds value, item kinds value → property kinds (text value).toList)
    (hmore : ∀ {first rest kind a b}, property first a → mark kind → property rest b →
      property (first ++ kind :: rest) (a ++ (separator.toList ++ b))) :
    property kinds (separator.intercalate (values.map text)).toList := by
  induction h with
  | last hvalue => simpa using hitem _ _ hvalue
  | more hvalue hmark hrest ih =>
      rw [List.map_cons, String.toList_intercalate, List.map_cons,
        List.intercalate_cons_of_ne_nil (by simpa using hrest.ne_nil),
        ← String.toList_intercalate, List.append_assoc]
      exact hmore (hitem _ _ hvalue) hmark ih

theorem Terms.render {text : α → String} {formula : Formula α}
    (h : Terms item kinds formula)
    (hitem : ∀ kinds value, item kinds value → property kinds (text value).toList)
    (hmore : ∀ {first rest kind separator a b}, property first a → 1 ≤ kind.length →
      solid separator = 1 → property rest b →
      property (first ++ kind :: rest) (a ++ (separator ++ b))) :
    property kinds (formula.render text).toList := by
  have hand : ∀ kind, IsAnd kind → 1 ≤ kind.length := by
    rintro _ (rfl | rfl) <;> decide
  have hor : ∀ kind, IsOr kind → 1 ≤ kind.length := by
    rintro _ (rfl | rfl) <;> decide
  obtain ⟨groups, hgroups, rfl⟩ := h
  rw [render_treeOf]
  refine hgroups.intercalate (fun _ _ hgroup => ?_) fun ha hmark hb =>
    hmore ha (hor _ hmark) (by decide) hb
  exact hgroup.intercalate hitem fun ha hmark hb =>
    hmore ha (hand _ hmark) (by decide) hb

end Lists

section Marks

variable {first rest : List TokenKind} {kind : TokenKind} {separator a b : List Char}

theorem solid_more (hseparator : solid separator = 1) :
    solid (a ++ (separator ++ b)) = solid a + (1 + solid b) := by
  rw [solid_append, solid_append, hseparator]

theorem total_more :
    total ((first ++ kind :: rest).map TokenKind.length) =
      total (first.map TokenKind.length) +
        (kind.length + total (rest.map TokenKind.length)) := by
  rw [List.map_append, List.map_cons, total_append, total_cons]

theorem Spans.more (ha : Spans first a) (hkind : 1 ≤ kind.length)
    (hseparator : solid separator = 1) (hb : Spans rest b) :
    Spans (first ++ kind :: rest) (a ++ (separator ++ b)) := by
  unfold Spans at *
  rw [solid_more hseparator, total_more]
  omega

theorem Stretches.more (ha : Stretches first a) (hkind : 1 ≤ kind.length)
    (hseparator : solid separator = 1) (hb : Stretches rest b) :
    Stretches (first ++ kind :: rest) (a ++ (separator ++ b)) := by
  unfold Stretches at *
  rw [solid_more hseparator, total_more]
  omega

theorem Expands.more (ha : Expands first a) (hkind : 1 ≤ kind.length)
    (hseparator : solid separator = 1) (hb : Expands rest b) :
    Expands (first ++ kind :: rest) (a ++ (separator ++ b)) := by
  have hfirst := ha.bound
  have hrest := hb.bound
  refine ⟨?_, fun hsigned => ?_⟩
  · rw [solid_more hseparator, total_more]
    omega
  · have hstretches : 3 * solid a ≤ 4 * total (first.map TokenKind.length) := by
      cases first with
      | nil =>
          rw [List.map_nil, total_nil] at hfirst ⊢
          omega
      | cons kind first => exact ha.signed hsigned
    unfold Stretches
    rw [solid_more hseparator, total_more]
    omega

end Marks

/-! ## Productions -/

theorem State.solid_le {name : String} (h : State compiler kinds name) :
    Spans kinds name.toList ∧ 1 ≤ total (kinds.map TokenKind.length) := by
  cases h with
  | @word letters name hname hdeclared _ =>
      have hcanonical := StateUniverse.isCanonicalName_of_mem hdeclared
      have hlength : name.toList.length = letters.length := by
        rw [← hname, upperCase, String.toList_map, List.length_map, String.toList_ofList]
      have htotal : total ([TokenKind.word letters].map TokenKind.length) =
          letters.length := by simp [TokenKind.length]
      rw [Spans, htotal, ← hlength]
      exact ⟨solid_le_length _, hcanonical.length_ge⟩

theorem Toward.spans {direction : Direction} (h : Toward compiler kinds direction) :
    Spans kinds direction.name.toList := by
  cases h with
  | @word letters direction hname _ =>
      have hlength : direction.name.toList.length = (trim letters).length := by
        rw [← hname, upperCase, String.toList_map, List.length_map, String.toList_ofList]
      calc solid direction.name.toList
          ≤ direction.name.toList.length := solid_le_length _
        _ = (trim letters).length := hlength
        _ ≤ letters.length := length_trim_le letters
        _ = total ([TokenKind.word letters].map TokenKind.length) := by
            simp [TokenKind.length]

theorem Within.spans {scope : Scope} (h : Within compiler kinds scope) :
    Spans kinds scope.render.toList := by
  cases h with
  | all => exact (by decide : solid "ALL".toList ≤ 3)
  | single hdirection => exact hdirection.spans
  | @listed kinds directions hlisted _ =>
      have hcomma : ∀ {kind}, IsComma kind → 1 ≤ kind.length := by
        rintro _ rfl
        decide
      have hnames : Spans kinds (",".intercalate (directions.map Direction.name)).toList :=
        hlisted.intercalate (fun _ _ hdirection => hdirection.spans) fun ha hmark hb =>
          ha.more (hcomma hmark) (by decide) hb
      have hrender := Scope.solid_render_le directions
      unfold Spans at hnames ⊢
      simp only [List.map_cons, List.map_append, total_cons, total_append,
        TokenKind.length, List.map_nil, total_nil]
      omega

theorem Sign.solid_eq {comparator : Comparator} (h : Sign kinds comparator) :
    solid comparator.sign.toList = total (kinds.map TokenKind.length) := by
  cases h <;> decide

theorem Count.spans_or {number : Nat} (h : Count kinds number) :
    Spans kinds (toString number).toList ∨
      kinds = [] ∧ solid (toString number).toList = 1 := by
  cases h with
  | bare => exact .inr ⟨rfl, by decide⟩
  | @digits letters hsome hdigits _ =>
      refine .inl ((solid_le_length _).trans ?_)
      simpa [TokenKind.length] using length_toString_digitsValue_le hsome hdigits

theorem Condition.expands {condition : CountCondition String}
    (h : Condition compiler kinds condition) :
    Expands kinds (condition.render id).toList := by
  cases h with
  | @mk signs numbers names comparator count name hsign hcount hstate =>
      obtain ⟨hname, hsome⟩ := hstate.solid_le
      have hhash : solid "#".toList = 1 := by decide
      have hsolid : solid (CountCondition.render id ⟨count, comparator, name⟩).toList =
          total (signs.map TokenKind.length) + solid (toString count).toList + 1 +
            solid name.toList := by
        simp only [CountCondition.render, String.toList_append, solid_append, hhash,
          hsign.solid_eq, id]
      have htotal : total ((signs ++ (numbers ++ .symbol '#' :: names)).map
          TokenKind.length) = total (signs.map TokenKind.length) +
            (total (numbers.map TokenKind.length) +
              (1 + total (names.map TokenKind.length))) := by
        simp only [List.map_append, List.map_cons, total_append, total_cons,
          TokenKind.length]
      unfold Spans at hname
      rcases hcount.spans_or with hnumber | ⟨rfl, hnumber⟩
      · unfold Spans at hnumber
        refine ⟨by omega, fun _ => ?_⟩
        unfold Stretches
        omega
      · rw [List.map_nil, total_nil] at htotal
        refine ⟨by omega, fun hsigned => ?_⟩
        -- The sign makes up for the digit.
        have hsign' : 1 ≤ total (signs.map TokenKind.length) := by
          cases hsign with
          | none => rcases hsigned with hhead | hhead <;> cases hhead
          | plus => decide
          | minus => decide
        unfold Stretches
        omega

theorem Clause.stretches {clause : Cellular.Clause} (h : Clause compiler kinds clause) :
    Stretches kinds clause.render.toList := by
  cases h with
  | @mk places equals kinds scope condition hscope hequals hcondition =>
      have hplaces := hscope.spans
      have hterms : Expands kinds (condition.render (CountCondition.render id)).toList :=
        hcondition.render (fun _ _ hitem => hitem.expands) Expands.more
      have hopen : solid "( ".toList = 1 := by decide
      have hequals' : solid " @ = ".toList = 2 := by decide
      have hclose : solid " )".toList = 1 := by decide
      have hsolid : solid (Cellular.Clause.render ⟨scope, condition⟩).toList =
          1 + solid scope.render.toList + 2 +
            solid (condition.render (CountCondition.render id)).toList + 1 := by
        simp only [Cellular.Clause.render, String.toList_append, solid_append, hopen,
          hequals', hclose]
      have htotal : total ((TokenKind.symbol '(' :: (places ++ .symbol '@' ::
          (equals ++ (kinds ++ [.symbol ')'])))).map TokenKind.length) =
            1 + (total (places.map TokenKind.length) +
              (1 + (total (equals.map TokenKind.length) +
                (total (kinds.map TokenKind.length) + 1)))) := by
        simp only [List.map_append, List.map_cons, List.map_nil, total_append, total_cons,
          total_nil, TokenKind.length, Nat.add_zero]
      unfold Spans at hplaces
      unfold Stretches
      cases hequals with
      | written =>
          have hone : total ([TokenKind.symbol '='].map TokenKind.length) = 1 := rfl
          have hbound := hterms.bound
          omega
      | omitted hsigned =>
          have hbound : 3 * _ ≤ 4 * _ := hterms.signed hsigned
          omega

theorem Rule.stretches {source target : String}
    {condition : Option (Formula Cellular.Clause)}
    (h : Rule compiler kinds source target condition) (offset : Nat) :
    Stretches kinds (Cellular.Rule.ofParts source target condition offset).render.toList := by
  cases h with
  | @mk sources targets kinds source target condition hsource htarget _ hending =>
      have hsources : solid source.toList ≤ _ := hsource.solid_le.1
      have htargets : solid target.toList ≤ _ := htarget.solid_le.1
      have hslash : solid " / ".toList = 1 := by decide
      have hcolon : solid " : ".toList = 1 := by decide
      have hsemicolon : solid " ;".toList = 1 := by decide
      have htotal : total ((sources ++ .symbol '/' :: (targets ++ kinds)).map
          TokenKind.length) = total (sources.map TokenKind.length) +
            (1 + (total (targets.map TokenKind.length) +
              total (kinds.map TokenKind.length))) := by
        simp only [List.map_append, List.map_cons, total_append, total_cons,
          TokenKind.length]
      unfold Stretches
      rw [htotal]
      cases hending with
      | always =>
          have hone : total ([TokenKind.symbol ';'].map TokenKind.length) = 1 := rfl
          simp only [Cellular.Rule.render, Cellular.Rule.ofParts, String.toList_append,
            solid_append, hslash, hsemicolon]
          omega
      | @conditional clauses condition hclauses =>
          have hterms : Stretches clauses (condition.render Cellular.Clause.render).toList :=
            hclauses.render (fun _ _ hitem => hitem.stretches) Stretches.more
          have htail : total ((TokenKind.symbol ':' :: (clauses ++ [.symbol ';'])).map
              TokenKind.length) = 1 + (total (clauses.map TokenKind.length) + 1) := by
            simp only [List.map_append, List.map_cons, List.map_nil, total_append,
              total_cons, total_nil, TokenKind.length, Nat.add_zero]
          unfold Stretches at hterms
          simp only [Cellular.Rule.render, Cellular.Rule.ofParts, String.toList_append,
            solid_append, hslash, hcolon, hsemicolon]
          omega

end Grammar

/-! ## Compiled rules -/

/-- The text of a compiled rule is at most a third longer than the longest source that
a rule may have. -/
theorem Compiler.three_mul_chars_le {text : String} {rule : Rule}
    (h : rule ∈ (compiler.compile text).table.rules) :
    3 * rule.chars ≤ 4 * compiler.limits.ruleCharsMax := by
  obtain ⟨kinds, source, target, condition, offset, hrule, rfl, hfits⟩ :=
    exists_source_of_mem_compile h
  have hchars := Rule.chars_le_solid (.ofParts source target condition offset)
  have hstretches : 3 * _ ≤ 4 * _ := hrule.stretches offset
  omega

namespace Compiler

def withRuleChars (compiler : Compiler) (limit : Nat) : Compiler :=
  { compiler with limits := { compiler.limits with ruleCharsMax := limit } }

theorem covers_withRuleChars (compiler : Compiler) (limit : Nat) :
    (compiler.withRuleChars limit).Covers compiler where
  names _ h := h
  directions _ h := h

theorem rules_compile_render_withRuleChars {table : RuleTable} {limit : Nat}
    (h : table.IsPrintable (compiler.withRuleChars limit)) :
    ((compiler.withRuleChars limit).compile table.render).table.rules.map
        Rule.transition =
      (table.rules.filter fun rule => rule.chars ≤ limit).map Rule.transition := by
  have hkept : table.rules.filter (Rule.Fits (compiler.withRuleChars limit).limits) =
      table.rules.filter fun rule => rule.chars ≤ limit := rfl
  rw [← hkept]
  exact RuleTable.rules_compile_render h

theorem isOk_compile_render_withRuleChars {table : RuleTable} {limit : Nat}
    (h : table.IsPrintable (compiler.withRuleChars limit))
    (hsize : table.size ≤ compiler.limits.rulesMax) :
    ((compiler.withRuleChars limit).compile table.render).isOk = true ↔
      ∀ rule ∈ table.rules, rule.chars ≤ limit := by
  rw [RuleTable.isOk_compile_render_iff h]
  exact ⟨RuleTable.Fits.rules, fun hfits => ⟨hsize, hfits⟩⟩

/-- Compiles a text, prints its rules and compiles them under a limit of their own. -/
def recompile (compiler : Compiler) (text : String) (limit : Nat) : Compilation :=
  (compiler.withRuleChars limit).compile (compiler.compile text).table.render

/-- Under any limit on their length the rules of a compiled text are read back from
their print but for those that are too long.  None is longer by more than a third than
the limit that the text was compiled under, so none is lost under a limit that is
larger by a third. -/
theorem recompile_limited (compiler : Compiler) (text : String) (limit : Nat) :
    (compiler.recompile text limit).table.rules.map Rule.transition =
        ((compiler.compile text).table.rules.filter fun rule => rule.chars ≤ limit).map
          Rule.transition ∧
      (∀ rule ∈ (compiler.compile text).table.rules,
        3 * rule.chars ≤ 4 * compiler.limits.ruleCharsMax) ∧
      ((compiler.compile text).isOk = true →
        ((compiler.recompile text limit).isOk = true ↔
          ∀ rule ∈ (compiler.compile text).table.rules, rule.chars ≤ limit) ∧
        (4 * compiler.limits.ruleCharsMax ≤ 3 * limit →
          (compiler.recompile text limit).isOk = true ∧
            (compiler.recompile text limit).table.rules.map Rule.transition =
              (compiler.compile text).table.rules.map Rule.transition)) := by
  unfold recompile
  have hprintable : (compiler.compile text).table.IsPrintable
      (compiler.withRuleChars limit) :=
    RuleTable.isPrintable_compile (covers_withRuleChars compiler limit) text
  have hrules := rules_compile_render_withRuleChars hprintable
  have hchars : ∀ rule ∈ (compiler.compile text).table.rules,
      3 * rule.chars ≤ 4 * compiler.limits.ruleCharsMax :=
    fun _ hmem => three_mul_chars_le hmem
  refine ⟨hrules, hchars, fun hok => ?_⟩
  have hagain := isOk_compile_render_withRuleChars hprintable (size_le_of_isOk hok)
  refine ⟨hagain, fun hlimit => ?_⟩
  have hfits : ∀ rule ∈ (compiler.compile text).table.rules, rule.chars ≤ limit := by
    intro rule hmem
    have hrule := hchars rule hmem
    omega
  have hall : (compiler.compile text).table.rules.filter
      (fun rule => rule.chars ≤ limit) = (compiler.compile text).table.rules :=
    List.filter_eq_self.mpr fun rule hmem => decide_eq_true (hfits rule hmem)
  exact ⟨hagain.mpr hfits, by rw [hrules, hall]⟩

def tightCompiler : Compiler := ⟨wordStates, .moore, ⟨1, 32, 17, 1⟩⟩

def bareText : String := "free/3:(all@=#3);"

theorem recompile_limited_bare :
    (tightCompiler.compile bareText).isOk = true ∧
      (tightCompiler.recompile bareText 23).isOk = true := by
  have hok : (tightCompiler.compile bareText).isOk = true := by decide +kernel
  obtain ⟨-, -, hread⟩ := recompile_limited tightCompiler bareText 23
  exact ⟨hok, ((hread hok).2 (by decide)).1⟩

/-- The count of one that was left out takes the rule past the limit when it is printed,
and the rule is lost. -/
theorem recompile_bare :
    (tightCompiler.compile bareText).isOk = true ∧
      (tightCompiler.compile bareText).table.render = "FREE / 3 : ( ALL @ = 1#3 ) ;\n" ∧
      (tightCompiler.compile (tightCompiler.compile bareText).table.render).isOk =
        false ∧
      (tightCompiler.compile
        (tightCompiler.compile bareText).table.render).table.isEmpty = true := by
  decide +kernel

end Compiler

end Cellular
