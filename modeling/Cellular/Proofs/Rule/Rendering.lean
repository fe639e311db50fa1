import Cellular.Proofs.Rule.Grammar
import Cellular.Proofs.Rule.Spelling
import Cellular.Proofs.State.Names
import Cellular.Proofs.Text.Numeral
import Cellular.Total

/-!
# The text of a rule

A canonical rule is one that rule text can express: its names are declared and of
admissible length, its directions configured and distinct, its numbers in range,
its conditions made of groups, and its text not too long.  The text of such a rule,
even of one that is too long, spells kinds that derive from the grammar and stand
for the rule (`prints_rule`).
-/

namespace Cellular

open Text

/-! ## Canonical rules -/

def Compiler.Admits (compiler : Compiler) (name : String) : Prop :=
  name ∈ compiler.states.names ∧
    compiler.limits.admitsLength name.length = true

def Formula.IsGrouped {α : Type} (property : α → Prop) (formula : Formula α) :
    Prop :=
  ∃ groups, Formula.ofGroups groups = some formula ∧
    ∀ group ∈ groups, ∀ value ∈ group, property value

structure CountCondition.IsCanonical (compiler : Compiler)
    (condition : CountCondition String) : Prop where
  state : compiler.Admits condition.state
  count : condition.count ≤ Compiler.countMax

def Scope.IsCanonical (compiler : Compiler) : Scope → Prop
  | .all => True
  | .directions listed => listed ≠ [] ∧ listed.Nodup ∧
      ∀ direction ∈ listed, compiler.neighborhood.contains direction = true

structure Clause.IsCanonical (compiler : Compiler) (clause : Clause) : Prop where
  scope : clause.scope.IsCanonical compiler
  condition : clause.condition.IsGrouped (CountCondition.IsCanonical compiler)

structure Rule.IsCanonical (compiler : Compiler) (rule : Rule) : Prop where
  source : compiler.Admits rule.source
  target : compiler.Admits rule.target
  source_ne_target : rule.source ≠ rule.target
  condition : ∀ formula, rule.condition = some formula →
    formula.IsGrouped (Clause.IsCanonical compiler)
  /-- The tokens of the rule's text fit the limit. -/
  fits : total ((Token.scan rule.render.toList).map Token.length) ≤
    compiler.limits.ruleCharsMax

/-- A rule that is canonical but for the length of its text. -/
structure Rule.IsPrintable (compiler : Compiler) (rule : Rule) : Prop where
  source : compiler.Admits rule.source
  target : compiler.Admits rule.target
  source_ne_target : rule.source ≠ rule.target
  condition : ∀ formula, rule.condition = some formula →
    formula.IsGrouped (Clause.IsCanonical compiler)

theorem Rule.IsCanonical.isPrintable {compiler : Compiler} {rule : Rule}
    (h : rule.IsCanonical compiler) : rule.IsPrintable compiler :=
  ⟨h.source, h.target, h.source_ne_target, h.condition⟩

def Rule.chars (rule : Rule) : Nat :=
  total ((Token.scan rule.render.toList).map Token.length)

def Prints {α : Type} (meaning : List TokenKind → α → Prop) (text : List Char)
    (value : α) : Prop :=
  ∃ kinds, Spells text kinds ∧ meaning kinds value

variable {compiler : Compiler}

/-! ## Words -/

theorem IsCanonicalName.spells {name : String} (h : IsCanonicalName name) :
    Spells name.toList [.word name.toList] := by
  have hspells := Spells.word h.isWord.ne_nil fun c hmem => (h.chars c hmem).1
  rwa [h.map_toUpper] at hspells

theorem Compiler.Admits.state {name : String} (h : compiler.Admits name) :
    Grammar.State compiler [.word name.toList] name := by
  obtain ⟨hdeclared, hlength⟩ := h
  have hname := StateUniverse.isCanonicalName_of_mem hdeclared
  refine .word ?_ hdeclared ?_
  · rw [String.ofList_toList, hname.upperCase_eq]
  · rwa [String.length_toList]

theorem prints_state {name : String} (h : compiler.Admits name) :
    Prints (Grammar.State compiler) name.toList name :=
  ⟨_, (StateUniverse.isCanonicalName_of_mem h.1).spells, h.state⟩

theorem prints_direction {direction : Direction}
    (h : compiler.neighborhood.contains direction = true) :
    Prints (Grammar.Toward compiler) direction.name.toList direction := by
  have hname := direction.isCanonicalName_name
  refine ⟨_, hname.spells, .word ?_ h⟩
  rw [trim_word hname.isWord, String.ofList_toList, hname.upperCase_eq]

theorem Text.toUpper_of_isDigit {c : Char} (h : c.isDigit = true) :
    c.toUpper = c := by
  obtain ⟨-, hupper⟩ := Char.isDigit_iff_toNat.mp h
  have hnot : ¬(97 ≤ c.toNat ∧ c.toNat ≤ 122) := by
    have hnine : '9'.toNat = 57 := rfl
    omega
  rw [← Char.toNat_inj, toNat_toUpper, if_neg hnot]

theorem prints_count {count : Nat} (h : count ≤ Compiler.countMax) :
    Prints Grammar.Count (toString count).toList count := by
  obtain ⟨hsome, hdigits, hvalue⟩ := digits?_eq_some_iff.mp (digits?_toString count)
  have hupper : (toString count).toList.map Char.toUpper =
      (toString count).toList := by
    rw [List.map_congr_left fun c hmem => toUpper_of_isDigit (hdigits c hmem),
      List.map_id']
  have hspells := Spells.word hsome fun c hmem =>
    isNameChar_of_isDigit (hdigits c hmem)
  rw [hupper] at hspells
  have hmeaning := Grammar.Count.digits hsome hdigits (by rwa [← hvalue])
  rw [← hvalue] at hmeaning
  exact ⟨_, hspells, hmeaning⟩

/-! ## Symbols and blanks -/

variable {text : List Char} {kinds : List TokenKind} {c : Char}

theorem Spells.space (htext : Spells text kinds) : Spells (' ' :: text) kinds :=
  htext.blank (by decide) (by decide)

theorem Spells.spaced (htext : Spells text kinds) (h : c ∈ Token.symbols) :
    Spells (' ' :: c :: ' ' :: text) (.symbol c :: kinds) :=
  (htext.space.symbol h).space

theorem Spells.close (htext : Spells text kinds) (h : c ∈ Token.symbols) :
    Spells (text ++ [' ', c]) (kinds ++ [.symbol c]) :=
  htext.append (Spells.nil.symbol h).space (Token.apart_cons (by decide))

theorem prints_condition {condition : CountCondition String}
    (h : condition.IsCanonical compiler) :
    Prints (Grammar.Condition compiler) (condition.render id).toList
      condition := by
  obtain ⟨count, comparator, state⟩ := condition
  obtain ⟨numbers, hnumbers, hcount⟩ := prints_count h.count
  obtain ⟨names, hnames, hstate⟩ := prints_state h.state
  have htail : Spells ((toString count).toList ++ '#' :: state.toList)
      (numbers ++ .symbol '#' :: names) :=
    hnumbers.append (hnames.symbol (by decide)) (Token.apart_cons (by decide))
  have htext : (CountCondition.render id ⟨count, comparator, state⟩).toList =
      comparator.sign.toList ++
        ((toString count).toList ++ '#' :: state.toList) := by
    simp [CountCondition.render]
  rw [htext]
  cases comparator with
  | equal => exact ⟨_, htail, .mk .none hcount hstate⟩
  | less => exact ⟨_, htail.symbol (by decide), .mk .minus hcount hstate⟩
  | more => exact ⟨_, htail.symbol (by decide), .mk .plus hcount hstate⟩

/-! ## Lists -/

section Lists

variable {α : Type} {item : List TokenKind → α → Prop} {text : α → String}
  {property : α → Prop}

theorem prints_joined {mark : TokenKind → Prop} {kind : TokenKind}
    (hmark : mark kind) {separator : String}
    (hseparator : ∀ {text kinds}, Spells text kinds →
      Spells (separator.toList ++ text) (kind :: kinds))
    (hapart : ∀ text, Token.Apart (separator.toList ++ text)) {values : List α}
    (hsome : values ≠ [])
    (hvalues : ∀ value ∈ values, Prints item (text value).toList value) :
    Prints (Grammar.Joined item mark)
      (separator.intercalate (values.map text)).toList values := by
  induction values with
  | nil => exact absurd rfl hsome
  | cons value values ih =>
      obtain ⟨kinds, hspells, hitem⟩ := hvalues value List.mem_cons_self
      cases values with
      | nil =>
          rw [List.map_singleton, String.intercalate_singleton]
          exact ⟨kinds, hspells, .last hitem⟩
      | cons next values =>
          obtain ⟨rest, hrest, hjoined⟩ := ih (by simp) fun value hmem =>
            hvalues value (List.mem_cons_of_mem _ hmem)
          rw [List.map_cons, String.intercalate_cons_of_ne_nil (by simp),
            String.toList_append, String.toList_append, List.append_assoc]
          exact ⟨_, hspells.append (hseparator hrest) (hapart _),
            .more hitem hmark hjoined⟩

theorem render_collapse {join : List (Formula α) → Formula α} {separator : String}
    (hjoin : ∀ formulas, (join formulas).render text =
      separator.intercalate (formulas.map (Formula.render text)))
    (formulas : List (Formula α)) :
    (Grammar.collapse join formulas).render text =
      separator.intercalate (formulas.map (Formula.render text)) := by
  unfold Grammar.collapse
  split
  · rw [List.map_singleton, String.intercalate_singleton]
  · exact hjoin _

theorem render_treeOf (groups : List (List α)) :
    (Grammar.treeOf groups).render text = " | ".intercalate
      (groups.map fun group => " & ".intercalate (group.map text)) := by
  have hany : ∀ formulas : List (Formula α), (Formula.any formulas).render text =
      " | ".intercalate (formulas.map (Formula.render text)) := by
    intro formulas
    rw [Formula.render, Formula.renderList_eq]
  have hall : ∀ formulas : List (Formula α), (Formula.all formulas).render text =
      " & ".intercalate (formulas.map (Formula.render text)) := by
    intro formulas
    rw [Formula.render, Formula.renderList_eq]
  have hgroup : ∀ group : List α,
      (Grammar.collapse .all (group.map Formula.leaf)).render text =
        " & ".intercalate (group.map text) := by
    intro group
    rw [render_collapse hall, List.map_map]
    rfl
  rw [Grammar.treeOf, render_collapse hany, List.map_map]
  congr 1
  exact List.map_congr_left fun group _ => hgroup group

theorem Formula.IsGrouped.exists_treeOf {formula : Formula α}
    (h : formula.IsGrouped property) :
    ∃ groups, formula = Grammar.treeOf groups ∧ groups ≠ [] ∧
      ∀ group ∈ groups, group ≠ [] ∧ ∀ value ∈ group, property value := by
  obtain ⟨groups, hformula, hproperty⟩ := h
  let some := groups.filter fun group => !group.isEmpty
  have hnonempty : ∀ group ∈ some, group ≠ [] := by
    intro group hmem
    simpa using (List.mem_filter.mp hmem).2
  have hfilter : Formula.ofGroups some = Formula.ofGroups groups := by
    rw [Formula.ofGroups, Formula.ofGroups, List.filter_filter]
    simp
  have hsome : some ≠ [] := by
    intro hnil
    rw [← hfilter, hnil] at hformula
    cases hformula
  rw [← hfilter, Grammar.ofGroups_eq_treeOf hsome hnonempty,
    Option.some.injEq] at hformula
  exact ⟨some, hformula.symm, hsome, fun group hmem =>
    ⟨hnonempty group hmem, hproperty group (List.mem_of_mem_filter hmem)⟩⟩

theorem prints_terms {formula : Formula α} (h : formula.IsGrouped property)
    (hitem : ∀ value, property value → Prints item (text value).toList value) :
    Prints (Grammar.Terms item) (formula.render text).toList formula := by
  obtain ⟨groups, rfl, hsome, hgroups⟩ := h.exists_treeOf
  have hgroup : ∀ group ∈ groups, Prints (Grammar.Joined item Grammar.IsAnd)
      (" & ".intercalate (group.map text)).toList group := by
    intro group hmem
    obtain ⟨hne, hproperty⟩ := hgroups group hmem
    have hampersand : Grammar.IsAnd (.symbol '&') := .inl rfl
    have hseparator : ∀ {text kinds}, Spells text kinds →
        Spells (" & ".toList ++ text) (.symbol '&' :: kinds) :=
      fun htext => htext.spaced (by decide)
    exact prints_joined hampersand hseparator
      (fun _ => Token.apart_cons (by decide)) hne
      fun value hvalue => hitem value (hproperty value hvalue)
  have hbar : Grammar.IsOr (.symbol '|') := .inl rfl
  have hseparator : ∀ {text kinds}, Spells text kinds →
      Spells (" | ".toList ++ text) (.symbol '|' :: kinds) :=
    fun htext => htext.spaced (by decide)
  obtain ⟨kinds, hspells, hjoined⟩ := prints_joined hbar hseparator
    (fun _ => Token.apart_cons (by decide)) hsome hgroup
  rw [render_treeOf]
  exact ⟨kinds, hspells, groups, hjoined, rfl⟩

end Lists

/-! ## Clauses and rules -/

theorem prints_scope {scope : Scope} (h : scope.IsCanonical compiler) :
    Prints (Grammar.Within compiler) scope.render.toList scope := by
  match scope, h with
  | .all, _ =>
      have hname : IsCanonicalName "ALL" :=
        isCanonicalName_of_all (by decide) (by decide) (by decide)
      exact ⟨_, hname.spells, .all⟩
  | .directions [direction], h =>
      obtain ⟨-, -, hconfigured⟩ := h
      obtain ⟨kinds, hspells, htoward⟩ :=
        prints_direction (hconfigured direction List.mem_cons_self)
      exact ⟨kinds, hspells, .single htoward⟩
  | .directions (first :: second :: others), h =>
      obtain ⟨hsome, hnodup, hconfigured⟩ := h
      have hseparator : ∀ {text kinds}, Spells text kinds →
          Spells (",".toList ++ text) (.symbol ',' :: kinds) :=
        fun htext => htext.symbol (by decide)
      have hcomma : Grammar.IsComma (.symbol ',') := rfl
      obtain ⟨kinds, hspells, hjoined⟩ := prints_joined hcomma hseparator
        (fun _ => Token.apart_cons (by decide)) hsome
        fun direction hmem => prints_direction (hconfigured direction hmem)
      have hclosed : Spells (_ ++ [']']) (kinds ++ [.symbol ']']) :=
        hspells.append (Spells.nil.symbol (by decide))
          (Token.apart_cons (by decide))
      refine ⟨_, ?_, .listed hjoined hnodup⟩
      simpa [Scope.render] using hclosed.symbol (c := '[') (by decide)

theorem prints_clause {clause : Clause} (h : clause.IsCanonical compiler) :
    Prints (Grammar.Clause compiler) clause.render.toList clause := by
  obtain ⟨places, hplaces, hwithin⟩ := prints_scope h.scope
  obtain ⟨kinds, hkinds, hterms⟩ :=
    prints_terms h.condition fun _ => prints_condition
  have hequals := ((hkinds.close (c := ')') (by decide)).space.symbol
    (c := '=') (by decide)).spaced (c := '@') (by decide)
  have hopen := ((hplaces.append hequals
    (Token.apart_cons (by decide))).space).symbol (c := '(') (by decide)
  refine ⟨_, ?_, .mk hwithin .written hterms⟩
  simpa [Clause.render] using hopen

theorem prints_rule {rule : Rule} (h : rule.IsPrintable compiler) :
    ∃ kinds, Spells rule.render.toList kinds ∧
      Grammar.Rule compiler kinds rule.source rule.target rule.condition := by
  obtain ⟨sources, hsources, hsource⟩ := prints_state h.source
  obtain ⟨targets, htargets, htarget⟩ := prints_state h.target
  have hrule : ∀ {ending kinds}, Spells ending kinds → Token.Apart ending →
      Spells (rule.source.toList ++
          ' ' :: '/' :: ' ' :: (rule.target.toList ++ ending))
        (sources ++ .symbol '/' :: (targets ++ kinds)) := by
    intro ending kinds hending hapart
    exact hsources.append ((htargets.append hending hapart).spaced (by decide))
      (Token.apart_cons (by decide))
  cases hcondition : rule.condition with
  | none =>
      have hend : Spells [' ', ';'] [.symbol ';'] :=
        (Spells.nil.symbol (by decide)).space
      refine ⟨_, ?_, .mk hsource htarget h.source_ne_target .always⟩
      simpa [Rule.render, hcondition] using
        hrule hend (Token.apart_cons (by decide))
  | some formula =>
      obtain ⟨kinds, hkinds, hterms⟩ :=
        prints_terms (h.condition formula hcondition) fun _ => prints_clause
      have hend := (hkinds.close (c := ';') (by decide)).spaced (c := ':')
        (by decide)
      refine ⟨_, ?_, .mk hsource htarget h.source_ne_target
        (.conditional hterms)⟩
      simpa [Rule.render, hcondition] using
        hrule hend (Token.apart_cons (by decide))

end Cellular
