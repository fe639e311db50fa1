import Cellular.Proofs.Formula.Truth
import Cellular.Rule.Statement

/-!
# The grammar of rules

Every production is a relation between a list of token kinds and what the list
stands for.  "And" binds tighter than "or": a list of terms is a list of groups
joined by "or", and a group is a list of terms joined by "and".  The tree of a
list of terms is the disjunction of the groups' conjunctions, in the order of
the text, where a single term or a single group stands alone.

Where a word may stand for several things, its place decides.  Only the word
itself is compared, so a state may be called `AND`, `ALL`, `N` or `3`.
-/

namespace Cellular

open Text

namespace Grammar

/-! ## Lists of terms -/

/-- One or more items with a mark between neighbors. -/
inductive Joined {α : Type} (item : List TokenKind → α → Prop)
    (mark : TokenKind → Prop) : List TokenKind → List α → Prop
  | last {kinds : List TokenKind} {value : α} (hitem : item kinds value) :
      Joined item mark kinds [value]
  | more {kinds rest : List TokenKind} {kind : TokenKind} {value : α}
      {values : List α} (hitem : item kinds value) (hmark : mark kind)
      (hrest : Joined item mark rest values) :
      Joined item mark (kinds ++ kind :: rest) (value :: values)

def IsAnd (kind : TokenKind) : Prop :=
  kind = .symbol '&' ∨ kind = .word "AND".toList

def IsOr (kind : TokenKind) : Prop :=
  kind = .symbol '|' ∨ kind = .word "OR".toList

def IsComma (kind : TokenKind) : Prop := kind = .symbol ','

def collapse {α : Type} (join : List (Formula α) → Formula α) :
    List (Formula α) → Formula α
  | [formula] => formula
  | formulas => join formulas

def treeOf {α : Type} (groups : List (List α)) : Formula α :=
  collapse .any (groups.map fun group => collapse .all (group.map .leaf))

def Terms {α : Type} (item : List TokenKind → α → Prop)
    (kinds : List TokenKind) (formula : Formula α) : Prop :=
  ∃ groups, Joined (Joined item IsAnd) IsOr kinds groups ∧
    formula = treeOf groups

section Lists

variable {α : Type} {item : List TokenKind → α → Prop}
  {mark : TokenKind → Prop} {kinds : List TokenKind} {values : List α}
  {groups : List (List α)}

theorem Joined.ne_nil (h : Joined item mark kinds values) : values ≠ [] := by
  cases h <;> simp

theorem Joined.exists_item (h : Joined item mark kinds values) {value : α}
    (hmem : value ∈ values) : ∃ kinds, item kinds value := by
  induction h with
  | last hitem =>
      rw [List.mem_singleton] at hmem
      exact ⟨_, hmem ▸ hitem⟩
  | more hitem _ _ ih =>
      rcases List.mem_cons.mp hmem with rfl | hrest
      · exact ⟨_, hitem⟩
      · exact ih hrest

theorem Joined.forall_kinds {property : TokenKind → Prop}
    (h : Joined item mark kinds values)
    (hitem : ∀ kinds value, item kinds value → ∀ kind ∈ kinds, property kind)
    (hmark : ∀ kind, mark kind → property kind) :
    ∀ kind ∈ kinds, property kind := by
  induction h with
  | last hvalue => exact hitem _ _ hvalue
  | more hvalue hkind _ ih =>
      intro kind hmem
      rcases List.mem_append.mp hmem with hfirst | hrest
      · exact hitem _ _ hvalue kind hfirst
      · rcases List.mem_cons.mp hrest with rfl | hlater
        · exact hmark _ hkind
        · exact ih kind hlater

theorem leaves_collapse_all (formulas : List (Formula α)) :
    (collapse .all formulas).leaves = formulas.flatMap Formula.leaves := by
  unfold collapse
  split <;> simp

theorem leaves_collapse_any (formulas : List (Formula α)) :
    (collapse .any formulas).leaves = formulas.flatMap Formula.leaves := by
  unfold collapse
  split <;> simp

theorem leaves_treeOf : (treeOf groups).leaves = groups.flatten := by
  rw [treeOf, leaves_collapse_any]
  induction groups with
  | nil => rfl
  | cons group groups ih =>
      rw [List.map_cons, List.flatMap_cons, ih, leaves_collapse_all,
        List.flatMap_map, List.flatten_cons]
      simp

theorem noEmptyNode_treeOf (hsome : groups ≠ [])
    (hgroups : ∀ group ∈ groups, group ≠ []) : (treeOf groups).NoEmptyNode := by
  have hgroup : ∀ formula ∈ groups.map fun group =>
      collapse .all (group.map Formula.leaf), formula.NoEmptyNode := by
    intro formula hmem
    obtain ⟨group, hgroup, rfl⟩ := List.mem_map.mp hmem
    match group, hgroups group hgroup with
    | [value], _ => exact .leaf value
    | first :: second :: others, _ =>
        refine .all (by simp) fun term hterm => ?_
        rw [← List.map_cons, List.mem_map] at hterm
        obtain ⟨value, -, rfl⟩ := hterm
        exact .leaf value
  have hformulas : (groups.map fun group =>
      collapse .all (group.map Formula.leaf)) ≠ [] := by simpa using hsome
  unfold treeOf
  generalize groups.map _ = formulas at hgroup hformulas ⊢
  match formulas, hformulas with
  | [formula], _ => exact hgroup formula (by simp)
  | first :: second :: others, _ => exact .any (by simp) hgroup

/-- The tree of groups without an empty one is the formula made of them. -/
theorem ofGroups_eq_treeOf (hsome : groups ≠ [])
    (hgroups : ∀ group ∈ groups, group ≠ []) :
    Formula.ofGroups groups = some (treeOf groups) := by
  have hfilter : (groups.filter fun group => !group.isEmpty) = groups := by
    rw [List.filter_eq_self]
    intro group hmem
    simpa using hgroups group hmem
  have hgroup : ∀ group : List α,
      Formula.ofGroup group = collapse .all (group.map .leaf) := by
    intro group
    match group with
    | [] => rfl
    | [value] => rfl
    | first :: second :: others => rfl
  rw [Formula.ofGroups, hfilter, treeOf, funext hgroup]
  match groups, hsome with
  | [group], _ => rfl
  | first :: second :: others, _ => rfl

theorem Terms.noEmptyNode {formula : Formula α}
    (h : Terms item kinds formula) : formula.NoEmptyNode := by
  obtain ⟨groups, hgroups, rfl⟩ := h
  refine noEmptyNode_treeOf hgroups.ne_nil fun group hmem => ?_
  obtain ⟨kinds, hgroup⟩ := hgroups.exists_item hmem
  exact hgroup.ne_nil

theorem Terms.exists_item {formula : Formula α} (h : Terms item kinds formula)
    {value : α} (hmem : value ∈ formula.leaves) :
    ∃ kinds, item kinds value := by
  obtain ⟨groups, hgroups, rfl⟩ := h
  rw [leaves_treeOf, List.mem_flatten] at hmem
  obtain ⟨group, hgroup, hvalue⟩ := hmem
  obtain ⟨kinds, hjoined⟩ := hgroups.exists_item hgroup
  exact hjoined.exists_item hvalue

end Lists

/-! ## Productions -/

inductive Sign : List TokenKind → Comparator → Prop
  | none : Sign [] .equal
  | plus : Sign [.symbol '+'] .more
  | minus : Sign [.symbol '-'] .less

/-- A number that fits a count condition; without one the count is one. -/
inductive Count : List TokenKind → Nat → Prop
  | bare : Count [] 1
  | digits {letters : List Char} (hsome : letters ≠ [])
      (hdigits : ∀ c ∈ letters, c.isDigit = true)
      (hbound : digitsValue letters ≤ Compiler.countMax) :
      Count [.word letters] (digitsValue letters)

/-- A declared name, in any letter case, of admissible length. -/
inductive State (compiler : Compiler) : List TokenKind → String → Prop
  | word {letters : List Char} {name : String}
      (hname : upperCase (String.ofList letters) = name)
      (hdeclared : name ∈ compiler.states.names)
      (hlength : compiler.limits.admitsLength letters.length = true) :
      State compiler [.word letters] name

inductive Condition (compiler : Compiler) :
    List TokenKind → CountCondition String → Prop
  | mk {signs numbers names : List TokenKind} {comparator : Comparator}
      {count : Nat} {name : String} (hsign : Sign signs comparator)
      (hcount : Count numbers count) (hstate : State compiler names name) :
      Condition compiler (signs ++ (numbers ++ .symbol '#' :: names))
        ⟨count, comparator, name⟩

inductive Toward (compiler : Compiler) : List TokenKind → Direction → Prop
  | word {letters : List Char} {direction : Direction}
      (hname : upperCase (String.ofList (trim letters)) = direction.name)
      (hconfigured : compiler.neighborhood.contains direction = true) :
      Toward compiler [.word letters] direction

inductive Within (compiler : Compiler) : List TokenKind → Scope → Prop
  | all : Within compiler [.word "ALL".toList] .all
  | single {kinds : List TokenKind} {direction : Direction}
      (hdirection : Toward compiler kinds direction) :
      Within compiler kinds (.directions [direction])
  | listed {kinds : List TokenKind} {directions : List Direction}
      (hlisted : Joined (Toward compiler) IsComma kinds directions)
      (hnodup : directions.Nodup) :
      Within compiler (.symbol '[' :: (kinds ++ [.symbol ']']))
        (.directions directions)

/-- The equals sign, which may be left out in front of a sign. -/
inductive Equals (following : List TokenKind) : List TokenKind → Prop
  | written : Equals following [.symbol '=']
  | omitted
      (hsign : following.head? = some (.symbol '+') ∨
        following.head? = some (.symbol '-')) : Equals following []

inductive Clause (compiler : Compiler) : List TokenKind → Cellular.Clause → Prop
  | mk {places equals kinds : List TokenKind} {scope : Scope}
      {condition : Formula (CountCondition String)}
      (hscope : Within compiler places scope) (hequals : Equals kinds equals)
      (hcondition : Terms (Condition compiler) kinds condition) :
      Clause compiler
        (.symbol '(' :: (places ++
          .symbol '@' :: (equals ++ (kinds ++ [.symbol ')']))))
        ⟨scope, condition⟩

inductive Ending (compiler : Compiler) :
    List TokenKind → Option (Formula Cellular.Clause) → Prop
  | always : Ending compiler [.symbol ';'] none
  | conditional {kinds : List TokenKind} {condition : Formula Cellular.Clause}
      (hclauses : Terms (Clause compiler) kinds condition) :
      Ending compiler (.symbol ':' :: (kinds ++ [.symbol ';'])) (some condition)

inductive Rule (compiler : Compiler) :
    List TokenKind → String → String → Option (Formula Cellular.Clause) → Prop
  | mk {sources targets kinds : List TokenKind} {source target : String}
      {condition : Option (Formula Cellular.Clause)}
      (hsource : State compiler sources source)
      (htarget : State compiler targets target) (hne : source ≠ target)
      (hending : Ending compiler kinds condition) :
      Rule compiler (sources ++ .symbol '/' :: (targets ++ kinds))
        source target condition

/-! ## The end of a rule -/

def Inner (kinds : List TokenKind) : Prop :=
  ∀ kind ∈ kinds, kind ≠ .symbol ';' ∧ ∀ character, kind ≠ .illegal character

variable {compiler : Compiler} {kinds : List TokenKind}

theorem inner_append {first second : List TokenKind} :
    Inner (first ++ second) ↔ Inner first ∧ Inner second :=
  List.forall_mem_append

theorem inner_cons {kind : TokenKind} :
    Inner (kind :: kinds) ↔
      (kind ≠ .symbol ';' ∧ ∀ character, kind ≠ .illegal character) ∧
        Inner kinds :=
  List.forall_mem_cons

theorem inner_nil : Inner [] := by simp [Inner]

theorem Sign.inner {comparator : Comparator} (h : Sign kinds comparator) :
    Inner kinds := by
  cases h <;> simp [Inner]

theorem Count.inner {number : Nat} (h : Count kinds number) : Inner kinds := by
  cases h <;> simp [Inner]

theorem State.inner {name : String} (h : State compiler kinds name) :
    Inner kinds := by
  cases h
  simp [Inner]

theorem Toward.inner {direction : Direction}
    (h : Toward compiler kinds direction) : Inner kinds := by
  cases h
  simp [Inner]

theorem Condition.inner {condition : CountCondition String}
    (h : Condition compiler kinds condition) : Inner kinds := by
  cases h with
  | mk hsign hcount hstate =>
      rw [inner_append, inner_append, inner_cons]
      exact ⟨hsign.inner, hcount.inner, by simp, hstate.inner⟩

theorem Terms.inner {α : Type} {item : List TokenKind → α → Prop}
    {formula : Formula α} (h : Terms item kinds formula)
    (hitem : ∀ kinds value, item kinds value → Inner kinds) : Inner kinds := by
  obtain ⟨groups, hgroups, -⟩ := h
  refine hgroups.forall_kinds (fun _ _ hgroup => ?_) ?_
  · refine hgroup.forall_kinds hitem ?_
    rintro kind (rfl | rfl) <;> simp
  · rintro kind (rfl | rfl) <;> simp

theorem Within.inner {scope : Scope} (h : Within compiler kinds scope) :
    Inner kinds := by
  cases h with
  | all => simp [Inner]
  | single hdirection => exact hdirection.inner
  | listed hlisted =>
      have hkinds : Inner _ :=
        hlisted.forall_kinds (fun _ _ => Toward.inner) (by simp [IsComma])
      rw [inner_cons, inner_append, inner_cons]
      exact ⟨by simp, hkinds, by simp, inner_nil⟩

theorem Clause.inner {clause : Cellular.Clause}
    (h : Clause compiler kinds clause) : Inner kinds := by
  cases h with
  | @mk _ equals _ _ _ hscope hequals hcondition =>
      have hinner : Inner equals := by
        cases hequals <;> simp [Inner]
      have hkinds := hcondition.inner fun _ _ => Condition.inner
      simp only [inner_cons, inner_append]
      exact ⟨by simp, hscope.inner, by simp, hinner, hkinds, by simp, inner_nil⟩

theorem Rule.semicolon_last {source target : String}
    {condition : Option (Formula Cellular.Clause)}
    (h : Rule compiler kinds source target condition) :
    ∃ body, kinds = body ++ [.symbol ';'] ∧ Inner body := by
  cases h with
  | @mk sources targets endings _ _ _ hsource htarget _ hending =>
      have hlast : ∃ body, endings = body ++ [.symbol ';'] ∧ Inner body := by
        cases hending with
        | always => exact ⟨[], rfl, inner_nil⟩
        | @conditional clauses _ hclauses =>
            refine ⟨.symbol ':' :: clauses, rfl, ?_⟩
            rw [inner_cons]
            exact ⟨by simp, hclauses.inner fun _ _ => Clause.inner⟩
      obtain ⟨body, rfl, hbody⟩ := hlast
      refine ⟨sources ++ .symbol '/' :: (targets ++ body), by simp, ?_⟩
      rw [inner_append, inner_cons, inner_append]
      exact ⟨hsource.inner, by simp, htarget.inner, hbody⟩

end Grammar

end Cellular
