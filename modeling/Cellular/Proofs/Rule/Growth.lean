import Cellular.Proofs.Rule.Recompiling

/-!
# Rules that grow in print

A count of one may be left out of a rule's text, but it is always printed.  A rule
with many such conditions is read from a text of three characters for each, and
printed with four (`compile_crowd`, `chars_crowd`).
-/

namespace Cellular

variable {compiler : Compiler} {kinds : List TokenKind}

/-! ## Texts of one rule -/

theorem Compiler.compile_statement {text : String}
    (hstatement : IsStatement (Token.scan text.toList))
    (hroom : 0 < compiler.limits.rulesMax) :
    compiler.compile text =
      match compiler.readStatement text.toList.length (Token.scan text.toList) with
      | .rule rule _ => ⟨⟨[rule]⟩, []⟩
      | .fault diagnostic => ⟨⟨[]⟩, [diagnostic]⟩
      | .tainted => ⟨⟨[]⟩, []⟩ := by
  simp only [compile, compileChars, readTokens]
  generalize Token.scan text.toList = tokens at hstatement ⊢
  have hparts : statements tokens = [tokens] := by
    rw [← List.append_nil tokens, statements_append hstatement, List.append_nil]
    rfl
  have hnone : tokens.filterMap Token.illegality? = [] := by
    rw [List.filterMap_eq_nil_iff]
    exact fun token hmem => illegality?_eq_none (hstatement.legal token hmem)
  simp only [hparts, hnone, List.map_singleton]
  cases compiler.readStatement text.toList.length tokens <;>
    simp [collect, Nat.not_lt.mpr hroom]

theorem Compiler.compile_of_spells {text : String} {source target : String}
    {condition : Option (Formula Clause)} (hspells : Spells text.toList kinds)
    (hrule : Grammar.Rule compiler kinds source target condition)
    (hfits : total (kinds.map TokenKind.length) ≤ compiler.limits.ruleCharsMax)
    (hroom : 0 < compiler.limits.rulesMax) :
    compiler.compile text =
      ⟨⟨[.ofParts source target condition
        (Cursor.offset ⟨Token.scan text.toList, text.toList.length, 0⟩)]⟩, []⟩ := by
  have hlength := hspells.total_length
  have hkinds := hspells.map_kind_scan
  subst hkinds
  obtain ⟨place, hread⟩ := readStatement_eq hrule (hlength ▸ hfits) text.toList.length
  rw [compile_statement (isStatement_of_rule hrule) hroom, hread]

/-! ## The length of a list -/

namespace Grammar

section Lists

variable {α : Type} {item item' : List TokenKind → α → Prop}
  {mark mark' : TokenKind → Prop} {values : List α}

theorem Joined.mono (h : Joined item mark kinds values)
    (hitem : ∀ kinds value, item kinds value → item' kinds value)
    (hmark : ∀ kind, mark kind → mark' kind) : Joined item' mark' kinds values := by
  induction h with
  | last hvalue => exact .last (hitem _ _ hvalue)
  | more hvalue hkind _ ih => exact .more (hitem _ _ hvalue) (hmark _ hkind) ih

theorem Joined.total_length {length : Nat} (h : Joined item mark kinds values)
    (hitem : ∀ kinds value, item kinds value →
      total (kinds.map TokenKind.length) = length)
    (hmark : ∀ kind, mark kind → kind.length = 1) :
    total (kinds.map TokenKind.length) + 1 = values.length * (length + 1) := by
  induction h with
  | last hvalue => simp [hitem _ _ hvalue]
  | more hvalue hkind _ ih =>
      rw [List.map_append, total_append, List.map_cons, total_cons, hitem _ _ hvalue,
        hmark _ hkind, List.length_cons, Nat.succ_mul, ← ih]
      omega

def OfLength (length : Nat) (item : List TokenKind → α → Prop) (kinds : List TokenKind)
    (value : α) : Prop :=
  item kinds value ∧ total (kinds.map TokenKind.length) = length

end Lists

def IsBar (kind : TokenKind) : Prop := kind = .symbol '|'

end Grammar

/-! ## Rules that grow in print -/

def crowdCondition (terms : Nat) : Formula Clause :=
  .leaf ⟨.all, Grammar.treeOf (List.replicate terms [⟨1, .equal, "A"⟩])⟩

def crowdText (number : String) (terms : Nat) : String :=
  "FREE / A : ( ALL @ = " ++
    " | ".intercalate (List.replicate terms (number ++ "#A")) ++ " ) ;"

theorem render_crowd (terms offset : Nat) :
    (Rule.ofParts "FREE" "A" (some (crowdCondition terms)) offset).render =
      crowdText "1" terms := by
  have hclause : ∀ formula, (Rule.ofParts "FREE" "A" (some (.leaf ⟨.all, formula⟩))
      offset).render = "FREE / A : ( ALL @ = " ++
        formula.render (CountCondition.render id) ++ " ) ;" := by
    intro formula
    rw [← String.toList_inj]
    simp [Rule.render, Rule.ofParts, Formula.render, Clause.render, Scope.render]
  have hgroup : " & ".intercalate
      ([⟨1, .equal, "A"⟩].map (CountCondition.render id)) = "1" ++ "#A" := by
    have hone : toString 1 = "1" := by decide
    rw [List.map_singleton, String.intercalate_singleton, CountCondition.render, hone]
    simp [Comparator.sign]
  have hrender := hclause (Grammar.treeOf (List.replicate terms [⟨1, .equal, "A"⟩]))
  rw [render_treeOf, List.map_replicate, hgroup] at hrender
  exact hrender

section

variable {number : String} {numbers : List TokenKind} {terms : Nat}

theorem prints_crowdTerms
    (hnumber : Spells (number ++ "#A").toList (numbers ++ [.symbol '#', .word "A".toList]))
    (hcount : Grammar.Count numbers 1) (hsome : terms ≠ 0)
    (hstate : compiler.Admits "A") :
    ∃ kinds,
      Spells (" | ".intercalate (List.replicate terms (number ++ "#A"))).toList kinds ∧
      Grammar.Terms (Grammar.Condition compiler) kinds
        (Grammar.treeOf (List.replicate terms [⟨1, .equal, "A"⟩])) ∧
      total (kinds.map TokenKind.length) + 1 =
        terms * (total (numbers.map TokenKind.length) + 3) := by
  have hvalues : ∀ group ∈ List.replicate terms [⟨1, .equal, "A"⟩],
      Prints (Grammar.OfLength (total (numbers.map TokenKind.length) + 2)
        (Grammar.Joined (Grammar.Condition compiler) Grammar.IsAnd))
        ((fun _ => number ++ "#A") group).toList group := by
    intro group hmem
    obtain rfl := List.eq_of_mem_replicate hmem
    exact ⟨_, hnumber, .last (.mk .none hcount hstate.state), by simp [TokenKind.length]⟩
  have hbar : Grammar.IsBar (.symbol '|') := rfl
  have hseparator : ∀ {text kinds}, Spells text kinds →
      Spells (" | ".toList ++ text) (.symbol '|' :: kinds) :=
    fun htext => htext.spaced (by decide)
  obtain ⟨kinds, hspells, hjoined⟩ := prints_joined hbar hseparator
    (fun _ => Token.apart_cons (by decide)) (by simpa using hsome) hvalues
  rw [List.map_replicate] at hspells
  have hbars : ∀ kind, Grammar.IsBar kind → kind.length = 1 := by
    rintro _ rfl
    rfl
  refine ⟨kinds, hspells, ?_, ?_⟩
  · exact ⟨_, hjoined.mono (fun _ _ hgroup => hgroup.1) fun _ => .inl, rfl⟩
  · rw [hjoined.total_length (fun _ _ hgroup => hgroup.2) hbars, List.length_replicate]

theorem prints_crowd
    (hnumber : Spells (number ++ "#A").toList (numbers ++ [.symbol '#', .word "A".toList]))
    (hcount : Grammar.Count numbers 1) (hsome : terms ≠ 0)
    (hfree : compiler.Admits "FREE") (hstate : compiler.Admits "A") :
    ∃ kinds, Spells (crowdText number terms).toList kinds ∧
      Grammar.Rule compiler kinds "FREE" "A" (some (crowdCondition terms)) ∧
      total (kinds.map TokenKind.length) =
        14 + terms * (total (numbers.map TokenKind.length) + 3) := by
  obtain ⟨kinds, hspells, hterms, hlength⟩ :=
    prints_crowdTerms hnumber hcount hsome hstate
  have hclause : Grammar.Terms (Grammar.Clause compiler) _ (crowdCondition terms) :=
    ⟨[[_]], .last (.last (.mk .all .written hterms)), rfl⟩
  have hname : ∀ {name}, compiler.Admits name → IsCanonicalName name :=
    fun h => StateUniverse.isCanonicalName_of_mem h.1
  have hall : IsCanonicalName "ALL" :=
    isCanonicalName_of_all (by decide) (by decide) (by decide)
  have hequals := ((hspells.close (c := ')') (by decide)).space.symbol
    (c := '=') (by decide)).spaced (c := '@') (by decide)
  have hopen := (hall.spells.append hequals
    (Token.apart_cons (by decide))).space.symbol (c := '(') (by decide)
  have hend := (hopen.close (c := ';') (by decide)).spaced (c := ':') (by decide)
  have htarget := ((hname hstate).spells.append hend
    (Token.apart_cons (by decide))).spaced (c := '/') (by decide)
  have hrule := (hname hfree).spells.append htarget (Token.apart_cons (by decide))
  refine ⟨_, ?_, .mk hfree.state hstate.state (by decide) (.conditional hclause), ?_⟩
  · unfold crowdText
    simpa using hrule
  · simp [TokenKind.length]
    omega

end

theorem compile_crowd {terms : Nat} (hsome : terms ≠ 0)
    (hfree : compiler.Admits "FREE") (hstate : compiler.Admits "A")
    (hfits : 14 + terms * 3 ≤ compiler.limits.ruleCharsMax)
    (hroom : 0 < compiler.limits.rulesMax) :
    ∃ offset, compiler.compile (crowdText "" terms) =
      ⟨⟨[.ofParts "FREE" "A" (some (crowdCondition terms)) offset]⟩, []⟩ := by
  have hname := StateUniverse.isCanonicalName_of_mem hstate.1
  have hterm : Spells ("" ++ "#A").toList ([] ++ [.symbol '#', .word "A".toList]) :=
    hname.spells.symbol (by decide)
  obtain ⟨kinds, hspells, hrule, hlength⟩ := prints_crowd hterm .bare hsome hfree hstate
  exact ⟨_, Compiler.compile_of_spells hspells hrule (hlength ▸ hfits) hroom⟩

theorem chars_crowd {terms : Nat} (hsome : terms ≠ 0)
    (hfree : compiler.Admits "FREE") (hstate : compiler.Admits "A") (offset : Nat) :
    (Rule.ofParts "FREE" "A" (some (crowdCondition terms)) offset).chars =
      14 + terms * 4 := by
  have hname := StateUniverse.isCanonicalName_of_mem hstate.1
  have hletter : ∀ c ∈ ['1'], Text.isNameChar c = true :=
    List.forall_mem_singleton.mpr (by decide)
  have hdigit : ∀ c ∈ ['1'], c.isDigit = true := List.forall_mem_singleton.mpr (by decide)
  have hone : Spells ['1'] [.word ['1']] := Spells.word (by simp) hletter
  have hterm : Spells ("1" ++ "#A").toList
      ([.word ['1']] ++ [.symbol '#', .word "A".toList]) :=
    hone.append (hname.spells.symbol (by decide)) (Token.apart_cons (by decide))
  have hcount : Grammar.Count [.word ['1']] 1 :=
    .digits (by simp) hdigit (by decide)
  obtain ⟨kinds, hspells, -, hlength⟩ := prints_crowd hterm hcount hsome hfree hstate
  rw [Rule.chars, render_crowd, hspells.total_length, hlength]
  rfl

end Cellular
