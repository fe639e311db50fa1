import Cellular.Proofs.Rule.Accounting

/-!
# Where rules stand

The tokens of a text from the first one of a rule on begin with the statement of the rule
(`exists_statement_of_rule`).  So the second state of the rule is the third of them, and
the semicolon of the rule is the first one among them.
-/

namespace Cellular

namespace Rule

def tokensFrom (rule : Rule) (text : String) : List Token :=
  (Token.scan text.toList).filter (rule.offset ≤ ·.offset)

def targetPlace (rule : Rule) (text : String) : Nat :=
  Cursor.offset ⟨(rule.tokensFrom text).drop 2, text.length, 0⟩

/-- The place is behind the rule's first character and at most at its semicolon. -/
def spans (rule : Rule) (text : String) (place : Nat) : Bool :=
  rule.offset < place &&
    ((rule.tokensFrom text).find? (·.isSymbol ';')).any (place ≤ ·.offset)

end Rule

variable {tokens part : List Token} {first : Token}

theorem exists_filter_offset (hsorted : tokens.Pairwise (·.offset < ·.offset))
    (hwithin : part <:+: tokens) (hfirst : first ∈ part.head?) :
    ∃ rest, tokens.filter (first.offset ≤ ·.offset) = part ++ rest := by
  obtain ⟨before, rest, rfl⟩ := hwithin
  cases part with
  | nil => cases hfirst
  | cons head others =>
      obtain rfl : head = first := by simpa using hfirst
      rw [List.append_assoc, List.cons_append, List.pairwise_append,
        List.pairwise_cons] at hsorted
      obtain ⟨-, ⟨hlater, -⟩, hearlier⟩ := hsorted
      refine ⟨rest, ?_⟩
      have hnone : before.filter (head.offset ≤ ·.offset) = [] := by
        rw [List.filter_eq_nil_iff]
        intro token hmem
        have hlt := hearlier token hmem head List.mem_cons_self
        simpa using hlt
      have hall : (head :: (others ++ rest)).filter (head.offset ≤ ·.offset) =
          head :: (others ++ rest) := by
        rw [List.filter_eq_self, List.forall_mem_cons]
        exact ⟨by simp, fun token hmem => by simpa using Nat.le_of_lt (hlater token hmem)⟩
      rw [List.append_assoc, List.cons_append, List.filter_append, hnone, hall]
      rfl

theorem IsStatement.find?_semicolon (h : IsStatement part) (rest : List Token) :
    ∃ last ∈ part, last.kind = .symbol ';' ∧
      (part ++ rest).find? (·.isSymbol ';') = some last := by
  obtain ⟨body, last, rfl, hlast, hbody⟩ := h.semicolon
  refine ⟨last, by simp, hlast, ?_⟩
  have hnone : body.find? (·.isSymbol ';') = none := by
    simpa [Token.isSymbol] using hbody
  simp [hnone, Token.isSymbol_iff.mpr hlast]

namespace Compiler

variable {compiler : Compiler} {ending place : Nat} {rule : Rule} {text : String}

theorem exists_statement_of_rule
    (h : .rule rule place ∈ compiler.outcomes ending tokens) :
    ∃ first slash second others, first :: slash :: second :: others <:+: tokens ∧
      IsStatement (first :: slash :: second :: others) ∧
      rule.offset = first.offset ∧ place = second.offset := by
  obtain ⟨part, hpart, hread⟩ := List.mem_map.mp h
  obtain ⟨hrun, hwithin⟩ := (divided_statements tokens).isRun part hpart
  obtain ⟨hstatement, first, slash, second, others, rfl, hoffset, hplace⟩ :=
    readStatement_eq_rule hrun hread
  exact ⟨first, slash, second, others, hwithin, hstatement, hoffset, hplace⟩

theorem targetPlace_eq
    (h : .rule rule place ∈ compiler.outcomes ending (Token.scan text.toList)) :
    place = rule.targetPlace text := by
  obtain ⟨first, slash, second, others, hwithin, -, hoffset, hplace⟩ :=
    exists_statement_of_rule h
  obtain ⟨rest, hrest⟩ :=
    exists_filter_offset (Token.pairwise_scan text.toList) hwithin rfl
  rw [Rule.targetPlace, Rule.tokensFrom, hoffset, hrest]
  exact hplace

/-- A rule spans the places behind its first character up to its semicolon. -/
theorem spans_iff (h : .rule rule place ∈ compiler.outcomes ending tokens)
    (htokens : tokens <:+: Token.scan text.toList) :
    ∃ last ∈ tokens, last.kind = .symbol ';' ∧
      ∀ index, rule.spans text index = true ↔
        rule.offset < index ∧ index ≤ last.offset := by
  obtain ⟨first, slash, second, others, hwithin, hstatement, hoffset, -⟩ :=
    exists_statement_of_rule h
  obtain ⟨rest, hrest⟩ := exists_filter_offset (Token.pairwise_scan text.toList)
    (hwithin.trans htokens) rfl
  obtain ⟨last, hlast, hkind, hfind⟩ := hstatement.find?_semicolon rest
  refine ⟨last, hwithin.subset hlast, hkind, fun index => ?_⟩
  simp only [Rule.spans, Rule.tokensFrom, hoffset, hrest, hfind, Option.any_some,
    Bool.and_eq_true, decide_eq_true_eq]

end Compiler

end Cellular
