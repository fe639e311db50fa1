import Cellular.Proofs.Rule.Grammar

/-!
# Lists of terms from left to right

The parser reads a list of terms as a first term and further ones, each behind
its connective, and groups them afterwards.  `Further` is what it reads.  It is
the grammar's list of groups, read from left to right (`terms_iff_further`).
-/

namespace Cellular.Grammar

variable {α : Type} {item : List TokenKind → α → Prop} {closing : TokenKind}

def Marks : Connective → TokenKind → Prop
  | .and => IsAnd
  | .or => IsOr

/-- Further terms, each behind a connective, up to and including the closing
kind. -/
inductive Further (item : List TokenKind → α → Prop) (closing : TokenKind) :
    List TokenKind → List (Connective × α) → Prop
  | stop : Further item closing [closing] []
  | next {kind : TokenKind} {kinds rest : List TokenKind}
      {connective : Connective} {value : α} {others : List (Connective × α)}
      (hmark : Marks connective kind) (hitem : item kinds value)
      (hrest : Further item closing rest others) :
      Further item closing (kind :: (kinds ++ rest))
        ((connective, value) :: others)

theorem Further.groups {kinds rest : List TokenKind} {first : α}
    {others : List (Connective × α)} (h : Further item closing rest others)
    (hfirst : item kinds first) :
    ∃ body, Joined (Joined item IsAnd) IsOr body (groupTerms first others) ∧
      kinds ++ rest = body ++ [closing] := by
  induction h generalizing kinds first with
  | stop => exact ⟨kinds, .last (.last hfirst), rfl⟩
  | @next kind nextKinds rest connective value others hmark hitem hrest ih =>
      obtain ⟨body, hgroups, hbody⟩ := ih hitem
      refine ⟨kinds ++ kind :: body, ?_, by simp [hbody]⟩
      cases connective with
      | or => exact .more (.last hfirst) hmark hgroups
      | and =>
          rw [groupTerms]
          generalize groupTerms value others = groups at hgroups ⊢
          -- The term in front joins the first of the groups that follow it.
          cases hgroups with
          | last hgroup => exact .last (.more hfirst hmark hgroup)
          | more hgroup hor hlater =>
              have hjoined := Joined.more (.more hfirst hmark hgroup) hor hlater
              simpa using hjoined

theorem Joined.further {kinds rest : List TokenKind} {group : List α}
    {others : List (Connective × α)} {groups : List (List α)}
    (h : Joined item IsAnd kinds group) (hrest : Further item closing rest others)
    (hopens : ∀ value, groupTerms value others = [value] :: groups) :
    ∃ firsts first tail later, item firsts first ∧
      Further item closing tail later ∧ kinds ++ rest = firsts ++ tail ∧
      groupTerms first later = group :: groups := by
  -- Backwards from the last term of the group, whose followers open a new one.
  induction h with
  | last hitem => exact ⟨_, _, rest, others, hitem, hrest, rfl, hopens _⟩
  | @more kinds _ kind value _ hitem hmark _ ih =>
      obtain ⟨firsts, first, tail, later, hfirst, htail, heq, hgroup⟩ := ih
      refine ⟨kinds, value, kind :: (firsts ++ tail), (.and, first) :: later,
        hitem, .next hmark hfirst htail, by simp [← heq], ?_⟩
      simp only [groupTerms, hgroup]

theorem Joined.exists_further {kinds : List TokenKind} {groups : List (List α)}
    (h : Joined (Joined item IsAnd) IsOr kinds groups) :
    ∃ firsts first tail later, item firsts first ∧
      Further item closing tail later ∧
      kinds ++ [closing] = firsts ++ tail ∧ groupTerms first later = groups := by
  induction h with
  | last hgroup => exact hgroup.further .stop fun _ => rfl
  | @more kinds rest kind _ groups hgroup hmark _ ih =>
      obtain ⟨firsts, first, tail, later, hfirst, htail, heq, hlater⟩ := ih
      have hrest : Further item closing (kind :: (rest ++ [closing]))
          ((.or, first) :: later) := by
        rw [heq]
        exact .next hmark hfirst htail
      have hopens : ∀ value,
          groupTerms value ((.or, first) :: later) = [value] :: groups := by
        intro value
        rw [groupTerms, hlater]
      simpa using hgroup.further hrest hopens

theorem terms_iff_further {kinds : List TokenKind} {formula : Formula α} :
    (∃ body, Terms item body formula ∧ kinds = body ++ [closing]) ↔
      ∃ firsts first tail later, item firsts first ∧
        Further item closing tail later ∧ kinds = firsts ++ tail ∧
        formula = formulaOfTerms first later := by
  have htree : ∀ {body groups}, Joined (Joined item IsAnd) IsOr body groups →
      Formula.ofGroups groups = some (treeOf groups) := by
    intro body groups h
    refine ofGroups_eq_treeOf h.ne_nil fun group hmem => ?_
    obtain ⟨kinds, hgroup⟩ := h.exists_item hmem
    exact hgroup.ne_nil
  constructor
  · rintro ⟨body, ⟨groups, hgroups, rfl⟩, rfl⟩
    obtain ⟨firsts, first, tail, later, hfirst, htail, heq, rfl⟩ :=
      @Joined.exists_further _ _ closing _ _ hgroups
    refine ⟨firsts, first, tail, later, hfirst, htail, heq, ?_⟩
    rw [formulaOfTerms, htree hgroups, Option.getD_some]
  · rintro ⟨firsts, first, tail, later, hfirst, htail, rfl, rfl⟩
    obtain ⟨body, hgroups, hbody⟩ := htail.groups hfirst
    refine ⟨body, ⟨_, hgroups, ?_⟩, hbody⟩
    rw [formulaOfTerms, htree hgroups, Option.getD_some]

end Cellular.Grammar
