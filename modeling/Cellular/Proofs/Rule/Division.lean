import Cellular.Proofs.Rule.Scanning
import Cellular.Proofs.Success
import Cellular.Rule.Statement

/-!
# Division of tokens into statements

`Divided` says how tokens divide into statements, with one rule for each way to go
on.  The statements of a text are the only such division (`Divided.eq_statements`).
Tokens that close their statements divide on their own (`statements_append`), and
the places of statements follow each other in the text (`pairwise_places`).
-/

namespace Cellular

variable {tokens first second : List Token} {parts : List (List Token)}

theorem Token.isSymbol_iff {token : Token} {character : Char} :
    token.isSymbol character = true ↔ token.kind = .symbol character := by
  simp [isSymbol]

/-- Illegal tokens in front of a statement belong to none.  A statement ends with
its only semicolon, or with the text. -/
inductive Divided : List Token → List (List Token) → Prop
  | nil : Divided [] []
  | illegal {token : Token} {tokens : List Token} {parts : List (List Token)}
      (htoken : token.isIllegal = true) (hrest : Divided tokens parts) :
      Divided (token :: tokens) parts
  | closed {body : List Token} {last : Token} {tokens : List Token}
      {parts : List (List Token)}
      (hlegal : ∀ token ∈ body.head?, token.isIllegal = false)
      (hbody : ∀ token ∈ body, token.kind ≠ .symbol ';')
      (hlast : last.kind = .symbol ';') (hrest : Divided tokens parts) :
      Divided (body ++ last :: tokens) ((body ++ [last]) :: parts)
  | opened {token : Token} {tokens : List Token}
      (hlegal : token.isIllegal = false)
      (hopen : ∀ other ∈ token :: tokens, other.kind ≠ .symbol ';') :
      Divided (token :: tokens) [token :: tokens]

/-! ## The only division -/

theorem splitStatements_append {body more : List Token} {last : Token}
    (hlast : last.kind = .symbol ';')
    (hbody : ∀ token ∈ body, token.kind ≠ .symbol ';') :
    splitStatements (body ++ last :: more) =
      (body ++ [last]) :: splitStatements more := by
  induction body with
  | nil =>
      rw [List.nil_append, splitStatements, if_pos (Token.isSymbol_iff.mpr hlast)]
      rfl
  | cons token body ih =>
      have htoken : ¬token.isSymbol ';' = true := by
        simpa [Token.isSymbol] using hbody token List.mem_cons_self
      rw [List.cons_append, splitStatements, if_neg htoken,
        ih fun token hmem => hbody token (List.mem_cons_of_mem _ hmem)]
      rfl

theorem splitStatements_open {token : Token}
    (hopen : ∀ other ∈ token :: tokens, other.kind ≠ .symbol ';') :
    splitStatements (token :: tokens) = [token :: tokens] := by
  induction tokens generalizing token with
  | nil =>
      have htoken := hopen token (by simp)
      simp [splitStatements, Token.isSymbol, htoken]
  | cons next tokens ih =>
      have htoken := hopen token (by simp)
      rw [splitStatements, ih fun other hmem => hopen other (by simp [hmem])]
      simp [Token.isSymbol, htoken]

theorem statements_illegal {token : Token} (h : token.isIllegal = true) :
    statements (token :: tokens) = statements tokens := by
  have hsemicolon : ¬token.isSymbol ';' = true := by
    rw [Token.isSymbol_iff]
    intro hkind
    simp [Token.isIllegal, hkind] at h
  rw [statements, statements, splitStatements, if_neg hsemicolon]
  cases splitStatements tokens with
  | nil => simp [h]
  | cons statement others => simp [h]

theorem dropWhile_isIllegal_eq_self {statement : List Token}
    (h : ∀ token ∈ statement.head?, token.isIllegal = false) :
    statement.dropWhile Token.isIllegal = statement := by
  cases statement with
  | nil => rfl
  | cons token statement =>
      have hlegal := h token rfl
      simp [hlegal]

theorem Divided.eq_statements (h : Divided tokens parts) :
    parts = statements tokens := by
  induction h with
  | nil => rfl
  | illegal htoken hrest ih => rw [statements_illegal htoken, ih]
  | @closed body last tokens parts hlegal hbody hlast hrest ih =>
      have hfront : ∀ token ∈ (body ++ [last]).head?, token.isIllegal = false := by
        cases body with
        | nil => simp [Token.isIllegal, hlast]
        | cons token body => simpa using hlegal
      have hdrop := dropWhile_isIllegal_eq_self hfront
      rw [statements, splitStatements_append hlast hbody, List.map_cons, hdrop, ih]
      simp [statements]
  | opened hlegal hopen =>
      rw [statements, splitStatements_open hopen]
      simp [hlegal]

theorem exists_append_semicolon (tokens : List Token) :
    (∀ token ∈ tokens, token.kind ≠ .symbol ';') ∨
      ∃ body last rest, tokens = body ++ last :: rest ∧
        last.kind = .symbol ';' ∧ ∀ token ∈ body, token.kind ≠ .symbol ';' := by
  induction tokens with
  | nil => exact .inl nofun
  | cons token tokens ih =>
      by_cases htoken : token.kind = .symbol ';'
      · exact .inr ⟨[], token, tokens, rfl, htoken, nofun⟩
      · rcases ih with hopen | ⟨body, last, rest, rfl, hlast, hbody⟩
        · exact .inl (List.forall_mem_cons.mpr ⟨htoken, hopen⟩)
        · exact .inr ⟨token :: body, last, rest, rfl, hlast,
            List.forall_mem_cons.mpr ⟨htoken, hbody⟩⟩

theorem exists_divided (tokens : List Token) : ∃ parts, Divided tokens parts := by
  induction hlength : tokens.length using Nat.strong_induction_on
    generalizing tokens with
  | h length ih =>
      cases tokens with
      | nil => exact ⟨[], .nil⟩
      | cons token tokens =>
          rw [List.length_cons] at hlength
          by_cases hillegal : token.isIllegal = true
          · obtain ⟨parts, hparts⟩ := ih _ (by omega) tokens rfl
            exact ⟨parts, .illegal hillegal hparts⟩
          · rw [Bool.not_eq_true] at hillegal
            rcases exists_append_semicolon (token :: tokens) with
              hopen | ⟨body, last, rest, heq, hlast, hbody⟩
            · exact ⟨_, .opened hillegal hopen⟩
            · have hlengths := congrArg List.length heq
              simp only [List.length_cons, List.length_append] at hlengths
              obtain ⟨parts, hparts⟩ := ih _ (by omega) rest rfl
              rw [heq]
              refine ⟨_, .closed ?_ hbody hlast hparts⟩
              cases body with
              | nil => nofun
              | cons head body =>
                  obtain ⟨rfl, -⟩ := List.cons_eq_cons.mp heq
                  simpa using hillegal

theorem divided_statements (tokens : List Token) :
    Divided tokens (statements tokens) := by
  obtain ⟨parts, hparts⟩ := exists_divided tokens
  exact hparts.eq_statements ▸ hparts

theorem statements_semicolon {body : List Token} {last : Token}
    (hlegal : ∀ token ∈ body.head?, token.isIllegal = false)
    (hbody : ∀ token ∈ body, token.kind ≠ .symbol ';')
    (hlast : last.kind = .symbol ';') :
    statements (body ++ [last]) = [body ++ [last]] :=
  (Divided.closed hlegal hbody hlast .nil).eq_statements.symm

/-! ## Divisions in a row -/

/-- Nothing but illegal tokens stands behind the last semicolon. -/
def Closed (tokens : List Token) : Prop :=
  ∀ token ∈ tokens.rtakeWhile fun token => !token.isSymbol ';',
    token.isIllegal = true

instance (tokens : List Token) : Decidable (Closed tokens) :=
  inferInstanceAs (Decidable (∀ token ∈ _, _))

theorem Closed.of_append (h : Closed (first ++ second)) : Closed second := by
  intro token hmem
  refine h token ?_
  rw [List.rtakeWhile, List.mem_reverse] at hmem ⊢
  rw [List.reverse_append, List.takeWhile_append]
  split
  · rename_i hall
    rw [(List.takeWhile_prefix _).eq_of_length hall] at hmem
    exact List.mem_append_left _ hmem
  · exact hmem

theorem exists_append_open (tokens : List Token) :
    ∃ front rest, tokens = front ++ rest ∧
      (∀ last ∈ front.getLast?, last.kind = .symbol ';') ∧
      ∀ token ∈ rest, token.kind ≠ .symbol ';' := by
  induction tokens using List.reverseRecOn with
  | nil => exact ⟨[], [], rfl, nofun, nofun⟩
  | append_singleton tokens token ih =>
      by_cases htoken : token.kind = .symbol ';'
      · exact ⟨tokens ++ [token], [], by simp, by simpa using htoken, nofun⟩
      · obtain ⟨front, rest, rfl, hfront, hrest⟩ := ih
        refine ⟨front, rest ++ [token], by simp, hfront, ?_⟩
        rw [List.forall_mem_append, List.forall_mem_singleton]
        exact ⟨hrest, htoken⟩

theorem closed_append_semicolon {last : Token} (h : last.kind = .symbol ';') :
    Closed (tokens ++ [last]) := by
  intro token hmem
  rw [List.rtakeWhile_concat_neg _ _ _ (by simp [Token.isSymbol, h])] at hmem
  cases hmem

theorem closed_of_getLast? (h : ∀ last ∈ tokens.getLast?, last.kind = .symbol ';') :
    Closed tokens := by
  rcases List.eq_nil_or_concat' tokens with rfl | ⟨front, last, rfl⟩
  · nofun
  · exact closed_append_semicolon (h last (by simp))

theorem Closed.relocate (h : Closed tokens) (move : Nat → Nat) :
    Closed (tokens.map (Token.relocate move)) := by
  rw [Closed, List.rtakeWhile, ← List.map_reverse, List.takeWhile_map, ← List.map_reverse]
  exact List.forall_mem_map.mpr h

theorem not_closed {token : Token} (hlegal : token.isIllegal = false)
    (hopen : ∀ other ∈ token :: tokens, other.kind ≠ .symbol ';') :
    ¬Closed (token :: tokens) := by
  have hall : (token :: tokens).rtakeWhile (fun token => !token.isSymbol ';') =
      token :: tokens := by
    rw [List.rtakeWhile_eq_self_iff]
    intro other hmem
    simpa [Token.isSymbol] using hopen other hmem
  intro hclosed
  have hillegal := hclosed token (by rw [hall]; exact List.mem_cons_self)
  rw [hlegal] at hillegal
  cases hillegal

theorem Divided.append {parts' : List (List Token)} (h : Divided first parts)
    (hclosed : Closed first) (h' : Divided second parts') :
    Divided (first ++ second) (parts ++ parts') := by
  induction h with
  | nil => exact h'
  | @illegal token tokens parts htoken hrest ih =>
      have htail : Closed ([token] ++ tokens) := hclosed
      exact .illegal htoken (ih htail.of_append)
  | @closed body last tokens parts hlegal hbody hlast hrest ih =>
      rw [List.append_cons] at hclosed
      rw [List.append_assoc, List.cons_append, List.cons_append]
      exact .closed hlegal hbody hlast (ih hclosed.of_append)
  | opened hlegal hopen => exact absurd hclosed (not_closed hlegal hopen)

theorem statements_append_of_closed (h : Closed first) (second : List Token) :
    statements (first ++ second) = statements first ++ statements second :=
  ((divided_statements first).append h (divided_statements second)).eq_statements.symm

theorem Divided.relocate (h : Divided tokens parts) (move : Nat → Nat) :
    Divided (tokens.map (Token.relocate move))
      (parts.map (List.map (Token.relocate move))) := by
  induction h with
  | nil => exact .nil
  | illegal htoken hrest ih => exact .illegal htoken ih
  | closed hlegal hbody hlast hrest ih =>
      simp only [List.map_append, List.map_cons, List.map_nil]
      refine .closed ?_ ?_ hlast ih
      · simpa [List.head?_map] using hlegal
      · simpa using hbody
  | opened hlegal hopen =>
      refine .opened hlegal ?_
      simpa using hopen

theorem statements_relocate (move : Nat → Nat) (tokens : List Token) :
    statements (tokens.map (Token.relocate move)) =
      (statements tokens).map (List.map (Token.relocate move)) :=
  ((divided_statements tokens).relocate move).eq_statements.symm

/-! ## Statements and their places -/

def IsRun (statement : List Token) : Prop :=
  (∃ body last, statement = body ++ [last] ∧ last.kind = .symbol ';' ∧
    ∀ token ∈ body, token.kind ≠ .symbol ';') ∨
  ∀ token ∈ statement, token.kind ≠ .symbol ';'

theorem Divided.isRun (h : Divided tokens parts) :
    ∀ part ∈ parts, IsRun part ∧ part <:+: tokens := by
  induction h with
  | nil => nofun
  | illegal htoken hrest ih =>
      intro part hmem
      exact ⟨(ih part hmem).1, (ih part hmem).2.trans (List.suffix_cons _ _).isInfix⟩
  | @closed body last tokens parts hlegal hbody hlast hrest ih =>
      have hhere : body ++ [last] <:+: body ++ last :: tokens := ⟨[], tokens, by simp⟩
      have hlater : tokens <:+: body ++ last :: tokens := ⟨body ++ [last], [], by simp⟩
      rw [List.forall_mem_cons]
      exact ⟨⟨.inl ⟨body, last, rfl, hlast, hbody⟩, hhere⟩,
        fun part hmem => ⟨(ih part hmem).1, (ih part hmem).2.trans hlater⟩⟩
  | opened hlegal hopen =>
      rw [List.forall_mem_singleton]
      exact ⟨.inr hopen, List.infix_rfl⟩

theorem Divided.exists_semicolon (h : Divided tokens parts) (hclosed : Closed tokens) :
    ∀ part ∈ parts, ∃ token ∈ part, token.kind = .symbol ';' := by
  induction h with
  | nil => nofun
  | @illegal token tokens parts htoken hrest ih =>
      have htail : Closed ([token] ++ tokens) := hclosed
      exact ih htail.of_append
  | @closed body last tokens parts hlegal hbody hlast hrest ih =>
      rw [List.append_cons] at hclosed
      rw [List.forall_mem_cons]
      exact ⟨⟨last, by simp, hlast⟩, ih hclosed.of_append⟩
  | opened hlegal hopen => exact absurd hclosed (not_closed hlegal hopen)

theorem Divided.getLast?_eq (h : Divided tokens parts)
    (hlegal : ∀ token ∈ tokens, token.isIllegal = false)
    (hparts : ∀ part ∈ parts, ∃ token ∈ part, token.kind = .symbol ';') :
    ∀ last ∈ tokens.getLast?, last.kind = .symbol ';' := by
  induction h with
  | nil => nofun
  | illegal htoken hrest ih =>
      have hnot := hlegal _ List.mem_cons_self
      rw [htoken] at hnot
      cases hnot
  | @closed body last tokens parts hfront hbody hlast hrest ih =>
      rw [List.append_cons] at hlegal ⊢
      rw [List.forall_mem_append] at hlegal
      rw [List.forall_mem_cons] at hparts
      rw [List.getLast?_append]
      cases hend : tokens.getLast? with
      | none => simpa using hlast
      | some token => simpa using ih hlegal.2 hparts.2 token hend
  | opened hfront hopen =>
      rw [List.forall_mem_singleton] at hparts
      obtain ⟨token, hmem, hkind⟩ := hparts
      exact absurd hkind (hopen token hmem)

theorem Divided.countP_semicolon (h : Divided tokens parts)
    (hparts : ∀ part ∈ parts, ∃ token ∈ part, token.kind = .symbol ';') :
    tokens.countP (·.isSymbol ';') = parts.length := by
  induction h with
  | nil => rfl
  | @illegal token tokens parts htoken hrest ih =>
      have hother : ¬token.isSymbol ';' = true := by
        rw [Token.isSymbol_iff]
        intro hkind
        simp [Token.isIllegal, hkind] at htoken
      simp [hother, ih hparts]
  | @closed body last tokens parts hlegal hbody hlast hrest ih =>
      have hnone : body.countP (·.isSymbol ';') = 0 := by
        simpa [List.countP_eq_zero, Token.isSymbol] using hbody
      have hsemicolon := Token.isSymbol_iff.mpr hlast
      rw [List.forall_mem_cons] at hparts
      simp [hsemicolon, hnone, ih hparts.2]
  | opened hlegal hopen =>
      rw [List.forall_mem_singleton] at hparts
      obtain ⟨token, hmem, hkind⟩ := hparts
      exact absurd hkind (hopen token hmem)

/-- The place of a token of a statement, or of the end of the text if no semicolon
ends the statement. -/
def StandsIn (ending : Nat) (statement : List Token) (offset : Nat) : Prop :=
  (∃ token ∈ statement, offset = token.offset) ∨
    (∀ token ∈ statement, token.kind ≠ .symbol ';') ∧ offset = ending

section

variable {α : Type} {ending : Nat} {items : List α} {place : α → Option Nat}

theorem Divided.place_range (h : Divided tokens parts)
    (hplaces : List.Forall₂
      (fun part item => ∀ offset ∈ place item, StandsIn ending part offset)
      parts items)
    {item : α} (hmem : item ∈ items) {offset : Nat} (hoffset : offset ∈ place item) :
    (∃ token ∈ tokens, offset = token.offset) ∨ offset = ending := by
  obtain ⟨part, hpart, hstands⟩ := exists_mem_of_forall₂ hplaces.flip hmem
  rcases hstands offset hoffset with ⟨token, htoken, heq⟩ | ⟨-, hend⟩
  · exact .inl ⟨token, (h.isRun part hpart).2.subset htoken, heq⟩
  · exact .inr hend

theorem Divided.pairwise_places (h : Divided tokens parts)
    (hsorted : tokens.Pairwise (·.offset < ·.offset))
    (hending : ∀ token ∈ tokens, token.offset < ending)
    (hplaces : List.Forall₂
      (fun part item => ∀ offset ∈ place item, StandsIn ending part offset)
      parts items) :
    items.Pairwise fun item later =>
      ∀ offset ∈ place item, ∀ offset' ∈ place later, offset < offset' := by
  induction h generalizing items with
  | nil =>
      cases hplaces
      exact .nil
  | illegal htoken hrest ih =>
      rw [List.pairwise_cons] at hsorted
      rw [List.forall_mem_cons] at hending
      exact ih hsorted.2 hending.2 hplaces
  | @closed body last tokens parts hlegal hbody hlast hrest ih =>
      rw [List.append_cons, List.pairwise_append] at hsorted
      rw [List.append_cons, List.forall_mem_append] at hending
      cases hplaces with
      | @cons _ item _ items hitem hitems =>
          refine .cons ?_ (ih hsorted.2.1 hending.2 hitems)
          intro later hmem offset hoffset offset' hoffset'
          -- The semicolon keeps the place in front of the end of the text.
          obtain ⟨token, htoken, rfl⟩ := (hitem offset hoffset).resolve_right
            fun hopen => hopen.1 last (by simp) hlast
          rcases hrest.place_range hitems hmem hoffset' with ⟨other, hother, rfl⟩ | rfl
          · exact hsorted.2.2 token htoken other hother
          · exact hending.1 token htoken
  | @opened token tokens hlegal hopen =>
      cases hplaces with
      | @cons _ item _ items hitem hitems =>
          cases hitems
          exact List.pairwise_singleton _ _

end

end Cellular
