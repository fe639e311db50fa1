import Cellular.Proofs.Rule.Spelling
import Mathlib.Data.List.DropRight

/-!
# Places of tokens

Tokens stand in the order of their offsets, and where a text starts only moves
them (`scanFrom_shift`).  A text may be cut wherever no word goes on: what stands
before the cut has a say in what follows only through the comment that it leaves
open (`scanFrom_append`).
-/

namespace Cellular

open Text

namespace Token

variable {comment : Bool} {offset : Nat} {text first second : List Char}
  {token : Token} {tokens more : List Token}

/-! ## Moved tokens -/

def relocate (move : Nat → Nat) (token : Token) : Token :=
  { token with offset := move token.offset }

@[simp] theorem kind_relocate (move : Nat → Nat) (token : Token) :
    (token.relocate move).kind = token.kind := rfl

@[simp] theorem offset_relocate (move : Nat → Nat) (token : Token) :
    (token.relocate move).offset = move token.offset := rfl

@[simp] theorem length_relocate (move : Nat → Nat) (token : Token) :
    (token.relocate move).length = token.length := rfl

@[simp] theorem text_relocate (move : Nat → Nat) (token : Token) :
    (token.relocate move).text = token.text := rfl

@[simp] theorem isSymbol_relocate (move : Nat → Nat) (token : Token)
    (character : Char) :
    (token.relocate move).isSymbol character = token.isSymbol character := rfl

@[simp] theorem isWord_relocate (move : Nat → Nat) (token : Token)
    (word : String) : (token.relocate move).isWord word = token.isWord word := rfl

@[simp] theorem isIllegal_relocate (move : Nat → Nat) (token : Token) :
    (token.relocate move).isIllegal = token.isIllegal := rfl

theorem illegality?_eq_none_iff :
    token.illegality? = none ↔ token.isIllegal = false := by
  obtain ⟨kind, offset, length⟩ := token
  cases kind <;> simp [illegality?, isIllegal]

theorem consLetter_shift (offset distance : Nat) (letter : Char)
    (tokens : List Token) :
    consLetter (offset + distance) letter (tokens.map (relocate (· + distance))) =
      (consLetter offset letter tokens).map (relocate (· + distance)) := by
  match tokens with
  | [] => rfl
  | ⟨.symbol _, _, _⟩ :: _ => rfl
  | ⟨.illegal _, _, _⟩ :: _ => rfl
  | ⟨.word letters, start, length⟩ :: rest =>
      have hnext : start + distance = offset + distance + 1 ↔
          start = offset + 1 := by omega
      simp only [consLetter, relocate, List.map_cons, hnext]
      split <;> rfl

theorem scanFrom_shift (comment : Bool) (offset distance : Nat)
    (text : List Char) :
    scanFrom comment (offset + distance) text =
      (scanFrom comment offset text).map (relocate (· + distance)) := by
  induction text generalizing comment offset with
  | nil => rfl
  | cons c rest ih =>
      have hnext : offset + distance + 1 = offset + 1 + distance := by omega
      simp only [scanFrom, hnext, ih, consLetter_shift]
      split
      · rfl
      · split
        · rfl
        · split
          · rfl
          · split <;> rfl

/-! ## The order of tokens -/

theorem pairwise_scanFrom (comment : Bool) (offset : Nat) (text : List Char) :
    (scanFrom comment offset text).Pairwise (·.offset < ·.offset) := by
  induction text generalizing comment offset with
  | nil => exact .nil
  | cons c rest ih =>
      have hlater : ∀ token ∈ scanFrom false (offset + 1) rest,
          offset < token.offset := fun _ => le_offset_of_mem_scanFrom
      rw [scanFrom]
      split
      · exact ih _ _
      · split
        · exact ih _ _
        · split
          · exact ih _ _
          · split
            · obtain ⟨letters, length, others, heq, hothers⟩ :=
                offset_consLetter offset c (scanFrom false (offset + 1) rest)
              rw [heq, List.pairwise_cons]
              exact ⟨fun token hmem => hlater token (hothers.subset hmem),
                (ih _ _).sublist hothers.sublist⟩
            · exact .cons hlater (ih _ _)

theorem pairwise_scan (text : List Char) :
    (scan text).Pairwise (·.offset < ·.offset) :=
  pairwise_scanFrom false 0 text

theorem offset_lt_of_mem_scanFrom (h : token ∈ scanFrom comment offset text) :
    token.offset < offset + text.length := by
  induction text generalizing comment offset with
  | nil => cases h
  | cons c rest ih =>
      have hlater : ∀ {comment}, token ∈ scanFrom comment (offset + 1) rest →
          token.offset < offset + (c :: rest).length := by
        intro comment hmem
        have hlt := ih hmem
        simp only [List.length_cons]
        omega
      have hhere : offset < offset + (c :: rest).length := by simp
      rw [scanFrom] at h
      split at h
      · exact hlater h
      · split at h
        · exact hlater h
        · split at h
          · exact hlater h
          · split at h
            · obtain ⟨letters, length, others, heq, hothers⟩ :=
                offset_consLetter offset c (scanFrom false (offset + 1) rest)
              rw [heq] at h
              rcases List.mem_cons.mp h with rfl | hmem
              · exact hhere
              · exact hlater (hothers.subset hmem)
            · rcases List.mem_cons.mp h with rfl | hmem
              · exact hhere
              · exact hlater hmem

/-! ## Cutting a text -/

/-- Whether a comment is open after a text, in front of which one was open or
not. -/
def commentAfter (comment : Bool) (text : List Char) : Bool :=
  text.foldl
    (fun comment c => if comment then c != '\n' else c = commentMark) comment

@[simp] theorem commentAfter_nil : commentAfter comment [] = comment := rfl

theorem commentAfter_cons (c : Char) (text : List Char) :
    commentAfter comment (c :: text) =
      commentAfter (if comment then c != '\n' else c = commentMark) text := rfl

theorem commentAfter_append :
    commentAfter comment (first ++ second) =
      commentAfter (commentAfter comment first) second :=
  List.foldl_append

theorem exists_consLetter_cons (offset : Nat) (letter : Char) (token : Token) :
    ∃ front, ∀ rest, consLetter offset letter (token :: rest) = front ++ rest := by
  obtain ⟨kind, start, length⟩ := token
  cases kind with
  | symbol character => exact ⟨[_, _], fun rest => rfl⟩
  | illegal character => exact ⟨[_, _], fun rest => rfl⟩
  | word letters =>
      by_cases hnext : start = offset + 1
      · exact ⟨[_], fun rest => by rw [consLetter, if_pos hnext]; rfl⟩
      · exact ⟨[_, _], fun rest => by rw [consLetter, if_neg hnext]; rfl⟩

theorem consLetter_append {letter : Char}
    (h : ∀ letters start length,
      ⟨.word letters, start, length⟩ ∈ more → start ≠ offset + 1) :
    consLetter offset letter (tokens ++ more) =
      consLetter offset letter tokens ++ more := by
  match tokens with
  | [] =>
      match more with
      | [] => rfl
      | ⟨.symbol _, _, _⟩ :: _ => rfl
      | ⟨.illegal _, _, _⟩ :: _ => rfl
      | ⟨.word letters, start, length⟩ :: rest =>
          have hstart := h letters start length List.mem_cons_self
          simp [consLetter, hstart]
  | token :: rest =>
      obtain ⟨front, hfront⟩ := exists_consLetter_cons offset letter token
      rw [List.cons_append, hfront, hfront, List.append_assoc]

theorem scanFrom_append (h : Apart second) (comment : Bool) (offset : Nat)
    (first : List Char) :
    scanFrom comment offset (first ++ second) =
      scanFrom comment offset first ++
        scanFrom (commentAfter comment first) (offset + first.length) second := by
  induction first generalizing comment offset with
  | nil => rfl
  | cons c rest ih =>
      have hnext : offset + (c :: rest).length = offset + 1 + rest.length := by
        simp only [List.length_cons]
        omega
      rw [List.cons_append, scanFrom, scanFrom, hnext, commentAfter_cons]
      by_cases hcomment : comment = true
      · simp only [hcomment, if_true, ih]
      · simp only [hcomment, Bool.false_eq_true, if_false]
        by_cases hmark : c = commentMark
        · simp only [hmark, if_true, ih, decide_true]
        · simp only [hmark, if_false, decide_false]
          split
          · exact ih _ _
          · split
            · rw [ih]
              refine consLetter_append ?_
              intro letters start length hmem
              have hlt := lt_offset_of_word h hmem
              omega
            · rw [ih, List.cons_append]

/-- The tokens of a text that is cut are those of its two parts, unless the cut goes
through a word. -/
inductive Joins : List Token → List Token → List Token → Prop
  | apart (first second : List Token) : Joins first second (first ++ second)
  | word (front rest : List Token) {left right whole : Token}
      (hleft : ∃ letters, left.kind = .word letters)
      (hright : ∃ letters, right.kind = .word letters)
      (hwhole : ∃ letters, whole.kind = .word letters)
      (hoffset : whole.offset = left.offset) :
      Joins (front ++ [left]) (right :: rest) (front ++ whole :: rest)

namespace Joins

variable {whole : List Token}

theorem cons (h : Joins tokens more whole) (token : Token) :
    Joins (token :: tokens) more (token :: whole) := by
  cases h with
  | apart => exact .apart (token :: tokens) more
  | word front rest hleft hright hwhole hoffset =>
      exact .word (token :: front) rest hleft hright hwhole hoffset

theorem consLetter (h : Joins tokens more whole) (offset : Nat) (letter : Char) :
    Joins (consLetter offset letter tokens) more (consLetter offset letter whole) := by
  cases h with
  | apart =>
      cases tokens with
      | cons token tokens =>
          obtain ⟨front, hfront⟩ := exists_consLetter_cons offset letter token
          rw [List.cons_append, hfront, hfront, ← List.append_assoc]
          exact .apart (front ++ tokens) more
      | nil =>
          match more with
          | [] => exact .apart _ []
          | ⟨.symbol _, _, _⟩ :: _ => exact .apart [_] _
          | ⟨.illegal _, _, _⟩ :: _ => exact .apart [_] _
          | ⟨.word letters, start, length⟩ :: rest =>
              simp only [List.nil_append, Token.consLetter]
              split
              · exact .word [] rest ⟨_, rfl⟩ ⟨_, rfl⟩ ⟨_, rfl⟩ rfl
              · exact .apart [_] _
  | @word front rest left right whole hleft hright hwhole hoffset =>
      cases front with
      | cons token front =>
          obtain ⟨others, hothers⟩ := exists_consLetter_cons offset letter token
          rw [List.cons_append, List.cons_append, hothers, hothers,
            ← List.append_assoc, ← List.append_assoc]
          exact .word (others ++ front) rest hleft hright hwhole hoffset
      | nil =>
          obtain ⟨letters, hletters⟩ := hwhole
          obtain ⟨leftLetters, hleft⟩ := hleft
          obtain ⟨kind, start, length⟩ := whole
          obtain ⟨leftKind, leftStart, leftLength⟩ := left
          simp only at hletters hleft hoffset
          subst hletters hleft hoffset
          simp only [List.nil_append, Token.consLetter]
          split
          · exact .word [] rest ⟨_, rfl⟩ hright ⟨_, rfl⟩ rfl
          · exact .word [_] rest ⟨_, rfl⟩ hright ⟨_, rfl⟩ rfl

end Joins

/-- A text may be cut outside a comment, and then only a word may be cut in two. -/
theorem joins_scanFrom (comment : Bool) (offset : Nat) (first second : List Char)
    (h : commentAfter comment first = false) :
    Joins (scanFrom comment offset first)
      (scanFrom false (offset + first.length) second)
      (scanFrom comment offset (first ++ second)) := by
  induction first generalizing comment offset with
  | nil =>
      rw [commentAfter_nil] at h
      subst h
      exact .apart [] _
  | cons c rest ih =>
      have hnext : offset + (c :: rest).length = offset + 1 + rest.length := by
        simp only [List.length_cons]
        omega
      rw [commentAfter_cons] at h
      rw [List.cons_append, scanFrom, scanFrom, hnext]
      by_cases hcomment : comment = true
      · simp only [hcomment, if_true] at h ⊢
        exact ih _ _ h
      · by_cases hmark : c = commentMark
        · simp only [hcomment, hmark, if_true, decide_true] at h ⊢
          exact ih _ _ h
        · simp only [hcomment, hmark, decide_false] at h ⊢
          by_cases hblank : isBlank c = true
          · simp only [hblank, if_true]
            exact ih _ _ h
          · by_cases hname : isNameChar c = true
            · simp only [hblank, hname, if_true]
              exact (ih _ _ h).consLetter offset c
            · simp only [hblank, hname]
              exact (ih _ _ h).cons _

end Token

end Cellular
