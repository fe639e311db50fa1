import Cellular.Proofs.Text.Words
import Cellular.Rule.Token

/-!
# Spelling of tokens

A text spells a list of token kinds if the scanner finds these kinds in it, no
matter where it stands and what follows, as long as no name character follows
right away.  Words, symbols and blanks are spelled as they are written, and texts
spell in a row what they spell alone unless a word would run into the next
(`Spells.append`).
-/

namespace Cellular

open Text

def TokenKind.length : TokenKind → Nat
  | .word letters => letters.length
  | .symbol _ | .illegal _ => 1

namespace Token

theorem ne_commentMark_of_isNameChar {c : Char} (h : isNameChar c = true) :
    c ≠ commentMark := by
  rintro rfl
  exact absurd h (by decide)

/-! ## Tokens one by one -/

def Apart (text : List Char) : Prop :=
  ∀ c ∈ text.head?, isNameChar c = false

theorem apart_nil : Apart [] := nofun

theorem apart_cons {c : Char} {text : List Char} (h : isNameChar c = false) :
    Apart (c :: text) := by
  rintro _ ⟨⟩
  exact h

theorem Apart.append {first second : List Char} (hfirst : Apart first)
    (hsecond : Apart second) : Apart (first ++ second) := by
  cases first with
  | nil => exact hsecond
  | cons c first => exact hfirst

theorem scanFrom_blank {c : Char} (h : isBlank c = true)
    (hmark : c ≠ commentMark) (offset : Nat) (rest : List Char) :
    scanFrom false offset (c :: rest) = scanFrom false (offset + 1) rest := by
  rw [scanFrom, if_neg (by decide), if_neg hmark, if_pos h]

theorem scanFrom_symbol {c : Char} (h : c ∈ symbols) (offset : Nat)
    (rest : List Char) :
    scanFrom false offset (c :: rest) =
      ⟨.symbol c, offset, 1⟩ :: scanFrom false (offset + 1) rest := by
  have hplain : (symbols.all fun c =>
      c != commentMark && (!isBlank c && !isNameChar c)) = true := by decide
  have hc := List.all_eq_true.mp hplain c h
  simp only [Bool.and_eq_true, bne_iff_ne, Bool.not_eq_true',
    ← Bool.not_eq_true] at hc
  obtain ⟨hmark, hblank, hname⟩ := hc
  simp only [scanFrom, Bool.false_eq_true, if_false, if_neg hmark, if_neg hblank,
    if_neg hname, if_pos h]

theorem scanFrom_letter {c : Char} (h : isNameChar c = true) (offset : Nat)
    (rest : List Char) :
    scanFrom false offset (c :: rest) =
      consLetter offset c (scanFrom false (offset + 1) rest) := by
  have hblank : ¬isBlank c = true := by simp [isBlank_of_isNameChar h]
  rw [scanFrom, if_neg (by decide), if_neg (ne_commentMark_of_isNameChar h),
    if_neg hblank, if_pos h]

theorem offset_consLetter (offset : Nat) (letter : Char) (tokens : List Token) :
    ∃ letters length others, consLetter offset letter tokens =
      ⟨.word letters, offset, length⟩ :: others ∧ others <:+ tokens := by
  unfold consLetter
  split
  · split
    · exact ⟨_, _, _, rfl, List.suffix_cons _ _⟩
    · exact ⟨_, _, _, rfl, List.suffix_rfl⟩
  · exact ⟨_, _, _, rfl, List.suffix_rfl⟩

theorem le_offset_of_mem_scanFrom {comment : Bool} {offset : Nat}
    {text : List Char} {token : Token} (h : token ∈ scanFrom comment offset text) :
    offset ≤ token.offset := by
  induction text generalizing comment offset with
  | nil => cases h
  | cons c rest ih =>
      have hlater : ∀ {comment}, token ∈ scanFrom comment (offset + 1) rest →
          offset ≤ token.offset := fun hmem =>
        Nat.le_of_succ_le (ih hmem)
      rw [scanFrom] at h
      split at h
      · exact hlater h
      · split at h
        · exact hlater h
        · split at h
          · exact hlater h
          · split at h
            · obtain ⟨letters, length, others, heq, hothers⟩ :=
                offset_consLetter offset c (scanFrom false (offset + 1) rest)
              rw [heq] at h
              rcases List.mem_cons.mp h with rfl | hmem
              · exact Nat.le_refl _
              · exact hlater (hothers.subset hmem)
            · rcases List.mem_cons.mp h with rfl | hmem
              · exact Nat.le_refl _
              · exact hlater hmem

theorem length_eq_of_mem_scanFrom {comment : Bool} {offset : Nat}
    {text : List Char} {token : Token}
    (h : token ∈ scanFrom comment offset text) :
    token.length = token.kind.length := by
  induction text generalizing comment offset token with
  | nil => cases h
  | cons c rest ih =>
      rw [scanFrom] at h
      split at h
      · exact ih h
      · split at h
        · exact ih h
        · split at h
          · exact ih h
          · split at h
            · unfold consLetter at h
              split at h
              · rename_i letters start length others heq
                have hjoined := @ih false (offset + 1)
                  ⟨.word letters, start, length⟩ (heq ▸ List.mem_cons_self)
                split at h
                · rcases List.mem_cons.mp h with rfl | hmem
                  · exact congrArg (· + 1) hjoined
                  · exact ih (heq ▸ List.mem_cons_of_mem _ hmem)
                · rcases List.mem_cons.mp h with rfl | hmem
                  · rfl
                  · exact ih hmem
              · rcases List.mem_cons.mp h with rfl | hmem
                · rfl
                · exact ih hmem
            · rcases List.mem_cons.mp h with rfl | hmem
              · dsimp only
                split <;> rfl
              · exact ih hmem

theorem lt_offset_of_word {comment : Bool} {rest : List Char} (h : Apart rest)
    {offset start length : Nat} {letters : List Char}
    (hmem : ⟨.word letters, start, length⟩ ∈ scanFrom comment offset rest) :
    offset < start := by
  cases rest with
  | nil => cases hmem
  | cons c rest =>
      have hname : isNameChar c = false := h c rfl
      have hlater : ∀ {comment},
          ⟨.word letters, start, length⟩ ∈ scanFrom comment (offset + 1) rest →
            offset < start := fun hmem => le_offset_of_mem_scanFrom hmem
      simp only [scanFrom, hname, Bool.false_eq_true, if_false] at hmem
      split at hmem
      · exact hlater hmem
      · split at hmem
        · exact hlater hmem
        · split at hmem
          · exact hlater hmem
          · rcases List.mem_cons.mp hmem with heq | hmem
            · split at heq <;> cases heq
            · exact hlater hmem

theorem consLetter_scanFrom_of_apart {rest : List Char} (h : Apart rest)
    (offset : Nat) (letter : Char) :
    consLetter offset letter (scanFrom false (offset + 1) rest) =
      ⟨.word [letter.toUpper], offset, 1⟩ :: scanFrom false (offset + 1) rest := by
  unfold consLetter
  split
  · rename_i letters start length others heq
    have hlt := lt_offset_of_word h (heq ▸ List.mem_cons_self)
    rw [if_neg (by omega)]
  · rfl

theorem scanFrom_word {letters rest : List Char} (hsome : letters ≠ [])
    (hletters : ∀ c ∈ letters, isNameChar c = true) (hrest : Apart rest)
    (offset : Nat) :
    scanFrom false offset (letters ++ rest) =
      ⟨.word (letters.map Char.toUpper), offset, letters.length⟩ ::
        scanFrom false (offset + letters.length) rest := by
  induction letters generalizing offset with
  | nil => exact absurd rfl hsome
  | cons c letters ih =>
      have hc := hletters c List.mem_cons_self
      rw [List.cons_append, scanFrom_letter hc]
      cases letters with
      | nil => exact consLetter_scanFrom_of_apart hrest offset c
      | cons c' letters =>
          have htail := ih (by simp)
            (fun c hmem => hletters c (List.mem_cons_of_mem _ hmem)) (offset + 1)
          rw [htail, consLetter, if_pos rfl]
          simp only [List.map_cons, List.length_cons]
          rw [Nat.add_right_comm offset 1, Nat.add_assoc offset]

end Token

/-! ## Texts that spell -/

/-- The scanner finds the kinds in the text, wherever it stands and whatever
follows it apart from a name character. -/
def Spells (text : List Char) (kinds : List TokenKind) : Prop :=
  ∀ offset rest, Token.Apart rest → ∃ tokens,
    tokens.map Token.kind = kinds ∧
      Token.scanFrom false offset (text ++ rest) =
        tokens ++ Token.scanFrom false (offset + text.length) rest

variable {text : List Char} {kinds : List TokenKind}

theorem Spells.nil : Spells [] [] := fun _ _ _ => ⟨[], rfl, rfl⟩

theorem Spells.append {first second : List Char} {kinds kinds' : List TokenKind}
    (hfirst : Spells first kinds) (hsecond : Spells second kinds')
    (hapart : Token.Apart second) :
    Spells (first ++ second) (kinds ++ kinds') := by
  intro offset rest hrest
  obtain ⟨tokens, rfl, hscan⟩ := hfirst offset (second ++ rest) (hapart.append hrest)
  obtain ⟨tokens', rfl, hscan'⟩ := hsecond (offset + first.length) rest hrest
  refine ⟨tokens ++ tokens', List.map_append, ?_⟩
  rw [List.append_assoc, hscan, hscan', List.append_assoc, List.length_append,
    Nat.add_assoc]

theorem Spells.symbol {c : Char} (h : c ∈ Token.symbols)
    (htext : Spells text kinds) : Spells (c :: text) (.symbol c :: kinds) := by
  intro offset rest hrest
  obtain ⟨tokens, rfl, hscan⟩ := htext (offset + 1) rest hrest
  refine ⟨⟨.symbol c, offset, 1⟩ :: tokens, rfl, ?_⟩
  rw [List.cons_append, Token.scanFrom_symbol h, hscan, List.length_cons,
    Nat.add_right_comm, Nat.add_assoc]
  rfl

theorem Spells.blank {c : Char} (h : Text.isBlank c = true)
    (hmark : c ≠ Token.commentMark) (htext : Spells text kinds) :
    Spells (c :: text) kinds := by
  intro offset rest hrest
  obtain ⟨tokens, rfl, hscan⟩ := htext (offset + 1) rest hrest
  refine ⟨tokens, rfl, ?_⟩
  rw [List.cons_append, Token.scanFrom_blank h hmark, hscan, List.length_cons,
    Nat.add_right_comm, Nat.add_assoc]

theorem Spells.word {letters : List Char} (hsome : letters ≠ [])
    (hletters : ∀ c ∈ letters, Text.isNameChar c = true) :
    Spells letters [.word (letters.map Char.toUpper)] := by
  intro offset rest hrest
  exact ⟨[_], rfl, Token.scanFrom_word hsome hletters hrest offset⟩

end Cellular
