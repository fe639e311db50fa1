import Cellular.Proofs.Rule.Cursor
import Cellular.Proofs.Rule.Scanning
import Cellular.Rule.Compilation

/-!
# The same tokens in other surroundings

What a production makes of its tokens depends on nothing around them.  The tokens
may stand elsewhere, the text may end elsewhere, and other tokens may follow a
semicolon: the production succeeds or fails alike, and its diagnostic moves with
the token that it blames (`Mirrors`).  No production passes over a semicolon, so a
diagnostic stands at the end of the text only if no semicolon is ahead
(`Cursor.Blames`).
-/

namespace Cellular

/-- Where tokens are put: every offset is moved, other tokens may follow, and the
text may end elsewhere. -/
structure Surroundings where
  move : Nat → Nat
  following : List Token
  ending : Nat

def Diagnostic.relocate (move : Nat → Nat) (diagnostic : Diagnostic) :
    Diagnostic :=
  { diagnostic with offset := move diagnostic.offset }

def Rule.relocate (move : Nat → Nat) (rule : Rule) : Rule :=
  { rule with offset := move rule.offset }

namespace Cursor

def relocate (surroundings : Surroundings) (cursor : Cursor) : Cursor :=
  ⟨cursor.rest.map (Token.relocate surroundings.move) ++ surroundings.following,
    surroundings.ending, cursor.used⟩

@[simp] theorem length_rest_relocate (surroundings : Surroundings)
    (cursor : Cursor) : (cursor.relocate surroundings).rest.length =
      cursor.rest.length + surroundings.following.length := by
  simp [relocate]

def Terminated (cursor : Cursor) : Prop :=
  ∃ token ∈ cursor.rest, token.isSymbol ';' = true

/-- The diagnostic stands at a token ahead, or at the end of the text if no
semicolon comes before it. -/
structure Blames (cursor : Cursor) (diagnostic : Diagnostic) : Prop where
  place : (∃ token ∈ cursor.rest, diagnostic.offset = token.offset) ∨
    ¬cursor.Terminated ∧ diagnostic.offset = cursor.ending
  kind : ∀ character, diagnostic.kind ≠ .illegalCharacter character

structure Precedes (before after : Cursor) : Prop where
  rest : after.rest <:+ before.rest
  ending : after.ending = before.ending
  terminated : before.Terminated → after.Terminated

theorem Precedes.refl (cursor : Cursor) : cursor.Precedes cursor :=
  ⟨List.suffix_rfl, rfl, id⟩

theorem Precedes.trans {before middle after : Cursor}
    (h : before.Precedes middle) (h' : middle.Precedes after) :
    before.Precedes after :=
  ⟨h'.rest.trans h.rest, h'.ending.trans h.ending, h'.terminated ∘ h.terminated⟩

theorem Blames.of_precedes {before after : Cursor} {diagnostic : Diagnostic}
    (h : after.Blames diagnostic) (hahead : before.Precedes after) :
    before.Blames diagnostic := by
  refine ⟨?_, h.kind⟩
  rcases h.place with ⟨token, hmem, hplace⟩ | ⟨hopen, hplace⟩
  · exact .inl ⟨token, hahead.rest.subset hmem, hplace⟩
  · exact .inr ⟨mt hahead.terminated hopen, hplace.trans hahead.ending⟩

/-! ## Looking ahead -/

variable {cursor : Cursor}

theorem atSymbol_eq_false_of_ne {character other : Char}
    (h : cursor.atSymbol character = true) (hne : character ≠ other) :
    cursor.atSymbol other = false := by
  rw [atSymbol_iff] at h
  rw [← Bool.not_eq_true, atSymbol_iff, h]
  simpa using hne

theorem rest_ne_nil_of_atSymbol {character : Char}
    (h : cursor.atSymbol character = true) : cursor.rest ≠ [] := by
  intro hrest
  simp [atSymbol, hrest] at h

theorem atSymbol_eq_false_of_kind? {character : Char} {letters : List Char}
    (h : cursor.kind? = some (.word letters)) :
    cursor.atSymbol character = false := by
  rw [← Bool.not_eq_true, atSymbol_iff, h]
  simp

theorem atSymbol_eq_false_of_connective? {connective : Connective}
    (h : cursor.connective? = some connective) : cursor.atSymbol ';' = false := by
  have hmark : ∀ {character : Char} {word : String}, character ≠ ';' →
      (cursor.atSymbol character || cursor.atWord word) = true →
        cursor.atSymbol ';' = false := by
    intro character word hne hmark
    rcases Bool.or_eq_true_iff.mp hmark with hsymbol | hword
    · exact atSymbol_eq_false_of_ne hsymbol hne
    · exact atSymbol_eq_false_of_kind? (atWord_iff.mp hword)
  unfold connective? at h
  split at h
  · rename_i hand
    exact hmark (by decide) hand
  · split at h
    · rename_i hor
      exact hmark (by decide) hor
    · cases h

end Cursor

/-! ## Surroundings that fit -/

namespace Surroundings

open Cursor

/-- What stands behind the tokens is out of reach or looks the same. -/
def Fits (surroundings : Surroundings) (cursor : Cursor) : Prop :=
  cursor.Terminated ∨
    surroundings.following = [] ∧
      surroundings.ending = surroundings.move cursor.ending

variable {surroundings : Surroundings} {cursor : Cursor}

theorem Fits.of_precedes {after : Cursor} (h : surroundings.Fits cursor)
    (hahead : cursor.Precedes after) : surroundings.Fits after := by
  rcases h with hterminated | ⟨hfollowing, hending⟩
  · exact .inl (hahead.terminated hterminated)
  · exact .inr ⟨hfollowing, by rw [hending, hahead.ending]⟩

theorem Fits.of_rest_eq_nil (h : surroundings.Fits cursor)
    (hrest : cursor.rest = []) : surroundings.following = [] ∧
      surroundings.ending = surroundings.move cursor.ending := by
  refine h.resolve_left ?_
  rintro ⟨token, hmem, -⟩
  simp [hrest] at hmem

theorem Fits.rest_relocate_eq_nil (h : surroundings.Fits cursor)
    (hrest : cursor.rest = []) : (cursor.relocate surroundings).rest = [] := by
  simp [relocate, hrest, (h.of_rest_eq_nil hrest).1]

theorem Fits.kind?_relocate (h : surroundings.Fits cursor) :
    (cursor.relocate surroundings).kind? = cursor.kind? := by
  cases hrest : cursor.rest with
  | nil => simp [relocate, Cursor.kind?, hrest, (h.of_rest_eq_nil hrest).1]
  | cons token rest => simp [relocate, Cursor.kind?, hrest]

theorem Fits.offset_relocate (h : surroundings.Fits cursor) :
    (cursor.relocate surroundings).offset = surroundings.move cursor.offset := by
  cases hrest : cursor.rest with
  | nil =>
      obtain ⟨hfollowing, hending⟩ := h.of_rest_eq_nil hrest
      simp [relocate, offset, hrest, hfollowing, hending]
  | cons token rest => simp [relocate, offset, hrest]

theorem Fits.text_relocate (h : surroundings.Fits cursor) :
    (cursor.relocate surroundings).text = cursor.text := by
  cases hrest : cursor.rest with
  | nil => simp [relocate, text, hrest, (h.of_rest_eq_nil hrest).1]
  | cons token rest => simp [relocate, text, hrest]

theorem Fits.atSymbol_relocate (h : surroundings.Fits cursor)
    (character : Char) : (cursor.relocate surroundings).atSymbol character =
      cursor.atSymbol character := by
  rw [Bool.eq_iff_iff, atSymbol_iff, atSymbol_iff, h.kind?_relocate]

theorem Fits.atWord_relocate (h : surroundings.Fits cursor) (word : String) :
    (cursor.relocate surroundings).atWord word = cursor.atWord word := by
  rw [Bool.eq_iff_iff, atWord_iff, atWord_iff, h.kind?_relocate]

theorem Fits.word?_relocate (h : surroundings.Fits cursor) :
    (cursor.relocate surroundings).word? = cursor.word? := by
  refine Option.ext fun letters => ?_
  rw [word?_eq_some_iff, word?_eq_some_iff, h.kind?_relocate]

theorem Fits.connective?_relocate (h : surroundings.Fits cursor) :
    (cursor.relocate surroundings).connective? = cursor.connective? := by
  simp only [connective?, h.atSymbol_relocate, h.atWord_relocate]

theorem Fits.take_cases (h : surroundings.Fits cursor) (limits : Limits) :
    (cursor.take limits = cursor.fault .sizeLimitExceeded ∧
      (cursor.relocate surroundings).take limits =
        (cursor.relocate surroundings).fault .sizeLimitExceeded) ∨
    ∃ after, cursor.take limits = .ok after ∧
      (cursor.relocate surroundings).take limits =
        .ok (after.relocate surroundings) ∧
      after.rest = cursor.rest.tail ∧ after.ending = cursor.ending := by
  have hused : (cursor.relocate surroundings).used = cursor.used := rfl
  cases hrest : cursor.rest with
  | nil =>
      have hcopy := h.rest_relocate_eq_nil hrest
      exact .inr ⟨cursor, by simp [take, hrest], by simp [take, hcopy],
        by simp [hrest], rfl⟩
  | cons token rest =>
      have hcopy : (cursor.relocate surroundings).rest =
          token.relocate surroundings.move ::
            (rest.map (Token.relocate surroundings.move) ++
              surroundings.following) := by
        simp [relocate, hrest]
      simp only [take, hrest, hcopy, hused, Token.length_relocate]
      split
      · exact .inl ⟨rfl, rfl⟩
      · exact .inr ⟨_, rfl, rfl, rfl, rfl⟩

end Surroundings

/-! ## Mirrored results -/

/-- Both fail, and the diagnostic has moved along, or both succeed with related
results. -/
inductive Mirrors (surroundings : Surroundings) (before : Cursor) {ρ : Type}
    (relation : ρ → ρ → Prop) :
    Except Diagnostic ρ → Except Diagnostic ρ → Prop
  | error {diagnostic : Diagnostic} (h : before.Blames diagnostic) :
      Mirrors surroundings before relation (.error diagnostic)
        (.error (diagnostic.relocate surroundings.move))
  | ok {result image : ρ} (h : relation result image) :
      Mirrors surroundings before relation (.ok result) (.ok image)

def SameReading (surroundings : Surroundings) {α : Type}
    (result image : α × Cursor) : Prop :=
  image = (result.1, result.2.relocate surroundings)

def SameProgress (surroundings : Surroundings) (before : Cursor) {α : Type}
    (result image : α × Cursor) : Prop :=
  SameReading surroundings result image ∧ before.Precedes result.2

def SameList (surroundings : Surroundings) (closing : Char) (before : Cursor)
    {α : Type} (result image : α × Cursor) : Prop :=
  SameReading surroundings result image ∧
    (closing ≠ ';' → before.Precedes result.2)

namespace Mirrors

variable {surroundings : Surroundings} {before middle : Cursor} {α ρ : Type}
  {relation : ρ → ρ → Prop} {limits : Limits} {f g : Cursor → Except Diagnostic ρ}

theorem of_error {diagnostic : Diagnostic} {y : Except Diagnostic ρ}
    (h : Mirrors surroundings before relation (.error diagnostic) y) :
    before.Blames diagnostic ∧ y = .error (diagnostic.relocate surroundings.move) := by
  cases h with
  | error h => exact ⟨h, rfl⟩

theorem of_ok {result : ρ} {y : Except Diagnostic ρ}
    (h : Mirrors surroundings before relation (.ok result) y) :
    ∃ image, y = .ok image ∧ relation result image := by
  cases h with
  | ok h => exact ⟨_, rfl, h⟩

theorem mono {relation' : ρ → ρ → Prop} {x y : Except Diagnostic ρ}
    (h : Mirrors surroundings middle relation x y)
    (hahead : before.Precedes middle)
    (hrelation : ∀ result image, relation result image → relation' result image) :
    Mirrors surroundings before relation' x y := by
  cases h with
  | error h => exact .error (h.of_precedes hahead)
  | ok h => exact .ok (hrelation _ _ h)

theorem fault (hfits : surroundings.Fits before)
    (hahead : before.Precedes middle) {kind : DiagnosticKind}
    (hkind : ∀ character, kind ≠ .illegalCharacter character) :
    Mirrors surroundings before relation (middle.fault kind)
      ((middle.relocate surroundings).fault kind) := by
  have hblames : middle.Blames ⟨middle.offset, kind⟩ := by
    refine ⟨?_, hkind⟩
    cases hrest : middle.rest with
    | nil => exact .inr ⟨by simp [Cursor.Terminated, hrest], by
        simp [Cursor.offset, hrest]⟩
    | cons token rest => exact .inl ⟨token, by simp, by simp [Cursor.offset, hrest]⟩
  rw [Cursor.fault, Cursor.fault, (hfits.of_precedes hahead).offset_relocate]
  exact .error (hblames.of_precedes hahead)

theorem unexpected (hfits : surroundings.Fits before)
    (hahead : before.Precedes middle) (what : Expected) :
    Mirrors surroundings before relation (middle.unexpected what)
      ((middle.relocate surroundings).unexpected what) :=
  fault hfits hahead (by simp)

theorem andThen (hahead : before.Precedes middle) {relation' : α → α → Prop}
    {x y : Except Diagnostic α} {f g : α → Except Diagnostic ρ}
    (h : Mirrors surroundings middle relation' x y)
    (hnext : ∀ result image, relation' result image →
      Mirrors surroundings before relation (f result) (g image)) :
    Mirrors surroundings before relation (x >>= f) (y >>= g) := by
  cases h with
  | error h => exact .error (h.of_precedes hahead)
  | ok h => exact hnext _ _ h

theorem bind (hahead : before.Precedes middle)
    {x y : Except Diagnostic (α × Cursor)}
    {f g : α × Cursor → Except Diagnostic ρ}
    (h : Mirrors surroundings middle (SameProgress surroundings middle) x y)
    (hnext : ∀ value after, before.Precedes after →
      Mirrors surroundings before relation (f (value, after))
        (g (value, after.relocate surroundings))) :
    Mirrors surroundings before relation (x >>= f) (y >>= g) := by
  refine h.andThen hahead ?_
  rintro ⟨value, after⟩ _ ⟨rfl, hafter⟩
  exact hnext value after (hahead.trans hafter)

theorem take (hfits : surroundings.Fits before) (hahead : before.Precedes middle)
    (hkind : middle.atSymbol ';' = false)
    (hnext : ∀ after, before.Precedes after → after.rest = middle.rest.tail →
      Mirrors surroundings before relation (f after)
        (g (after.relocate surroundings))) :
    Mirrors surroundings before relation (middle.take limits >>= f)
      ((middle.relocate surroundings).take limits >>= g) := by
  rcases (hfits.of_precedes hahead).take_cases limits with
    ⟨htake, hcopy⟩ | ⟨after, htake, hcopy, hrest, hending⟩
  · rw [htake, hcopy]
    exact fault hfits hahead (by simp)
  · rw [htake, hcopy]
    refine hnext after (hahead.trans ⟨?_, hending, ?_⟩) hrest
    · rw [hrest]
      exact List.tail_suffix _
    · rintro ⟨token, hmem, htoken⟩
      refine ⟨token, ?_, htoken⟩
      rw [hrest]
      cases htokens : middle.rest with
      | nil => simp [htokens] at hmem
      | cons first rest =>
          rw [htokens] at hmem
          rcases List.mem_cons.mp hmem with rfl | hmem
          · simp [Cursor.atSymbol, htokens, htoken] at hkind
          · exact hmem

theorem takeSymbol (hfits : surroundings.Fits before)
    (hahead : before.Precedes middle) {character : Char} (hne : character ≠ ';')
    {what : Expected}
    (hnext : ∀ after, before.Precedes after →
      Mirrors surroundings before relation (f after)
        (g (after.relocate surroundings))) :
    Mirrors surroundings before relation
      (middle.takeSymbol limits character what >>= f)
      ((middle.relocate surroundings).takeSymbol limits character what >>= g) := by
  rw [Cursor.takeSymbol, Cursor.takeSymbol,
    (hfits.of_precedes hahead).atSymbol_relocate]
  split
  · rename_i hat
    exact take hfits hahead (Cursor.atSymbol_eq_false_of_ne hat hne)
      fun after hafter _ => hnext after hafter
  · exact unexpected hfits hahead what

theorem take_closing (hfits : surroundings.Fits before) {closing : Char}
    (hclosing : before.atSymbol closing = true) (value : α) :
    Mirrors surroundings before (SameList surroundings closing before)
      (do
        let after ← before.take limits
        .ok (value, after))
      (do
        let after ← (before.relocate surroundings).take limits
        .ok (value, after)) := by
  by_cases hsemicolon : closing = ';'
  · rcases hfits.take_cases limits with
      ⟨htake, hcopy⟩ | ⟨after, htake, hcopy, -⟩
    · rw [htake, hcopy]
      exact fault hfits (.refl _) (by simp)
    · rw [htake, hcopy]
      exact .ok ⟨rfl, absurd hsemicolon⟩
  · have hother := Cursor.atSymbol_eq_false_of_ne hclosing hsemicolon
    exact take hfits (.refl _) hother fun after hafter _ => .ok ⟨rfl, fun _ => hafter⟩

end Mirrors

end Cellular
