import Cellular.Proofs.Rule.Comments

/-!
# Tokens tile the text

A text is read by whole comments and whole words at a time (`stream`).  This finds the
tokens of the scanner, the faults are its illegal tokens, and reading stops at the end of
the text.  The tokens tile the text (`Tiling`): what is neither blank nor part of a comment
lies in the span of just one token, and a word is a maximal run of name characters.
-/

namespace Cellular.Token

open Text

variable {offset ending place : Nat} {c : Char} {text front piece run back rest : List Char}
  {token : Token} {tokens : List Token}

/-! ## Reading by comments and words -/

structure Stream where
  tokens : List Token
  faults : List Diagnostic
  ending : Nat
  deriving DecidableEq

/-- How much of a text a comment takes that is open at its start: all up to the end of the
line, which belongs to it. -/
def commentLength (text : List Char) : Nat :=
  min ((text.takeWhile fun c => c != '\n').length + 1) text.length

/-- Reads a text that starts at `offset`.  What was read before ends at `ending`, and the
length of a word is counted in bytes. -/
def streamFrom (offset ending : Nat) : List Char → Stream
  | [] => ⟨[], [], ending⟩
  | c :: rest =>
      if c = commentMark then
        let stop := offset + 1 + commentLength rest
        streamFrom stop stop (rest.drop (commentLength rest))
      else if isBlank c then streamFrom (offset + 1) (offset + 1) rest
      else if isNameChar c then
        let letters := c :: rest.takeWhile isNameChar
        let word := letters.map Char.toUpper
        let stop := offset + letters.length
        let stream := streamFrom stop stop (rest.dropWhile isNameChar)
        { stream with
          tokens := ⟨.word word, offset, (String.ofList word).utf8ByteSize⟩ :: stream.tokens }
      else
        let stream := streamFrom (offset + 1) (offset + 1) rest
        if c ∈ symbols then
          { stream with tokens := ⟨.symbol c, offset, 1⟩ :: stream.tokens }
        else
          { stream with
            tokens := ⟨.illegal c, offset, 1⟩ :: stream.tokens
            faults := ⟨offset, .illegalCharacter c⟩ :: stream.faults }
termination_by text => text.length
decreasing_by
  all_goals
    have hdrop := (List.dropWhile_suffix isNameChar (l := rest)).length_le
    simp only [List.length_cons, List.length_drop]
    omega

def stream (text : List Char) : Stream := streamFrom 0 0 text

theorem commentLength_cons (c : Char) (rest : List Char) :
    commentLength (c :: rest) = if c = '\n' then 1 else commentLength rest + 1 := by
  by_cases hline : c = '\n' <;> simp [commentLength, hline]

theorem scanFrom_true (offset : Nat) (text : List Char) :
    scanFrom true offset text =
      scanFrom false (offset + commentLength text) (text.drop (commentLength text)) := by
  induction text generalizing offset with
  | nil => rfl
  | cons c rest ih =>
      by_cases hline : c = '\n'
      · rw [commentLength_cons, if_pos hline, scanFrom, if_pos rfl, hline]
        rfl
      · have hopen : (c != '\n') = true := by simpa using hline
        rw [commentLength_cons, if_neg hline, scanFrom, if_pos rfl, hopen, ih,
          List.drop_succ_cons, Nat.add_assoc, Nat.add_comm 1]

theorem apart_dropWhile (text : List Char) : Apart (text.dropWhile isNameChar) := by
  intro c hc
  have hfirst := List.head?_dropWhile_not isNameChar text
  rw [hc] at hfirst
  exact hfirst

theorem isNameChar_of_mem_run (hc : isNameChar c = true) {letter : Char}
    (h : letter ∈ c :: rest.takeWhile isNameChar) : isNameChar letter = true := by
  rcases List.mem_cons.mp h with rfl | hmem
  · exact hc
  · exact List.mem_takeWhile_imp hmem

theorem utf8ByteSize_ofList_of_isNameChar (h : ∀ c ∈ run, isNameChar c = true) :
    (String.ofList run).utf8ByteSize = run.length := by
  induction run with
  | nil => rfl
  | cons c run ih =>
      rw [List.forall_mem_cons] at h
      have hascii : c.utf8Size = 1 := by
        rw [Char.utf8Size_eq_one_iff, UInt32.le_iff_toNat_le, Char.toNat_val]
        have hcode := isNameChar_iff.mp h.1
        have hbound : (127 : UInt32).toNat = 127 := rfl
        omega
      rw [String.ofList_cons, String.utf8ByteSize_append, String.utf8ByteSize_singleton, ih h.2,
        hascii, List.length_cons, Nat.add_comm]

theorem utf8ByteSize_word (h : ∀ c ∈ run, isNameChar c = true) :
    (String.ofList (run.map Char.toUpper)).utf8ByteSize = run.length := by
  rw [utf8ByteSize_ofList_of_isNameChar, List.length_map]
  intro letter hmem
  obtain ⟨original, horiginal, rfl⟩ := List.mem_map.mp hmem
  exact isNameChar_toUpper (h original horiginal)

theorem scanFrom_run (hc : isNameChar c = true) (offset : Nat) (rest : List Char) :
    scanFrom false offset (c :: rest) =
      ⟨.word ((c :: rest.takeWhile isNameChar).map Char.toUpper), offset,
          (c :: rest.takeWhile isNameChar).length⟩ ::
        scanFrom false (offset + (c :: rest.takeWhile isNameChar).length)
          (rest.dropWhile isNameChar) := by
  have hrun := scanFrom_word (List.cons_ne_nil c (rest.takeWhile isNameChar))
    (fun _ => isNameChar_of_mem_run hc) (apart_dropWhile rest) offset
  rwa [List.cons_append, List.takeWhile_append_dropWhile] at hrun

theorem scanFrom_stray (h : IsStray c) (offset : Nat) (rest : List Char) :
    scanFrom false offset (c :: rest) =
      ⟨.illegal c, offset, 1⟩ :: scanFrom false (offset + 1) rest := by
  simp [scanFrom, h.mark, h.blank, h.name, h.symbol]

/-- Reading by comments and words finds the tokens of the scanner, reports the illegal ones,
and stops at the end of the text. -/
theorem streamFrom_eq (h : ending = offset) :
    streamFrom offset ending text =
      ⟨scanFrom false offset text, (scanFrom false offset text).filterMap illegality?,
        offset + text.length⟩ := by
  fun_induction streamFrom offset ending text with
  | case1 offset ending => rw [h]; rfl
  | case2 offset ending rest stop ih =>
      have hopen : scanFrom false offset (commentMark :: rest) =
          scanFrom false stop (rest.drop (commentLength rest)) := scanFrom_true (offset + 1) rest
      have hlength : commentLength rest ≤ rest.length := Nat.min_le_right _ _
      rw [ih rfl, hopen, List.length_drop, List.length_cons]
      congr 1
      omega
  | case3 offset ending c rest hmark hblank ih =>
      rw [ih rfl, scanFrom_blank hblank hmark, List.length_cons, Nat.add_right_comm,
        Nat.add_assoc]
  | case4 offset ending c rest _ _ hname letters word stop stream ih =>
      have hword : (String.ofList word).utf8ByteSize = letters.length :=
        utf8ByteSize_word fun _ => isNameChar_of_mem_run hname
      have hlength :
          (c :: rest).length = letters.length + (rest.dropWhile isNameChar).length := by
        rw [← List.length_append, List.cons_append, List.takeWhile_append_dropWhile]
      rw [show stream = _ from ih rfl, hword, scanFrom_run hname, hlength, ← Nat.add_assoc]
      rfl
  | case5 offset ending c rest _ _ _ stream hsymbol ih =>
      rw [show stream = _ from ih rfl, scanFrom_symbol hsymbol, List.length_cons,
        Nat.add_right_comm, Nat.add_assoc]
      rfl
  | case6 offset ending c rest hmark hblank hname stream hsymbol ih =>
      have hstray : IsStray c := ⟨by simpa using hblank, by simpa using hname, hmark, hsymbol⟩
      rw [show stream = _ from ih rfl, scanFrom_stray hstray, List.length_cons,
        Nat.add_right_comm, Nat.add_assoc]
      rfl

/-! ## What a token stands on -/

def stop (token : Token) : Nat := token.offset + token.length

def Covers (token : Token) (place : Nat) : Prop :=
  token.offset ≤ place ∧ place < token.stop

/-- The character at the place belongs to a comment: one is open in front of it, or it opens
one.  The line feed that ends a comment belongs to it. -/
def IsComment (text : List Char) (place : Nat) : Prop :=
  InComment (text.take place) ∨ text[place]? = some commentMark

instance (text : List Char) (place : Nat) : Decidable (IsComment text place) :=
  inferInstanceAs (Decidable (_ ∨ _))

/-- How a token stands in a text, outside comments: a word on a maximal run of name
characters, any other token on its one character. -/
inductive Stands (text : List Char) : Token → Prop
  | word {front run back : List Char} (htext : text = front ++ run ++ back)
      (houtside : ¬InComment front) (hsome : run ≠ [])
      (hrun : ∀ c ∈ run, isNameChar c = true)
      (hleft : ∀ c ∈ front.getLast?, isNameChar c = false) (hright : Apart back) :
      Stands text ⟨.word (run.map Char.toUpper), front.length, run.length⟩
  | symbol {front back : List Char} {c : Char} (htext : text = front ++ c :: back)
      (houtside : ¬InComment front) (hsymbol : c ∈ symbols) :
      Stands text ⟨.symbol c, front.length, 1⟩
  | illegal {front back : List Char} {c : Char} (htext : text = front ++ c :: back)
      (houtside : ¬InComment front) (hstray : IsStray c) :
      Stands text ⟨.illegal c, front.length, 1⟩

theorem not_inComment_iff : ¬InComment text ↔ commentAfter false text = false := by
  rw [inComment_iff, Bool.not_eq_true]

theorem commentAfter_false_of_notMem (h : commentMark ∉ text) :
    commentAfter false text = false := by
  induction text with
  | nil => rfl
  | cons c rest ih =>
      rw [List.mem_cons, not_or] at h
      have hclosed : decide (c = commentMark) = false := by simpa using Ne.symm h.1
      rw [commentAfter_cons, if_neg (by decide), hclosed, ih h.2]

theorem commentAfter_true_of_notMem (h : '\n' ∉ text) : commentAfter true text = true := by
  induction text with
  | nil => rfl
  | cons c rest ih =>
      rw [List.mem_cons, not_or] at h
      have hopen : (c != '\n') = true := by simpa using Ne.symm h.1
      rw [commentAfter_cons, if_pos rfl, hopen, ih h.2]

theorem commentMark_notMem_run (h : ∀ c ∈ run, isNameChar c = true) : commentMark ∉ run :=
  fun hmem => ne_commentMark_of_isNameChar (h _ hmem) rfl

theorem commentAfter_append_run (houtside : commentAfter false front = false)
    (h : commentMark ∉ run) : commentAfter false (front ++ run) = false := by
  rw [commentAfter_append, houtside, commentAfter_false_of_notMem h]

theorem meant_of_lt (htext : text = front ++ run ++ back) (houtside : ¬InComment front)
    (hrun : ∀ c ∈ run, isBlank c = false ∧ c ≠ commentMark) {index : Nat}
    (hindex : index < run.length) :
    ∃ c, text[front.length + index]? = some c ∧ isBlank c = false ∧
      ¬IsComment text (front.length + index) := by
  obtain ⟨hblank, hmark⟩ := hrun _ (List.getElem_mem hindex)
  have hc : text[front.length + index]? = some run[index] := by
    rw [htext, List.append_assoc, List.getElem?_append_right (Nat.le_add_right _ _),
      Nat.add_sub_cancel_left, List.getElem?_append_left hindex,
      List.getElem?_eq_getElem hindex]
  have htake : text.take (front.length + index) = front ++ run.take index := by
    rw [htext, List.append_assoc, List.take_length_add_append, List.take_append_of_le_length
      (Nat.le_of_lt hindex)]
  have hunmarked : commentMark ∉ run.take index :=
    fun hmem => (hrun _ (List.mem_of_mem_take hmem)).2 rfl
  rw [not_inComment_iff] at houtside
  refine ⟨run[index], hc, hblank, ?_⟩
  rw [IsComment, htake, hc, inComment_iff, commentAfter_append_run houtside hunmarked]
  simpa using hmark

theorem solid_of_mem_symbols (h : c ∈ symbols) : isBlank c = false ∧ c ≠ commentMark := by
  have hsolid : (symbols.all fun c => !isBlank c && c != commentMark) = true := by decide
  simpa using List.all_eq_true.mp hsolid c h

theorem Stands.exists_piece (h : Stands text token) :
    ∃ front piece back, text = front ++ piece ++ back ∧ token.offset = front.length ∧
      token.length = piece.length ∧ piece ≠ [] ∧ ¬InComment front ∧
        ∀ c ∈ piece, isBlank c = false ∧ c ≠ commentMark := by
  cases h with
  | @word front run back htext houtside hsome hrun _ _ =>
      exact ⟨front, run, back, htext, rfl, rfl, hsome, houtside, fun c hmem =>
        ⟨isBlank_of_isNameChar (hrun c hmem), ne_commentMark_of_isNameChar (hrun c hmem)⟩⟩
  | @symbol front back c htext houtside hsymbol =>
      exact ⟨front, [c], back, by simpa using htext, rfl, rfl, by simp, houtside,
        List.forall_mem_singleton.mpr (solid_of_mem_symbols hsymbol)⟩
  | @illegal front back c htext houtside hstray =>
      exact ⟨front, [c], back, by simpa using htext, rfl, rfl, by simp, houtside,
        List.forall_mem_singleton.mpr ⟨hstray.blank, hstray.mark⟩⟩

theorem Stands.of_covers (h : Stands text token) (hcovers : token.Covers place) :
    ∃ c, text[place]? = some c ∧ isBlank c = false ∧ ¬IsComment text place := by
  obtain ⟨hlower, hupper⟩ := hcovers
  obtain ⟨front, piece, back, htext, hoffset, hlength, -, houtside, hpiece⟩ := h.exists_piece
  obtain ⟨index, rfl⟩ := Nat.exists_eq_add_of_le hlower
  have hindex : index < token.length := Nat.lt_of_add_lt_add_left hupper
  rw [hoffset]
  exact meant_of_lt htext houtside hpiece (hlength ▸ hindex)

theorem Stands.bounds (h : Stands text token) :
    token.offset < token.stop ∧ token.stop ≤ text.length := by
  obtain ⟨front, piece, back, htext, hoffset, hlength, hsome, -⟩ := h.exists_piece
  have hpos := List.length_pos_iff.mpr hsome
  have htotal := congrArg List.length htext
  simp only [List.length_append] at htotal
  unfold stop
  omega

/-! ## The tiling -/

/-- Tokens that tile a text behind `front`, where `rest` is still to be read. -/
structure TilesFrom (front rest : List Char) (tokens : List Token) : Prop where
  stands : ∀ token ∈ tokens, Stands (front ++ rest) token
  later : ∀ token ∈ tokens, front.length ≤ token.offset
  ordered : tokens.Pairwise fun first second => first.stop ≤ second.offset
  covered : ∀ {place : Nat} {c : Char}, front.length ≤ place →
    (front ++ rest)[place]? = some c → isBlank c = false →
      ¬IsComment (front ++ rest) place → ∃ token ∈ tokens, token.Covers place

namespace TilesFrom

theorem nil (front : List Char) : TilesFrom front [] [] where
  stands := nofun
  later := nofun
  ordered := .nil
  covered := by
    intro place c hplace hc
    rw [List.append_nil, List.getElem?_eq_none hplace] at hc
    cases hc

theorem skip (h : TilesFrom (front ++ piece) rest tokens)
    (hpiece : ∀ index c, piece[index]? = some c →
      isBlank c = true ∨ IsComment (front ++ (piece ++ rest)) (front.length + index)) :
    TilesFrom front (piece ++ rest) tokens := by
  obtain ⟨hstands, hlater, hordered, hcovered⟩ := h
  rw [List.append_assoc] at hstands hcovered
  rw [List.length_append] at hlater
  refine ⟨hstands, fun token hmem => Nat.le_of_add_right_le (hlater token hmem), hordered, ?_⟩
  intro place c hplace hc hblank hcomment
  by_cases hread : place < (front ++ piece).length
  · obtain ⟨index, rfl⟩ := Nat.exists_eq_add_of_le hplace
    rw [List.length_append] at hread
    rw [List.getElem?_append_right hplace, Nat.add_sub_cancel_left,
      List.getElem?_append_left (by omega)] at hc
    rcases hpiece index c hc with hblank' | hcomment'
    · rw [hblank] at hblank'
      cases hblank'
    · exact absurd hcomment' hcomment
  · exact hcovered (Nat.le_of_not_lt hread) hc hblank hcomment

theorem cons (h : TilesFrom (front ++ piece) rest tokens)
    (hstands : Stands (front ++ (piece ++ rest)) token) (hoffset : token.offset = front.length)
    (hlength : token.length = piece.length) :
    TilesFrom front (piece ++ rest) (token :: tokens) := by
  have hstop : token.stop = (front ++ piece).length := by
    rw [stop, hoffset, hlength, List.length_append]
  obtain ⟨hothers, hlater, hordered, hcovered⟩ := h
  rw [List.append_assoc] at hothers hcovered
  refine ⟨List.forall_mem_cons.mpr ⟨hstands, hothers⟩, ?_, ?_, ?_⟩
  · refine List.forall_mem_cons.mpr ⟨Nat.le_of_eq hoffset.symm, fun other hmem => ?_⟩
    have hle := hlater other hmem
    rw [List.length_append] at hle
    omega
  · exact List.pairwise_cons.mpr ⟨fun other hmem => hstop ▸ hlater other hmem, hordered⟩
  · intro place c hplace hc hblank hcomment
    by_cases hread : place < (front ++ piece).length
    · exact ⟨token, List.mem_cons_self, hoffset ▸ hplace, hstop ▸ hread⟩
    · obtain ⟨other, hmem, hcovers⟩ := hcovered (Nat.le_of_not_lt hread) hc hblank hcomment
      exact ⟨other, List.mem_cons_of_mem _ hmem, hcovers⟩

end TilesFrom

theorem exists_comment (text : List Char) :
    ∃ body ending, text.take (commentLength text) = body ++ ending ∧ '\n' ∉ body ∧
      (ending = [] ∧ text.drop (commentLength text) = [] ∨ ending = ['\n']) := by
  induction text with
  | nil => exact ⟨[], [], rfl, by simp, .inl ⟨rfl, rfl⟩⟩
  | cons c rest ih =>
      rw [commentLength_cons]
      by_cases hline : c = '\n'
      · rw [if_pos hline, hline]
        exact ⟨[], ['\n'], rfl, by simp, .inr rfl⟩
      · obtain ⟨body, ending, htake, hbody, hending⟩ := ih
        rw [if_neg hline, List.take_succ_cons, List.drop_succ_cons, htake]
        exact ⟨c :: body, ending, rfl, by simp [hbody, Ne.symm hline], hending⟩

theorem isComment_of_le (front back : List Char) {body : List Char} (hbody : '\n' ∉ body)
    {index : Nat} (hindex : index ≤ body.length + 1) :
    IsComment (front ++ (commentMark :: body ++ back)) (front.length + index) := by
  cases index with
  | zero => exact .inr (by simp)
  | succ index =>
      have hopen : '\n' ∉ body.take index := fun hmem => hbody (List.mem_of_mem_take hmem)
      have htake : (front ++ (commentMark :: body ++ back)).take (front.length + (index + 1)) =
          front ++ commentMark :: body.take index := by
        rw [List.take_length_add_append, List.cons_append, List.take_succ_cons,
          List.take_append_of_le_length (Nat.le_of_succ_le_succ hindex)]
      refine .inl ?_
      rw [htake, inComment_iff, commentAfter_append, commentAfter_cons]
      cases commentAfter false front with
      | false => exact commentAfter_true_of_notMem hopen
      | true => exact commentAfter_true_of_notMem hopen

theorem TilesFrom.comment
    (h : TilesFrom (front ++ commentMark :: rest.take (commentLength rest))
      (rest.drop (commentLength rest)) tokens) :
    TilesFrom front (commentMark :: rest) tokens := by
  obtain ⟨body, ending, htake, hbody, hending⟩ := exists_comment rest
  have hshort : ending.length ≤ 1 := by
    rcases hending with ⟨rfl, -⟩ | rfl <;> simp
  have hrest : rest = body ++ (ending ++ rest.drop (commentLength rest)) := by
    rw [← List.append_assoc, ← htake, List.take_append_drop]
  have hskip := h.skip fun index c hc => by
    obtain ⟨hindex, -⟩ := List.getElem?_eq_some_iff.mp hc
    rw [htake, List.length_cons, List.length_append] at hindex
    rw [List.cons_append, List.take_append_drop, hrest]
    exact .inr (isComment_of_le front _ hbody (by omega))
  rwa [List.cons_append, List.take_append_drop] at hskip

theorem commentAfter_comment (houtside : commentAfter false front = false)
    (hrest : rest.drop (commentLength rest) ≠ []) :
    commentAfter false (front ++ commentMark :: rest.take (commentLength rest)) = false := by
  obtain ⟨body, ending, htake, hbody, ⟨-, hdrop⟩ | rfl⟩ := exists_comment rest
  · exact absurd hdrop hrest
  · rw [htake, commentAfter_append, houtside, commentAfter_cons, commentAfter_append]
    exact congrArg (commentAfter · ['\n']) (commentAfter_true_of_notMem hbody)

theorem apart_of_getLast? (hname : isNameChar c = false) :
    ∀ last ∈ (front ++ [c]).getLast?, isNameChar last = true → Apart rest := by
  rw [List.getLast?_concat]
  rintro last ⟨⟩ hlast
  rw [hname] at hlast
  cases hlast

theorem apart_comment (front rest : List Char) :
    ∀ last ∈ (front ++ commentMark :: rest.take (commentLength rest)).getLast?,
      isNameChar last = true → Apart (rest.drop (commentLength rest)) := by
  obtain ⟨body, ending, htake, -, ⟨-, hdrop⟩ | rfl⟩ := exists_comment rest
  · rw [hdrop]
    exact fun _ _ _ => apart_nil
  · have hline : isNameChar '\n' = false := by decide
    rw [htake, ← List.cons_append, ← List.append_assoc]
    exact apart_of_getLast? hline

theorem commentAfter_concat (houtside : commentAfter false front = false)
    (hmark : c ≠ commentMark) : commentAfter false (front ++ [c]) = false := by
  rw [commentAfter_append, houtside]
  exact decide_eq_false hmark

theorem Apart.of_left (hleft : ∀ last ∈ front.getLast?, isNameChar last = true →
    Apart (c :: rest)) (hname : isNameChar c = true) :
    ∀ last ∈ front.getLast?, isNameChar last = false := by
  intro last hlast
  rw [← Bool.not_eq_true]
  intro hword
  have happart := hleft last hlast hword c rfl
  rw [hname] at happart
  cases happart

/-- What is read behind `front` tiles the text, if no comment and no word of `front` goes
on. -/
theorem tilesFrom_streamFrom : ∀ front : List Char, front.length = offset →
    (text ≠ [] → commentAfter false front = false) →
    (∀ last ∈ front.getLast?, isNameChar last = true → Apart text) →
    TilesFrom front text (streamFrom offset ending text).tokens := by
  fun_induction streamFrom offset ending text with
  | case1 offset ending => exact fun front _ _ _ => .nil front
  | case2 offset ending rest stop ih =>
      intro front hfront houtside hleft
      have hlength : commentLength rest ≤ rest.length := Nat.min_le_right _ _
      refine (ih _ ?_ (commentAfter_comment (houtside (by simp)))
        (apart_comment front rest)).comment
      rw [List.length_append, List.length_cons, List.length_take_of_le hlength, hfront]
      omega
  | case3 offset ending c rest hmark hblank ih =>
      intro front hfront houtside hleft
      have hname : isNameChar c = false := by
        rw [← Bool.not_eq_true]
        intro hname
        rw [isBlank_of_isNameChar hname] at hblank
        cases hblank
      have htiles := ih (front ++ [c]) (by simp [hfront])
        (fun _ => commentAfter_concat (houtside (by simp)) hmark) (apart_of_getLast? hname)
      refine TilesFrom.skip htiles fun index d hd => ?_
      obtain ⟨rfl, rfl⟩ : index = 0 ∧ c = d := by simpa [List.getElem?_singleton] using hd
      exact .inl hblank
  | case4 offset ending c rest _ _ hname letters word stop stream ih =>
      intro front hfront houtside hleft
      have houtside := houtside (by simp)
      have hletters : ∀ letter ∈ letters, isNameChar letter = true :=
        fun _ => isNameChar_of_mem_run hname
      have hword : (String.ofList word).utf8ByteSize = letters.length :=
        utf8ByteSize_word hletters
      have htext : c :: rest = letters ++ rest.dropWhile isNameChar := by
        rw [List.cons_append, List.takeWhile_append_dropWhile]
      have happart := apart_dropWhile rest
      have htiles := ih (front ++ letters) (by simp [stop, hfront])
        (fun _ => commentAfter_append_run houtside (commentMark_notMem_run hletters))
        (fun _ _ _ => happart)
      rw [hword, htext, ← hfront]
      refine htiles.cons ?_ rfl rfl
      exact .word (List.append_assoc _ _ _).symm (not_inComment_iff.mpr houtside)
        (List.cons_ne_nil _ _) hletters (Apart.of_left hleft hname) happart
  | case5 offset ending c rest hmark hblank hname stream hsymbol ih =>
      intro front hfront houtside hleft
      have houtside := houtside (by simp)
      have htiles := ih (front ++ [c]) (by simp [hfront])
        (fun _ => commentAfter_concat houtside hmark) (apart_of_getLast? (by simpa using hname))
      rw [← hfront]
      exact TilesFrom.cons htiles (.symbol rfl (not_inComment_iff.mpr houtside) hsymbol) rfl rfl
  | case6 offset ending c rest hmark hblank hname stream hsymbol ih =>
      intro front hfront houtside hleft
      have houtside := houtside (by simp)
      have htiles := ih (front ++ [c]) (by simp [hfront])
        (fun _ => commentAfter_concat houtside hmark) (apart_of_getLast? (by simpa using hname))
      have hstray : IsStray c := ⟨by simpa using hblank, by simpa using hname, hmark, hsymbol⟩
      rw [← hfront]
      exact TilesFrom.cons htiles (.illegal rfl (not_inComment_iff.mpr houtside) hstray) rfl rfl

structure Tiling (text : List Char) (tokens : List Token) : Prop where
  stands : ∀ token ∈ tokens, Stands text token
  inside : ∀ token ∈ tokens, token.offset < token.stop ∧ token.stop ≤ text.length
  /-- Spans lie one behind the other. -/
  ordered : tokens.Pairwise fun first second => first.stop ≤ second.offset
  /-- A character is part of a comment, or a blank outside comments, or in just one span. -/
  covered : ∀ (place : Nat) (c : Char), text[place]? = some c →
    if IsComment text place ∨ isBlank c = true then ∀ token ∈ tokens, ¬token.Covers place
    else ∃! token, token ∈ tokens ∧ token.Covers place

theorem eq_of_covers (hordered : tokens.Pairwise fun first second => first.stop ≤ second.offset)
    {first second : Token} (hfirst : first ∈ tokens) (hsecond : second ∈ tokens)
    (hcovers : first.Covers place) (hcovers' : second.Covers place) : first = second := by
  obtain ⟨index, hindex, rfl⟩ := List.getElem_of_mem hfirst
  obtain ⟨other, hother, rfl⟩ := List.getElem_of_mem hsecond
  have hapart := List.pairwise_iff_getElem.mp hordered
  obtain ⟨hlower, hupper⟩ := hcovers
  obtain ⟨hlower', hupper'⟩ := hcovers'
  rcases Nat.lt_trichotomy index other with hlt | rfl | hlt
  · have hle := hapart index other hindex hother hlt
    omega
  · rfl
  · have hle := hapart other index hother hindex hlt
    omega

theorem tiling_scan (text : List Char) : Tiling text (scan text) := by
  have htiles : TilesFrom [] text (scan text) := by
    have hstream := @tilesFrom_streamFrom 0 0 text [] rfl (fun _ => rfl) nofun
    rwa [streamFrom_eq rfl] at hstream
  have hstands : ∀ token ∈ scan text, Stands text token := htiles.stands
  refine ⟨hstands, fun token hmem => (hstands token hmem).bounds, htiles.ordered, ?_⟩
  intro place c hc
  split
  · rename_i hpassed
    intro token hmem hcovers
    obtain ⟨other, hother, hblank, hcomment⟩ := (hstands token hmem).of_covers hcovers
    obtain rfl : other = c := Option.some.inj (hother.symm.trans hc)
    rcases hpassed with hcomment' | hblank'
    · exact hcomment hcomment'
    · rw [hblank] at hblank'
      cases hblank'
  · rename_i hmeant
    rw [not_or, Bool.not_eq_true] at hmeant
    obtain ⟨token, hmem, hcovers⟩ := htiles.covered (Nat.zero_le _) hc hmeant.2 hmeant.1
    exact ⟨token, ⟨hmem, hcovers⟩, fun other ⟨hother, hcovers'⟩ =>
      eq_of_covers htiles.ordered hother hmem hcovers' hcovers⟩

/-- Reading by comments and words gives the tokens of the text, its illegal tokens in order
as the faults, and its length as the place where it ends.  The tokens tile the text. -/
theorem stream_tiles (text : String) :
    stream text.toList = ⟨scan text.toList, (scan text.toList).filterMap illegality?,
        text.length⟩ ∧
      Tiling text.toList (scan text.toList) := by
  refine ⟨?_, tiling_scan text.toList⟩
  rw [stream, streamFrom_eq rfl, Nat.zero_add, String.length_toList]
  rfl

end Cellular.Token
