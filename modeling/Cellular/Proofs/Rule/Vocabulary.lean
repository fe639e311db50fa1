import Cellular.Config.Automaton
import Cellular.Proofs.Rule.Growth

/-!
# The names that a configuration lets rules use

An accepted configuration admits the length of every name that it declares.  The
name of the free state is not declared, so its length is compared with the limits
only where a rule uses it.  Between states whose names are admitted the two plainest
statements are compiled as they stand, in any letter case; where the limits leave out
the free state's name, every statement that starts with it or leads to it is a fault
there (`compile_named`).
-/

namespace Cellular

open Text

/-! ## Accepted limits -/

namespace AutomatonConfig

variable {config : AutomatonConfig} {name : String}

theorem limits_of_check (h : config.check = .ok ()) :
    0 < config.limits.rulesMax ∧
      ∀ name ∈ config.states.userNames,
        config.limits.admitsLength name.length = true := by
  rw [check] at h
  split at h
  · cases h
  · split at h
    · cases h
    · split at h
      · cases h
      · rename_i hlimits
        split at h
        · cases h
        · rename_i hnames
          constructor
          · rw [Limits.check] at hlimits
            split at hlimits
            · cases hlimits
            · split at hlimits
              · cases hlimits
              · omega
          · rw [refusedName?, List.find?_eq_none] at hnames
            simpa using hnames

theorem admits_of_check (h : config.check = .ok ()) (hname : name ∈ config.states.names)
    (hfree : config.limits.admitsLength freeName.length = true ∨ name ≠ freeName) :
    config.compiler.Admits name := by
  refine ⟨hname, ?_⟩
  rcases List.mem_cons.mp hname with rfl | hdeclared
  · exact hfree.resolve_right fun hne => hne rfl
  · exact (limits_of_check h).2 name hdeclared

end AutomatonConfig

/-! ## Names in any letter case -/

theorem Text.isNameChar_of_toUpper {c : Char} (h : isNameChar c.toUpper = true) :
    isNameChar c = true := by
  rw [isNameChar_iff] at h ⊢
  rw [toNat_toUpper] at h
  split at h <;> omega

theorem length_eq_of_upperCase {spelling name : String} (h : upperCase spelling = name) :
    spelling.toList.length = name.toList.length := by
  rw [← h, upperCase, String.toList_map, List.length_map]

section

variable {spelling name : String}

theorem IsCanonicalName.isNameChar_of_upperCase (hname : IsCanonicalName name)
    (h : upperCase spelling = name) : ∀ c ∈ spelling.toList, isNameChar c = true := by
  intro c hmem
  refine isNameChar_of_toUpper (hname.chars c.toUpper ?_).1
  rw [← h, upperCase, String.toList_map]
  exact List.mem_map_of_mem hmem

theorem IsCanonicalName.ne_nil_of_upperCase (hname : IsCanonicalName name)
    (h : upperCase spelling = name) : spelling.toList ≠ [] := by
  intro hnil
  have hlength := hname.length_ge
  rw [← length_eq_of_upperCase h, hnil] at hlength
  simp [stateCharsMin] at hlength

theorem IsCanonicalName.spells_of_upperCase (hname : IsCanonicalName name)
    (h : upperCase spelling = name) : Spells spelling.toList [.word name.toList] := by
  have hspells := Spells.word (hname.ne_nil_of_upperCase h)
    (hname.isNameChar_of_upperCase h)
  rwa [← String.toList_map, ← upperCase, h] at hspells

end

/-! ## The two statements -/

def besideCondition (source target : String) : Formula Clause :=
  .leaf ⟨.all, .any [.leaf ⟨1, .equal, source⟩, .leaf ⟨1, .equal, target⟩]⟩

/-- The statements that turn one state into another, always or beside one of the
two, with the names in any letter case. -/
inductive Says (source target : String) : String → Option (Formula Clause) → Prop
  | always {first second : String} (hfirst : upperCase first = source)
      (hsecond : upperCase second = target) :
      Says source target (first ++ " / " ++ second ++ " ;") none
  | beside {first second third fourth : String} (hfirst : upperCase first = source)
      (hsecond : upperCase second = target) (hthird : upperCase third = source)
      (hfourth : upperCase fourth = target) :
      Says source target
        (first ++ " / " ++ second ++ " : ( ALL @ = 1#" ++ third ++ " | 1#" ++ fourth ++
          " ) ;")
        (some (besideCondition source target))

variable {source target text : String} {condition : Option (Formula Clause)}
  {compiler : Compiler}

theorem Spells.one {text : List Char} {kinds : List TokenKind}
    (htext : Spells text kinds) (hapart : Token.Apart text) :
    Spells ('1' :: text) (.word ['1'] :: kinds) := by
  have hone : Spells ['1'] [.word ['1']] :=
    Spells.word (by simp) (List.forall_mem_singleton.mpr (by decide))
  exact hone.append htext hapart

/-- A statement is two names about a slash, and the rest of it has the meaning of its
condition for every compiler that admits the names. -/
theorem Says.exists_kinds (h : Says source target text condition)
    (hsource : IsCanonicalName source) (htarget : IsCanonicalName target) :
    ∃ kinds, Spells text.toList
        (.word source.toList :: .symbol '/' :: .word target.toList :: kinds) ∧
      ∀ compiler : Compiler, compiler.Admits source → compiler.Admits target →
        Grammar.Ending compiler kinds condition := by
  cases h with
  | @always first second hfirst hsecond =>
      have hend : Spells " ;".toList [.symbol ';'] :=
        (Spells.nil.symbol (c := ';') (by decide)).space
      have hafter := ((htarget.spells_of_upperCase hsecond).append hend
        (Token.apart_cons (by decide))).spaced (c := '/') (by decide)
      have htext := (hsource.spells_of_upperCase hfirst).append hafter
        (Token.apart_cons (by decide))
      refine ⟨[.symbol ';'], ?_, fun _ _ _ => .always⟩
      simpa using htext
  | @beside first second third fourth hfirst hsecond hthird hfourth =>
      have hall : IsCanonicalName "ALL" :=
        isCanonicalName_of_all (by decide) (by decide) (by decide)
      have hend : Spells " ) ;".toList [.symbol ')', .symbol ';'] :=
        (Spells.nil.symbol (c := ';') (by decide)).spaced (c := ')') (by decide)
      have hlast := (((htarget.spells_of_upperCase hfourth).append hend
        (Token.apart_cons (by decide))).symbol (c := '#') (by decide)).one
        (Token.apart_cons (by decide))
      have hboth := ((((hsource.spells_of_upperCase hthird).append
        (hlast.spaced (c := '|') (by decide)) (Token.apart_cons (by decide))).symbol
        (c := '#') (by decide)).one (Token.apart_cons (by decide)))
      have hequals := (hboth.space.symbol (c := '=') (by decide)).spaced
        (c := '@') (by decide)
      have hopen := (hall.spells.append hequals
        (Token.apart_cons (by decide))).space.symbol (c := '(') (by decide)
      have hafter := ((htarget.spells_of_upperCase hsecond).append
        (hopen.spaced (c := ':') (by decide)) (Token.apart_cons (by decide))).spaced
        (c := '/') (by decide)
      have htext := (hsource.spells_of_upperCase hfirst).append hafter
        (Token.apart_cons (by decide))
      refine ⟨_, by simpa using htext, fun compiler hadmits hadmits' => ?_⟩
      have hone : Grammar.Count [.word ['1']] 1 :=
        .digits (by simp) (List.forall_mem_singleton.mpr (by decide)) (by decide)
      have hterms : Grammar.Terms (Grammar.Condition compiler) _
          (.any [.leaf ⟨1, .equal, source⟩, .leaf ⟨1, .equal, target⟩]) :=
        ⟨[[_], [_]], .more (.last (.mk .none hone hadmits.state)) (.inl rfl)
          (.last (.last (.mk .none hone hadmits'.state))), rfl⟩
      have hclause : Grammar.Terms (Grammar.Clause compiler) _
          (besideCondition source target) :=
        ⟨[[_]], .last (.last (.mk .all .written hterms)), rfl⟩
      exact .conditional hclause

theorem Says.exists_spellings (h : Says source target text condition) :
    ∃ first second rest, upperCase first = source ∧ upperCase second = target ∧
      text.toList = first.toList ++ ' ' :: '/' :: ' ' :: (second.toList ++ ' ' :: rest) := by
  cases h with
  | @always first second hfirst hsecond =>
      exact ⟨first, second, [';'], hfirst, hsecond, by simp⟩
  | @beside first second third fourth hfirst hsecond _ _ =>
      refine ⟨first, second, ": ( ALL @ = 1#".toList ++ third.toList ++
        " | 1#".toList ++ fourth.toList ++ " ) ;".toList, hfirst, hsecond, ?_⟩
      simp

theorem Says.exists_front (h : Says source target text condition)
    (hsource : IsCanonicalName source) (htarget : IsCanonicalName target) :
    ∃ following, Token.scan text.toList =
      ⟨.word source.toList, 0, source.length⟩ :: ⟨.symbol '/', source.length + 1, 1⟩ ::
        ⟨.word target.toList, source.length + 3, target.length⟩ :: following := by
  obtain ⟨first, second, rest, hfirst, hsecond, htext⟩ := h.exists_spellings
  have hletters : ∀ {spelling name : String}, upperCase spelling = name →
      spelling.toList.map Char.toUpper = name.toList := by
    rintro spelling _ rfl
    rw [upperCase, String.toList_map]
  have hwidth : first.toList.length = source.length :=
    (length_eq_of_upperCase hfirst).trans source.length_toList
  have hwidth' : second.toList.length = target.length :=
    (length_eq_of_upperCase hsecond).trans target.length_toList
  refine ⟨Token.scanFrom false (source.length + 3 + target.length) (' ' :: rest), ?_⟩
  rw [Token.scan, htext, Token.scanFrom_word (hsource.ne_nil_of_upperCase hfirst)
      (hsource.isNameChar_of_upperCase hfirst) (Token.apart_cons (by decide)),
    Token.scanFrom_blank (by decide) (by decide), Token.scanFrom_symbol (by decide),
    Token.scanFrom_blank (by decide) (by decide),
    Token.scanFrom_word (htarget.ne_nil_of_upperCase hsecond)
      (htarget.isNameChar_of_upperCase hsecond) (Token.apart_cons (by decide)),
    hletters hfirst, hletters hsecond, hwidth, hwidth', Nat.zero_add]

/-! ## Refused names -/

namespace Compiler

variable {letters : List Char} {offset length ending used : Nat} {rest : List Token}
  {invalid : String → DiagnosticKind}

theorem state_refused (h : compiler.limits.admitsLength letters.length = false) :
    compiler.state invalid ⟨⟨.word letters, offset, length⟩ :: rest, ending, used⟩ =
      .error ⟨offset, invalid (String.ofList letters)⟩ := by
  simp only [state, Cursor.word?, h]
  split <;> rfl

theorem state_admitted {name : String} (h : compiler.Admits name)
    (hfits : used + length ≤ compiler.limits.ruleCharsMax) :
    compiler.state invalid ⟨⟨.word name.toList, offset, length⟩ :: rest, ending, used⟩ =
      .ok (name, ⟨rest, ending, used + length⟩) := by
  refine (reads_state invalid _ _ _).mpr ⟨_, ?_, h.state⟩
  exact ⟨⟨[_], rfl, rfl, by simp⟩, rfl, fun _ => hfits⟩

theorem rule_source_refused (h : compiler.limits.admitsLength letters.length = false) :
    compiler.rule ⟨⟨.word letters, offset, length⟩ :: rest, ending, used⟩ =
      .error ⟨offset, .invalidFirstState (String.ofList letters)⟩ := by
  rw [rule, state_refused h]
  rfl

theorem rule_target_refused {slash : Nat} {others : List Token} {size : Nat}
    (hsource : compiler.Admits source)
    (htarget : compiler.limits.admitsLength letters.length = false)
    (hfits : length + 1 ≤ compiler.limits.ruleCharsMax) :
    compiler.rule ⟨⟨.word source.toList, 0, length⟩ :: ⟨.symbol '/', slash, 1⟩ ::
        ⟨.word letters, offset, size⟩ :: others, ending, 0⟩ =
      .error ⟨offset, .invalidSecondState (String.ofList letters)⟩ := by
  have hslash : Cursor.takeSymbol
      ⟨⟨.symbol '/', slash, 1⟩ :: ⟨.word letters, offset, size⟩ :: others, ending,
        0 + length⟩ compiler.limits '/' .slash =
      .ok ⟨⟨.word letters, offset, size⟩ :: others, ending, 0 + length + 1⟩ := by
    simp [Cursor.takeSymbol, Cursor.atSymbol, Token.isSymbol, Cursor.take,
      Nat.not_lt.mpr hfits]
  rw [rule, state_admitted hsource (by omega)]
  simp only [bind, Except.bind, hslash, state_refused htarget]

end Compiler

/-! ## Compiling the two statements -/

/-- A statement between two states of an accepted configuration, with room for its
characters, is compiled to its rule and nothing else, unless one of the states is the
free one and the limits on names leave its name out.  Then it is a fault where this
name stands. -/
theorem compile_named {config : AutomatonConfig} (hcheck : config.check = .ok ())
    (hsource : source ∈ config.states.names) (htarget : target ∈ config.states.names)
    (hne : source ≠ target) (hsaid : Says source target text condition)
    (hfits : total ((Token.scan text.toList).map Token.length) ≤
      config.limits.ruleCharsMax) :
    (config.limits.admitsLength freeName.length = true ∨
        (source ≠ freeName ∧ target ≠ freeName) →
      config.compiler.compile text = ⟨⟨[.ofParts source target condition 0]⟩, []⟩) ∧
      (config.limits.admitsLength freeName.length = false →
        (source = freeName → config.compiler.compile text =
          ⟨⟨[]⟩, [⟨0, .invalidFirstState freeName⟩]⟩) ∧
        (target = freeName → config.compiler.compile text =
          ⟨⟨[]⟩, [⟨source.length + 3, .invalidSecondState freeName⟩]⟩)) := by
  have hname := StateUniverse.isCanonicalName_of_mem hsource
  have hname' := StateUniverse.isCanonicalName_of_mem htarget
  obtain ⟨kinds, hspells, hending⟩ := hsaid.exists_kinds hname hname'
  obtain ⟨following, hscan⟩ := hsaid.exists_front hname hname'
  have hroom := (AutomatonConfig.limits_of_check hcheck).1
  have hrule : ∀ compiler : Compiler, compiler.Admits source → compiler.Admits target →
      Grammar.Rule compiler
        (.word source.toList :: .symbol '/' :: .word target.toList :: kinds)
        source target condition := fun compiler hadmits hadmits' =>
    .mk hadmits.state hadmits'.state hne (hending compiler hadmits hadmits')
  constructor
  · intro hfree
    have hadmits : config.compiler.Admits source :=
      AutomatonConfig.admits_of_check hcheck hsource (hfree.imp_right (·.1))
    have hadmits' : config.compiler.Admits target :=
      AutomatonConfig.admits_of_check hcheck htarget (hfree.imp_right (·.2))
    rw [hspells.total_length] at hfits
    rw [Compiler.compile_of_spells hspells (hrule _ hadmits hadmits') hfits hroom, hscan]
    rfl
  · intro hfree
    -- Under the standard limits the statement is well-formed all the same.
    have hstatement : IsStatement (Token.scan text.toList) :=
      isStatement_of_rule (hspells.map_kind_scan ▸
        hrule ⟨config.states, config.neighborhood, .standard⟩
          (Compiler.admits_standard _ hsource) (Compiler.admits_standard _ htarget))
    have hfault : ∀ diagnostic,
        config.compiler.rule ⟨Token.scan text.toList, text.toList.length, 0⟩ =
          .error diagnostic →
        config.compiler.compile text = ⟨⟨[]⟩, [diagnostic]⟩ := by
      intro diagnostic hrefused
      have hlegal : (Token.scan text.toList).any Token.isIllegal = false := by
        simpa using hstatement.legal
      rw [Compiler.compile_statement hstatement hroom, Compiler.readStatement, hrefused]
      simp [hlegal]
    rw [hscan] at hfault hfits
    constructor
    · rintro rfl
      refine hfault _ ?_
      rw [Compiler.rule_source_refused (by rwa [String.length_toList]),
        String.ofList_toList]
    · rintro rfl
      have hadmits : config.compiler.Admits source :=
        AutomatonConfig.admits_of_check hcheck hsource (.inr hne)
      have hroom' : source.length + 1 ≤ config.compiler.limits.ruleCharsMax := by
        simp only [List.map_cons, total_cons] at hfits
        exact Nat.le_trans (by omega) hfits
      refine hfault _ ?_
      rw [Compiler.rule_target_refused hadmits (by rwa [String.length_toList]) hroom',
        String.ofList_toList]

/-- Names of at most three characters, so that the free state's has one too many. -/
def shortConfig : AutomatonConfig :=
  ⟨Compiler.wordStates, .moore, 1, 1, "FREE / 3 ;", ⟨1, 3, 1024, 1024⟩⟩

theorem compile_named_words :
    shortConfig.check = .ok () ∧
      shortConfig.compiler.compile "and / 3 : ( ALL @ = 1#And | 1#3 ) ;" =
        ⟨⟨[.ofParts "AND" "3" (some (besideCondition "AND" "3")) 0]⟩, []⟩ := by
  have hcheck : shortConfig.check = .ok () := rfl
  have hsaid : Says "AND" "3" ("and" ++ " / " ++ "3" ++ " : ( ALL @ = 1#" ++ "And" ++
      " | 1#" ++ "3" ++ " ) ;") (some (besideCondition "AND" "3")) :=
    .beside (by decide +kernel) (by decide +kernel) (by decide +kernel) (by decide +kernel)
  refine ⟨hcheck, (compile_named hcheck (by decide) (by decide) (by decide) hsaid
    (by decide +kernel)).1 (.inr (by decide))⟩

/-- The configuration is accepted, and its own text is refused. -/
theorem compile_free_refused :
    shortConfig.check = .ok () ∧ freeName ∈ shortConfig.states.names ∧
      "3" ∈ shortConfig.states.names ∧ Says freeName "3" shortConfig.rules none ∧
      total ((Token.scan shortConfig.rules.toList).map Token.length) ≤
        shortConfig.limits.ruleCharsMax ∧
      shortConfig.compile.table.rules.isEmpty = true ∧
      shortConfig.compile.diagnostics = [⟨0, .invalidFirstState "FREE"⟩] := by
  have hsaid : Says freeName "3" ("FREE" ++ " / " ++ "3" ++ " ;") none :=
    .always (by decide +kernel) (by decide +kernel)
  exact ⟨rfl, by decide, by decide, hsaid, by decide +kernel, by decide +kernel,
    by decide +kernel⟩

end Cellular
