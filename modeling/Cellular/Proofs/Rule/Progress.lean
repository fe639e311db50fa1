import Cellular.Proofs.Rule.Following
import Cellular.Proofs.Rule.Recovery

/-!
# Progress in step with the semicolons

Every round of the reader ends, further on than it began: behind an illegal token where
a statement might start, behind the next semicolon, or at the end of the text.  So all
rounds together end, without a look outside the stream, and have the outcomes of the
statements (`readAll_in_step`).
-/

namespace Cellular

/-- Where the next semicolon stands at or after a place, or the number of the tokens. -/
def semicolonFrom (tokens : List Token) (place : Nat) : Nat :=
  place + (tokens.drop place).findIdx fun token => token.isSymbol ';'

namespace Stream

variable {stream : Stream} {before middle after : Head}

theorem findIdx_eq_length {taken : List Token}
    (hclear : ∀ token ∈ taken, token.kind ≠ .symbol ';') :
    taken.findIdx (fun token => token.isSymbol ';') = taken.length := by
  simpa [Token.isSymbol] using hclear

theorem Closes.place_eq (h : stream.Closes ';' before after) :
    semicolonFrom stream.tokens before.place < stream.tokens.length ∧
      after.place = semicolonFrom stream.tokens before.place + 1 := by
  obtain ⟨taken, last, hdrop, hplace, hlast, hclear⟩ := h.passed
  have hindex : (stream.tokens.drop before.place).findIdx
      (fun token => token.isSymbol ';') = taken.length := by
    rw [hdrop, List.findIdx_append, findIdx_eq_length hclear, if_neg (Nat.lt_irrefl _),
      List.findIdx_cons]
    simp [Token.isSymbol, hlast]
  have hinside := h.inside
  rw [semicolonFrom, hindex]
  omega

theorem Reaches.place_le (h : stream.Reaches before after) :
    after.place ≤ semicolonFrom stream.tokens before.place := by
  obtain ⟨taken, hdrop, hplace, hclear⟩ := h.passed
  rw [semicolonFrom, hdrop, List.findIdx_append, findIdx_eq_length hclear,
    if_neg (Nat.lt_irrefl _)]
  omega

def Skips (stream : Stream) (before after : Head) : Prop :=
  stream.Closes ';' before after ∨
    stream.Reaches before after ∧ after.place = stream.tokens.length

theorem Reaches.skips (h : stream.Reaches before middle)
    (h' : stream.Skips middle after) : stream.Skips before after :=
  h'.imp h.closes fun hend => ⟨h.trans hend.1, hend.2⟩

theorem Skips.inside (h : stream.Skips before after) :
    after.place ≤ stream.tokens.length := by
  rcases h with hcloses | ⟨hreaches, -⟩
  · exact hcloses.inside
  · exact hreaches.inside

theorem Skips.lands (h : stream.Skips before after) :
    (semicolonFrom stream.tokens before.place < stream.tokens.length ∧
      after.place = semicolonFrom stream.tokens before.place + 1) ∨
    after.place = stream.tokens.length :=
  h.imp Closes.place_eq And.right

theorem Skips.exists_statement (h : stream.Skips before after) :
    ∃ statement, stream.tokens.drop before.place =
        statement ++ stream.tokens.drop after.place ∧
      after.place = before.place + statement.length ∧ IsRun statement ∧
      ((∃ token ∈ statement, token.kind = .symbol ';') ∨
        stream.tokens.drop after.place = []) := by
  rcases h with hcloses | ⟨hreaches, hend⟩
  · obtain ⟨taken, last, hdrop, hplace, hlast, hclear⟩ := hcloses.passed
    refine ⟨taken ++ [last], ?_, ?_, .inl ⟨taken, last, rfl, hlast, hclear⟩,
      .inl ⟨last, by simp, hlast⟩⟩
    · rw [hdrop, List.append_assoc, List.singleton_append]
    · rw [hplace, List.length_append, List.length_singleton, Nat.add_assoc]
  · obtain ⟨taken, hdrop, hplace, hclear⟩ := hreaches.passed
    exact ⟨taken, hdrop, hplace, .inr hclear, .inr (by rw [hend, List.drop_length])⟩

end Stream

namespace Compiler

variable {compiler : Compiler} {ending : Nat} {token : Token}
  {rest statement following : List Token}

theorem recover_of_ok (hlegal : token.isIllegal = false) {reading : Reading}
    (hread : compiler.rule ⟨token :: rest, ending, 0⟩ = .ok reading) :
    compiler.recover ending (token :: rest) =
      .rule reading.rule reading.targetOffset ::
        compiler.recover ending reading.rest.rest := by
  rw [recover, if_neg (by simp [hlegal])]
  split
  · rename_i other hother
    obtain rfl := Except.ok.inj (hread.symm.trans hother)
    rfl
  · rename_i other hother
    cases hread.symm.trans hother

theorem recover_of_error (hlegal : token.isIllegal = false) {diagnostic : Diagnostic}
    (hread : compiler.rule ⟨token :: rest, ending, 0⟩ = .error diagnostic)
    (htokens : token :: rest = statement ++ following) (hrun : IsRun statement)
    (h : (∃ token ∈ statement, token.kind = .symbol ';') ∨ following = []) :
    compiler.recover ending (token :: rest) =
      (if statement.any Token.isIllegal then .tainted else .fault diagnostic) ::
        compiler.recover ending following := by
  obtain ⟨htaint, hdrop⟩ := IsRun.skipped hrun h
  rw [← htokens] at htaint hdrop
  rw [List.drop_succ_cons] at hdrop
  rw [recover, if_neg (by simp [hlegal])]
  split
  · rename_i other hother
    cases hread.symm.trans hother
  · rename_i other hother
    obtain rfl := Except.error.inj (hread.symm.trans hother)
    simp only [htaint, hdrop]

end Compiler

namespace Walker

variable {walker : Walker} {stream : Stream} {head : Head}

/-! ## Skipping a statement -/

theorem run_resync (hover : walker.Over stream) {rounds : Nat}
    (h : head.place ≤ stream.tokens.length)
    (hrounds : (stream.cursor head).rest.length < rounds) :
    ∃ after, (walker.resync rounds).run head = some (.ok (), after) ∧
      stream.Skips head after := by
  induction rounds generalizing head with
  | zero => omega
  | succ rounds ih =>
      cases hrest : stream.tokens.drop head.place with
      | nil =>
          rw [List.drop_eq_nil_iff] at hrest
          refine ⟨head, ?_, .inr ⟨.refl h, Nat.le_antisymm h hrest⟩⟩
          rw [resync, hover.peek_bind h, Stream.entry_eq_ending hrest]
          rfl
      | cons token rest =>
          obtain ⟨hinside, htail⟩ := Stream.drop_next hrest
          have hround : (walker.resync (rounds + 1)).run head =
              (if token.isSymbol ';' then pure () else walker.resync rounds).run
                ⟨head.place + 1, head.used⟩ := by
            rw [resync, hover.peek_bind h, Stream.entry_eq_token hrest]
            rfl
          rw [hround]
          by_cases hsemicolon : token.isSymbol ';' = true
          · rw [if_pos hsemicolon]
            exact ⟨_, rfl, .inl (.next hrest rfl (Token.isSymbol_iff.mp hsemicolon))⟩
          · rw [if_neg hsemicolon]
            have hfewer : (stream.cursor ⟨head.place + 1, head.used⟩).rest.length <
                rounds := by
              simp only [Stream.cursor, hrest, htail, List.length_cons] at hrounds ⊢
              omega
            have hnext : (Head.mk (head.place + 1) head.used).place ≤
                stream.tokens.length := hinside
            obtain ⟨after, hrun, hskips⟩ := ih hnext hfewer
            exact ⟨after, hrun, Stream.Reaches.skips
              (.next hrest rfl (mt Token.isSymbol_iff.mpr hsemicolon)) hskips⟩

theorem run_passed (hover : walker.Over stream) {start : Nat} {statement : List Token}
    (h : head.place ≤ stream.tokens.length)
    (hdrop : stream.tokens.drop start =
      statement ++ stream.tokens.drop head.place)
    (hplace : head.place = start + statement.length) :
    (walker.passed start).run head = some (.ok (statement.map .token), head) := by
  have hentries : (walker.entries.take head.place).drop start =
      statement.map .token := by
    rw [hover.entries, Stream.entries, List.take_append_of_le_length (by simpa using h),
      ← List.map_take, ← List.map_drop, List.drop_take, hdrop, hplace,
      Nat.add_sub_cancel_left, List.take_left]
  have hbounds : start ≤ head.place ∧ head.place ≤ walker.entries.length := by
    rw [hover.entries, Stream.entries, List.length_append, List.length_map]
    omega
  simp only [passed, if_pos hbounds, hentries]

/-! ## Rounds -/

def Lands (tokens : List Token) (before after : Head) : Prop :=
  (∃ token, tokens[before.place]? = some token ∧ token.isIllegal = true ∧
    after.place = before.place + 1) ∨
  (semicolonFrom tokens before.place < tokens.length ∧
    after.place = semicolonFrom tokens before.place + 1) ∨
  after.place = tokens.length

theorem Lands.lt {tokens : List Token} {before after : Head} (h : Lands tokens before after)
    (hbefore : before.place < tokens.length) : before.place < after.place := by
  rcases h with ⟨-, -, -, hplace⟩ | ⟨-, hplace⟩ | hplace
  · omega
  · unfold semicolonFrom at hplace
    omega
  · omega

theorem run_turn_illegal (hover : walker.Over stream) {token : Token} {rest : List Token}
    (hrest : stream.tokens.drop head.place = token :: rest)
    (hillegal : token.isIllegal = true) :
    walker.turn.run head = some (.ok none, ⟨head.place + 1, head.used⟩) := by
  rw [turn, hover.peek_bind (Nat.le_of_lt (Stream.drop_next hrest).1),
    Stream.entry_eq_token hrest]
  change Walk.run (if token.isIllegal then _ else _) head = _
  rw [if_pos hillegal]
  rfl

/-- What a round makes of a rule, and of a fault and what it leaves. -/
def settle (walker : Walker) (start : Nat) : Except Diagnostic (Rule × Nat) →
    Walk (Option Outcome)
  | .ok (rule, targetOffset) => pure (some (.rule rule targetOffset))
  | .error diagnostic => do
      walker.resync walker.budget
      let entries ← walker.passed start
      pure (some (if entries.any Entry.isIllegal then .tainted else .fault diagnostic))

theorem run_turn_legal (hover : walker.Over stream) {token : Token} {rest : List Token}
    (hrest : stream.tokens.drop head.place = token :: rest)
    (hlegal : token.isIllegal = false) :
    walker.turn.run head =
      (walker.rule.attempt >>= walker.settle head.place).run ⟨head.place, 0⟩ := by
  rw [turn, hover.peek_bind (Nat.le_of_lt (Stream.drop_next hrest).1),
    Stream.entry_eq_token hrest]
  change Walk.run (if token.isIllegal then _ else _) head = _
  rw [if_neg (by simp [hlegal])]
  rfl

theorem exists_run_turn (hover : walker.Over stream)
    (h : head.place < stream.tokens.length) :
    ∃ outcome? after, walker.turn.run head = some (.ok outcome?, after) ∧
      Lands stream.tokens head after ∧ after.place ≤ stream.tokens.length ∧
      walker.compiler.recover stream.ending (stream.tokens.drop head.place) =
        outcome?.toList ++
          walker.compiler.recover stream.ending (stream.tokens.drop after.place) := by
  obtain ⟨token, rest, hrest⟩ := Stream.exists_rest h
  have htail := (Stream.drop_next hrest).2
  cases hlegal : token.isIllegal with
  | true =>
      refine ⟨none, _, run_turn_illegal hover hrest hlegal, ?_, h, ?_⟩
      · have hget : stream.tokens[head.place]? = some token := by
          rw [← List.head?_drop, hrest, List.head?_cons]
        exact .inl ⟨token, hget, hlegal, rfl⟩
      · rw [hrest, Compiler.recover, if_pos hlegal, htail]
        rfl
  | false =>
      let start : Head := ⟨head.place, 0⟩
      have hinside : start.place ≤ stream.tokens.length := Nat.le_of_lt h
      have hcursor : stream.cursor start = ⟨token :: rest, stream.ending, 0⟩ := by
        simp [Stream.cursor, start, hrest]
      have hfollows := Compiler.follows_rule hover hinside
      rw [hcursor] at hfollows
      rw [run_turn_legal hover hrest hlegal, Walk.run_attempt_bind, hrest]
      generalize walker.rule.run ⟨head.place, 0⟩ = walked at hfollows
      cases hread : walker.compiler.rule ⟨token :: rest, stream.ending, 0⟩ with
      | ok reading =>
          rw [hread] at hfollows
          cases hfollows with
          | @ok read after hcloses =>
              refine ⟨some (.rule read.1 read.2), after, rfl, .inr (.inl hcloses.place_eq),
                hcloses.inside, ?_⟩
              rw [Compiler.recover_of_ok hlegal hread]
              rfl
      | error diagnostic =>
          rw [hread] at hfollows
          cases hfollows with
          | @error _ stuck hreaches =>
              obtain ⟨after, hresync, hskips⟩ :=
                run_resync hover hreaches.inside (hover.length_lt stuck)
              have hstart := hreaches.skips hskips
              obtain ⟨statement, hdrop, hplace, hrun, hend⟩ := hstart.exists_statement
              have hpassed := run_passed hover hstart.inside hdrop hplace
              have htokens : token :: rest =
                  statement ++ stream.tokens.drop after.place := hrest.symm.trans hdrop
              have hillegal : (statement.map Entry.token).any Entry.isIllegal =
                  statement.any Token.isIllegal := List.any_map
              refine ⟨some (if statement.any Token.isIllegal then .tainted
                else .fault diagnostic), after, ?_, .inr hstart.lands, hstart.inside, ?_⟩
              · rw [← hillegal]
                simp only [settle, Walk.run_bind, hresync]
                rw [hpassed]
                rfl
              · rw [Compiler.recover_of_error hlegal hread htokens hrun hend]
                rfl

/-- All rounds together end at the end of the text, with the outcomes of the
statements. -/
theorem exists_run_rounds (hover : walker.Over stream) {rounds : Nat}
    (h : head.place ≤ stream.tokens.length)
    (hrounds : (stream.cursor head).rest.length < rounds) :
    ∃ after, (walker.rounds rounds).run head =
        some (.ok (walker.compiler.recover stream.ending
          (stream.tokens.drop head.place)), after) ∧
      after.place = stream.tokens.length := by
  induction rounds generalizing head with
  | zero => omega
  | succ rounds ih =>
      rw [Walker.rounds, hover.peek_bind h]
      rcases Nat.lt_or_ge head.place stream.tokens.length with hinside | hend
      · obtain ⟨outcome?, middle, hturn, hlands, hmiddle, hrecover⟩ :=
          exists_run_turn hover hinside
        have hlt := hlands.lt hinside
        have hfewer : (stream.cursor middle).rest.length < rounds := by
          simp only [Stream.cursor, List.length_drop] at hrounds ⊢
          omega
        obtain ⟨after, hrun, hafter⟩ := ih hmiddle hfewer
        refine ⟨after, ?_, hafter⟩
        rw [if_neg (by simp [Stream.isEnding_entry hinside]), Walk.run_bind, hturn]
        simp only [Walk.run_bind, hrun, hrecover]
        rfl
      · refine ⟨head, ?_, Nat.le_antisymm h hend⟩
        rw [Stream.entry_eq_ending hend, List.drop_eq_nil_iff.mpr hend, Compiler.recover]
        rfl

end Walker

/-- Whatever the tokens, reading the whole stream has a result, which is that of its
statements, and ends at the end of the text.  A rule is read without moving beyond the
next semicolon, and moves just behind it if it succeeds.  Every round has a result as
well, and moves on. -/
theorem Compiler.readAll_in_step (compiler : Compiler) (stream : Stream) (budget : Nat)
    (hbudget : stream.tokens.length < budget) :
    let walker : Walker := ⟨compiler, stream.entries, budget⟩
    (∃ outcomes after, walker.readAll.run ⟨0, 0⟩ = some (.ok outcomes, after) ∧
      after.place = stream.tokens.length ∧
      collect [] outcomes = compiler.readTokens stream.ending stream.tokens) ∧
    (∀ head : Head, head.place ≤ stream.tokens.length →
      ∃ result after, walker.rule.run head = some (result, after) ∧
        compiler.rule (stream.cursor head) =
          result.map (fun read => ⟨read.1, read.2, stream.cursor after⟩) ∧
        after.place ≤ stream.tokens.length ∧
        after.place ≤ semicolonFrom stream.tokens head.place + 1 ∧
        (result.isOk = true →
          semicolonFrom stream.tokens head.place < stream.tokens.length ∧
            after.place = semicolonFrom stream.tokens head.place + 1)) ∧
    ∀ head : Head, head.place < stream.tokens.length →
      ∃ outcome? after, walker.turn.run head = some (.ok outcome?, after) ∧
        head.place < after.place ∧ after.place ≤ stream.tokens.length ∧
        Walker.Lands stream.tokens head after := by
  intro walker
  have hover : walker.Over stream := ⟨rfl, hbudget⟩
  refine ⟨?all, fun head h => ?rule, fun head h => ?round⟩
  case all =>
    let start : Head := ⟨0, 0⟩
    have hinside : start.place ≤ stream.tokens.length := Nat.zero_le _
    obtain ⟨after, hrun, hafter⟩ :=
      Walker.exists_run_rounds hover hinside (hover.length_lt start)
    refine ⟨_, after, hrun, hafter, ?_⟩
    rw [List.drop_zero, recover_eq_outcomes]
    rfl
  case rule =>
    have hfollows := follows_rule hover h
    generalize hwalked : walker.rule.run head = walked at hfollows
    generalize hread : compiler.rule (stream.cursor head) = parsed
    change Follows _ _ _ _ _ (compiler.rule (stream.cursor head)) at hfollows
    rw [hread] at hfollows
    cases hfollows with
    | @error diagnostic after hreaches =>
        exact ⟨_, after, rfl, rfl, hreaches.inside, Nat.le_succ_of_le hreaches.place_le,
          nofun⟩
    | @ok read after hcloses =>
        have hplace := hcloses.place_eq
        exact ⟨_, after, rfl, rfl, hcloses.inside, hplace.2.le, fun _ => hplace⟩
  case round =>
    obtain ⟨outcome?, after, hturn, hlands, hinside, -⟩ := Walker.exists_run_turn hover h
    exact ⟨outcome?, after, hturn, hlands.lt h, hinside, hlands⟩

def brokenStream : Stream :=
  ⟨Token.scan "and ; $ and / 3 ;".toList, 17, 0⟩

theorem Compiler.readAll_in_step_broken :
    brokenStream.tokens.length < 8 ∧
      (∃ outcomes after,
        (Walker.mk ⟨wordStates, .moore, .standard⟩ brokenStream.entries 8).readAll.run
          ⟨0, 0⟩ = some (.ok outcomes, after) ∧ after.place = 7) ∧
      semicolonFrom brokenStream.tokens 0 = 1 := by
  have hlength : brokenStream.tokens.length = 7 := by decide
  have hbudget : brokenStream.tokens.length < 8 := by omega
  obtain ⟨⟨outcomes, after, hrun, hafter, -⟩, -⟩ :=
    readAll_in_step ⟨wordStates, .moore, .standard⟩ brokenStream 8 hbudget
  exact ⟨hbudget, ⟨outcomes, after, hrun, hafter.trans hlength⟩, by decide⟩

end Cellular
