import Cellular.Proofs.Rule.Locality
import Cellular.Proofs.Rule.Walking

/-!
# Walking as reading

A walk over a stream that ends with the end of its text follows the production on the
tokens from its place on: it has a result, the same one, and stands in front of the
tokens that the production leaves (`Follows`).  It passes over no semicolon but one that
closes a list, so after a fault it stands no further than in front of the next semicolon.
-/

namespace Cellular

/-- Tokens, where their text ends, and how many characters the end is charged with. -/
structure Stream where
  tokens : List Token
  ending : Nat
  charge : Nat

namespace Stream

variable {stream : Stream} {before middle after : Head}

def entries (stream : Stream) : List Entry :=
  stream.tokens.map .token ++ [.ending stream.ending stream.charge]

def cursor (stream : Stream) (head : Head) : Cursor :=
  ⟨stream.tokens.drop head.place, stream.ending, head.used⟩

def entry (stream : Stream) (head : Head) : Entry :=
  match stream.tokens.drop head.place with
  | [] => .ending stream.ending stream.charge
  | token :: _ => .token token

/-- The head has moved over some tokens, and no semicolon is one of them. -/
structure Reaches (stream : Stream) (before after : Head) : Prop where
  inside : after.place ≤ stream.tokens.length
  passed : ∃ taken, stream.tokens.drop before.place =
      taken ++ stream.tokens.drop after.place ∧
    after.place = before.place + taken.length ∧
    ∀ token ∈ taken, token.kind ≠ .symbol ';'

theorem drop_next {token : Token} {rest : List Token}
    (hrest : stream.tokens.drop before.place = token :: rest) :
    before.place < stream.tokens.length ∧
      stream.tokens.drop (before.place + 1) = rest := by
  have hlength := congrArg List.length hrest
  have htail := congrArg List.tail hrest
  simp only [List.length_drop, List.length_cons] at hlength
  rw [List.tail_drop, List.tail_cons] at htail
  exact ⟨by omega, htail⟩

theorem Reaches.next {token : Token} {rest : List Token}
    (hrest : stream.tokens.drop before.place = token :: rest)
    (hplace : after.place = before.place + 1) (hne : token.kind ≠ .symbol ';') :
    stream.Reaches before after := by
  obtain ⟨hinside, htail⟩ := drop_next hrest
  exact ⟨by omega, [token], by rw [hrest, hplace, htail, List.singleton_append], hplace,
    List.forall_mem_singleton.mpr hne⟩

theorem Reaches.refl (h : before.place ≤ stream.tokens.length) :
    stream.Reaches before before :=
  ⟨h, [], rfl, rfl, nofun⟩

theorem Reaches.trans (h : stream.Reaches before middle)
    (h' : stream.Reaches middle after) : stream.Reaches before after := by
  obtain ⟨taken, hdrop, hplace, hclear⟩ := h.passed
  obtain ⟨taken', hdrop', hplace', hclear'⟩ := h'.passed
  refine ⟨h'.inside, taken ++ taken', ?_, ?_, List.forall_mem_append.mpr ⟨hclear, hclear'⟩⟩
  · rw [hdrop, hdrop', List.append_assoc]
  · rw [hplace', hplace, List.length_append, Nat.add_assoc]

theorem Reaches.length_le (h : stream.Reaches before after) :
    (stream.cursor after).rest.length ≤ (stream.cursor before).rest.length := by
  obtain ⟨taken, hdrop, -⟩ := h.passed
  simp [cursor, hdrop]

/-- The head has moved behind the closing symbol, which is the only semicolon passed
over if it is one. -/
structure Closes (stream : Stream) (closing : Char) (before after : Head) : Prop where
  inside : after.place ≤ stream.tokens.length
  passed : ∃ taken last, stream.tokens.drop before.place =
      taken ++ last :: stream.tokens.drop after.place ∧
    after.place = before.place + taken.length + 1 ∧
    last.kind = .symbol closing ∧ ∀ token ∈ taken, token.kind ≠ .symbol ';'

theorem Closes.next {closing : Char} {token : Token} {rest : List Token}
    (hrest : stream.tokens.drop before.place = token :: rest)
    (hplace : after.place = before.place + 1) (hlast : token.kind = .symbol closing) :
    stream.Closes closing before after := by
  obtain ⟨hinside, htail⟩ := drop_next hrest
  exact ⟨by omega, [], token, by rw [hrest, hplace, htail, List.nil_append], hplace, hlast,
    nofun⟩

theorem Reaches.closes {closing : Char} (h : stream.Reaches before middle)
    (h' : stream.Closes closing middle after) : stream.Closes closing before after := by
  obtain ⟨taken, hdrop, hplace, hclear⟩ := h.passed
  obtain ⟨taken', last, hdrop', hplace', hlast, hclear'⟩ := h'.passed
  refine ⟨h'.inside, taken ++ taken', last, ?_, ?_, hlast,
    List.forall_mem_append.mpr ⟨hclear, hclear'⟩⟩
  · rw [hdrop, hdrop', List.append_assoc]
  · rw [hplace', hplace, List.length_append]
    omega

theorem Closes.reaches {closing : Char} (h : stream.Closes closing before after)
    (hne : closing ≠ ';') : stream.Reaches before after := by
  obtain ⟨taken, last, hdrop, hplace, hlast, hclear⟩ := h.passed
  refine ⟨h.inside, taken ++ [last], ?_, ?_, ?_⟩
  · rw [hdrop, List.append_assoc, List.singleton_append]
  · rw [hplace, List.length_append, List.length_singleton, Nat.add_assoc]
  · rw [List.forall_mem_append, List.forall_mem_singleton, hlast]
    exact ⟨hclear, by simpa using hne⟩

/-! ## The entry at the head -/

variable {head : Head}

theorem exists_rest (h : head.place < stream.tokens.length) :
    ∃ token rest, stream.tokens.drop head.place = token :: rest :=
  List.exists_cons_of_ne_nil (by simpa using h)

theorem entry_eq_token {token : Token} {rest : List Token}
    (hrest : stream.tokens.drop head.place = token :: rest) :
    stream.entry head = .token token := by
  simp [entry, hrest]

theorem isEnding_entry (h : head.place < stream.tokens.length) :
    (stream.entry head).isEnding = false := by
  obtain ⟨token, rest, hrest⟩ := exists_rest h
  rw [entry_eq_token hrest, Entry.isEnding]

theorem entry_eq_ending (h : stream.tokens.length ≤ head.place) :
    stream.entry head = .ending stream.ending stream.charge := by
  simp [entry, List.drop_eq_nil_iff.mpr h]

theorem entries_getElem? (h : head.place ≤ stream.tokens.length) :
    stream.entries[head.place]? = some (stream.entry head) := by
  unfold entries entry
  split
  · rename_i hnil
    rw [List.drop_eq_nil_iff] at hnil
    have hplace : head.place = stream.tokens.length := by omega
    simp [hplace]
  · rename_i token rest hrest
    have hget : stream.tokens[head.place]? = some token := by
      rw [← List.head?_drop, hrest, List.head?_cons]
    obtain ⟨hlt, -⟩ := List.getElem?_eq_some_iff.mp hget
    rw [List.getElem?_append_left (by simpa using hlt), List.getElem?_map, hget]
    rfl

theorem exists_token_of_kind? {kind : TokenKind}
    (h : (stream.cursor head).kind? = some kind) :
    ∃ token rest, stream.tokens.drop head.place = token :: rest ∧ token.kind = kind := by
  obtain ⟨token, hhead, hkind⟩ := Option.map_eq_some_iff.mp h
  obtain ⟨rest, hrest⟩ := List.head?_eq_some_iff.mp hhead
  exact ⟨token, rest, hrest, hkind⟩

theorem exists_kind_of_connective? {cursor : Cursor} {connective : Connective}
    (h : cursor.connective? = some connective) :
    ∃ kind, cursor.kind? = some kind ∧ kind ≠ .symbol ';' := by
  have hmark : ∀ {character : Char} {word : String}, character ≠ ';' →
      (cursor.atSymbol character || cursor.atWord word) = true →
        ∃ kind, cursor.kind? = some kind ∧ kind ≠ .symbol ';' := by
    intro character word hne hmark
    rcases Bool.or_eq_true_iff.mp hmark with hsymbol | hword
    · exact ⟨_, Cursor.atSymbol_iff.mp hsymbol, by simpa using hne⟩
    · exact ⟨_, Cursor.atWord_iff.mp hword, by simp⟩
  unfold Cursor.connective? at h
  split at h
  · rename_i hand
    exact hmark (by decide) hand
  · split at h
    · rename_i hor
      exact hmark (by decide) hor
    · cases h

@[simp] theorem isSymbol_entry (character : Char) :
    (stream.entry head).isSymbol character =
      (stream.cursor head).atSymbol character := by
  unfold entry cursor Cursor.atSymbol
  cases stream.tokens.drop head.place <;> rfl

@[simp] theorem isWord_entry (word : String) :
    (stream.entry head).isWord word = (stream.cursor head).atWord word := by
  unfold entry cursor Cursor.atWord
  cases stream.tokens.drop head.place <;> rfl

@[simp] theorem word?_entry :
    (stream.entry head).word? = (stream.cursor head).word? := by
  unfold entry cursor Cursor.word?
  match stream.tokens.drop head.place with
  | [] => rfl
  | ⟨.word _, _, _⟩ :: _ => rfl
  | ⟨.symbol _, _, _⟩ :: _ => rfl
  | ⟨.illegal _, _, _⟩ :: _ => rfl

@[simp] theorem offset_entry :
    (stream.entry head).offset = (stream.cursor head).offset := by
  unfold entry cursor Cursor.offset
  cases stream.tokens.drop head.place <;> rfl

@[simp] theorem text_entry : (stream.entry head).text = (stream.cursor head).text := by
  unfold entry cursor Cursor.text
  cases stream.tokens.drop head.place <;> rfl

@[simp] theorem connective?_entry :
    (stream.entry head).connective? = (stream.cursor head).connective? := by
  simp [Entry.connective?, Cursor.connective?]

end Stream

namespace Walker

/-- The walker reads the stream, and its budget covers the tokens and the end. -/
structure Over (walker : Walker) (stream : Stream) : Prop where
  entries : walker.entries = stream.entries
  budget : stream.tokens.length < walker.budget

variable {walker : Walker} {stream : Stream} {head : Head}

theorem Over.length_lt (hover : walker.Over stream) (head : Head) :
    (stream.cursor head).rest.length < walker.budget := by
  have hbudget := hover.budget
  simp only [Stream.cursor, List.length_drop]
  omega

theorem Over.peek_eq (hover : walker.Over stream)
    (h : head.place ≤ stream.tokens.length) :
    walker.peek.run head = some (.ok (stream.entry head), head) := by
  have hplace : min head.place (stream.entries.length - 1) = head.place := by
    simp [Stream.entries, h]
  simp only [peek, hover.entries, hplace, Stream.entries_getElem? h]
  rfl

theorem Over.peek_bind {β : Type} (hover : walker.Over stream)
    (h : head.place ≤ stream.tokens.length) (next : Entry → Walk β) :
    (walker.peek >>= next).run head = (next (stream.entry head)).run head := by
  rw [Walk.run_bind, hover.peek_eq h]

end Walker

/-! ## Following a production -/

/-- The walk has the result of the production, and stands in front of what it leaves. -/
inductive Follows (stream : Stream) (start : Head) {α ρ : Type} (ends : Head → Prop)
    (shape : α → Cursor → ρ) :
    Option (Except Diagnostic α × Head) → Except Diagnostic ρ → Prop
  | error {diagnostic : Diagnostic} {head : Head} (h : stream.Reaches start head) :
      Follows stream start ends shape (some (.error diagnostic, head)) (.error diagnostic)
  | ok {value : α} {head : Head} (h : ends head) :
      Follows stream start ends shape (some (.ok value, head))
        (.ok (shape value (stream.cursor head)))

abbrev Keeps (stream : Stream) (start : Head) {α : Type}
    (walked : Option (Except Diagnostic α × Head))
    (parsed : Except Diagnostic (α × Cursor)) : Prop :=
  Follows stream start (stream.Reaches start) Prod.mk walked parsed

namespace Follows

variable {stream : Stream} {start middle head : Head} {α β ρ σ : Type}
  {ends ends' : Head → Prop} {shape : α → Cursor → ρ} {shape' : β → Cursor → σ}
  {walker : Walker}

theorem mono {walked : Option (Except Diagnostic α × Head)}
    {parsed : Except Diagnostic ρ} (h : Follows stream middle ends' shape walked parsed)
    (hahead : stream.Reaches start middle) (hends : ∀ head, ends' head → ends head) :
    Follows stream start ends shape walked parsed := by
  cases h with
  | error h => exact .error (hahead.trans h)
  | ok h => exact .ok (hends _ h)

theorem andThen {walk : Walk α} {next : α → Walk β} {parsed : Except Diagnostic ρ}
    {parse : ρ → Except Diagnostic σ} (hahead : stream.Reaches start middle)
    (h : Follows stream middle ends' shape (walk.run middle) parsed)
    (hnext : ∀ value head, ends' head →
      Follows stream start ends shape' ((next value).run head)
        (parse (shape value (stream.cursor head)))) :
    Follows stream start ends shape' ((walk >>= next).run middle) (parsed >>= parse) := by
  rw [Walk.run_bind]
  generalize walk.run middle = walked at h
  cases h with
  | error h => exact .error (hahead.trans h)
  | ok h => exact hnext _ _ h

theorem bind {walk : Walk α} {next : α → Walk β} {parsed : Except Diagnostic ρ}
    {parse : ρ → Except Diagnostic σ} (hahead : stream.Reaches start middle)
    (h : Follows stream middle (stream.Reaches middle) shape (walk.run middle) parsed)
    (hnext : ∀ value head, stream.Reaches start head →
      Follows stream start ends shape' ((next value).run head)
        (parse (shape value (stream.cursor head)))) :
    Follows stream start ends shape' ((walk >>= next).run middle) (parsed >>= parse) :=
  h.andThen hahead fun value head hhead => hnext value head (hahead.trans hhead)

theorem fault (hahead : stream.Reaches start middle) (kind : DiagnosticKind) :
    Follows stream start ends shape
      ((Walk.fault ⟨(stream.entry head).offset, kind⟩).run middle)
      ((stream.cursor head).fault kind) := by
  rw [Stream.offset_entry]
  exact .error hahead

theorem unexpected (hover : walker.Over stream) (hahead : stream.Reaches start middle)
    (what : Expected) :
    Follows stream start ends shape
      ((walker.unexpected what).run middle)
      ((stream.cursor middle).unexpected what) := by
  rw [Walker.unexpected, hover.peek_bind hahead.inside]
  exact .fault hahead _

/-! ## Taking entries -/

theorem take_eq (hover : walker.Over stream) {token : Token} {rest : List Token}
    (hrest : stream.tokens.drop middle.place = token :: rest) :
    walker.take.run middle =
      if walker.compiler.limits.ruleCharsMax < middle.used + token.length then
        some (.error ⟨token.offset, .sizeLimitExceeded⟩, middle)
      else some (.ok (), ⟨middle.place + 1, middle.used + token.length⟩) := by
  have hinside := Nat.le_of_lt (Stream.drop_next hrest).1
  rw [Walker.take, hover.peek_bind hinside, Stream.entry_eq_token hrest]
  exact apply_ite (fun walk : Walk Unit => walk.run middle)
    (walker.compiler.limits.ruleCharsMax < middle.used + token.length)
    (.fault ⟨token.offset, .sizeLimitExceeded⟩)
    (.moveTo ⟨middle.place + 1, middle.used + token.length⟩)

theorem take_token (hover : walker.Over stream) {token : Token} {rest : List Token}
    (hrest : stream.tokens.drop middle.place = token :: rest) :
    Follows stream middle (fun head => head.place = middle.place + 1)
      (fun _ cursor => cursor) (walker.take.run middle)
      ((stream.cursor middle).take walker.compiler.limits) := by
  obtain ⟨hinside, htail⟩ := Stream.drop_next hrest
  simp only [take_eq hover hrest, Stream.cursor, hrest, Cursor.take]
  split
  · exact .error (.refl (Nat.le_of_lt hinside))
  · have hcursor : stream.cursor ⟨middle.place + 1, middle.used + token.length⟩ =
        ⟨rest, stream.ending, middle.used + token.length⟩ := by
      rw [Stream.cursor, htail]
    rw [← hcursor]
    exact .ok rfl

theorem take_other (hover : walker.Over stream) {kind : TokenKind}
    (hkind : (stream.cursor middle).kind? = some kind)
    (hne : kind ≠ .symbol ';') :
    Follows stream middle (fun head => stream.Reaches middle head ∧
        (stream.cursor head).rest.length < (stream.cursor middle).rest.length)
      (fun _ cursor => cursor) (walker.take.run middle)
      ((stream.cursor middle).take walker.compiler.limits) := by
  obtain ⟨token, rest, hrest, rfl⟩ := Stream.exists_token_of_kind? hkind
  obtain ⟨hinside, htail⟩ := Stream.drop_next hrest
  refine (take_token hover hrest).mono (.refl (Nat.le_of_lt hinside)) fun head hplace => ?_
  refine ⟨.next hrest hplace hne, ?_⟩
  simp [Stream.cursor, hplace, hrest, htail]

theorem take (hover : walker.Over stream) {next : Unit → Walk β}
    {parse : Cursor → Except Diagnostic σ} (hahead : stream.Reaches start middle)
    {kind : TokenKind} (hkind : (stream.cursor middle).kind? = some kind)
    (hne : kind ≠ .symbol ';')
    (hnext : ∀ head, stream.Reaches start head →
      (stream.cursor head).rest.length < (stream.cursor middle).rest.length →
      Follows stream start ends shape' ((next ()).run head) (parse (stream.cursor head))) :
    Follows stream start ends shape'
      ((walker.take >>= next).run middle)
      ((stream.cursor middle).take walker.compiler.limits >>= parse) :=
  (take_other hover hkind hne).andThen hahead fun _ head hhead =>
    hnext head (hahead.trans hhead.1) hhead.2

theorem takeSymbol (hover : walker.Over stream) (h : head.place ≤ stream.tokens.length)
    {character : Char} (hne : character ≠ ';') (what : Expected) :
    Follows stream head (stream.Reaches head) (fun _ cursor => cursor)
      ((walker.takeSymbol character what).run head)
      ((stream.cursor head).takeSymbol walker.compiler.limits character what) := by
  rw [Walker.takeSymbol, hover.peek_bind h, Cursor.takeSymbol, Stream.isSymbol_entry]
  split
  · rename_i hat
    exact (take_other hover (Cursor.atSymbol_iff.mp hat) (by simpa using hne)).mono (.refl h)
      fun _ hhead => hhead.1
  · exact .unexpected hover (.refl h) what

theorem take_closing (hover : walker.Over stream) {closing : Char}
    (hclosing : (stream.cursor head).atSymbol closing = true) (value : α) :
    Follows stream head (stream.Closes closing head) Prod.mk
      ((do
        walker.take
        pure value : Walk α).run head)
      (do
        let after ← (stream.cursor head).take walker.compiler.limits
        .ok (value, after)) := by
  obtain ⟨token, rest, hrest, hkind⟩ :=
    Stream.exists_token_of_kind? (Cursor.atSymbol_iff.mp hclosing)
  exact (take_token hover hrest).andThen (.refl (Nat.le_of_lt (Stream.drop_next hrest).1))
    fun _ after hplace => .ok (.next hrest hplace hkind)

end Follows

/-! ## Productions without lists -/

namespace Compiler

variable {walker : Walker} {stream : Stream} {head : Head}

theorem follows_state (hover : walker.Over stream)
    (h : head.place ≤ stream.tokens.length)
    (invalid : String → DiagnosticKind) :
    Keeps stream head ((walker.state invalid).run head)
      (walker.compiler.state invalid (stream.cursor head)) := by
  rw [Walker.state, hover.peek_bind h, Compiler.state, Stream.word?_entry,
    Stream.text_entry]
  cases hword : (stream.cursor head).word? with
  | none => exact .fault (.refl h) _
  | some letters =>
      have hkind := Cursor.word?_eq_some_iff.mp hword
      simp only
      generalize (do
        let state ← walker.compiler.states.id? (String.ofList letters)
        walker.compiler.states.name? state) = known
      cases known with
      | none => exact .fault (.refl h) _
      | some name =>
          simp only
          split
          · exact .take hover (.refl h) hkind (by simp) fun after hafter _ => .ok hafter
          · exact .fault (.refl h) _

theorem follows_direction (hover : walker.Over stream)
    (h : head.place ≤ stream.tokens.length) (what : Expected) :
    Keeps stream head ((walker.direction what).run head)
      (walker.compiler.direction what (stream.cursor head)) := by
  rw [Walker.direction, hover.peek_bind h, Compiler.direction, Stream.word?_entry]
  cases hword : (stream.cursor head).word? with
  | none => exact .unexpected hover (.refl h) what
  | some letters =>
      have hkind := Cursor.word?_eq_some_iff.mp hword
      simp only
      cases Direction.parse? (String.ofList letters) with
      | none =>
          simp only
          split
          · exact .fault (.refl h) _
          · exact .unexpected hover (.refl h) what
      | some direction =>
          simp only
          split
          · exact .take hover (.refl h) hkind (by simp) fun after hafter _ => .ok hafter
          · exact .fault (.refl h) _

theorem follows_comparator (hover : walker.Over stream)
    (h : head.place ≤ stream.tokens.length) :
    Keeps stream head (walker.comparator.run head)
      (walker.compiler.comparator (stream.cursor head)) := by
  rw [Walker.comparator, hover.peek_bind h, Compiler.comparator, Stream.isSymbol_entry,
    Stream.isSymbol_entry]
  split
  · rename_i hplus
    exact .take hover (.refl h) (Cursor.atSymbol_iff.mp hplus) (by decide)
      fun after hafter _ => .ok hafter
  · split
    · rename_i hminus
      exact .take hover (.refl h) (Cursor.atSymbol_iff.mp hminus) (by decide)
        fun after hafter _ => .ok hafter
    · exact .ok (.refl h)

theorem follows_count (hover : walker.Over stream)
    (h : head.place ≤ stream.tokens.length) :
    Keeps stream head (walker.count.run head)
      (walker.compiler.count (stream.cursor head)) := by
  rw [Walker.count, hover.peek_bind h, Compiler.count, Stream.word?_entry,
    Stream.isSymbol_entry]
  cases hword : (stream.cursor head).word? with
  | none =>
      simp only
      split
      · exact .ok (.refl h)
      · exact .unexpected hover (.refl h) _
  | some letters =>
      have hkind := Cursor.word?_eq_some_iff.mp hword
      simp only
      cases Text.digits? letters with
      | none => exact .unexpected hover (.refl h) _
      | some number =>
          simp only
          split
          · exact .take hover (.refl h) hkind (by simp) fun after hafter _ => .ok hafter
          · exact .fault (.refl h) _

theorem follows_condition (hover : walker.Over stream)
    (h : head.place ≤ stream.tokens.length) :
    Keeps stream head (walker.condition.run head)
      (walker.compiler.condition (stream.cursor head)) := by
  rw [Walker.condition, Compiler.condition]
  refine .bind (.refl h) (follows_comparator hover h) fun comparator afterSign hsign => ?_
  refine .bind hsign (follows_count hover hsign.inside) fun count afterCount hcount => ?_
  refine .bind hcount (.takeSymbol hover hcount.inside (by decide) _)
    fun _ afterHash hhash => ?_
  exact .bind hhash (follows_state hover hhash.inside _) fun name after hafter => .ok hafter

/-! ## Lists -/

theorem exists_succ_fuel {β : Type} {left fuel : Nat} (read : Nat → β) (hfuel : left ≤ fuel)
    (hnone : left = 0 → read 0 = read 1) :
    ∃ smaller, left ≤ smaller + 1 ∧ read fuel = read (smaller + 1) := by
  cases fuel with
  | zero => exact ⟨0, by omega, hnone (Nat.le_zero.mp hfuel)⟩
  | succ fuel => exact ⟨fuel, hfuel, rfl⟩

theorem follows_directionList (hover : walker.Over stream) {rounds fuel : Nat}
    {seen : List Direction} (h : head.place ≤ stream.tokens.length)
    (hrounds : (stream.cursor head).rest.length < rounds)
    (hfuel : (stream.cursor head).rest.length ≤ fuel) :
    Keeps stream head ((walker.directionList rounds seen).run head)
      (walker.compiler.directionList fuel seen (stream.cursor head)) := by
  induction rounds generalizing head fuel seen with
  | zero => omega
  | succ rounds ih =>
      obtain ⟨fuel, hfuel, heq⟩ := exists_succ_fuel
        (walker.compiler.directionList · seen (stream.cursor head)) hfuel fun hnone => by
          rw [List.length_eq_zero_iff] at hnone
          simp only [directionList_of_rest_eq_nil hnone]
      rw [heq, Walker.directionList, hover.peek_bind h, Compiler.directionList]
      refine .bind (.refl h) (follows_direction hover h _) fun direction next hnext => ?_
      dsimp only
      split
      · exact .fault hnext _
      · rw [hover.peek_bind hnext.inside, Stream.isSymbol_entry, Stream.isSymbol_entry]
        have hfewer := hnext.length_le
        split
        · rename_i hcomma
          refine .take hover hnext (Cursor.atSymbol_iff.mp hcomma) (by decide) ?_
          intro after hafter hshorter
          exact (ih hafter.inside (by omega) (by omega)).mono hafter
            fun _ hlast => hafter.trans hlast
        · split
          · rename_i hclosing
            exact .take hover hnext (Cursor.atSymbol_iff.mp hclosing) (by decide)
              fun after hafter _ => .ok hafter
          · exact .unexpected hover hnext _

section

variable {α : Type} {closing : Char} {what : Expected} {term : Walk α}
  {parse : Cursor → Except Diagnostic (α × Cursor)}

theorem follows_terms (hover : walker.Over stream)
    (hterm : ∀ head : Head, head.place ≤ stream.tokens.length →
      Keeps stream head (term.run head) (parse (stream.cursor head)))
    {rounds fuel : Nat} (h : head.place ≤ stream.tokens.length)
    (hrounds : (stream.cursor head).rest.length < rounds)
    (hfuel : (stream.cursor head).rest.length ≤ fuel) :
    Follows stream head (stream.Closes closing head) Prod.mk
      ((walker.terms closing what term rounds).run head)
      (walker.compiler.terms closing what parse fuel (stream.cursor head)) := by
  induction rounds generalizing head fuel with
  | zero => omega
  | succ rounds ih =>
      obtain ⟨fuel, hfuel, heq⟩ := exists_succ_fuel
        (walker.compiler.terms closing what parse · (stream.cursor head)) hfuel
        fun hnone => by
          rw [List.length_eq_zero_iff] at hnone
          simp only [terms_of_rest_eq_nil hnone]
      rw [heq, Walker.terms, hover.peek_bind h, Compiler.terms, Stream.isSymbol_entry,
        Stream.connective?_entry]
      split
      · rename_i hclosing
        exact .take_closing hover hclosing _
      · cases hconnective : (stream.cursor head).connective? with
        | none => exact .unexpected hover (.refl h) what
        | some connective =>
            obtain ⟨kind, hkind, hne⟩ := Stream.exists_kind_of_connective? hconnective
            refine .take hover (.refl h) hkind hne fun afterMark hmark hshorter => ?_
            refine (hterm afterMark hmark.inside).andThen hmark fun next afterTerm hterm => ?_
            have hnext := hmark.trans hterm
            have hfewer := hterm.length_le
            exact (ih hnext.inside (by omega) (by omega)).andThen hnext
              fun others last hlast => .ok (hnext.closes hlast)

theorem follows_formula (hover : walker.Over stream)
    (hterm : ∀ head : Head, head.place ≤ stream.tokens.length →
      Keeps stream head (term.run head) (parse (stream.cursor head)))
    (h : head.place ≤ stream.tokens.length) :
    Follows stream head (stream.Closes closing head) Prod.mk
      ((walker.formula closing what term).run head)
      (walker.compiler.formula closing what parse (stream.cursor head)) := by
  rw [Walker.formula, Compiler.formula]
  refine .bind (.refl h) (hterm head h) fun first afterFirst hfirst => ?_
  exact (follows_terms hover hterm hfirst.inside (hover.length_lt _)
    (Nat.le_refl _)).andThen hfirst fun others last hlast => .ok (hfirst.closes hlast)

end

/-! ## Clauses and rules -/

theorem follows_scope (hover : walker.Over stream)
    (h : head.place ≤ stream.tokens.length) :
    Keeps stream head (walker.scope.run head)
      (walker.compiler.scope (stream.cursor head)) := by
  rw [Walker.scope, hover.peek_bind h, Compiler.scope, Stream.isWord_entry,
    Stream.isSymbol_entry]
  split
  · rename_i hall
    exact .take hover (.refl h) (Cursor.atWord_iff.mp hall) (by simp)
      fun after hafter _ => .ok hafter
  · split
    · rename_i hopen
      refine .take hover (.refl h) (Cursor.atSymbol_iff.mp hopen) (by decide)
        fun afterOpen hopened _ => ?_
      exact .bind hopened (follows_directionList hover hopened.inside
        (hover.length_lt _) (Nat.le_refl _)) fun listed after hafter => .ok hafter
    · exact .bind (.refl h) (follows_direction hover h _)
        fun direction after hafter => .ok hafter

theorem follows_equalsSign (hover : walker.Over stream)
    (h : head.place ≤ stream.tokens.length) :
    Follows stream head (stream.Reaches head) (fun _ cursor => cursor)
      (walker.equalsSign.run head) (walker.compiler.equalsSign (stream.cursor head)) := by
  rw [Walker.equalsSign, hover.peek_bind h, Compiler.equalsSign, Stream.isSymbol_entry,
    Stream.isSymbol_entry]
  split
  · exact .ok (.refl h)
  · exact .takeSymbol hover h (by decide) _

theorem follows_clause (hover : walker.Over stream)
    (h : head.place ≤ stream.tokens.length) :
    Keeps stream head (walker.clause.run head)
      (walker.compiler.clause (stream.cursor head)) := by
  rw [Walker.clause, Compiler.clause]
  refine .bind (.refl h) (.takeSymbol hover h (by decide) _) fun _ afterOpen hopen => ?_
  refine .bind hopen (follows_scope hover hopen.inside) fun scope afterScope hscope => ?_
  refine .bind hscope (.takeSymbol hover hscope.inside (by decide) _)
    fun _ afterAt hat => ?_
  refine .bind hat (follows_equalsSign hover hat.inside) fun _ afterEquals hequals => ?_
  exact (follows_formula hover (fun _ => follows_condition hover)
    hequals.inside).andThen hequals fun condition after hafter =>
      .ok (hequals.trans (hafter.reaches (by decide)))

theorem follows_ruleCondition (hover : walker.Over stream)
    (h : head.place ≤ stream.tokens.length) :
    Follows stream head (stream.Closes ';' head) Prod.mk (walker.ruleCondition.run head)
      (walker.compiler.ruleCondition (stream.cursor head)) := by
  rw [Walker.ruleCondition, hover.peek_bind h, Compiler.ruleCondition,
    Stream.isSymbol_entry, Stream.isSymbol_entry]
  split
  · rename_i hend
    exact .take_closing hover hend _
  · split
    · rename_i hcolon
      refine .take hover (.refl h) (Cursor.atSymbol_iff.mp hcolon) (by decide)
        fun afterColon hahead _ => ?_
      exact (follows_formula hover (fun _ => follows_clause hover)
        hahead.inside).andThen hahead fun condition after hafter =>
          .ok (hahead.closes hafter)
    · exact .unexpected hover (.refl h) _

/-- A rule is walked over up to and including its semicolon. -/
theorem follows_rule (hover : walker.Over stream)
    (h : head.place ≤ stream.tokens.length) :
    Follows stream head (stream.Closes ';' head)
      (fun (read : Rule × Nat) cursor => Reading.mk read.1 read.2 cursor)
      (walker.rule.run head) (walker.compiler.rule (stream.cursor head)) := by
  rw [Walker.rule, hover.peek_bind h, Compiler.rule]
  refine .bind (.refl h) (follows_state hover h _) fun source afterSource hsource => ?_
  refine .bind hsource (.takeSymbol hover hsource.inside (by decide) _)
    fun _ beforeTarget hslash => ?_
  rw [hover.peek_bind hslash.inside]
  refine .bind hslash (follows_state hover hslash.inside _)
    fun target afterTarget htarget => ?_
  dsimp only
  split
  · exact .fault htarget _
  · refine (follows_ruleCondition hover htarget.inside).andThen htarget
      fun condition after hafter => ?_
    simp only [Stream.offset_entry]
    exact .ok (htarget.closes hafter)

end Compiler

end Cellular
