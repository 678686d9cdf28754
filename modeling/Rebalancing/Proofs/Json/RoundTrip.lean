import Rebalancing.Json.Tree
import Rebalancing.Proofs.Json.Leaves

/-!
# Reading printed JSON

A printed value is read back as it was, in two stages: the lexer finds its tokens, and the
builder puts them together again.  Both are followed over the containers by what is under
way: a lexer may hold a numeral that no byte has ended yet, a builder the containers that
are open.
-/

namespace Rebalancing.Json

/-- A value that has a text of its own: every leaf of it can be read, and its numbers are natural
numbers within 64 bits. -/
inductive IsExact : Json → Prop
  | null : IsExact .null
  | bool (value : Bool) : IsExact (.bool value)
  | nat {n : Nat} : n < 0x10000000000000000 → IsExact (.nat n)
  | string (text : String) : IsExact (.string text)
  | array {items : List Json} : (∀ item ∈ items, IsExact item) → IsExact (.array items)
  | object {members : List (String × Json)} :
      (∀ member ∈ members, IsExact member.2) → IsExact (.object members)

mutual

/-- The tokens of the text of a value. -/
def tokens : Json → List Token
  | .null => [.null]
  | .bool value => [if value then .true else .false]
  | .number value => [.number (some value)]
  | .string text => [.string (some text)]
  | .array items => .openBracket :: (itemTokens items ++ [.closeBracket])
  | .object members => .openBrace :: (memberTokens members ++ [.closeBrace])
  | .unreadable => [.null]

def itemTokens : List Json → List Token
  | [] => []
  | [item] => item.tokens
  | item :: rest => item.tokens ++ .comma :: itemTokens rest

def memberTokens : List (String × Json) → List Token
  | [] => []
  | [(name, value)] => .string (some name) :: .colon :: value.tokens
  | (name, value) :: rest =>
    .string (some name) :: .colon :: (value.tokens ++ .comma :: memberTokens rest)

end

/-! ## Tokens of a text -/

namespace Lexer

variable {lexer : Lexer} {read : List Token} {bytes : List UInt8}

/-- A lexer that has come to the end of its tokens, last one first.  The last one may be a numeral
that is still to be ended by what follows. -/
def Stands (lexer : Lexer) (read : List Token) : Prop :=
  lexer = { tokens := read } ∨ ∃ before part bytes, part.isComplete ∧
    lexer = ⟨before, .numeral part bytes⟩ ∧ read = numeralToken bytes :: before

/-- What may follow a value in a container. -/
def isDelimiter (byte : UInt8) : Bool := byte = 0x2c || byte = 0x5d || byte = 0x7d

theorem step_ended {part : NumeralPart} (complete : part.isComplete) {byte : UInt8}
    (delimiter : isDelimiter byte) : part.step byte = .ended := by
  simp only [isDelimiter, Bool.or_eq_true, decide_eq_true_eq] at delimiter
  obtain (rfl | rfl) | rfl := delimiter
  all_goals
    cases part with
    | zero | whole | fraction | exponent => rfl
    | minus | point | exponentMark | exponentSign => cases complete

theorem Stands.step (stands : lexer.Stands read) {byte : UInt8} (delimiter : isDelimiter byte) :
    lexer.step byte = between read byte := by
  obtain rfl | ⟨before, part, bytes, complete, rfl, rfl⟩ := stands
  · rfl
  · show numeral before part bytes byte = _
    rw [numeral, step_ended complete delimiter]

theorem Stands.finish (stands : lexer.Stands read) : lexer.finish = (read.reverse, .finished) := by
  obtain rfl | ⟨before, part, bytes, complete, rfl, rfl⟩ := stands
  · rfl
  · exact if_pos complete

/-- Whether bytes are the text of some tokens, wherever a value may start. -/
def Spells (bytes : List UInt8) (tokens : List Token) : Prop :=
  ∀ before, (feed ⟨before, .between⟩ bytes).Stands (tokens.reverse ++ before)

theorem spells_nil : Spells [] [] := fun _ => .inl rfl

theorem Spells.append_comma {tokens tokens' : List Token} {bytes' : List UInt8}
    (first : Spells bytes tokens) (second : Spells bytes' tokens') :
    Spells (bytes ++ 0x2c :: bytes') (tokens ++ .comma :: tokens') := by
  intro before
  have h : feed ⟨before, .between⟩ (bytes ++ 0x2c :: bytes') =
      feed ⟨.comma :: (tokens.reverse ++ before), .between⟩ bytes' := by
    rw [feed_append]
    show feed ((feed _ bytes).step 0x2c) bytes' = _
    rw [(first before).step rfl]
    rfl
  rw [h, List.reverse_append, List.reverse_cons, List.append_assoc, List.append_assoc]
  exact second _

theorem Spells.member {tokens : List Token} (spells : Spells bytes tokens) (name : String) :
    Spells (printString name ++ 0x3a :: bytes) (.string (some name) :: .colon :: tokens) := by
  intro before
  have h : feed ⟨before, .between⟩ (printString name ++ 0x3a :: bytes) =
      feed ⟨.colon :: .string (some name) :: before, .between⟩ bytes := by
    rw [feed_append, feed_printString]
    rfl
  rw [h, List.reverse_cons, List.reverse_cons, List.append_assoc, List.append_assoc]
  exact spells _

/-- Tokens between an opening and a closing one. -/
theorem Spells.enclosed {tokens : List Token} (spells : Spells bytes tokens) {opening closing : UInt8}
    {first last : Token} (opens : ∀ before, between before opening = { tokens := first :: before })
    (closes : ∀ before, between before closing = { tokens := last :: before })
    (delimiter : isDelimiter closing) :
    Spells (opening :: (bytes ++ [closing])) (first :: (tokens ++ [last])) := by
  intro before
  have h : feed ⟨before, .between⟩ (opening :: (bytes ++ [closing])) =
      { tokens := last :: (tokens.reverse ++ first :: before) } := by
    show feed (between before opening) (bytes ++ [closing]) = _
    rw [opens, feed_append]
    show (feed _ bytes).step closing = _
    rw [(spells _).step delimiter, closes]
  exact .inl (by simp [h])

theorem spells_printItems {items : List Json}
    (each : ∀ item ∈ items, Spells item.print item.tokens) :
    Spells (printItems items) (itemTokens items) := by
  induction items with
  | nil => exact spells_nil
  | cons item rest ih =>
    obtain ⟨first, others⟩ := List.forall_mem_cons.mp each
    cases rest with
    | nil => exact first
    | cons => exact first.append_comma (ih others)

theorem spells_printMembers {members : List (String × Json)}
    (each : ∀ member ∈ members, Spells member.2.print member.2.tokens) :
    Spells (printMembers members) (memberTokens members) := by
  induction members with
  | nil => exact spells_nil
  | cons member rest ih =>
    obtain ⟨first, others⟩ := List.forall_mem_cons.mp each
    cases rest with
    | nil => exact first.member member.1
    | cons => exact (first.append_comma (ih others)).member member.1

/-- The lexer finds the tokens of a printed value. -/
theorem spells_print {json : Json} (exact : json.IsExact) : Spells json.print json.tokens := by
  induction exact with
  | null => exact fun _ => .inl feed_null
  | bool value =>
    cases value with
    | false => exact fun _ => .inl feed_false
    | true => exact fun _ => .inl feed_true
  | @nat n h =>
    intro before
    refine .inr ⟨before, wholePart n, (numeralBytes n).reverse, ?_, feed_numeralBytes n, ?_⟩
    · unfold wholePart
      split <;> rfl
    · rw [numeralToken, List.reverse_reverse, ofBytes?_numeralBytes h]
      rfl
  | string text => exact fun before => .inl (feed_printString text)
  | array _ ih => exact (spells_printItems ih).enclosed (fun _ => rfl) (fun _ => rfl) rfl
  | object _ ih => exact (spells_printMembers ih).enclosed (fun _ => rfl) (fun _ => rfl) rfl

end Lexer

/-! ## The value of tokens -/

namespace Builder

variable {outer : Nat} {ending : Ending} {stack : List Frame} {rest : List Token}

/-- What becomes of the tokens behind a step. -/
def resume (outer : Nat) (ending : Ending) : Step → List Token → Except Fault (Json × List Token)
  | .done value, rest => .ok (value, rest)
  | .open builder, rest => run .skim outer ending builder rest

theorem run_of_step {builder : Builder} {token : Token} {next : Step}
    (h : builder.step .skim outer token = .ok next) :
    run .skim outer ending builder (token :: rest) = resume outer ending next rest := by
  rw [run, h]
  cases next <;> rfl

/-- Whether tokens are put together to a value, wherever a value may come next. -/
def Builds (tokens : List Token) (json : Json) : Prop :=
  ∀ outer ending stack wanted rest, wanted = .value ∨ wanted = .valueOrClose →
    run .skim outer ending ⟨stack, wanted⟩ (tokens ++ rest) =
      resume outer ending (complete stack json) rest

/-- The first token of a value is taken alike where a value is wanted, unless it closes a container. -/
theorem step_admits {token : Token} (other : token ≠ .closeBracket) {wanted : Wanted}
    (admits : wanted = .value ∨ wanted = .valueOrClose) :
    step .skim outer ⟨stack, wanted⟩ token = value .skim outer stack token := by
  obtain rfl | rfl := admits
  · rfl
  · exact if_neg other

theorem builds_leaf {token : Token} {json : Json} (other : token ≠ .closeBracket)
    (leaf : ∀ outer stack, value .skim outer stack token = .ok (complete stack json)) :
    Builds [token] json :=
  fun outer _ stack _ _ admits => run_of_step ((step_admits other admits).trans (leaf outer stack))

/-- Items are put into the open array, which then closes. -/
theorem run_items {items : List Json} (each : ∀ item ∈ items, Builds item.tokens item)
    (nonempty : items ≠ []) (done : List Json) {wanted : Wanted}
    (admits : wanted = .value ∨ wanted = .valueOrClose) :
    run .skim outer ending ⟨.items done :: stack, wanted⟩
        (itemTokens items ++ .closeBracket :: rest) =
      resume outer ending (complete stack (.array (done.reverse ++ items))) rest := by
  induction items generalizing done wanted with
  | nil => exact absurd rfl nonempty
  | cons item others ih =>
    obtain ⟨first, each⟩ := List.forall_mem_cons.mp each
    cases others with
    | nil =>
      rw [itemTokens, first _ _ _ _ _ admits]
      show run .skim outer ending ⟨.items (item :: done) :: stack, .commaOrClose⟩ _ = _
      rw [run_of_step rfl, List.reverse_cons]
    | cons next others =>
      rw [itemTokens, List.append_assoc, first _ _ _ _ _ admits]
      · show run .skim outer ending ⟨.items (item :: done) :: stack, .commaOrClose⟩ _ = _
        rw [List.cons_append, run_of_step rfl]
        show run .skim outer ending ⟨.items (item :: done) :: stack, .value⟩ _ = _
        rw [ih each (List.cons_ne_nil _ _) _ (.inl rfl), List.reverse_cons, List.append_assoc]
        rfl
      · exact List.cons_ne_nil next others

/-- Members are put into the open object, which then closes. -/
theorem run_members {members : List (String × Json)}
    (each : ∀ member ∈ members, Builds member.2.tokens member.2) (nonempty : members ≠ [])
    (done : List (String × Json)) (before : String) {wanted : Wanted}
    (admits : wanted = .name ∨ wanted = .nameOrClose) :
    run .skim outer ending ⟨.members done true before :: stack, wanted⟩
        (memberTokens members ++ .closeBrace :: rest) =
      resume outer ending (complete stack (.object (done.reverse ++ members))) rest := by
  induction members generalizing done before wanted with
  | nil => exact absurd rfl nonempty
  | cons member others ih =>
    obtain ⟨name, value⟩ := member
    obtain ⟨first, each⟩ := List.forall_mem_cons.mp each
    have hname : step .skim outer ⟨.members done true before :: stack, wanted⟩ (.string (some name)) =
        .ok (.open ⟨.members done true name :: stack, .colon⟩) := by
      obtain rfl | rfl := admits <;> rfl
    -- what the name, the colon and the value lead to, whatever comes behind them
    have hmember (more : List Token) :
        run .skim outer ending ⟨.members done true before :: stack, wanted⟩
            (.string (some name) :: .colon :: (value.tokens ++ more)) =
          run .skim outer ending
            ⟨.members ((name, value) :: done) true name :: stack, .commaOrClose⟩ more := by
      rw [run_of_step hname]
      show run .skim outer ending ⟨.members done true name :: stack, .colon⟩ _ = _
      rw [run_of_step rfl]
      exact first _ _ _ _ _ (.inl rfl)
    cases others with
    | nil =>
      rw [memberTokens, List.cons_append, List.cons_append, hmember, run_of_step rfl,
        List.reverse_cons]
      rfl
    | cons next others =>
      rw [memberTokens, List.cons_append, List.cons_append, List.append_assoc, hmember,
        List.cons_append, run_of_step rfl]
      · show run .skim outer ending ⟨.members ((name, value) :: done) true name :: stack, .name⟩ _ = _
        rw [ih each (List.cons_ne_nil _ _) _ _ (.inl rfl), List.reverse_cons, List.append_assoc]
        rfl
      · exact List.cons_ne_nil next others

theorem builds_array {items : List Json} (each : ∀ item ∈ items, Builds item.tokens item) :
    Builds (.openBracket :: (itemTokens items ++ [.closeBracket])) (.array items) := by
  intro outer ending stack wanted rest admits
  rw [List.cons_append, run_of_step ((step_admits (by decide) admits).trans rfl),
    List.append_assoc]
  show run .skim outer ending ⟨.items [] :: stack, .valueOrClose⟩ _ = _
  cases items with
  | nil => exact run_of_step rfl
  | cons item others => exact run_items each (List.cons_ne_nil _ _) [] (.inr rfl)

theorem builds_object {members : List (String × Json)}
    (each : ∀ member ∈ members, Builds member.2.tokens member.2) :
    Builds (.openBrace :: (memberTokens members ++ [.closeBrace])) (.object members) := by
  intro outer ending stack wanted rest admits
  rw [List.cons_append, run_of_step ((step_admits (by decide) admits).trans rfl),
    List.append_assoc]
  show run .skim outer ending ⟨.members [] true "" :: stack, .nameOrClose⟩ _ = _
  cases members with
  | nil => exact run_of_step rfl
  | cons member others => exact run_members each (List.cons_ne_nil _ _) [] "" (.inr rfl)

/-- The tokens of a value are put together to the value. -/
theorem builds_tokens {json : Json} (exact : json.IsExact) : Builds json.tokens json := by
  induction exact with
  | null => exact builds_leaf (by decide) fun _ _ => rfl
  | bool value => cases value <;> exact builds_leaf (by decide) fun _ _ => rfl
  | nat _ => exact builds_leaf Token.noConfusion fun _ _ => rfl
  | string text => exact builds_leaf Token.noConfusion fun _ _ => rfl
  | array _ ih => exact builds_array ih
  | object _ ih => exact builds_object ih

end Builder

/-- **Round trip.**  A printed value is read back as it was. -/
theorem ofBytes_print {json : Json} (exact : json.IsExact) :
    ofBytes .skim json.print = .ok json := by
  have hfinish := (Lexer.spells_print exact []).finish
  have hrun := Builder.builds_tokens exact 0 .finished [] .value [] (.inl rfl)
  rw [List.append_nil, List.reverse_reverse] at hfinish
  rw [List.append_nil] at hrun
  unfold ofBytes ofLexer
  simp only [hfinish, hrun]
  rfl

end Rebalancing.Json
