import Rebalancing.Proofs.Json.Numeral

/-!
# Texts that are cut short

What has been read of a text tells how its tokens start: those that are complete stay, and what
is under way becomes the next one, or nothing that is any text at all.
-/

namespace Rebalancing.Json

open Number (IsTrimmed)

/-! ## What is under way -/

/-- A numeral as far as it has been read, last byte first. -/
structure IsShaped (part : NumeralPart) (bytes : List UInt8) : Prop where
  nonempty : bytes ≠ []
  minus : bytes = [0x2d] → part = .minus
  zero : bytes = [0x30, 0x2d] → part = .zero
  trimmed : IsTrimmed bytes.reverse

theorem IsShaped.step {part next : NumeralPart} {bytes : List UInt8} {byte : UInt8}
    (shaped : IsShaped part bytes) (h : part.step byte = .part next) :
    IsShaped next (byte :: bytes) where
  nonempty := List.cons_ne_nil _ _
  minus heq := absurd (List.cons.inj heq).2 shaped.nonempty
  zero heq := by
    obtain ⟨rfl, rfl⟩ := List.cons.inj heq
    obtain rfl := shaped.minus rfl
    cases h
    rfl
  trimmed digit rest isDigit heq := by
    rw [List.reverse_cons] at heq
    match hfront : bytes.reverse with
    | [] => simp [hfront] at heq
    | [_] => simp [hfront] at heq
    | [_, _] =>
      -- the digit comes right behind the zero
      rw [hfront] at heq
      obtain ⟨rfl, rfl, rfl, rfl⟩ : _ ∧ _ ∧ byte = digit ∧ [] = rest := by simpa using heq
      obtain rfl := shaped.zero (List.reverse_eq_iff.mp hfront)
      simp [NumeralPart.step, isDigit] at h
    | _ :: _ :: third :: front =>
      rw [hfront] at heq
      obtain ⟨rfl, rfl, rfl, -⟩ : _ ∧ _ ∧ third = digit ∧ front ++ [byte] = rest := by
        simpa using heq
      exact shaped.trimmed third front isDigit hfront

theorem isShaped_singleton {part : NumeralPart} {byte : UInt8} (h : byte = 0x2d → part = .minus) :
    IsShaped part [byte] where
  nonempty := List.cons_ne_nil _ _
  minus heq := h (List.cons.inj heq).1
  zero heq := by cases (List.cons.inj heq).2
  trimmed _ _ _ heq := by cases (List.cons.inj heq).2

theorem Content.flawed_flaw (content : Content) : content.flaw.flawed := rfl

theorem Content.flawed_pushChar {content : Content} (c : Char) (h : content.flawed) :
    (content.pushChar c).flawed := h

/-- What never breaks in a lexer. -/
def Mode.IsSound : Mode → Prop
  | .literal _ token => token = .null ∨ token = .true ∨ token = .false
  | .numeral part bytes => IsShaped part bytes
  | _ => True

/-- The next token is a string, and one without a value if it is flawed already. -/
def PromisesString (content : Content) (tokens : List Token) : Prop :=
  ∃ text rest, tokens = .string text :: rest ∧ (content.flawed → text = none)

/-- What tokens may still come before a text ends well. -/
def Mode.Promises : Mode → List Token → Prop
  | .between, _ => True
  | .literal _ token, tokens => ∃ rest, tokens = token :: rest
  | .numeral _ bytes, tokens => ∃ more rest, IsTrimmed (more ++ bytes).reverse ∧
      tokens = Lexer.numeralToken (more ++ bytes) :: rest
  | .string content, tokens | .escape content, tokens | .paired content _, tokens
  | .pairedEscape content _, tokens | .code content _ _, tokens => PromisesString content tokens
  | .malformed, _ => False

namespace Lexer

variable {lexer : Lexer} {before tokens : List Token} {content : Content} {byte : UInt8}

/-- How the tokens of a whole text go on from what has been read of it. -/
def LeadsTo (lexer : Lexer) (tokens : List Token) : Prop :=
  ∃ rest, tokens = lexer.tokens.reverse ++ rest ∧ lexer.mode.Promises rest

/-! ## One byte -/

theorem LeadsTo.mono {mode mode' : Mode} (h : LeadsTo ⟨before, mode⟩ tokens)
    (promises : ∀ rest, mode.Promises rest → mode'.Promises rest) :
    LeadsTo ⟨before, mode'⟩ tokens :=
  let ⟨rest, heq, hrest⟩ := h
  ⟨rest, heq, promises rest hrest⟩

theorem not_leadsTo_malformed : ¬ LeadsTo ⟨before, .malformed⟩ tokens := fun ⟨_, _, h⟩ => h

/-- A token that is complete was to come. -/
theorem LeadsTo.of_push {token : Token} {mode : Mode}
    (h : LeadsTo { tokens := token :: before } tokens)
    (promises : ∀ rest, mode.Promises (token :: rest)) : LeadsTo ⟨before, mode⟩ tokens := by
  obtain ⟨rest, rfl, -⟩ := h
  exact ⟨token :: rest, by simp, promises rest⟩

/-- What the first byte of a token does: it completes tokens, or gets one under way. -/
theorem between_cases (before : List Token) (byte : UInt8) :
    (∃ new, between before byte = { tokens := new ++ before }) ∨
      ∃ mode, between before byte = ⟨before, mode⟩ ∧ mode.IsSound := by
  unfold between
  split
  case isTrue => exact .inl ⟨[], rfl⟩
  split
  case h_1 | h_2 | h_3 | h_4 | h_5 | h_6 => exact .inl ⟨[_], rfl⟩
  case h_7 => exact .inr ⟨_, rfl, trivial⟩
  case h_8 | h_9 => exact .inr ⟨_, rfl, isShaped_singleton (by decide)⟩
  case h_10 | h_11 | h_12 => exact .inr ⟨_, rfl, by simp [Mode.IsSound]⟩
  case h_13 =>
    refine .inr ⟨_, rfl, ?_⟩
    split
    case isTrue digit =>
      refine isShaped_singleton fun heq => ?_
      rw [heq] at digit
      cases digit
    case isFalse => trivial

theorem isSound_between : (between before byte).mode.IsSound := by
  rcases between_cases before byte with ⟨new, h⟩ | ⟨mode, h, sound⟩
  · rw [h]
    trivial
  · rwa [h]

theorem LeadsTo.of_between (h : (between before byte).LeadsTo tokens) :
    LeadsTo { tokens := before } tokens := by
  rcases between_cases before byte with ⟨new, heq⟩ | ⟨mode, heq, -⟩
  · obtain ⟨rest, rfl, -⟩ := heq ▸ h
    exact ⟨new.reverse ++ rest, by simp, trivial⟩
  · exact (heq ▸ h).mono fun _ _ => trivial

theorem LeadsTo.of_literal {rest : List UInt8} {token : Token}
    (h : (literal before rest token byte).LeadsTo tokens) :
    LeadsTo ⟨before, .literal rest token⟩ tokens := by
  unfold literal at h
  split at h
  case h_1 => exact absurd h not_leadsTo_malformed
  split at h
  case isTrue => exact absurd h not_leadsTo_malformed
  split at h
  case isTrue => exact h.of_push fun rest => ⟨rest, rfl⟩
  case isFalse => exact h.mono fun _ => id

theorem LeadsTo.of_numeral {part : NumeralPart} {bytes : List UInt8} (shaped : IsShaped part bytes)
    (h : (numeral before part bytes byte).LeadsTo tokens) :
    LeadsTo ⟨before, .numeral part bytes⟩ tokens := by
  unfold numeral at h
  split at h
  case h_1 =>
    refine h.mono fun rest ⟨more, others, trimmed, heq⟩ => ⟨more ++ [byte], others, ?_, ?_⟩
    · simpa using trimmed
    · simpa using heq
  case h_2 => exact h.of_between.of_push fun rest => ⟨[], rest, shaped.trimmed, rfl⟩
  case h_3 => exact absurd h not_leadsTo_malformed

theorem PromisesString.mono {content content' : Content} (flawed : content'.flawed → content.flawed)
    (h : PromisesString content tokens) : PromisesString content' tokens :=
  let ⟨text, rest, heq, hflawed⟩ := h
  ⟨text, rest, heq, fun h => hflawed (flawed h)⟩

theorem LeadsTo.of_string (h : (string before content byte).LeadsTo tokens) :
    LeadsTo ⟨before, .string content⟩ tokens := by
  unfold string at h
  split at h
  case isTrue => exact h.of_push fun rest => ⟨_, rest, rfl, fun flawed => if_pos flawed⟩
  split at h
  case isTrue => exact h.mono fun _ => id
  split at h
  case isTrue => exact absurd h not_leadsTo_malformed
  case isFalse => exact h.mono fun _ => PromisesString.mono id

theorem LeadsTo.of_escape (h : (escape before content byte).LeadsTo tokens) :
    LeadsTo ⟨before, .escape content⟩ tokens := by
  unfold escape at h
  split at h
  case isTrue => exact h.mono fun _ => id
  split at h
  case h_1 => exact h.mono fun _ => PromisesString.mono id
  case h_2 => exact absurd h not_leadsTo_malformed

/-- A flaw stays. -/
theorem promises_decoded {lead : Option Nat} {code : Nat} {rest : List Token}
    (h : (decoded content lead code).Promises rest) : PromisesString content rest := by
  unfold decoded at h
  split at h
  · split at h
    · exact PromisesString.mono (Content.flawed_pushChar _) h
    · split at h
      · exact PromisesString.mono (fun _ => content.flawed_flaw) h
      · exact PromisesString.mono (fun _ => content.flawed_flaw) h
  · split at h
    · exact h
    · split at h
      · exact PromisesString.mono (fun _ => content.flawed_flaw) h
      · exact PromisesString.mono (Content.flawed_pushChar _) h

theorem LeadsTo.of_code {lead : Option Nat} {digits : List UInt8}
    (h : (code before content lead digits byte).LeadsTo tokens) :
    LeadsTo ⟨before, .code content lead digits⟩ tokens := by
  unfold code at h
  simp only at h
  split at h
  case isTrue => exact h.mono fun _ => id
  split at h
  case h_1 => exact absurd h not_leadsTo_malformed
  case h_2 => exact h.mono fun _ => promises_decoded

/-- Whatever a byte makes of a lexer, it leads to what the lexer led to. -/
theorem LeadsTo.of_step (sound : lexer.mode.IsSound) (h : (lexer.step byte).LeadsTo tokens) :
    lexer.LeadsTo tokens := by
  obtain ⟨before, mode⟩ := lexer
  cases mode with
  | between => exact LeadsTo.of_between h
  | literal => exact LeadsTo.of_literal h
  | numeral => exact LeadsTo.of_numeral sound h
  | string => exact LeadsTo.of_string h
  | escape => exact LeadsTo.of_escape h
  | paired content lead =>
    simp only [step] at h
    split at h
    case isTrue => exact h.mono fun _ => id
    case isFalse => exact (LeadsTo.of_string h).mono fun _ => PromisesString.mono fun _ => rfl
  | pairedEscape content lead =>
    simp only [step] at h
    split at h
    case isTrue => exact h.mono fun _ => id
    case isFalse => exact (LeadsTo.of_escape h).mono fun _ => PromisesString.mono fun _ => rfl
  | code => exact LeadsTo.of_code h
  | malformed => exact absurd h not_leadsTo_malformed

/-! ## Soundness -/

theorem isSound_string : (string before content byte).mode.IsSound := by
  unfold string
  repeat' split
  all_goals trivial

theorem isSound_escape : (escape before content byte).mode.IsSound := by
  unfold escape
  repeat' split
  all_goals trivial

theorem isSound_decoded {lead : Option Nat} {code : Nat} : (decoded content lead code).IsSound := by
  unfold decoded
  repeat' split
  all_goals trivial

theorem isSound_code {lead : Option Nat} {digits : List UInt8} :
    (code before content lead digits byte).mode.IsSound := by
  unfold code
  simp only
  split
  case isTrue => trivial
  split
  case h_1 => trivial
  case h_2 => exact isSound_decoded

theorem isSound_step (sound : lexer.mode.IsSound) : (lexer.step byte).mode.IsSound := by
  obtain ⟨before, mode⟩ := lexer
  cases mode with
  | between => exact isSound_between
  | literal rest token =>
    show (literal before rest token byte).mode.IsSound
    unfold literal
    repeat' split
    all_goals first | exact sound | trivial
  | numeral part bytes =>
    show (numeral before part bytes byte).mode.IsSound
    unfold numeral
    split
    case h_1 next => exact sound.step next
    case h_2 => exact isSound_between
    case h_3 => trivial
  | string => exact isSound_string
  | escape => exact isSound_escape
  | paired content lead =>
    simp only [step]
    split
    case isTrue => trivial
    case isFalse => exact isSound_string
  | pairedEscape content lead =>
    simp only [step]
    split
    case isTrue => trivial
    case isFalse => exact isSound_escape
  | code => exact isSound_code
  | malformed => trivial

theorem isSound_feed (sound : lexer.mode.IsSound) (bytes : List UInt8) :
    (lexer.feed bytes).mode.IsSound := by
  induction bytes generalizing lexer with
  | nil => exact sound
  | cons byte rest ih => exact ih (isSound_step sound)

/-! ## Tokens stay -/

theorem suffix_tokens_between : before <:+ (between before byte).tokens := by
  rcases between_cases before byte with ⟨new, h⟩ | ⟨mode, h, -⟩
  · rw [h]
    exact List.suffix_append new before
  · exact h ▸ List.suffix_refl before

theorem suffix_tokens_string : before <:+ (string before content byte).tokens := by
  unfold string
  repeat' split
  all_goals first | exact List.suffix_refl _ | exact List.suffix_cons _ _

theorem suffix_tokens_escape : before <:+ (escape before content byte).tokens := by
  unfold escape
  repeat' split
  all_goals exact List.suffix_refl _

theorem suffix_tokens_step (lexer : Lexer) (byte : UInt8) :
    lexer.tokens <:+ (lexer.step byte).tokens := by
  obtain ⟨before, mode⟩ := lexer
  cases mode with
  | between => exact suffix_tokens_between
  | literal rest token =>
    show before <:+ (literal before rest token byte).tokens
    unfold literal
    repeat' split
    all_goals first | exact List.suffix_refl _ | exact List.suffix_cons _ _
  | numeral part bytes =>
    show before <:+ (numeral before part bytes byte).tokens
    unfold numeral
    split
    case h_2 => exact (List.suffix_cons _ _).trans suffix_tokens_between
    all_goals exact List.suffix_refl _
  | string => exact suffix_tokens_string
  | escape => exact suffix_tokens_escape
  | paired content lead =>
    simp only [step]
    split
    case isTrue => exact List.suffix_refl _
    case isFalse => exact suffix_tokens_string
  | pairedEscape content lead =>
    simp only [step]
    split
    case isTrue => exact List.suffix_refl _
    case isFalse => exact suffix_tokens_escape
  | code content lead digits =>
    show before <:+ (code before content lead digits byte).tokens
    unfold code
    simp only
    repeat' split
    all_goals exact List.suffix_refl _
  | malformed => exact List.suffix_refl _

theorem suffix_tokens_feed (lexer : Lexer) (bytes : List UInt8) :
    lexer.tokens <:+ (lexer.feed bytes).tokens := by
  induction bytes generalizing lexer with
  | nil => exact List.suffix_refl _
  | cons byte rest ih => exact (suffix_tokens_step lexer byte).trans (ih (lexer.step byte))

/-! ## Texts -/

theorem leadsTo_of_finish (sound : lexer.mode.IsSound) (h : lexer.finish = (tokens, .finished)) :
    lexer.LeadsTo tokens := by
  obtain ⟨before, mode⟩ := lexer
  cases mode with
  | between =>
    cases h
    exact ⟨[], (List.append_nil _).symm, trivial⟩
  | numeral part bytes =>
    unfold finish at h
    simp only at h
    split at h
    case isTrue =>
      cases h
      refine ⟨[numeralToken bytes], by simp, [], [], sound.trimmed, rfl⟩
    case isFalse => cases h
  | literal | string | escape | paired | pairedEscape | code | malformed => cases h

/-- Only between tokens need nothing more come. -/
theorem eq_between_of_promises_nil {mode : Mode} (h : mode.Promises []) : mode = .between := by
  cases mode with
  | between => rfl
  | literal =>
    obtain ⟨_, heq⟩ := h
    cases heq
  | numeral =>
    obtain ⟨_, _, _, heq⟩ := h
    cases heq
  | string | escape | paired | pairedEscape | code =>
    obtain ⟨_, _, heq, _⟩ := h
    cases heq
  | malformed => exact h.elim

/-- What has been read of a text that ends well leads to all of its tokens. -/
theorem leadsTo_of_finish_feed (sound : lexer.mode.IsSound) {more : List UInt8}
    (h : (lexer.feed more).finish = (tokens, .finished)) : lexer.LeadsTo tokens := by
  induction more generalizing lexer with
  | nil => exact leadsTo_of_finish sound h
  | cons byte rest ih => exact (ih (isSound_step sound) h).of_step sound

end Lexer

end Rebalancing.Json
