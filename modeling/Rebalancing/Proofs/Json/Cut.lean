import Rebalancing.Proofs.Json.Prefix
import Rebalancing.Proofs.Json.Reading

/-!
# What part of a text comes to

A record that is read from part of a text is the one that the whole text holds, and as long as
the text may still hold one, a part of it is found to be cut short.  The exception is a part that
ends in a numeral which is none as far as it goes: that is an error of the text wherever it is not
waited for what follows.
-/

namespace Rebalancing.Json

open Builder (Goes Step complete)
open Reader (Reads Handles FailsAt)

/-- A text that is a value, of whatever kind, with nothing but blanks around it.  Its strings need be no
Unicode texts, and its numbers may be too large for a double. -/
def IsDocument (text : List UInt8) : Prop := ∃ value, ofBytes .skim text = .ok value

instance : DecidablePred IsDocument := fun text =>
  decidable_of_iff (ofBytes .skim text).isOk (by
    unfold IsDocument
    cases ofBytes .skim text <;> simp [Except.isOk, Except.toBool])

/-- A text that is no value, and becomes one by what follows. -/
def IsUnfinished (text : List UInt8) : Prop := ¬ IsDocument text ∧ ∃ more, IsDocument (text ++ more)

/-- In a numeral that may not end there, or is too large for a double as far as it goes. -/
def Mode.IsDangling : Mode → Prop
  | .numeral part bytes => part.isComplete → Number.ofBytes? bytes.reverse = none
  | _ => False

instance : DecidablePred Mode.IsDangling
  | .numeral part bytes =>
    inferInstanceAs (Decidable (part.isComplete → Number.ofBytes? bytes.reverse = none))
  | .between | .literal _ _ | .string _ | .escape _ | .paired _ _ | .pairedEscape _ _ | .code _ _ _
  | .malformed => isFalse id

theorem isDocument_iff {text : List UInt8} : IsDocument text ↔
    ∃ tokens value, (Lexer.feed {} text).finish = (tokens, .finished) ∧
      Goes (.open {}) tokens (.done value) := by
  constructor
  · rintro ⟨value, h⟩
    obtain ⟨tokens, hfinish, goes⟩ := ofLexer_skim_iff.mp h
    exact ⟨tokens, value, hfinish, goes⟩
  · rintro ⟨tokens, value, hfinish, goes⟩
    exact ⟨value, ofLexer_skim_iff.mpr ⟨tokens, hfinish, goes⟩⟩

variable {α : Type} {reader : Reader α} {lexer : Lexer} {a : α} {tokens : List Token} {ending : Ending}
  {value : Json} {more text : List UInt8}

/-! ## The whole of the tokens -/

theorem whole_of_run_ok {source : Source} (h : lexer.finish = (tokens, ending))
    (run : reader.run ⟨tokens, ending⟩ = .ok (a, source)) : Reader.whole reader lexer =
      if source.tokens = [] ∧ source.ending = .finished then .ok a else .error .malformed := by
  unfold Reader.whole
  simp only [h, run]

theorem whole_of_run_error {fault : Fault} (h : lexer.finish = (tokens, ending))
    (run : reader.run ⟨tokens, ending⟩ = .error fault) : Reader.whole reader lexer = .error fault := by
  unfold Reader.whole
  simp only [h, run]

/-- What is read is a value, and all there is. -/
theorem goes_of_whole (reads : Reads false .read reader) (h : Reader.whole reader lexer = .ok a) :
    ∃ tokens value, lexer.finish = (tokens, .finished) ∧ Goes (.open {}) tokens (.done value) ∧
      ∀ more ending, reader.run ⟨tokens ++ more, ending⟩ = .ok (a, ⟨more, ending⟩) := by
  rcases hfinish : lexer.finish with ⟨tokens, ending⟩
  cases reads.handles_all [] tokens with
  | @done token used rest value b heq goes run =>
    subst heq
    rw [whole_of_run_ok hfinish (run rest ending)] at h
    split at h
    case isTrue whole =>
      obtain ⟨rfl, rfl⟩ := whole
      cases h
      rw [List.append_nil]
      exact ⟨_, value, rfl, goes, run⟩
    case isFalse => cases h
  | failed failed =>
    obtain ⟨fault, -, run⟩ := failed.exists_fault ending
    cases (whole_of_run_error hfinish run).symm.trans h
  | starved demand _ _ starves =>
    cases (whole_of_run_error hfinish (starves.run ending)).symm.trans h

/-- A text that is a value is not cut short, whatever is to be read from it. -/
theorem whole_ne_cut (reads : Reads false .read reader) (h : IsDocument text) :
    Reader.whole reader (Lexer.feed {} text) ≠ .error .cut := by
  obtain ⟨tokens, value, hfinish, goes⟩ := isDocument_iff.mp h
  cases reads.handles_all [] tokens with
  | @done token used rest value b heq goes run =>
    subst heq
    rw [whole_of_run_ok hfinish (run rest _)]
    split <;> nofun
  | failed failed =>
    obtain ⟨fault, hfault, run⟩ := failed.exists_fault .finished
    rw [whole_of_run_error hfinish run]
    exact fun h => hfault (Except.error.inj h)
  | starved demand goes' => cases goes.unique goes'

/-! ## A part of the tokens -/

/-- What has been read of a text leads to the tokens of the text. -/
theorem leadsTo_of_finish_append
    (h : (Lexer.feed {} (text ++ more)).finish = (tokens, .finished)) :
    (Lexer.feed {} text).LeadsTo tokens := by
  rw [Lexer.feed_append] at h
  exact Lexer.leadsTo_of_finish_feed (@Lexer.isSound_feed {} trivial text) h

/-- Nothing is under way behind what is read, since a record does not end in a numeral. -/
theorem between_of_whole (reads : Reads false .read reader) (h : Reader.whole reader lexer = .ok a) :
    lexer.mode = .between := by
  obtain ⟨tokens, value, hfinish, -, run⟩ := goes_of_whole reads h
  obtain ⟨before, mode⟩ := lexer
  cases mode with
  | between => rfl
  | literal | string | escape | paired | pairedEscape | code | malformed => cases hfinish
  | numeral part bytes =>
    exfalso
    unfold Lexer.finish at hfinish
    simp only at hfinish
    split at hfinish
    case isFalse => cases hfinish
    have run := run [] .finished
    rw [List.append_nil, ← (Prod.mk.inj hfinish).1, List.reverse_cons] at run
    cases reads.handles_all [] before.reverse with
    | @done token used rest value b heq goes run' =>
      rw [heq, List.append_assoc, run'] at run
      have left := congrArg Source.tokens (Prod.mk.inj (Except.ok.inj run)).2
      exact List.append_ne_nil_of_right_ne_nil rest (List.cons_ne_nil _ []) left
    | failed failed =>
      obtain ⟨fault, -, run'⟩ := failed
      cases run.symm.trans (run' _ _)
    | starved demand _ _ starves =>
      by_cases takes : demand.takes (Lexer.numeralToken bytes)
      · rcases starves.number _ takes with cut | ⟨leaf, -⟩
        · cases run.symm.trans cut
        · cases leaf
      · obtain ⟨fault, -, run'⟩ := (starves.refuses _ takes).exists_fault .finished
        cases run.symm.trans run'

theorem goes_tokens_of_whole (reads : Reads false .read reader)
    (h : Reader.whole reader lexer = .ok a) :
    lexer.finish = (lexer.tokens.reverse, .finished) ∧
      (∃ value, Goes (.open {}) lexer.tokens.reverse (.done value)) ∧
      ∀ more ending, reader.run ⟨lexer.tokens.reverse ++ more, ending⟩ = .ok (a, ⟨more, ending⟩) := by
  obtain ⟨tokens, value, hfinish, goes, run⟩ := goes_of_whole reads h
  have between := between_of_whole reads h
  obtain ⟨before, mode⟩ := lexer
  obtain rfl : mode = .between := between
  cases hfinish
  exact ⟨rfl, ⟨value, goes⟩, run⟩

/-- What is read from part of a text is all that there is to read. -/
theorem whole_append (reads : Reads false .read reader) (document : IsDocument (text ++ more))
    (h : Reader.whole reader (Lexer.feed {} text) = .ok a) :
    Reader.whole reader (Lexer.feed {} (text ++ more)) = .ok a := by
  obtain ⟨tokens, value, hfinish, goes⟩ := isDocument_iff.mp document
  obtain ⟨-, ⟨value', goes'⟩, run⟩ := goes_tokens_of_whole reads h
  obtain ⟨rest, rfl, -⟩ := leadsTo_of_finish_append hfinish
  obtain ⟨step, front, back⟩ := goes.of_append
  cases front.unique goes'
  obtain rfl := back.eq_nil
  rw [whole_of_run_ok hfinish (run [] .finished)]
  rfl

/-- Nothing is read from a text that is unfinished. -/
theorem whole_ne_ok (reads : Reads false .read reader) (unfinished : IsUnfinished (text ++ more)) :
    Reader.whole reader (Lexer.feed {} text) ≠ .ok a := by
  intro h
  obtain ⟨incomplete, rest, document⟩ := unfinished
  obtain ⟨tokens, value, hfinish, goes⟩ := isDocument_iff.mp document
  obtain ⟨-, ⟨value', goes'⟩, -⟩ := goes_tokens_of_whole reads h
  -- all tokens are there, so that no more can come
  obtain ⟨front, hfront⟩ := Lexer.suffix_tokens_feed (Lexer.feed {} text) more
  rw [← Lexer.feed_append] at hfront
  obtain ⟨others, rfl, promises⟩ := leadsTo_of_finish_append hfinish
  rw [← hfront, List.reverse_append, List.append_assoc] at goes
  obtain ⟨step, goes, back⟩ := goes.of_append
  cases goes.unique goes'
  obtain ⟨hnew, rfl⟩ := List.append_eq_nil_iff.mp back.eq_nil
  obtain rfl := List.reverse_eq_nil_iff.mp hnew
  have between := Lexer.eq_between_of_promises_nil promises
  refine incomplete (isDocument_iff.mpr ⟨(Lexer.feed {} text).tokens.reverse, value', ?_, goes'⟩)
  rw [List.nil_append] at hfront
  rw [hfront]
  unfold Lexer.finish
  rw [between]

/-! ## A part that breaks off -/

section Starving

variable {builder : Builder} {next : Step} {demand : Reader.Demand} {rest : List Token}

theorem wanted_of_step_literal {token : Token}
    (literal : token = .null ∨ token = .true ∨ token = .false)
    (h : builder.step .skim 0 token = .ok next) :
    builder.wanted = .value ∨ builder.wanted = .valueOrClose := by
  obtain ⟨stack, wanted⟩ := builder
  cases wanted with
  | value => exact .inl rfl
  | valueOrClose => exact .inr rfl
  | name | nameOrClose | colon | commaOrClose =>
    obtain rfl | rfl | rfl := literal <;> rcases stack with _ | ⟨_ | _, _⟩ <;> cases h

theorem wanted_of_step_string {text : Option String}
    (h : builder.step .skim 0 (.string text) = .ok next) :
    (builder.wanted = .value ∨ builder.wanted = .valueOrClose) ∨
      builder.wanted = .name ∨ builder.wanted = .nameOrClose := by
  obtain ⟨stack, wanted⟩ := builder
  cases wanted with
  | value => exact .inl (.inl rfl)
  | valueOrClose => exact .inl (.inr rfl)
  | name => exact .inr (.inl rfl)
  | nameOrClose => exact .inr (.inr rfl)
  | colon => cases h
  | commaOrClose => rcases stack with _ | ⟨_ | _, _⟩ <;> cases h

/-- A part that breaks off in a string is cut short, unless the string is flawed and read. -/
theorem cut_of_inString {text : Option String} {flawed : Bool}
    (starves : Reader.Starves false reader tokens demand)
    (wanted : builder.wanted = demand.wanted)
    (step : builder.step .skim 0 (.string text) = .ok next)
    (continues : ¬ FailsAt reader (tokens ++ [.string text])) (unread : flawed → text = none) :
    (Ending.inString flawed).fault demand.manner demand.wanted = .cut := by
  have sound : ¬ (demand.manner = .read && flawed) := by
    intro h
    obtain ⟨hread, hflawed⟩ := (Bool.and_eq_true _ _).mp h
    obtain rfl := unread hflawed
    exact continues (starves.refuses _ (demand.string (of_decide_eq_true hread)))
  have hfault : Ending.stringFault demand.manner flawed = .cut := if_neg sound
  rw [← wanted]
  obtain (h | h) | h | h := wanted_of_step_string step <;>
    · rw [h]
      exact hfault

/-- A part that breaks off in a numeral is cut short, if the numeral may stand as it is. -/
theorem cut_of_numeral {part : NumeralPart} {bytes more : List UInt8} {before : List Token}
    (starves : Reader.Starves false reader before.reverse demand) (shaped : IsShaped part bytes)
    (steady : ¬ (Mode.numeral part bytes).IsDangling)
    (trimmed : Number.IsTrimmed (more ++ bytes).reverse)
    (continues : ¬ FailsAt reader (before.reverse ++ [Lexer.numeralToken (more ++ bytes)])) :
    Reader.whole reader ⟨before, .numeral part bytes⟩ = .error .cut := by
  have complete : part.isComplete := by
    by_contra incomplete
    exact steady fun complete => absurd complete incomplete
  have readable : (Number.ofBytes? bytes.reverse).isSome := by
    by_contra unreadable
    exact steady fun _ => Option.not_isSome_iff_eq_none.mp unreadable
  have sign : bytes.reverse ≠ [0x2d] := by
    intro heq
    obtain rfl := shaped.minus (List.reverse_eq_iff.mp heq)
    cases complete
  rw [List.reverse_append] at trimmed
  have curtails := Number.curtails_append readable sign trimmed
  have takes : demand.takes (Lexer.numeralToken (more ++ bytes)) := by
    by_contra refused
    exact continues (starves.refuses _ refused)
  rw [Lexer.numeralToken, List.reverse_append] at takes
  have hfinish : Lexer.finish ⟨before, .numeral part bytes⟩ =
      (before.reverse ++ [Lexer.numeralToken bytes], .finished) := by
    unfold Lexer.finish
    simp only [if_pos complete, List.reverse_cons]
  rcases starves.number _ (demand.curtails curtails takes) with cut | ⟨leaf, -⟩
  · exact whole_of_run_error hfinish cut
  · cases leaf

/-- A part of a text is cut short where reading starves, if what comes next is taken. -/
theorem whole_of_starves {token : Token} (sound : lexer.mode.IsSound) (steady : ¬ lexer.mode.IsDangling)
    (promises : lexer.mode.Promises (token :: rest))
    (starves : Reader.Starves false reader lexer.tokens.reverse demand)
    (wanted : builder.wanted = demand.wanted) (step : builder.step .skim 0 token = .ok next)
    (continues : ¬ FailsAt reader (lexer.tokens.reverse ++ [token])) :
    Reader.whole reader lexer = .error .cut := by
  obtain ⟨before, mode⟩ := lexer
  cases mode with
  | between => exact whole_of_run_error rfl (starves.run .finished)
  | literal others expected =>
    obtain ⟨_, heq⟩ := promises
    obtain ⟨rfl, -⟩ := List.cons.inj heq
    refine whole_of_run_error rfl ((starves.run .inLiteral).trans (congrArg _ ?_))
    rw [← wanted]
    obtain h | h := wanted_of_step_literal sound step <;>
      · rw [h]
        rfl
  | numeral part bytes =>
    obtain ⟨more, _, trimmed, heq⟩ := promises
    obtain ⟨rfl, -⟩ := List.cons.inj heq
    exact cut_of_numeral starves sound steady trimmed continues
  | string content | escape content | paired content | pairedEscape content | code content =>
    obtain ⟨text, _, heq, unread⟩ := promises
    obtain ⟨rfl, -⟩ := List.cons.inj heq
    exact whole_of_run_error rfl ((starves.run (.inString content.flawed)).trans
      (congrArg _ (cut_of_inString starves wanted step continues unread)))
  | malformed => exact promises.elim

end Starving

/-- What can be read from a whole text is read from part of it, or that is cut short, or breaks off in
a numeral that cannot stand as it is. -/
theorem whole_of_append (reads : Reads false .read reader)
    (h : Reader.whole reader (Lexer.feed {} (text ++ more)) = .ok a)
    (steady : ¬ (Lexer.feed {} text).mode.IsDangling) :
    Reader.whole reader (Lexer.feed {} text) = .ok a ∨
      Reader.whole reader (Lexer.feed {} text) = .error .cut := by
  obtain ⟨tokens, value, hfinish, goes, run⟩ := goes_of_whole reads h
  obtain ⟨rest, rfl, promises⟩ := leadsTo_of_finish_append hfinish
  have sound := @Lexer.isSound_feed {} trivial text
  generalize Lexer.feed {} text = lexer at *
  cases reads.handles_all [] lexer.tokens.reverse with
  | @done token used left value' b heq _ run' =>
    have run := run [] .finished
    have same := run
    rw [heq, List.append_nil, List.append_assoc, run'] at same
    have left := congrArg Source.tokens (Prod.mk.inj (Except.ok.inj same)).2
    obtain ⟨-, rfl⟩ := List.append_eq_nil_iff.mp left
    have hfinish : lexer.finish = (lexer.tokens.reverse, .finished) := by
      unfold Lexer.finish
      rw [Lexer.eq_between_of_promises_nil promises]
    rw [List.append_nil, List.append_nil] at run
    rw [whole_of_run_ok hfinish run]
    exact .inl rfl
  | failed failed =>
    obtain ⟨fault, -, run'⟩ := (failed.append (rest ++ [])).exists_fault .finished
    rw [← List.append_assoc] at run'
    cases (run [] .finished).symm.trans run'
  | @starved builder demand goes' wanted starves =>
    obtain ⟨step, goes'', back⟩ := goes.of_append
    cases goes'.unique goes''
    cases back with
    | @cons _ token others next _ step =>
      refine .inr (whole_of_starves sound steady promises starves wanted step fun failed => ?_)
      obtain ⟨fault, -, run'⟩ := failed.append others
      rw [List.append_assoc] at run'
      cases (run [] .finished).symm.trans (run' [] .finished)

end Rebalancing.Json
