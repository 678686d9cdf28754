import Rebalancing.Json.Tree

/-!
# What tokens come to

A value that is read is put together by the same steps as one that is only skimmed, which
refuses less.  So skimming says what tokens are a value at all, and what comes next where they
break off.
-/

namespace Rebalancing.Json

namespace Builder

variable {manner : Manner} {outer : Nat} {ending : Ending} {builder : Builder} {token : Token}
  {tokens more rest : List Token} {first next last : Step} {stack : List Frame} {value : Json}

/-! ## Steps -/

/-- Skimming tokens leads from one step to another. -/
inductive Goes : Step → List Token → Step → Prop
  | refl (step : Step) : Goes step [] step
  | cons {builder : Builder} {token : Token} {tokens : List Token} {next last : Step} :
      builder.step .skim 0 token = .ok next → Goes next tokens last →
      Goes (.open builder) (token :: tokens) last

theorem Goes.single (h : builder.step .skim 0 token = .ok next) : Goes (.open builder) [token] next :=
  .cons h (.refl _)

theorem Goes.trans (front : Goes first tokens next) (back : Goes next more last) :
    Goes first (tokens ++ more) last := by
  induction front with
  | refl => exact back
  | cons h _ ih => exact .cons h (ih back)

theorem Goes.of_append (h : Goes first (tokens ++ more) last) :
    ∃ next, Goes first tokens next ∧ Goes next more last := by
  induction tokens generalizing first with
  | nil => exact ⟨first, .refl _, h⟩
  | cons token tokens ih =>
    cases h with
    | cons step h =>
      obtain ⟨next, front, back⟩ := ih h
      exact ⟨next, .cons step front, back⟩

theorem Goes.unique (h : Goes first tokens next) (h' : Goes first tokens last) : next = last := by
  induction h with
  | refl => cases h'; rfl
  | cons step _ ih =>
    cases h' with
    | cons step' h' =>
      cases step.symm.trans step'
      exact ih h'

/-- Nothing belongs to a value that is complete. -/
theorem Goes.eq_nil (h : Goes (.done value) tokens next) : tokens = [] := by
  cases h
  rfl

/-- What does not fit is no JSON text. -/
theorem eq_malformed_of_step {fault : Fault} (h : builder.step manner outer token = .error fault) :
    fault = .malformed := by
  obtain ⟨stack, wanted⟩ := builder
  have hvalue (h : Builder.value manner outer stack token = .error fault) : fault = .malformed := by
    unfold Builder.value leaf push at h
    grind
  have hclose (h : close stack token = .error fault) : fault = .malformed := by
    unfold close at h
    grind
  have hname (h : name manner stack token = .error fault) : fault = .malformed := by
    unfold name at h
    grind
  cases wanted with
  | value => exact hvalue h
  | valueOrClose | nameOrClose | commaOrClose =>
    simp only [step] at h
    grind
  | name => exact hname h
  | colon =>
    simp only [step] at h
    grind

/-! ## Values inside containers -/

/-- The step that a value leads to inside open containers. -/
def Step.lift (outside : List Frame) : Step → Step
  | .open builder => .open ⟨builder.stack ++ outside, builder.wanted⟩
  | .done value => complete outside value

/-- Outside all containers a value is wanted. -/
def Step.IsProper : Step → Prop
  | .open builder => builder.stack = [] → builder.wanted = .value
  | .done _ => True

theorem lift_complete (outside stack : List Frame) (value : Json) :
    (complete stack value).lift outside = complete (stack ++ outside) value := by
  cases stack with
  | nil => rfl
  | cons frame stack => cases frame <;> rfl

theorem isProper_complete (stack : List Frame) (value : Json) : (complete stack value).IsProper := by
  cases stack with
  | nil => trivial
  | cons frame stack => cases frame <;> exact fun h => absurd h (List.cons_ne_nil _ _)

theorem leaf_lift {value : Option Json} (outside : List Frame)
    (h : leaf manner stack value = .ok next) :
    leaf .skim (stack ++ outside) value = .ok (next.lift outside) ∧ next.IsProper := by
  cases value with
  | some value =>
    cases h
    exact ⟨congrArg Except.ok (lift_complete outside stack value).symm, isProper_complete _ _⟩
  | none =>
    cases manner with
    | read => cases h
    | skim =>
      cases h
      exact ⟨congrArg Except.ok (lift_complete outside stack .unreadable).symm, isProper_complete _ _⟩

theorem push_lift {frame : Frame} {wanted : Wanted} (outside : List Frame)
    (h : push manner outer stack frame wanted = .ok next) :
    push .skim 0 (stack ++ outside) frame wanted = .ok (next.lift outside) ∧ next.IsProper := by
  unfold push at h
  split at h
  case isTrue => cases h
  case isFalse =>
    cases h
    exact ⟨rfl, fun h => absurd h (List.cons_ne_nil _ _)⟩

theorem value_lift (outside : List Frame) (h : Builder.value manner outer stack token = .ok next) :
    Builder.value .skim 0 (stack ++ outside) token = .ok (next.lift outside) ∧ next.IsProper := by
  cases token with
  | null | true | false =>
    cases h
    exact ⟨congrArg Except.ok (lift_complete outside stack _).symm, isProper_complete _ _⟩
  | string | number => exact leaf_lift outside h
  | openBracket | openBrace => exact push_lift outside h
  | closeBrace | closeBracket | comma | colon => cases h

theorem close_lift (outside : List Frame) (h : close stack token = .ok next) :
    close (stack ++ outside) token = .ok (next.lift outside) ∧ next.IsProper := by
  unfold close at h
  split at h
  case h_1 | h_2 =>
    cases h
    exact ⟨congrArg Except.ok (lift_complete outside _ _).symm, isProper_complete _ _⟩
  case h_3 => cases h

theorem name_lift (outside : List Frame) (h : name manner stack token = .ok next) :
    name .skim (stack ++ outside) token = .ok (next.lift outside) ∧ next.IsProper := by
  unfold name at h
  split at h
  case h_1 =>
    split at h
    case h_3 => cases h
    all_goals
      cases h
      exact ⟨rfl, fun h => absurd h (List.cons_ne_nil _ _)⟩
  case h_2 => cases h

/-- A step that is taken in reading is taken in skimming as well, and inside containers too. -/
theorem step_lift (outside : List Frame) (proper : (Step.open builder).IsProper)
    (h : builder.step manner outer token = .ok next) :
    Builder.step .skim 0 ⟨builder.stack ++ outside, builder.wanted⟩ token = .ok (next.lift outside) ∧
      next.IsProper := by
  obtain ⟨stack, wanted⟩ := builder
  cases wanted with
  | value => exact value_lift outside h
  | valueOrClose =>
    simp only [step] at h ⊢
    by_cases closes : token = .closeBracket
    · rw [if_pos closes] at h ⊢
      exact close_lift outside h
    · rw [if_neg closes] at h ⊢
      exact value_lift outside h
  | name => exact name_lift outside h
  | nameOrClose =>
    simp only [step] at h ⊢
    by_cases closes : token = .closeBrace
    · rw [if_pos closes] at h ⊢
      exact close_lift outside h
    · rw [if_neg closes] at h ⊢
      exact name_lift outside h
  | colon =>
    simp only [step] at h ⊢
    by_cases colon : token = .colon
    · rw [if_pos colon] at h ⊢
      cases h
      exact ⟨rfl, fun _ => rfl⟩
    · rw [if_neg colon] at h
      cases h
  | commaOrClose =>
    simp only [step] at h ⊢
    by_cases comma : token = .comma
    · rw [if_pos comma] at h ⊢
      cases h
      cases stack with
      | nil => cases proper rfl
      | cons frame stack => cases frame <;> exact ⟨rfl, fun h => absurd h (List.cons_ne_nil _ _)⟩
    · rw [if_neg comma] at h ⊢
      exact close_lift outside h

/-! ## Runs -/

/-- A value that tokens come to, one that they break off in, or none at all. -/
theorem run_cases (manner : Manner) (outer : Nat) (proper : (Step.open builder).IsProper)
    (tokens : List Token) :
    (∃ token used rest value, tokens = token :: used ++ rest ∧
      (∀ outside, Goes ((Step.open builder).lift outside) (token :: used) (complete outside value)) ∧
      ∀ more ending, run manner outer ending builder (token :: used ++ more) = .ok (value, more)) ∨
    (∀ more ending, run manner outer ending builder (tokens ++ more) = .error .malformed) ∨
    ∃ next,
      (∀ outside, Goes ((Step.open builder).lift outside) tokens ((Step.open next).lift outside)) ∧
      ∀ more ending, run manner outer ending builder (tokens ++ more) =
        run manner outer ending next more := by
  induction tokens generalizing builder with
  | nil => exact .inr (.inr ⟨builder, fun _ => .refl _, fun _ _ => rfl⟩)
  | cons token tokens ih =>
    cases hstep : builder.step manner outer token with
    | error fault =>
      obtain rfl := eq_malformed_of_step hstep
      exact .inr (.inl fun more ending => by rw [List.cons_append, run, hstep])
    | ok next =>
      have taken (outside : List Frame) := (step_lift outside proper hstep).1
      cases next with
      | done value =>
        refine .inl ⟨token, [], tokens, value, rfl, fun outside => .single (taken outside),
          fun more ending => ?_⟩
        rw [List.cons_append, run, hstep]
        rfl
      | «open» next =>
        have hrun (more : List Token) (ending : Ending) :
            run manner outer ending builder (token :: more) =
              run manner outer ending next more := by
          rw [run, hstep]
        rcases ih (step_lift [] proper hstep).2 with
          ⟨token', used, rest, value, rfl, goes, done⟩ | failed | ⟨last, goes, same⟩
        · exact .inl ⟨token, token' :: used, rest, value, rfl,
            fun outside => .cons (taken outside) (goes outside),
            fun more ending => (hrun _ _).trans (done more ending)⟩
        · exact .inr (.inl fun more ending => (hrun _ _).trans (failed more ending))
        · exact .inr (.inr ⟨last, fun outside => .cons (taken outside) (goes outside),
            fun more ending => (hrun _ _).trans (same more ending)⟩)

theorem run_of_goes (h : Goes (.open builder) tokens (.done value)) :
    run .skim 0 ending builder tokens = .ok (value, []) := by
  generalize hfirst : Step.open builder = first at h
  generalize hlast : Step.done value = last at h
  induction h generalizing builder with
  | refl =>
    rw [← hfirst] at hlast
    cases hlast
  | @cons builder' token tokens next last step h ih =>
    obtain rfl := Step.open.inj hfirst
    rw [run, step]
    cases next with
    | done value' =>
      obtain rfl := h.eq_nil
      cases h
      cases hlast
      rfl
    | «open» next => exact ih rfl hlast

end Builder

open Builder (Goes)

/-- A text is a value if its tokens come to one, and nothing is left. -/
theorem ofLexer_skim_iff {lexer : Lexer} {value : Json} :
    ofLexer .skim lexer = .ok value ↔
      ∃ tokens, lexer.finish = (tokens, .finished) ∧ Goes (.open {}) tokens (.done value) := by
  have proper : (Builder.Step.open {}).IsProper := fun _ => rfl
  constructor
  · intro h
    unfold ofLexer at h
    rcases hfinish : lexer.finish with ⟨tokens, ending⟩
    rw [hfinish] at h
    rcases Builder.run_cases .skim 0 proper tokens with
      ⟨token, used, rest, value', rfl, goes, done⟩ | failed | ⟨next, -, same⟩
    · simp only [done rest ending] at h
      split at h
      case isTrue whole =>
        obtain ⟨rfl, rfl⟩ := whole
        cases h
        rw [List.append_nil]
        exact ⟨_, rfl, goes []⟩
      case isFalse => cases h
    · have hrun := failed [] ending
      rw [List.append_nil] at hrun
      simp only [hrun] at h
      cases h
    · have hrun := same [] ending
      rw [List.append_nil] at hrun
      simp only [hrun, Builder.run] at h
      cases h
  · rintro ⟨tokens, hfinish, goes⟩
    unfold ofLexer
    simp only [hfinish, Builder.run_of_goes goes]
    rfl

end Rebalancing.Json
