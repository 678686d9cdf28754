import Mathlib.Data.List.Infix
import Rebalancing.Json.Record
import Rebalancing.Proofs.Json.Numeral
import Rebalancing.Proofs.Json.Skim

/-!
# Reading tokens that break off

A reader is done with tokens, fails on them, or starves: it has taken them all, and wants more.
The first two it does whatever comes behind the tokens, and whenever it starves or is done,
skimming stands at the same place of the text.  `Handles` says so of a reader, and is carried
from values through records.
-/

namespace Rebalancing.Json

open Builder (Goes Step complete)
open Number (Curtails)

namespace Reader

variable {α β : Type} {leaf leaf' : Bool} {manner : Manner} {wanted : Wanted}
  {stack stack' : List Frame} {start mid : Step} {reader reader' : Reader α} {token : Token} {tokens front more : List Token}

/-! ## Failing and starving -/

/-- A reader fails on tokens, whatever comes behind them, and not for want of them. -/
def FailsAt (reader : Reader α) (tokens : List Token) : Prop :=
  ∃ fault, fault ≠ .cut ∧
    ∀ more ending, reader.run ⟨tokens ++ more, ending⟩ = .error fault

/-- What a starving reader wants, and which tokens it takes. -/
structure Demand where
  manner : Manner
  wanted : Wanted
  takes : Token → Prop
  string : manner = .read → ¬ takes (.string none)
  /-- What is taken of a whole numeral is taken of one that is cut short. -/
  curtails {short long : Option Number} :
    Curtails short long → takes (.number long) → takes (.number short)

/-- A reader has taken all tokens, and wants more.  A number that it takes may be the `leaf` that it is
done with. -/
structure Starves (leaf : Bool) (reader : Reader α) (tokens : List Token) (demand : Demand) : Prop where
  run ending : reader.run ⟨tokens, ending⟩ = .error (ending.fault demand.manner demand.wanted)
  refuses token : ¬ demand.takes token → FailsAt reader (tokens ++ [token])
  number value : demand.takes (.number value) →
    reader.run ⟨tokens ++ [.number value], .finished⟩ = .error .cut ∨
      leaf = true ∧ ∃ a, reader.run ⟨tokens ++ [.number value], .finished⟩ = .ok (a, ⟨[], .finished⟩)

/-- What a reader that completes a value inside `stack` makes of tokens, from where skimming stands at
`start`. -/
inductive Handles (leaf : Bool) (stack : List Frame) (start : Step) (reader : Reader α)
    (tokens : List Token) : Prop
  | done {token : Token} {used rest : List Token} {value : Json} (a : α) :
      tokens = token :: used ++ rest → Goes start (token :: used) (complete stack value) →
      (∀ more ending, reader.run ⟨token :: used ++ more, ending⟩ = .ok (a, ⟨more, ending⟩)) →
      Handles leaf stack start reader tokens
  | failed : FailsAt reader tokens → Handles leaf stack start reader tokens
  | starved {builder : Builder} (demand : Demand) : Goes start tokens (.open builder) →
      builder.wanted = demand.wanted → Starves leaf reader tokens demand →
      Handles leaf stack start reader tokens

/-- A reader of a value, wherever one may come next. -/
structure Reads (leaf : Bool) (manner : Manner) (reader : Reader α) : Prop where
  starts : ∃ demand : Demand, demand.manner = manner ∧ demand.wanted = .value ∧
    Starves leaf reader [] demand
  handles stack token tokens :
    Handles leaf stack (.open ⟨stack, .value⟩) reader (token :: tokens)

/-! ## Composition -/

theorem run_bind_ok {k : α → Reader β} {source rest : Source} {a : α}
    (h : reader.run source = .ok (a, rest)) : (reader >>= k).run source = (k a).run rest := by
  rw [StateT.run_bind, h]
  rfl

theorem run_bind_error {k : α → Reader β} {source : Source} {fault : Fault}
    (h : reader.run source = .error fault) : (reader >>= k).run source = .error fault := by
  rw [StateT.run_bind, h]
  rfl

theorem FailsAt.exists_fault (h : FailsAt reader tokens) (ending : Ending) :
    ∃ fault, fault ≠ .cut ∧ reader.run ⟨tokens, ending⟩ = .error fault := by
  obtain ⟨fault, hfault, run⟩ := h
  have hrun := run [] ending
  rw [List.append_nil] at hrun
  exact ⟨fault, hfault, hrun⟩

theorem FailsAt.append (h : FailsAt reader tokens) (more : List Token) :
    FailsAt reader (tokens ++ more) := by
  obtain ⟨fault, hfault, run⟩ := h
  exact ⟨fault, hfault, fun others ending => by rw [List.append_assoc, run]⟩

theorem FailsAt.bind (h : FailsAt reader tokens) (k : α → Reader β) :
    FailsAt (reader >>= k) tokens := by
  obtain ⟨fault, hfault, run⟩ := h
  exact ⟨fault, hfault, fun more ending => run_bind_error (run more ending)⟩

theorem Reads.handles_all (reads : Reads leaf manner reader) (stack : List Frame)
    (tokens : List Token) : Handles leaf stack (.open ⟨stack, .value⟩) reader tokens := by
  cases tokens with
  | nil =>
    obtain ⟨demand, -, hwanted, starves⟩ := reads.starts
    exact .starved demand (.refl _) hwanted.symm starves
  | cons token tokens => exact reads.handles stack token tokens

/-- A reader that is done has taken tokens. -/
theorem Reads.length_lt (reads : Reads leaf manner reader) {source rest : Source} {a : α}
    (h : reader.run source = .ok (a, rest)) : rest.tokens.length < source.tokens.length := by
  obtain ⟨tokens, ending⟩ := source
  cases reads.handles_all [] tokens with
  | @done token used left value a' heq _ run =>
    subst heq
    rw [run left ending] at h
    cases h
    show left.length < (token :: (used ++ left)).length
    rw [List.length_cons, List.length_append]
    omega
  | failed failed =>
    obtain ⟨fault, -, run⟩ := failed.exists_fault ending
    cases h.symm.trans run
  | starved demand _ _ starves => cases h.symm.trans (starves.run ending)

/-- One token may be all that there is to a value. -/
theorem Handles.single {builder : Builder} {value : Json} (a : α)
    (step : builder.step .skim 0 token = .ok (complete stack value))
    (run : ∀ more ending, reader.run ⟨token :: more, ending⟩ = .ok (a, ⟨more, ending⟩)) :
    Handles leaf stack (.open builder) reader (token :: tokens) :=
  .done a (List.singleton_append).symm (.single step) run

/-- What goes on behind some tokens as another reader does, on whatever starts as `tokens` do. -/
def GoesOn (reader' : Reader α) (front : List Token) (reader : Reader α) (tokens : List Token) : Prop :=
  ∀ more ending, tokens.take 1 <+: more →
    reader'.run ⟨front ++ more, ending⟩ = reader.run ⟨more, ending⟩

theorem GoesOn.append (agree : GoesOn reader' front reader tokens) (more : List Token) :
    GoesOn reader' front reader (tokens ++ more) := fun others ending starts =>
  agree others ending ((List.IsPrefix.take (List.prefix_append tokens more) 1).trans starts)

theorem GoesOn.run (agree : GoesOn reader' front reader tokens) (more : List Token) (ending : Ending) :
    reader'.run ⟨front ++ tokens ++ more, ending⟩ = reader.run ⟨tokens ++ more, ending⟩ := by
  rw [List.append_assoc]
  exact agree _ _ ((List.take_prefix 1 tokens).trans (List.prefix_append tokens more))

theorem GoesOn.run_nil (agree : GoesOn reader' front reader tokens) (ending : Ending) :
    reader'.run ⟨front ++ tokens, ending⟩ = reader.run ⟨tokens, ending⟩ :=
  agree _ _ (List.take_prefix 1 tokens)

theorem FailsAt.after (agree : GoesOn reader' front reader tokens) (h : FailsAt reader tokens) :
    FailsAt reader' (front ++ tokens) := by
  obtain ⟨fault, hfault, run⟩ := h
  exact ⟨fault, hfault, fun more ending => (agree.run more ending).trans (run more ending)⟩

theorem Starves.after {demand : Demand} (agree : GoesOn reader' front reader tokens)
    (h : Starves leaf reader tokens demand) : Starves leaf reader' (front ++ tokens) demand where
  run ending := (agree.run_nil ending).trans (h.run ending)
  refuses token refused := by
    rw [List.append_assoc]
    exact (h.refuses token refused).after (agree.append [token])
  number value takes := by
    rw [agree.run]
    exact h.number value takes

/-- A reader that goes on like another one behind some tokens handles them like that one. -/
theorem Handles.after (front : List Token) (h : Handles leaf stack mid reader tokens)
    (goes : Goes start front mid) (agree : GoesOn reader' front reader tokens) :
    Handles leaf stack start reader' (front ++ tokens) := by
  cases h with
  | @done token used rest value a heq goes' run =>
    subst heq
    -- at least one token is used, so that what follows starts alike
    have first (more : List Token) : (token :: used ++ rest).take 1 <+: token :: used ++ more :=
      List.cons_prefix_cons.mpr ⟨rfl, List.nil_prefix⟩
    cases front with
    | nil =>
      cases goes
      exact .done a rfl goes' fun more ending => (agree _ ending (first more)).trans (run more ending)
    | cons token' front =>
      refine .done a (List.append_assoc _ _ _).symm (goes.trans goes') fun more ending => ?_
      show reader'.run ⟨(token' :: front) ++ (token :: used) ++ more, ending⟩ = _
      rw [List.append_assoc]
      exact (agree _ ending (first more)).trans (run more ending)
  | failed failed => exact .failed (failed.after agree)
  | starved demand goes' wanted starves =>
    exact .starved demand (goes.trans goes') wanted (starves.after agree)

theorem goesOn_cons (h : ∀ more ending,
    reader'.run ⟨front ++ token :: more, ending⟩ = reader.run ⟨token :: more, ending⟩) :
    GoesOn reader' front reader (token :: tokens) := by
  rintro more ending ⟨rest, rfl⟩
  exact h rest ending

/-- A reader that starves where another one would start, and goes on like that one on all tokens but
one. -/
theorem Starves.behind {demand demand' : Demand} (h : Starves leaf reader [] demand) (other : Token)
    (hother : ∀ value, other ≠ .number value)
    (run : ∀ ending, reader'.run ⟨front, ending⟩ =
      .error (ending.fault demand'.manner demand'.wanted))
    (agree : ∀ token, token ≠ other → GoesOn reader' front reader [token])
    (same : ∀ token, token ≠ other → (demand'.takes token ↔ demand.takes token))
    (refused : ¬ demand'.takes other → FailsAt reader' (front ++ [other])) :
    Starves leaf reader' front demand' where
  run := run
  refuses token hrefused := by
    by_cases heq : token = other
    · subst heq
      exact refused hrefused
    · exact (h.refuses token fun takes => hrefused ((same token heq).mpr takes)).after
        (agree token heq)
  number value takes := by
    have heq := (hother value).symm
    rw [(agree _ heq).run_nil]
    exact h.number value ((same _ heq).mp takes)

theorem Starves.bind {demand : Demand} {k : α → Reader β} (h : Starves leaf reader tokens demand)
    (hnil : leaf = true → ∀ a, (k a).run ⟨[], .finished⟩ = .error .cut) :
    Starves leaf' (reader >>= k) tokens demand where
  run ending := run_bind_error (h.run ending)
  refuses token refused := (h.refuses token refused).bind k
  number value takes := by
    rcases h.number value takes with cut | ⟨isLeaf, a, run⟩
    · exact .inl (run_bind_error cut)
    · exact .inl ((run_bind_ok run).trans (hnil isLeaf a))

/-- A reader that hands over to further ones, which want more if there is none. -/
theorem Handles.bind {k : α → Reader β} (h : Handles leaf stack start reader tokens)
    (hk : ∀ a value rest, rest.length < tokens.length →
      Handles leaf' stack' (complete stack value) (k a) rest)
    (hnil : leaf = true → ∀ a, (k a).run ⟨[], .finished⟩ = .error .cut) :
    Handles leaf' stack' start (reader >>= k) tokens := by
  cases h with
  | @done token used rest value a heq goes run =>
    subst heq
    refine (hk a value rest ?_).after _ goes fun more ending _ => run_bind_ok (run more ending)
    rw [List.length_append, List.length_cons]
    omega
  | failed failed => exact .failed (failed.bind k)
  | starved demand goes wanted starves => exact .starved demand goes wanted (starves.bind hnil)

/-! ## Values -/

theorem run_checked_ok {check : α → Option β} {source rest : Source} {a : α} {b : β}
    (h : reader.run source = .ok (a, rest)) (hcheck : check a = some b) :
    (checked reader check).run source = .ok (b, rest) := by
  unfold checked
  rw [run_bind_ok h, hcheck]
  rfl

theorem run_checked_error {check : α → Option β} {source : Source} {fault : Fault}
    (h : reader.run source = .error fault) : (checked reader check).run source = .error fault :=
  run_bind_error h

theorem Starves.checked {check : α → Option β} {demand : Demand} (h : Starves leaf reader tokens demand)
    (total : leaf = true → ∀ a, (check a).isSome) :
    Starves leaf (checked reader check) tokens demand where
  run ending := run_checked_error (h.run ending)
  refuses token refused := (h.refuses token refused).bind _
  number value takes := by
    rcases h.number value takes with cut | ⟨isLeaf, a, run⟩
    · exact .inl (run_checked_error cut)
    · obtain ⟨b, hcheck⟩ := Option.isSome_iff_exists.mp (total isLeaf a)
      exact .inr ⟨isLeaf, b, run_checked_ok run hcheck⟩

/-- A check does not matter where tokens break off, as long as none is made of a number that is still to
come. -/
theorem Handles.checked {check : α → Option β} (h : Handles leaf stack start reader tokens)
    (total : leaf = true → ∀ a, (check a).isSome) :
    Handles leaf stack start (checked reader check) tokens := by
  cases h with
  | @done token used rest value a heq goes run =>
    cases hcheck : check a with
    | some b => exact .done b heq goes fun more ending => run_checked_ok (run more ending) hcheck
    | none =>
      have failed : FailsAt (Reader.checked reader check) (token :: used) := by
        refine ⟨.mismatch, nofun, fun more ending => ?_⟩
        unfold Reader.checked
        rw [run_bind_ok (run more ending), hcheck]
        rfl
      exact heq ▸ .failed (failed.append rest)
  | failed failed => exact .failed (failed.bind _)
  | starved demand goes wanted starves => exact .starved demand goes wanted (starves.checked total)

theorem Reads.checked {check : α → Option β} (reads : Reads leaf manner reader)
    (total : leaf = true → ∀ a, (check a).isSome) : Reads leaf manner (checked reader check) where
  starts :=
    let ⟨demand, hmanner, hwanted, starves⟩ := reads.starts
    ⟨demand, hmanner, hwanted, starves.checked total⟩
  handles stack token tokens := (reads.handles stack token tokens).checked total

/-- What is read may be put to any use. -/
theorem Reads.map (put : α → β) (reads : Reads leaf manner reader) :
    Reads leaf manner (do return put (← reader)) :=
  @Reads.checked _ _ _ _ _ (fun a => some (put a)) reads fun _ _ => rfl

theorem Starves.weaken {demand : Demand} (h : Starves false reader tokens demand) :
    Starves true reader tokens demand where
  run := h.run
  refuses := h.refuses
  number value takes := .inl ((h.number value takes).resolve_right fun ⟨leaf, _⟩ => nomatch leaf)

theorem Handles.weaken (h : Handles false stack start reader tokens) :
    Handles true stack start reader tokens := by
  cases h with
  | done a heq goes run => exact .done a heq goes run
  | failed failed => exact .failed failed
  | starved demand goes wanted starves => exact .starved demand goes wanted starves.weaken

theorem Reads.weaken (reads : Reads false manner reader) : Reads true manner reader where
  starts :=
    let ⟨demand, hmanner, hwanted, starves⟩ := reads.starts
    ⟨demand, hmanner, hwanted, starves.weaken⟩
  handles stack token tokens := (reads.handles stack token tokens).weaken

/-- A reader that is done with one token, or refuses it. -/
theorem reads_token (take : Token → Except Fault α)
    (hnil : ∀ ending, reader.run ⟨[], ending⟩ = .error (ending.fault .read .value))
    (hcons : ∀ token more ending,
      reader.run ⟨token :: more, ending⟩ = (take token).map (·, ⟨more, ending⟩))
    (herror : ∀ token fault, take token = .error fault → fault ≠ .cut)
    (hvalue : ∀ token a, take token = .ok a → ∃ value, ∀ stack,
      Builder.value .skim 0 stack token = .ok (complete stack value))
    (hstring : ∀ a, take (.string none) ≠ .ok a)
    (hcurtails : ∀ short long a, Curtails short long → take (.number long) = .ok a →
      ∃ b, take (.number short) = .ok b) : Reads true .read reader where
  starts := by
    refine ⟨⟨.read, .value, fun token => ∃ a, take token = .ok a, fun _ ⟨a, h⟩ => hstring a h,
      fun {short long} cut ⟨a, h⟩ => hcurtails short long a cut h⟩, rfl, rfl, hnil, ?_, ?_⟩
    · intro token refused
      cases htake : take token with
      | error fault =>
        exact ⟨fault, herror token fault htake, fun more ending => by
          rw [List.nil_append, List.singleton_append, hcons, htake]
          rfl⟩
      | ok a => exact absurd ⟨a, htake⟩ refused
    · intro value takes
      obtain ⟨a, htake⟩ := takes
      exact .inr ⟨rfl, a, by rw [List.nil_append, hcons, htake]; rfl⟩
  handles stack token tokens := by
    cases htake : take token with
    | error fault =>
      exact .failed ⟨fault, herror token fault htake, fun more ending => by
        rw [List.cons_append, hcons, htake]
        rfl⟩
    | ok a =>
      obtain ⟨value, hstep⟩ := hvalue token a htake
      exact .single a (hstep stack) fun more ending => by
        rw [hcons, htake]
        rfl

theorem refusal_ne_cut (token : Token) : refusal token ≠ .cut := by
  unfold refusal
  split <;> exact Fault.noConfusion

/-- The text of a token. -/
def textOf : Token → Except Fault String
  | .string (some text) => .ok text
  | token => .error (refusal token)

theorem reads_text : Reads true .read text := by
  refine reads_token textOf (fun _ => rfl) ?_ ?_ ?_ (fun _ => nofun)
    (fun _ _ _ _ => nofun)
  · rintro (_ | _ | _ | _ | _ | _ | _ | _ | _ | (_ | text) | _) more ending <;> rfl
  · intro token fault h
    unfold textOf at h
    split at h
    case h_1 => cases h
    case h_2 =>
      cases h
      exact refusal_ne_cut token
  · intro token a h
    unfold textOf at h
    split at h
    case h_1 text => exact ⟨.string text, fun _ => rfl⟩
    case h_2 => cases h

/-- The integer of a token, if it is between two bounds. -/
def integerOf (low high : Int) : Token → Except Fault Int
  | .number (some (.integer n)) => if low ≤ n ∧ n ≤ high then .ok n else .error .mismatch
  | token => .error (refusal token)

theorem integerOf_eq_ok {low high n : Int} (h : integerOf low high token = .ok n) :
    token = .number (some (.integer n)) ∧ low ≤ n ∧ n ≤ high := by
  unfold integerOf at h
  split at h
  case h_1 m =>
    split at h
    case isTrue bounds =>
      cases h
      exact ⟨rfl, bounds⟩
    case isFalse => cases h
  case h_2 => cases h

/-- An integer between bounds is read, as long as zero is between them. -/
theorem reads_integer {low high : Int} (hlow : low ≤ 0) (hhigh : 0 ≤ high) :
    Reads true .read (integer low high) := by
  refine reads_token (integerOf low high) (fun _ => rfl) ?_ ?_ ?_ (fun _ => nofun) ?_
  · rintro (_ | _ | _ | _ | _ | _ | _ | _ | _ | _ | (_ | (n | _))) more ending
    case number.some.integer =>
      show (if low ≤ n ∧ n ≤ high then pure n else fail .mismatch : Reader Int).run _ =
        (if low ≤ n ∧ n ≤ high then .ok n else .error .mismatch : Except Fault Int).map _
      split <;> rfl
    all_goals rfl
  · intro token fault h
    unfold integerOf at h
    split at h
    case h_1 =>
      split at h
      · cases h
      · cases h
        exact Fault.noConfusion
    case h_2 =>
      cases h
      exact refusal_ne_cut token
  · intro token n h
    obtain ⟨rfl, -⟩ := integerOf_eq_ok h
    exact ⟨.number (.integer n), fun _ => rfl⟩
  · intro short long n cut h
    obtain ⟨hlong, bounds⟩ := integerOf_eq_ok h
    obtain ⟨m, rfl, hm⟩ := cut.integer (Token.number.inj hlong)
    exact ⟨m, if_pos (by omega)⟩

/-- What a builder takes next. -/
def demandOf (manner : Manner) (outer : Nat) (builder : Builder) : Demand where
  manner := manner
  wanted := builder.wanted
  takes token := ∃ next, builder.step manner outer token = .ok next
  string := by
    rintro rfl ⟨next, h⟩
    obtain ⟨stack, wanted⟩ := builder
    have hclose : Builder.close stack (.string none) = .error .malformed := by
      rcases stack with _ | ⟨_ | _, _⟩ <;> rfl
    have hname : Builder.name .read stack (.string none) = .error .malformed := by
      rcases stack with _ | ⟨_ | _, _⟩ <;> rfl
    cases wanted with
    | value | valueOrClose | colon => cases h
    | name | nameOrClose => cases hname.symm.trans h
    | commaOrClose => cases hclose.symm.trans h
  curtails := by
    rintro short long cut ⟨next, h⟩
    obtain ⟨stack, wanted⟩ := builder
    obtain ⟨number, rfl⟩ := Option.isSome_iff_exists.mp cut.isSome
    have hclose : Builder.close stack (.number long) = .error .malformed := by
      rcases stack with _ | ⟨_ | _, _⟩ <;> rfl
    have hname : Builder.name manner stack (.number long) = .error .malformed := by
      rcases stack with _ | ⟨_ | _, _⟩ <;> rfl
    cases wanted with
    | value | valueOrClose => exact ⟨complete stack (.number number), rfl⟩
    | name | nameOrClose => cases hname.symm.trans h
    | colon => cases h
    | commaOrClose => cases hclose.symm.trans h

theorem run_tree {outer : Nat} {ending : Ending} :
    (tree manner outer).run ⟨tokens, ending⟩ =
      match Builder.run manner outer ending {} tokens with
      | .error fault => .error fault
      | .ok (value, rest) => .ok (value, ⟨rest, ending⟩) := by
  show (match Builder.run manner outer ending {} tokens with
    | .error fault => fail fault
    | .ok (value, tokens) => do
      set ({ tokens, ending } : Source)
      return value : Reader Json).run ⟨tokens, ending⟩ = _
  cases Builder.run manner outer ending {} tokens <;> rfl

theorem starves_tree {outer : Nat} {builder : Builder}
    (same : ∀ more ending, Builder.run manner outer ending {} (tokens ++ more) =
      Builder.run manner outer ending builder more) :
    Starves true (tree manner outer) tokens (demandOf manner outer builder) where
  run ending := by
    have hrun := same [] ending
    rw [List.append_nil] at hrun
    rw [run_tree, hrun]
    rfl
  refuses token refused := by
    cases hstep : builder.step manner outer token with
    | error fault =>
      obtain rfl := Builder.eq_malformed_of_step hstep
      refine ⟨.malformed, nofun, fun more ending => ?_⟩
      rw [List.append_assoc, List.singleton_append, run_tree, same, Builder.run, hstep]
    | ok next => exact absurd ⟨next, hstep⟩ refused
  number value takes := by
    obtain ⟨next, hstep⟩ := takes
    rw [run_tree, same, Builder.run, hstep]
    cases next with
    | «open» => exact .inl rfl
    | done value => exact .inr ⟨rfl, value, rfl⟩

/-- A value of any kind. -/
theorem reads_tree (manner : Manner) (outer : Nat) : Reads true manner (tree manner outer) where
  starts := ⟨demandOf manner outer {}, rfl, rfl, starves_tree fun _ _ => rfl⟩
  handles stack token tokens := by
    have proper : (Step.open {}).IsProper := fun _ => rfl
    rcases Builder.run_cases manner outer proper (token :: tokens) with
      ⟨token', used, rest, value, heq, goes, done⟩ | failed | ⟨next, goes, same⟩
    · exact .done value heq (goes stack) fun more ending => by rw [run_tree, done]
    · refine .failed ⟨.malformed, nofun, fun more ending => ?_⟩
      rw [run_tree, failed]
    · exact .starved (demandOf manner outer next) (goes stack) rfl (starves_tree same)

theorem goesOn_optional (hnull : token ≠ .null) :
    GoesOn (optional reader) [] (checked reader fun a => some (some a)) (token :: tokens) :=
  goesOn_cons fun more ending => by
    show (if token = .null then (do skip; return none) else do return some (← reader) :
      Reader (Option α)).run _ = _
    rw [if_neg hnull]
    rfl

/-- A value that may be null. -/
theorem Reads.optional (reads : Reads leaf .read reader) : Reads leaf .read (optional reader) where
  starts := by
    obtain ⟨demand, hmanner, hwanted, starves⟩ := reads.starts
    refine ⟨⟨.read, .value, fun token => token = .null ∨ demand.takes token, ?_, ?_⟩, rfl, rfl,
      (starves.checked fun _ _ => rfl).behind .null nofun (fun _ => rfl)
        (fun _ => goesOn_optional) ?_ ?_⟩
    · exact fun _ h => demand.string hmanner (h.resolve_left nofun)
    · exact fun cut => Or.imp nofun (demand.curtails cut)
    · exact fun token hnull => or_iff_right hnull
    · exact fun refused => absurd (.inl rfl) refused
  handles stack token tokens := by
    by_cases hnull : token = .null
    · subst hnull
      exact .single none rfl fun _ _ => rfl
    · exact ((reads.handles stack token tokens).checked fun _ _ => rfl).after [] (.refl _)
        (goesOn_optional hnull)

end Reader

end Rebalancing.Json
