import Rebalancing.Proofs.Json.Reading

/-!
# Records that break off

Records are read as values are, field by field, whether they are given as arrays or as objects.
A reader of members is given fuel, which never runs out: it is as good as one that needs none, and
that one is followed from member to member.
-/

namespace Rebalancing.Json

open Builder (Goes Step complete)

namespace Reader

variable {α β : Type} {leaf : Bool} {wanted : Wanted} {stack stack' : List Frame} {start : Step}
  {reader : Reader α} {token : Token} {tokens more : List Token}

/-- A demand for one of some tokens, none of which is a number. -/
def Demand.mark (wanted : Wanted) (takes : Token → Prop) (string : ¬ takes (.string none))
    (number : ∀ value, ¬ takes (.number value)) : Demand :=
  ⟨.read, wanted, takes, fun _ => string, fun _ h => absurd h (number _)⟩

theorem starves_mark {takes : Token → Prop} {string : ¬ takes (.string none)}
    {number : ∀ value, ¬ takes (.number value)}
    (run : ∀ ending, reader.run ⟨tokens, ending⟩ = .error (ending.fault .read wanted))
    (refuses : ∀ token, ¬ takes token → FailsAt reader (tokens ++ [token])) :
    Starves leaf reader tokens (.mark wanted takes string number) where
  run := run
  refuses := refuses
  number value h := absurd h (number value)

variable {σ : Type} {fields : List (Field σ)} {field : Field σ} {record : σ} {outer : Nat}
  {ending : Ending}

/-- Fields that are read as values. -/
def AllRead (fields : List (Field σ)) : Prop :=
  ∀ field ∈ fields, ∀ record, Reads true .read (field.read record)

/-! ## Items -/

theorem run_items_nil : (items false record fields).run ⟨[], ending⟩ =
    .error (ending.fault .read .commaOrClose) := by
  cases fields <;> rfl

theorem run_items_close : (items false record fields).run ⟨.closeBracket :: more, ending⟩ =
    .ok (record, ⟨more, ending⟩) := by
  cases fields <;> rfl

theorem run_items_misfit (hclose : token ≠ .closeBracket) (hcomma : token ≠ .comma) :
    (items false record fields).run ⟨token :: more, ending⟩ = .error .malformed := by
  cases fields with
  | nil =>
    cases token with
    | closeBracket => exact absurd rfl hclose
    | _ => rfl
  | cons field rest =>
    cases token with
    | closeBracket => exact absurd rfl hclose
    | comma => exact absurd rfl hcomma
    | _ => rfl

/-- A field, and those behind it. -/
def itemsFrom (field : Field σ) (record : σ) (fields : List (Field σ)) : Reader σ :=
  field.read record >>= fun record => items false record fields

theorem goesOn_comma (hclose : token ≠ .closeBracket) :
    GoesOn (items false record (field :: fields)) [.comma] (itemsFrom field record fields)
      (token :: tokens) :=
  goesOn_cons fun more ending => by
    cases token with
    | closeBracket => exact absurd rfl hclose
    | _ => rfl

theorem goesOn_first (hclose : token ≠ .closeBracket) :
    GoesOn (items true record (field :: fields)) [] (itemsFrom field record fields)
      (token :: tokens) :=
  goesOn_cons fun more ending => by
    cases token with
    | closeBracket => exact absurd rfl hclose
    | _ => rfl

theorem handles_items_of_comma (done : List Json)
    (hcomma : ∀ tokens, Handles false stack (.open ⟨.items done :: stack, .commaOrClose⟩)
      (items false record fields) (.comma :: tokens)) (tokens : List Token) :
    Handles false stack (.open ⟨.items done :: stack, .commaOrClose⟩) (items false record fields)
      tokens := by
  cases tokens with
  | nil =>
    refine .starved (.mark .commaOrClose (fun token => token = .closeBracket ∨ token = .comma)
      (by simp) (by simp)) (.refl _) rfl (starves_mark (fun _ => run_items_nil) ?_)
    intro token refused
    exact ⟨.malformed, nofun, fun more ending =>
      run_items_misfit (not_or.mp refused).1 (not_or.mp refused).2⟩
  | cons token tokens =>
    by_cases hclose : token = .closeBracket
    · subst hclose
      exact .single record rfl fun _ _ => run_items_close
    by_cases comma : token = .comma
    · subst comma
      exact hcomma tokens
    · exact .failed ⟨.malformed, nofun, fun more ending => run_items_misfit hclose comma⟩

theorem handles_items (reads : AllRead fields) (record : σ) (done : List Json)
    (tokens : List Token) : Handles false stack (.open ⟨.items done :: stack, .commaOrClose⟩)
      (items false record fields) tokens := by
  induction fields generalizing record done tokens with
  | nil =>
    refine handles_items_of_comma done (fun tokens => ?_) tokens
    exact .failed ⟨.malformed, nofun, fun _ _ => rfl⟩
  | cons field rest ih =>
    refine handles_items_of_comma done (fun tokens => ?_) tokens
    obtain ⟨first, reads⟩ := List.forall_mem_cons.mp reads
    cases tokens with
    | nil =>
      -- behind a comma the array may not close, whatever the field takes
      obtain ⟨demand, hmanner, hwanted, starves⟩ := (first record).starts
      refine .starved ⟨.read, .value, fun token => token ≠ .closeBracket ∧ demand.takes token, ?_, ?_⟩
        (.single rfl) rfl ((starves.bind fun _ _ => run_items_nil).behind .closeBracket nofun
          (fun _ => rfl) (fun _ => goesOn_comma) ?_ ?_)
      · exact fun _ h => demand.string hmanner h.2
      · exact fun cut h => ⟨nofun, demand.curtails cut h.2⟩
      · exact fun token hclose => and_iff_right hclose
      · exact fun _ => ⟨.malformed, nofun, fun _ _ => rfl⟩
    | cons token tokens =>
      by_cases hclose : token = .closeBracket
      · subst hclose
        exact .failed ⟨.malformed, nofun, fun _ _ => rfl⟩
      · refine (Handles.bind ((first record).handles (.items done :: stack) token tokens) ?_
          fun _ _ => run_items_nil).after [.comma] (.single rfl) (goesOn_comma hclose)
        exact fun record value rest _ => ih reads record (value :: done) rest

/-- What starts with a value is handled alike where the container may close instead. -/
theorem Handles.orClose (h : Handles leaf stack' (.open ⟨stack, .value⟩) reader (token :: tokens))
    (hclose : token ≠ .closeBracket) :
    Handles leaf stack' (.open ⟨stack, .valueOrClose⟩) reader (token :: tokens) := by
  have restart {used : List Token} {last : Step}
      (goes : Goes (.open ⟨stack, .value⟩) (token :: used) last) :
      Goes (.open ⟨stack, .valueOrClose⟩) (token :: used) last := by
    cases goes with
    | cons step goes => exact .cons ((if_neg hclose).trans step) goes
  cases h with
  | done a heq goes run =>
    obtain ⟨rfl, -⟩ := List.cons.inj heq
    exact .done a heq (restart goes) run
  | failed failed => exact .failed failed
  | starved demand goes wanted starves => exact .starved demand (restart goes) wanted starves

/-- The first item, or the end. -/
theorem handles_firstItem (reads : AllRead (field :: fields)) (record : σ) (tokens : List Token) :
    Handles false stack (.open ⟨.items [] :: stack, .valueOrClose⟩)
      (items true record (field :: fields)) tokens := by
  obtain ⟨first, reads⟩ := List.forall_mem_cons.mp reads
  cases tokens with
  | nil =>
    obtain ⟨demand, hmanner, hwanted, starves⟩ := (first record).starts
    refine .starved ⟨.read, .valueOrClose, fun token => token = .closeBracket ∨ demand.takes token,
      ?_, ?_⟩ (.refl _) rfl ((starves.bind fun _ _ => run_items_nil).behind .closeBracket nofun
        (fun _ => rfl) (fun _ => goesOn_first) ?_ ?_)
    · exact fun _ h => demand.string hmanner (h.resolve_left nofun)
    · exact fun cut => Or.imp nofun (demand.curtails cut)
    · exact fun token hclose => or_iff_right hclose
    · exact fun refused => absurd (.inl rfl) refused
  | cons token tokens =>
    by_cases hclose : token = .closeBracket
    · subst hclose
      exact .single record rfl fun _ _ => rfl
    · refine (Handles.orClose (Handles.bind
        ((first record).handles (.items [] :: stack) token tokens) ?_
          fun _ _ => run_items_nil) hclose).after [] (.refl _) (goesOn_first hclose)
      exact fun record value rest _ => handles_items reads record [value] rest

/-! ## Members -/

/-- A known member is read, and another one skimmed. -/
def member (fields : List (Field σ)) (outer : Nat) (seen : List String) (record : σ) (name : String) :
    Reader (List String × σ) :=
  match fields.find? (·.name = name) with
  | some field => checked (field.read record) fun record => some (name :: seen, record)
  | none => checked (tree .skim outer) fun _ => some (seen, record)

/-- Whether a name is that of a known member that was there before. -/
def isRepeated (fields : List (Field σ)) (seen : List String) (name : String) : Bool :=
  (fields.find? (·.name = name)).isSome && seen.contains name

/-- The value of a member, and then `rest`. -/
def memberAnd (fields : List (Field σ)) (outer : Nat) (rest : List String → σ → Reader σ)
    (seen : List String) (record : σ) (name : String) : Reader σ := do
  let (seen, record) ← member fields outer seen record name
  rest seen record

/-- What follows the name of a member, and then `rest`. -/
def afterName (fields : List (Field σ)) (outer : Nat) (rest : List String → σ → Reader σ)
    (seen : List String) (record : σ) (name : String) : Reader σ := do
  if isRepeated fields seen name then fail .mismatch
  members.colon
  memberAnd fields outer rest seen record name

/-- A name, what follows it, and then `rest`. -/
def nameAnd (fields : List (Field σ)) (outer : Nat) (rest : List String → σ → Reader σ)
    (seen : List String) (record : σ) : Reader σ := do
  match ← next .name with
  | .string (some name) => afterName fields outer rest seen record name
  | _ => fail .malformed

/-- The members from here on, of which the first is followed by `rest`. -/
def membersAnd (fields : List (Field σ)) (outer : Nat) (rest : List String → σ → Reader σ)
    (seen : List String) (first : Bool) (record : σ) : Reader σ := do
  let token ← peek (if first then .nameOrClose else .commaOrClose)
  if token = .closeBrace then
    skip
    return record
  if !first then
    if token ≠ .comma then fail .malformed
    skip
  nameAnd fields outer rest seen record

/-- Reading members is reading one after the other. -/
theorem members_succ (fuel : Nat) (seen : List String) (first : Bool) (record : σ) :
    members fields outer (fuel + 1) seen first record =
      membersAnd fields outer (fun seen => members fields outer fuel seen false) seen first record := by
  have named (name : String) :
      (match fields.find? (·.name = name) with
        | some field => do
          if seen.contains name then fail .mismatch
          members.colon
          members fields outer fuel (name :: seen) false (← field.read record)
        | none => do
          members.colon
          let _ ← tree .skim outer
          members fields outer fuel seen false record) =
        afterName fields outer (fun seen => members fields outer fuel seen false) seen record name := by
    unfold afterName isRepeated memberAnd member
    cases fields.find? (·.name = name) with
    | none => simp [checked]
    | some field => simp [checked]
  unfold membersAnd nameAnd
  simp only [← named]
  rfl

/-! ## Fuel -/

theorem run_bind_congr {k k' : α → Reader β} {source : Source}
    (h : ∀ a rest, reader.run source = .ok (a, rest) → (k a).run rest = (k' a).run rest) :
    (reader >>= k).run source = (reader >>= k').run source := by
  rw [StateT.run_bind, StateT.run_bind]
  cases hrun : reader.run source with
  | error fault => rfl
  | ok result => exact h result.1 result.2 hrun

theorem run_afterName_of_repeated {rest : List String → σ → Reader σ} {seen : List String}
    {name : String} {source : Source} (h : isRepeated fields seen name) :
    (afterName fields outer rest seen record name).run source = .error .mismatch := by
  unfold afterName
  rw [if_pos h]
  rfl

theorem afterName_of_not_repeated {rest : List String → σ → Reader σ} {seen : List String}
    {name : String} (h : ¬ isRepeated fields seen name) :
    afterName fields outer rest seen record name =
      members.colon >>= fun _ => memberAnd fields outer rest seen record name := by
  simp [afterName, h]

theorem run_colon_misfit (h : token ≠ .colon) :
    members.colon.run ⟨token :: more, ending⟩ = .error .malformed := by
  cases token with
  | colon => exact absurd rfl h
  | _ => rfl

theorem reads_member (reads : AllRead fields) (seen : List String) (record : σ) (name : String) :
    ∃ manner, Reads true manner (member fields outer seen record name) := by
  unfold member
  cases hfield : fields.find? (·.name = name) with
  | none => exact ⟨.skim, (reads_tree .skim outer).checked fun _ _ => rfl⟩
  | some field =>
    exact ⟨.read, (reads field (List.mem_of_find?_eq_some hfield) record).checked fun _ _ => rfl⟩

section Congr

variable {rest rest' : List String → σ → Reader σ} {seen : List String}

/-- Two readers that do alike where fewer than `n` tokens are left. -/
def AgreeBelow (n : Nat) (rest rest' : List String → σ → Reader σ) : Prop :=
  ∀ seen record source, source.tokens.length < n →
    (rest seen record).run source = (rest' seen record).run source

theorem AgreeBelow.mono {m n : Nat} (h : AgreeBelow n rest rest') (le : m ≤ n) :
    AgreeBelow m rest rest' :=
  fun seen record source lt => h seen record source (Nat.lt_of_lt_of_le lt le)

theorem run_afterName_congr (reads : AllRead fields) {name : String}
    (agree : AgreeBelow tokens.length rest rest') :
    (afterName fields outer rest seen record name).run ⟨tokens, ending⟩ =
      (afterName fields outer rest' seen record name).run ⟨tokens, ending⟩ := by
  by_cases repeated : isRepeated fields seen name
  · rw [run_afterName_of_repeated repeated, run_afterName_of_repeated repeated]
  rw [afterName_of_not_repeated repeated, afterName_of_not_repeated repeated]
  cases tokens with
  | nil => rfl
  | cons token tokens =>
    by_cases hcolon : token = .colon
    · subst hcolon
      show (memberAnd fields outer rest seen record name).run ⟨tokens, ending⟩ =
        (memberAnd fields outer rest' seen record name).run ⟨tokens, ending⟩
      refine run_bind_congr fun (seen', record') source h => agree seen' record' source ?_
      obtain ⟨manner, reads⟩ := @reads_member σ fields outer reads seen record name
      exact Nat.lt_succ_of_lt (reads.length_lt h)
    · rw [run_bind_error (run_colon_misfit hcolon), run_bind_error (run_colon_misfit hcolon)]

theorem run_nameAnd_congr (reads : AllRead fields) (agree : AgreeBelow tokens.length rest rest') :
    (nameAnd fields outer rest seen record).run ⟨tokens, ending⟩ =
      (nameAnd fields outer rest' seen record).run ⟨tokens, ending⟩ := by
  rcases tokens with _ | ⟨_ | _ | _ | _ | _ | _ | _ | _ | _ | (_ | name) | _, tokens⟩
  case cons.string.some =>
    exact run_afterName_congr reads (agree.mono (Nat.le_succ _))
  all_goals rfl

theorem run_membersAnd_first (hclose : token ≠ .closeBrace) :
    (membersAnd fields outer rest seen true record).run ⟨token :: tokens, ending⟩ =
      (nameAnd fields outer rest seen record).run ⟨token :: tokens, ending⟩ := by
  cases token with
  | closeBrace => exact absurd rfl hclose
  | _ => rfl

theorem run_membersAnd_misfit (hclose : token ≠ .closeBrace) (hcomma : token ≠ .comma) :
    (membersAnd fields outer rest seen false record).run ⟨token :: tokens, ending⟩ =
      .error .malformed := by
  cases token with
  | closeBrace => exact absurd rfl hclose
  | comma => exact absurd rfl hcomma
  | _ => rfl

theorem run_membersAnd_congr (reads : AllRead fields) {first : Bool}
    (agree : AgreeBelow tokens.length rest rest') :
    (membersAnd fields outer rest seen first record).run ⟨tokens, ending⟩ =
      (membersAnd fields outer rest' seen first record).run ⟨tokens, ending⟩ := by
  cases tokens with
  | nil => cases first <;> rfl
  | cons token tokens =>
    by_cases hclose : token = .closeBrace
    · subst hclose
      cases first <;> rfl
    cases first with
    | true =>
      rw [run_membersAnd_first hclose, run_membersAnd_first hclose]
      exact run_nameAnd_congr reads agree
    | false =>
      by_cases hcomma : token = .comma
      · subst hcomma
        exact run_nameAnd_congr reads (agree.mono (Nat.le_succ _))
      · rw [run_membersAnd_misfit hclose hcomma, run_membersAnd_misfit hclose hcomma]

end Congr

/-- More fuel than there are tokens makes no difference. -/
theorem run_members_congr (reads : AllRead fields) {fuel fuel' : Nat} {seen : List String}
    {first : Bool} (lt : tokens.length < fuel) (lt' : tokens.length < fuel') :
    (members fields outer fuel seen first record).run ⟨tokens, ending⟩ =
      (members fields outer fuel' seen first record).run ⟨tokens, ending⟩ := by
  induction fuel generalizing fuel' seen first record tokens ending with
  | zero => cases lt
  | succ fuel ih =>
    obtain ⟨fuel', rfl⟩ : ∃ n, fuel' = n + 1 := Nat.exists_eq_add_one.mpr (by omega)
    rw [members_succ, members_succ]
    exact run_membersAnd_congr reads fun seen record source h => ih (by omega) (by omega)

/-- Members up to the end of the object, with as much fuel as it takes. -/
def allMembers (fields : List (Field σ)) (outer : Nat) (seen : List String) (first : Bool)
    (record : σ) : Reader σ := do
  members fields outer ((← get).tokens.length + 1) seen first record

theorem run_allMembers (reads : AllRead fields) {seen : List String} {first : Bool} :
    (allMembers fields outer seen first record).run ⟨tokens, ending⟩ =
      (membersAnd fields outer (fun seen => allMembers fields outer seen false) seen first
        record).run ⟨tokens, ending⟩ := by
  show (members fields outer (tokens.length + 1) seen first record).run ⟨tokens, ending⟩ = _
  rw [members_succ]
  exact run_membersAnd_congr reads fun seen record source h =>
    run_members_congr reads h (Nat.lt_succ_self _)

/-! ## Members that break off -/

section Members

variable {rest : List String → σ → Reader σ} {seen : List String} {done : List (String × Json)}
  {readable : Bool} {name : String}

/-- What a reader of members needs of the one of the members behind the next: it handles fewer than `n`
tokens, and wants more if there are none. -/
structure HandlesBelow (n : Nat) (stack : List Frame) (rest : List String → σ → Reader σ) : Prop where
  nil seen record : (rest seen record).run ⟨[], .finished⟩ = .error .cut
  handles seen record done readable name tokens : tokens.length < n →
    Handles false stack (.open ⟨.members done readable name :: stack, .commaOrClose⟩)
      (rest seen record) tokens

theorem HandlesBelow.mono {m n : Nat} (h : HandlesBelow n stack rest) (le : m ≤ n) :
    HandlesBelow m stack rest where
  nil := h.nil
  handles seen record done readable name tokens lt :=
    h.handles seen record done readable name tokens (Nat.lt_of_lt_of_le lt le)

theorem handles_memberAnd (reads : AllRead fields) (h : HandlesBelow tokens.length stack rest) :
    Handles false stack (.open ⟨.members done readable name :: stack, .value⟩)
      (memberAnd fields outer rest seen record name) tokens := by
  obtain ⟨manner, reads⟩ := @reads_member σ fields outer reads seen record name
  exact (reads.handles_all _ tokens).bind
    (fun (seen, record) value behind lt => h.handles seen record _ _ _ behind lt)
    fun _ (seen, record) => h.nil seen record

theorem handles_afterName (reads : AllRead fields) (h : HandlesBelow tokens.length stack rest) :
    Handles false stack (.open ⟨.members done readable name :: stack, .colon⟩)
      (afterName fields outer rest seen record name) tokens := by
  by_cases repeated : isRepeated fields seen name
  · exact .failed ⟨.mismatch, nofun, fun _ _ => run_afterName_of_repeated repeated⟩
  rw [afterName_of_not_repeated repeated]
  cases tokens with
  | nil =>
    exact .starved (.mark .colon (· = .colon) nofun nofun) (.refl _) rfl
      (starves_mark (fun _ => rfl) fun token refused =>
        ⟨.malformed, nofun, fun _ _ => run_bind_error (run_colon_misfit refused)⟩)
  | cons token tokens =>
    by_cases hcolon : token = .colon
    · subst hcolon
      exact (handles_memberAnd reads (h.mono (Nat.le_succ _))).after [.colon] (.single rfl)
        fun _ _ _ => rfl
    · exact .failed ⟨.malformed, nofun, fun _ _ => run_bind_error (run_colon_misfit hcolon)⟩

theorem run_nameAnd_misfit (h : ∀ name, token ≠ .string (some name)) :
    (nameAnd fields outer rest seen record).run ⟨token :: tokens, ending⟩ = .error .malformed := by
  rcases token with _ | _ | _ | _ | _ | _ | _ | _ | _ | (_ | name) | _
  case string.some => exact absurd rfl (h name)
  all_goals rfl

theorem handles_nameAnd (reads : AllRead fields) (h : HandlesBelow tokens.length stack rest)
    (admits : wanted = .name ∨ wanted = .nameOrClose) :
    Handles false stack (.open ⟨.members done readable name :: stack, wanted⟩)
      (nameAnd fields outer rest seen record) (token :: tokens) := by
  by_cases named : ∃ name, token = .string (some name)
  · obtain ⟨name', rfl⟩ := named
    have step : Builder.step .skim 0 ⟨.members done readable name :: stack, wanted⟩
        (.string (some name')) = .ok (.open ⟨.members done readable name' :: stack, .colon⟩) := by
      obtain rfl | rfl := admits <;> rfl
    exact (handles_afterName reads h).after [_] (.single step) fun _ _ _ => rfl
  · exact .failed ⟨.malformed, nofun, fun _ _ => run_nameAnd_misfit (not_exists.mp named)⟩

/-- The name of a member is wanted behind a comma. -/
theorem handles_comma (reads : AllRead fields) (h : HandlesBelow tokens.length stack rest) :
    Handles false stack (.open ⟨.members done readable name :: stack, .commaOrClose⟩)
      (membersAnd fields outer rest seen false record) (.comma :: tokens) := by
  cases tokens with
  | nil =>
    refine .starved (.mark .name (fun token => ∃ name, token = .string (some name)) (by simp)
      (by simp)) (.single rfl) rfl (starves_mark (fun _ => rfl) fun token refused => ?_)
    exact ⟨.malformed, nofun, fun _ _ => run_nameAnd_misfit (not_exists.mp refused)⟩
  | cons token tokens =>
    exact (handles_nameAnd reads (h.mono (Nat.le_succ _)) (.inl rfl)).after [.comma] (.single rfl)
      fun _ _ _ => rfl

theorem handles_membersAnd (reads : AllRead fields) (h : HandlesBelow tokens.length stack rest)
    (first : Bool) : Handles false stack (.open ⟨.members done readable name :: stack,
      if first then .nameOrClose else .commaOrClose⟩)
      (membersAnd fields outer rest seen first record) tokens := by
  cases tokens with
  | nil =>
    cases first with
    | true =>
      refine .starved (.mark .nameOrClose (fun token => token = .closeBrace ∨
        ∃ name, token = .string (some name)) (by simp) (by simp)) (.refl _) rfl
        (starves_mark (fun _ => rfl) fun token refused => ?_)
      obtain ⟨hclose, named⟩ := not_or.mp refused
      exact ⟨.malformed, nofun, fun _ _ => (run_membersAnd_first hclose).trans
        (run_nameAnd_misfit (not_exists.mp named))⟩
    | false =>
      refine .starved (.mark .commaOrClose (fun token => token = .closeBrace ∨ token = .comma)
        (by simp) (by simp)) (.refl _) rfl (starves_mark (fun _ => rfl) fun token refused => ?_)
      obtain ⟨hclose, hcomma⟩ := not_or.mp refused
      exact ⟨.malformed, nofun, fun _ _ => run_membersAnd_misfit hclose hcomma⟩
  | cons token tokens =>
    by_cases hclose : token = .closeBrace
    · subst hclose
      cases first <;>
        exact .single record rfl fun _ _ => rfl
    cases first with
    | true =>
      exact (handles_nameAnd reads (h.mono (Nat.le_succ _)) (.inr rfl)).after [] (.refl _)
        (goesOn_cons fun _ _ => run_membersAnd_first hclose)
    | false =>
      by_cases hcomma : token = .comma
      · subst hcomma
        exact handles_comma reads (h.mono (Nat.le_succ _))
      · exact .failed ⟨.malformed, nofun, fun _ _ => run_membersAnd_misfit hclose hcomma⟩

end Members

/-- Members are followed one after the other, by the number of tokens that are left. -/
theorem handlesBelow_allMembers (reads : AllRead fields) (n : Nat) :
    HandlesBelow n stack fun seen => allMembers fields outer seen false := by
  induction n with
  | zero => exact ⟨fun _ _ => run_allMembers reads, nofun⟩
  | succ n ih =>
    refine ⟨ih.nil, fun seen record done readable name tokens lt => ?_⟩
    exact (handles_membersAnd reads (ih.mono (Nat.le_of_lt_succ lt)) false).after [] (.refl _)
      fun _ _ _ => run_allMembers reads

theorem handles_allMembers (reads : AllRead fields) (tokens : List Token) :
    Handles false stack (.open ⟨.members [] true "" :: stack, .nameOrClose⟩)
      (allMembers fields outer [] true record) tokens :=
  (handles_membersAnd reads (handlesBelow_allMembers reads _) true).after [] (.refl _)
    fun _ _ _ => run_allMembers reads

theorem run_record_misfit {finish : σ → Option α} (hbrace : token ≠ .openBrace)
    (hbracket : token ≠ .openBracket) :
    (Reader.record fields outer record finish).run ⟨token :: tokens, ending⟩ =
      .error (refusal token) := by
  cases token with
  | openBrace => exact absurd rfl hbrace
  | openBracket => exact absurd rfl hbracket
  | _ => rfl

/-- A record, whether it is given as an object or as an array. -/
theorem reads_record {finish : σ → Option α} (reads : AllRead (field :: fields)) (outer : Nat)
    (record : σ) : Reads false .read (Reader.record (field :: fields) outer record finish) where
  starts := by
    refine ⟨.mark .value (fun token => token = .openBrace ∨ token = .openBracket) (by simp)
      (by simp), rfl, rfl, starves_mark (fun _ => rfl) fun token refused => ?_⟩
    obtain ⟨hbrace, hbracket⟩ := not_or.mp refused
    exact ⟨refusal token, refusal_ne_cut token, fun _ _ => run_record_misfit hbrace hbracket⟩
  handles stack token tokens := by
    by_cases hbrace : token = .openBrace
    · subst hbrace
      exact ((handles_allMembers reads tokens).checked nofun).after [.openBrace] (.single rfl)
        fun _ _ _ => rfl
    by_cases hbracket : token = .openBracket
    · subst hbracket
      exact ((handles_firstItem reads record tokens).checked nofun).after [.openBracket] (.single rfl)
        fun _ _ _ => rfl
    · exact .failed ⟨refusal token, refusal_ne_cut token,
        fun _ _ => run_record_misfit hbrace hbracket⟩

end Reader

end Rebalancing.Json
