import Mathlib.Data.List.Basic
import Rebalancing.Proofs.Toml.Bare
import Rebalancing.Proofs.Toml.Table
import Rebalancing.Toml.Document

/-! # Documents read line by line

A line leads from one draft to the next, and leaves the lines behind it. -/

namespace Rebalancing.Toml.Reader

variable {α β : Type} {draft after : Draft} {text rest : List Char}

theorem exists_of_bind {reader : Reader α} {next : α → Reader β} {b : β}
    (h : (reader >>= next) text = some (b, rest)) :
    ∃ a between, reader text = some (a, between) ∧ next a between = some (b, rest) := by
  obtain ⟨⟨a, between⟩, hfirst, hnext⟩ := Option.bind_eq_some_iff.mp h
  exact ⟨a, between, hfirst, hnext⟩

theorem bind_eq {reader : Reader α} {a : α} {between : List Char}
    (h : reader text = some (a, between)) (next : α → Reader β) :
    (reader >>= next) text = next a between := by
  change (reader text).bind _ = _
  rw [h, Option.bind_some]

theorem get_bind (next : List Char → Reader β) : (get >>= next) text = next text text := rfl

theorem set_bind (next : PUnit → Reader β) : (set rest >>= next) text = next ⟨⟩ rest := rfl

theorem skipBlanks_bind (next : Unit → Reader β) :
    (skipBlanks >>= next) text = next () (text.dropWhile Quoted.isBlank) := rfl

theorem symbol_bind (c : Char) (next : Unit → Reader β) :
    (symbol c >>= next) (c :: text) = next () text :=
  bind_eq (by rw [symbol, if_pos rfl]) next

theorem sees_bind {c : Char} (h : text.head? ≠ some c) (next : Bool → Reader β) :
    (sees c >>= next) text = next false text :=
  bind_eq (by rw [sees, get_bind, decide_eq_false h]; rfl) next

theorem endLine_feed : endLine ('\n' :: rest) = some ((), rest) := rfl

theorem change_eq_some {draft : Option Draft} (h : change draft text = some (after, rest)) :
    draft = some after ∧ text = rest := by
  obtain ⟨_, hdraft, ⟨⟩⟩ := Option.map_eq_some_iff.mp h
  exact ⟨hdraft, rfl⟩

/-- What a line can do to a draft. -/
theorem line_cases (h : line draft text = some (after, rest)) :
    after = draft ∨ (∃ path, draft.openListed path = some after) ∨
      (∃ path, draft.openTable path = some after) ∨
      ∃ path name value, draft.assign path name value = some after := by
  -- the cases are those of the first characters of the line; only its last step touches the draft
  obtain ⟨-, text, -, h⟩ := exists_of_bind h
  obtain ⟨front, text, ⟨⟩, h⟩ := exists_of_bind h
  dsimp only at h
  split at h
  case h_5 =>
    obtain ⟨-, text, -, h⟩ := exists_of_bind h
    obtain ⟨path, text, -, h⟩ := exists_of_bind h
    obtain ⟨-, text, -, h⟩ := exists_of_bind h
    obtain ⟨-, text, -, h⟩ := exists_of_bind h
    obtain ⟨-, text, -, h⟩ := exists_of_bind h
    exact .inr (.inl ⟨path, (change_eq_some h).1⟩)
  case h_6 =>
    obtain ⟨-, text, -, h⟩ := exists_of_bind h
    obtain ⟨path, text, -, h⟩ := exists_of_bind h
    obtain ⟨-, text, -, h⟩ := exists_of_bind h
    obtain ⟨-, text, -, h⟩ := exists_of_bind h
    exact .inr (.inr (.inl ⟨path, (change_eq_some h).1⟩))
  case h_7 =>
    obtain ⟨⟨path, value⟩, text, -, h⟩ := exists_of_bind h
    dsimp only at h
    obtain ⟨-, text, -, h⟩ := exists_of_bind h
    cases hlast : path.getLast? with
    | none => rw [hlast] at h; cases h
    | some name =>
      rw [hlast] at h
      exact .inr (.inr (.inr ⟨_, _, _, (change_eq_some h).1⟩))
  all_goals
    obtain ⟨-, text, -, ⟨⟩⟩ := exists_of_bind h
    exact .inl rfl

section

variable {name : String} {path : List String} {value : Toml}

theorem holds_line (holds : draft.Holds name path value)
    (h : line draft text = some (after, rest)) : after.Holds name path value := by
  obtain rfl | ⟨header, h⟩ | ⟨header, h⟩ | ⟨_, _, _, h⟩ := line_cases h
  · exact holds
  · exact holds.openListed h
  · exact holds.openTable h
  · exact holds.assign h

/-- Whatever stands in the lines that follow, a value that is there to stay is there at the end. -/
theorem holds_lines {fuel : Nat} (holds : draft.Holds name path value)
    (h : lines fuel draft text = some (after, rest)) : after.Holds name path value := by
  induction fuel generalizing draft text with
  | zero => cases h; exact holds
  | succ fuel ih =>
    rw [lines, get_bind] at h
    split at h
    · cases h
      exact holds
    · obtain ⟨next, text, hline, h⟩ := exists_of_bind h
      exact ih (holds_line holds hline) h

end

/-! ## Lines that are read -/

/-- A line, or several, that lead from one draft to another whatever is behind them. -/
inductive Leads : List Char → Draft → Draft → Prop where
  | refl (draft : Draft) : Leads [] draft draft
  | head {chunk lines : List Char} {draft between after : Draft} (hchunk : chunk ≠ [])
      (hline : ∀ rest, line draft (chunk ++ rest) = some (between, rest))
      (h : Leads lines between after) : Leads (chunk ++ lines) draft after

namespace Leads

variable {between : Draft} {text' : List Char}

theorem single (hchunk : text ≠ [])
    (hline : ∀ rest, line draft (text ++ rest) = some (after, rest)) :
    Leads text draft after := by
  simpa using Leads.head hchunk hline (.refl after)

theorem trans (h : Leads text draft between) (h' : Leads text' between after) :
    Leads (text ++ text') draft after := by
  induction h with
  | refl => exact h'
  | head hchunk hline _ ih => exact List.append_assoc _ _ _ ▸ .head hchunk hline (ih h')

/-- Each line takes one unit of fuel, and has a character at least. -/
theorem lines_append (h : Leads text draft after) (rest : List Char) :
    ∃ used ≤ text.length, ∀ fuel,
      lines (used + fuel) draft (text ++ rest) = lines fuel after rest := by
  induction h with
  | refl draft => exact ⟨0, Nat.le_refl 0, fun fuel => by rw [Nat.zero_add, List.nil_append]⟩
  | @head chunk others draft between after hchunk hline _ ih =>
    obtain ⟨used, hused, ih⟩ := ih
    have := List.length_pos_iff.mpr hchunk
    refine ⟨used + 1, by rw [List.length_append]; omega, fun fuel => ?_⟩
    rw [List.append_assoc, Nat.add_right_comm, lines, get_bind,
      if_neg (by simp [hchunk]), bind_eq (hline _), ih fuel]

end Leads

theorem leads_blank (draft : Draft) : Leads ['\n'] draft draft :=
  .single (by simp) fun _ => rfl

theorem leads_comment (comment : List Char) (h : comment.all Quoted.isPlain) (draft : Draft) :
    Leads ('#' :: comment ++ ['\n']) draft draft := by
  refine .single (by simp) fun rest => ?_
  have hplain : ∀ c ∈ '#' :: comment, Quoted.isPlain c :=
    List.forall_mem_cons.mpr ⟨by decide, List.all_eq_true.mp h⟩
  have hskip : skipComment ('#' :: comment ++ ['\n'] ++ rest) = some ((), '\n' :: rest) := by
    change some ((), (('#' :: comment) ++ ['\n'] ++ rest).dropWhile Quoted.isPlain) = _
    rw [List.append_assoc, List.dropWhile_append_of_pos hplain]
    rfl
  have hend : endLine ('#' :: comment ++ ['\n'] ++ rest) = some ((), rest) := by
    rw [endLine, skipBlanks_bind]
    exact bind_eq hskip _
  rw [line, skipBlanks_bind]
  change (endLine >>= fun _ => pure draft) ('#' :: comment ++ ['\n'] ++ rest) = _
  rw [bind_eq hend]
  rfl

/-! ### Names -/

/-- A name that needs no quotes. -/
structure IsBare (name : List Char) : Prop where
  ne_nil : name ≠ []
  forall_mem : ∀ c ∈ name, isNameChar c

instance : DecidablePred IsBare := fun name =>
  decidable_of_iff (name ≠ [] ∧ name.all isNameChar)
    ⟨fun h => ⟨h.1, List.all_eq_true.mp h.2⟩, fun h => ⟨h.1, List.all_eq_true.mpr h.2⟩⟩

namespace IsBare

variable {bare : List Char} {c : Char}

theorem append_ne_cons (h : IsBare bare) (hc : isNameChar c = false) (rest other : List Char) :
    bare ++ rest ≠ c :: other := by
  obtain ⟨first, more, rfl⟩ := List.exists_cons_of_ne_nil h.ne_nil
  intro same
  cases hc.symm.trans ((List.cons.inj same).1 ▸ h.forall_mem first List.mem_cons_self)

theorem dropWhile_isBlank (h : IsBare bare) (rest : List Char) :
    (bare ++ rest).dropWhile Quoted.isBlank = bare ++ rest := by
  obtain ⟨first, more, rfl⟩ := List.exists_cons_of_ne_nil h.ne_nil
  refine List.dropWhile_cons_of_neg fun hblank => ?_
  have hfirst := h.forall_mem first List.mem_cons_self
  simp only [Quoted.isBlank, Bool.or_eq_true, decide_eq_true_eq] at hblank
  obtain rfl | rfl := hblank
  all_goals exact absurd hfirst (by decide)

theorem takeWhile_isNameChar (h : IsBare bare) (hc : isNameChar c = false) (rest : List Char) :
    (bare ++ c :: rest).takeWhile isNameChar = bare := by
  rw [List.takeWhile_append_of_pos h.forall_mem, List.takeWhile_cons_of_neg (by simp [hc]),
    List.append_nil]

theorem dropWhile_isNameChar (h : IsBare bare) (hc : isNameChar c = false) (rest : List Char) :
    (bare ++ c :: rest).dropWhile isNameChar = c :: rest := by
  rw [List.dropWhile_append_of_pos h.forall_mem, List.dropWhile_cons_of_neg (by simp [hc])]

end IsBare

section

variable {bare : List Char} (h : IsBare bare)

include h

theorem simpleName_append {c : Char} (hc : isNameChar c = false) (rest : List Char) :
    simpleName (bare ++ c :: rest) = some (String.ofList bare, c :: rest) := by
  have htake := h.takeWhile_isNameChar hc rest
  have hdrop := h.dropWhile_isNameChar hc rest
  have hquote (quote : Char) (hquote : isNameChar quote = false) (other : List Char) :
      bare ++ c :: rest ≠ quote :: other := h.append_ne_cons hquote (c :: rest) other
  rw [simpleName, get_bind]
  generalize bare ++ c :: rest = source at *
  split
  case h_1 => exact absurd rfl (hquote _ (by decide) _)
  case h_2 => exact absurd rfl (hquote _ (by decide) _)
  case h_3 =>
    rw [htake, hdrop]
    exact if_neg h.ne_nil ▸ rfl

theorem name_append {c : Char} (hc : isNameChar c = false) {rest : List Char}
    (hdot : ((c :: rest).dropWhile Quoted.isBlank).head? ≠ some '.') :
    name (bare ++ c :: rest) =
      some ([String.ofList bare], (c :: rest).dropWhile Quoted.isBlank) := by
  rw [name, skipBlanks_bind, h.dropWhile_isBlank, bind_eq (simpleName_append h hc rest),
    skipBlanks_bind, show depthLimit - 1 = 78 + 1 from rfl]
  generalize (c :: rest).dropWhile Quoted.isBlank = following at hdot ⊢
  have hmore : moreNames (78 + 1) following = some ([], following) := by
    rw [moreNames, sees_bind hdot]
    rfl
  rw [bind_eq hmore]
  rfl

/-! ### Headers and assignments -/

theorem leads_header (hafter : draft.openTable [String.ofList bare] = some after) :
    Leads ('[' :: bare ++ [']', '\n']) draft after := by
  refine .single (by simp) fun rest => ?_
  have hblank : (']' :: '\n' :: rest).dropWhile Quoted.isBlank = ']' :: '\n' :: rest :=
    List.dropWhile_cons_of_neg (by decide)
  have hname : name (bare ++ ']' :: '\n' :: rest) =
      some ([String.ofList bare], ']' :: '\n' :: rest) := by
    rw [name_append h (by decide) (by simp [hblank]), hblank]
  have hbracket := h.append_ne_cons (c := '[') (by decide) (']' :: '\n' :: rest)
  have hsource : '[' :: bare ++ [']', '\n'] ++ rest = '[' :: (bare ++ ']' :: '\n' :: rest) := by simp
  rw [line, skipBlanks_bind, hsource, List.dropWhile_cons_of_neg (by decide), get_bind]
  clear hsource
  generalize bare ++ ']' :: '\n' :: rest = source at *
  generalize htext : '[' :: source = text
  split
  case h_5 following => exact absurd (List.cons.inj htext).2 (hbracket following)
  case h_6 following _ =>
    obtain rfl := (List.cons.inj htext).2
    rw [set_bind, bind_eq hname, symbol_bind, bind_eq endLine_feed, hafter]
    rfl
  case h_7 other => exact absurd htext.symm (other source)
  all_goals simp at htext

theorem assignment_append (reader : Reader Toml) {source : List Char}
    (hblank : source.dropWhile Quoted.isBlank = source) :
    assignment reader (bare ++ ' ' :: '=' :: ' ' :: source) =
      (reader source).map fun (value, rest) => (([String.ofList bare], value), rest) := by
  have hname : name (bare ++ ' ' :: '=' :: ' ' :: source) =
      some ([String.ofList bare], '=' :: ' ' :: source) :=
    name_append h (by decide) (by simp [Quoted.isBlank])
  rw [assignment, bind_eq hname, symbol_bind, skipBlanks_bind,
    List.dropWhile_cons_of_pos (by decide), hblank]
  change (reader source).bind _ = _
  cases reader source <;> rfl

/-- What an assignment does is up to its value. -/
theorem line_assignment {source : List Char} (hblank : source.dropWhile Quoted.isBlank = source) :
    line draft (bare ++ ' ' :: '=' :: ' ' :: source) =
      (do
        let value ← value (depthLimit - 1)
        endLine
        change (draft.assign [] (String.ofList bare) value)) source := by
  have hassignment := assignment_append h (value (depthLimit - 1)) hblank
  have hfront (c : Char) (hc : isNameChar c = false) (other : List Char) :=
    h.append_ne_cons hc (' ' :: '=' :: ' ' :: source) other
  have hne : bare ++ ' ' :: '=' :: ' ' :: source ≠ [] := by simp
  rw [line, skipBlanks_bind, h.dropWhile_isBlank, get_bind]
  generalize bare ++ ' ' :: '=' :: ' ' :: source = text at *
  generalize value (depthLimit - 1) = reader at *
  split
  case h_1 => exact absurd rfl hne
  case h_7 =>
    change (assignment reader text).bind _ = (reader source).bind _
    rw [hassignment]
    cases reader source <;> rfl
  all_goals exact absurd rfl (hfront _ (by decide) _)

/-- A value that is read up to the end of its line is assigned. -/
theorem leads_assignment {written : List Char} {value : Toml}
    (hblank : written.head?.all fun c => !Quoted.isBlank c)
    (hvalue : ∀ rest, Reader.value (depthLimit - 1) (written ++ '\n' :: rest) =
      some (value, '\n' :: rest))
    (hafter : draft.assign [] (String.ofList bare) value = some after) :
    Leads (bare ++ ' ' :: '=' :: ' ' :: written ++ ['\n']) draft after := by
  refine .single (by simp) fun rest => ?_
  have hblank : (written ++ '\n' :: rest).dropWhile Quoted.isBlank = written ++ '\n' :: rest := by
    rcases written with _ | ⟨c, written⟩
    · rfl
    · exact List.dropWhile_cons_of_neg (by simpa using hblank)
  rw [show bare ++ ' ' :: '=' :: ' ' :: written ++ ['\n'] ++ rest =
      bare ++ ' ' :: '=' :: ' ' :: (written ++ '\n' :: rest) by simp, line_assignment h hblank,
    bind_eq (hvalue rest), bind_eq endLine_feed, hafter]
  rfl

end

/-! ### Values -/

theorem exists_valueWith (depth : Nat) :
    ∃ array inlineTable, value depth = valueWith array inlineTable := by
  cases depth with
  | zero => exact ⟨_, _, rfl⟩
  | succ depth => exact ⟨_, _, rfl⟩

theorem value_quote (depth : Nat) (source : List Char) :
    value depth ('"' :: source) =
      (Quoted.read ('"' :: source)).map fun (text, rest) =>
        (.string (String.ofList text), rest) := by
  obtain ⟨array, inlineTable, hvalue⟩ := exists_valueWith depth
  rw [hvalue, valueWith, get_bind]
  change (Quoted.read ('"' :: source)).bind _ = _
  cases Quoted.read ('"' :: source) <;> rfl

/-- A text in double quotes is assigned as it is read. -/
theorem exists_of_line_quote {bare source : List Char} (h : IsBare bare)
    (hnew : draft.current.2.get? (String.ofList bare) = none)
    (hline : line draft (bare ++ ' ' :: '=' :: ' ' :: '"' :: source) = some (after, rest)) :
    ∃ text left, Quoted.read ('"' :: source) = some (text, left) ∧
      after = { draft with
        current := (draft.current.1,
          draft.current.2 ++ [(String.ofList bare, .value (.string (String.ofList text)))]) } := by
  rw [line_assignment h (List.dropWhile_cons_of_neg (by decide))] at hline
  obtain ⟨value, between, hvalue, hline⟩ := exists_of_bind hline
  obtain ⟨-, _, -, hchange⟩ := exists_of_bind hline
  rw [value_quote, Option.map_eq_some_iff] at hvalue
  obtain ⟨⟨text, left⟩, hread, ⟨⟩⟩ := hvalue
  have hassign := (change_eq_some hchange).1
  rw [Draft.assign_of_get?_none hnew, Option.some.injEq] at hassign
  exact ⟨text, between, hread, hassign.symm⟩

theorem value_digits (depth : Nat) {n : Nat} (h : n < 0x8000000000000000) (rest : List Char) :
    value depth (Decimal.digits n ++ '\n' :: rest) = some (.integer n, '\n' :: rest) := by
  obtain ⟨array, inlineTable, hvalue⟩ := exists_valueWith depth
  have hhead (c : Char) (hc : c.isDigit = false) :
      (Decimal.digits n ++ '\n' :: rest).head? ≠ some c := by
    rw [List.head?_append_of_ne_nil (Decimal.digits n) Nat.toDigits_ne_nil]
    intro same
    cases hc.symm.trans (Decimal.isDigit_of_mem_digits (List.mem_of_head? same))
  rw [hvalue, valueWith, get_bind]
  generalize (Decimal.digits n ++ '\n' :: rest).head? = head at hhead
  split
  case h_5 => exact Bare.read_digits h rest
  all_goals exact absurd rfl (hhead _ (by decide))

end Rebalancing.Toml.Reader

namespace Rebalancing.Toml

open Reader

theorem lines_nil (fuel : Nat) (draft : Draft) : lines fuel draft [] = some (draft, []) := by
  cases fuel <;> rfl

/-- The lines at the front of a document are read first. -/
theorem parse?_of_leads {text : String} {front rest : List Char} {draft : Draft}
    (htext : text.toList = front ++ rest) (hmark : dropMark text.toList = text.toList)
    (h : Leads front {} draft) :
    ∃ fuel > rest.length,
      parse? text = (lines fuel draft rest).bind fun (after, _) => after.finish := by
  obtain ⟨used, hused, hlines⟩ := h.lines_append rest
  refine ⟨text.toList.length + 1 - used, by rw [htext, List.length_append]; omega, ?_⟩
  rw [← hlines, ← htext, Nat.add_sub_of_le (by rw [htext, List.length_append]; omega)]
  change (lines ((dropMark text.toList).length + 1) {} (dropMark text.toList)).bind
    (fun (after, _) => after.finish) = _
  rw [hmark]

end Rebalancing.Toml
