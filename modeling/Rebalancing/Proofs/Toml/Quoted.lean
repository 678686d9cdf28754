import Mathlib.Data.List.Infix
import Rebalancing.Toml.Quoted

/-! # Texts put between double quotes as they are

Quotes do not make a text readable by themselves. A reader gives a text back as it was put between
the quotes if and only if nothing in it needs an escape. What follows the closing quote matters too:
a text that begins with two quotes opens one of several lines, which ends wherever three of them
stand together. -/

namespace Rebalancing.Toml.Quoted

/-- Characters that stand for themselves between double quotes. -/
def isUnescaped (c : Char) : Bool := isPlain c && c ≠ '"' && c ≠ '\\'

theorem isUnescaped_iff {c : Char} : isUnescaped c ↔ isPlain c ∧ c ≠ '"' ∧ c ≠ '\\' := by
  simp [isUnescaped, and_assoc]

theorem basic_cons {c : Char} (hc : isUnescaped c) (rest : List Char) :
    basic (c :: rest) = (basic rest).map fun (text, rest) => (c :: text, rest) := by
  obtain ⟨plain, quote, backslash⟩ := isUnescaped_iff.mp hc
  rw [basic] <;> simp_all

theorem basic_append {text : List Char} (h : ∀ c ∈ text, isUnescaped c) (rest : List Char) :
    basic (text ++ '"' :: rest) = some (text, rest) := by
  induction text with
  | nil => rw [List.nil_append, basic]
  | cons c text ih =>
    obtain ⟨hc, h⟩ := List.forall_mem_cons.mp h
    rw [List.cons_append, basic_cons hc, ih h, Option.map_some]

/-! ## What stands for a text on one line -/

/-- How a text is spelled on one line: an escape takes two characters or more. -/
inductive Spells : List Char → List Char → Prop where
  | nil : Spells [] []
  | plain {c : Char} {used text : List Char} (hc : isUnescaped c) (h : Spells used text) :
      Spells (c :: used) (c :: text)
  | escape {sequence : List Char} (c : Char) {used text : List Char} (hlength : 2 ≤ sequence.length)
      (hfeed : '\n' ∉ sequence) (h : Spells used text) : Spells (sequence ++ used) (c :: text)

namespace Spells

variable {used text : List Char}

theorem length_le (h : Spells used text) : text.length ≤ used.length := by
  induction h with
  | nil => exact Nat.le_refl 0
  | plain _ _ ih => exact Nat.succ_le_succ ih
  | escape _ hlength _ _ ih => rw [List.length_append, List.length_cons]; omega

theorem not_mem_feed (h : Spells used text) : '\n' ∉ used := by
  induction h with
  | nil => exact List.not_mem_nil
  | plain hc _ ih =>
    rintro (_ | ⟨_, h⟩)
    · exact absurd hc (by decide)
    · exact ih h
  | escape _ _ hfeed _ ih => exact List.not_mem_append hfeed ih

/-- As long as the text itself means without escapes. -/
theorem unescaped (h : Spells used text) (hlength : used.length ≤ text.length) :
    used = text ∧ ∀ c ∈ text, isUnescaped c := by
  induction h with
  | nil => exact ⟨rfl, List.forall_mem_nil _⟩
  | plain hc _ ih =>
    obtain ⟨rfl, h⟩ := ih (Nat.le_of_succ_le_succ hlength)
    exact ⟨rfl, List.forall_mem_cons.mpr ⟨hc, h⟩⟩
  | escape _ hsequence _ h _ =>
    rw [List.length_append, List.length_cons] at hlength
    have := h.length_le
    omega

end Spells

/-- Digits are all hexadecimal once they give a code. -/
theorem isSome_hexValue?_of_foldlM {digits : List Char} {start code : Nat}
    (h : digits.foldlM (fun code digit => (hexValue? digit).map (16 * code + ·)) start =
      some code) :
    ∀ c ∈ digits, (hexValue? c).isSome := by
  induction digits generalizing start with
  | nil => exact List.forall_mem_nil _
  | cons c digits ih =>
    rw [List.foldlM_cons, Option.bind_eq_bind, Option.bind_eq_some_iff] at h
    obtain ⟨value, first, h⟩ := h
    exact List.forall_mem_cons.mpr ⟨by rw [← Option.isSome_map, first, Option.isSome_some], ih h⟩

theorem not_mem_feed_of_codeChar? {digits : List Char} {char : Char}
    (h : codeChar? digits = some char) : '\n' ∉ digits := by
  rw [codeChar?, Option.bind_eq_bind, Option.bind_eq_some_iff] at h
  obtain ⟨code, hcode, -⟩ := h
  exact fun hfeed => absurd (isSome_hexValue?_of_foldlM hcode _ hfeed) (by decide)

/-- A reader that puts a character it has found in front of what follows. -/
theorem exists_of_found {char? : Option Char} {following : Option (List Char × List Char)}
    {text rest : List Char}
    (h : (do
      let char ← char?
      let (text, rest) ← following
      return (char :: text, rest)) = some (text, rest)) :
    ∃ char tail, char? = some char ∧ following = some (tail, rest) ∧ text = char :: tail := by
  simp only [Option.bind_eq_bind, Option.bind_eq_some_iff] at h
  obtain ⟨char, hchar, ⟨tail, rest⟩, hfollowing, ⟨⟩⟩ := h
  exact ⟨char, tail, hchar, hfollowing, rfl⟩

theorem exists_of_map {c : Char} {following : Option (List Char × List Char)}
    {text rest : List Char}
    (h : (following.map fun (text, rest) => (c :: text, rest)) = some (text, rest)) :
    ∃ tail, following = some (tail, rest) ∧ text = c :: tail := by
  obtain ⟨⟨tail, rest⟩, hfollowing, ⟨⟩⟩ := Option.map_eq_some_iff.mp h
  exact ⟨tail, hfollowing, rfl⟩

theorem spells_of_basic {source text rest : List Char} (h : basic source = some (text, rest)) :
    ∃ used, source = used ++ '"' :: rest ∧ Spells used text := by
  fun_induction basic source generalizing text rest with
  | case1 => cases h; exact ⟨[], rfl, .nil⟩
  | case2 a b c d source ih =>
    obtain ⟨char, tail, hchar, following, rfl⟩ := exists_of_found h
    obtain ⟨used, rfl, spelled⟩ := ih following
    refine ⟨['\\', 'u', a, b, c, d] ++ used, rfl, .escape char (by simp) ?_ spelled⟩
    simpa using not_mem_feed_of_codeChar? hchar
  | case3 a b c d e f g i source ih =>
    obtain ⟨char, tail, hchar, following, rfl⟩ := exists_of_found h
    obtain ⟨used, rfl, spelled⟩ := ih following
    refine ⟨['\\', 'U', a, b, c, d, e, f, g, i] ++ used, rfl, .escape char (by simp) ?_ spelled⟩
    simpa using not_mem_feed_of_codeChar? hchar
  | case4 e source _ _ ih =>
    obtain ⟨char, tail, hchar, following, rfl⟩ := exists_of_found h
    obtain ⟨used, rfl, spelled⟩ := ih following
    refine ⟨['\\', e] ++ used, rfl, .escape char (by simp) ?_ spelled⟩
    have : e ≠ '\n' := by rintro rfl; cases hchar
    simpa using this.symm
  | case5 c source quote _ _ _ plain ih =>
    obtain ⟨tail, following, rfl⟩ := exists_of_map h
    obtain ⟨used, rfl, spelled⟩ := ih following
    refine ⟨c :: used, rfl, .plain (isUnescaped_iff.mpr ?_) spelled⟩
    rw [Bool.and_eq_true, decide_eq_true_eq] at plain
    exact ⟨plain.1, quote, plain.2⟩
  | case6 => cases h
  | case7 => cases h

/-! ## What stands for a text over several lines -/

/-- What is left is behind three double quotes, and in front of those the source is no shorter than
the text it stands for. -/
def Closes (source text rest : List Char) : Prop :=
  ∃ used, source = used ++ '"' :: '"' :: '"' :: rest ∧ text.length ≤ used.length

namespace Closes

variable {source text rest : List Char}

theorem skip (sequence : List Char) :
    Closes source text rest → Closes (sequence ++ source) text rest
  | ⟨used, h, hlength⟩ =>
    ⟨sequence ++ used, by rw [h, List.append_assoc],
      hlength.trans (List.length_append ▸ Nat.le_add_left _ _)⟩

theorem cons (first : Char) (sequence : List Char) (c : Char) :
    Closes source text rest → Closes (first :: sequence ++ source) (c :: text) rest
  | ⟨used, h, hlength⟩ =>
    ⟨first :: sequence ++ used, by rw [h, List.append_assoc], by
      simp only [List.cons_append, List.length_cons, List.length_append]; omega⟩

end Closes

theorem closes_of_basicLines {place : Place} {source text rest : List Char}
    (h : basicLines place source = some (text, rest)) : Closes source text rest := by
  fun_induction basicLines place source generalizing text rest with
  | case1 source ih => exact (ih h).skip ['\n']
  | case2 source ih => exact (ih h).skip ['\r', '\n']
  | case3 c source _ _ _ ih => exact (ih h).skip [c]
  | case4 => cases h
  | case5 source ih => exact (ih h).skip ['\n']
  | case6 source ih => exact (ih h).skip ['\r', '\n']
  | case7 => cases h; exact ⟨['"', '"'], rfl, by decide⟩
  | case8 => cases h; exact ⟨['"'], rfl, by decide⟩
  | case9 => cases h; exact ⟨[], rfl, by decide⟩
  | case10 _ source _ _ ih =>
    obtain ⟨tail, following, rfl⟩ := exists_of_map h
    exact (ih following).cons '\r' ['\n'] '\n'
  | case11 _ source _ _ ih =>
    obtain ⟨tail, following, rfl⟩ := exists_of_map h
    exact (ih following).cons '\n' [] '\n'
  | case12 _ a b c d source _ ih =>
    obtain ⟨char, tail, -, following, rfl⟩ := exists_of_found h
    exact (ih following).cons '\\' ['u', a, b, c, d] char
  | case13 _ a b c d e f g i source _ ih =>
    obtain ⟨char, tail, -, following, rfl⟩ := exists_of_found h
    exact (ih following).cons '\\' ['U', a, b, c, d, e, f, g, i] char
  | case14 _ source _ ih => exact (ih h).skip ['\\', '\n']
  | case15 _ source _ ih => exact (ih h).skip ['\\', '\r', '\n']
  | case16 _ e source _ _ _ _ _ _ ih => exact (ih h).skip ['\\', e]
  | case17 _ e source _ _ _ _ _ _ ih =>
    obtain ⟨char, tail, -, following, rfl⟩ := exists_of_found h
    exact (ih following).cons '\\' [e] char
  | case18 place c source _ _ _ _ _ _ _ _ _ _ _ _ _ _ _ _ ih => exact (ih h).skip [c]
  | case19 place c source _ _ _ _ _ _ _ _ _ _ _ _ _ _ _ _ _ ih =>
    obtain ⟨tail, following, rfl⟩ := exists_of_map h
    exact (ih following).cons c [] c
  | case20 => cases h
  | case21 => cases h

/-! ## Texts between quotes -/

/-- Three double quotes, which close a text over several lines. -/
def closing : List Char := ['"', '"', '"']

theorem read_quote {source : List Char} (h : ∀ following, source ≠ '"' :: '"' :: following) :
    read ('"' :: source) = basic source := by
  rw [read]
  exact h

theorem read_unescaped {text : List Char} (h : ∀ c ∈ text, isUnescaped c) (rest : List Char) :
    read ('"' :: (text ++ '"' :: '\n' :: rest)) = some (text, '\n' :: rest) := by
  rw [read_quote, basic_append h]
  rintro following same
  cases text with
  | nil => simp at same
  | cons c text =>
    obtain ⟨rfl, -⟩ := List.cons.inj same
    exact absurd (h _ List.mem_cons_self) (by decide)

/-- What is read on one line as the text that stands there was put there without escapes: the line
break behind the quote cannot be part of what was read. -/
theorem unescaped_of_basic {text rest left : List Char}
    (h : basic (text ++ '"' :: '\n' :: rest) = some (text, left)) :
    ∀ c ∈ text, isUnescaped c := by
  obtain ⟨used, same, spelled⟩ := spells_of_basic h
  rcases List.append_eq_append_iff.mp same with ⟨more, rfl, hmore⟩ | ⟨more, rfl, -⟩
  · -- what was read goes on behind the text: over its closing quote, and then over the line break
    rcases more with _ | ⟨c, _ | ⟨d, more⟩⟩
    · exact (spelled.unescaped (by simp)).2
    · simp at hmore
    · have : d = '\n' := by simp at hmore; exact hmore.2.1.symm
      exact absurd (by simp [this]) spelled.not_mem_feed
  · exact (spelled.unescaped (by simp)).2

theorem dropLineBreak_suffix (source : List Char) : dropLineBreak source <:+ source := by
  unfold dropLineBreak
  split
  · exact List.suffix_cons _ _
  · exact (List.suffix_cons _ _).trans (List.suffix_cons _ _)
  · exact List.suffix_refl _

/-- A text over several lines that is longer than what is left to read in front of `rest` is closed
within `rest`. -/
theorem exists_closing {place : Place} {source text left : List Char} (front rest : List Char)
    (h : basicLines place (dropLineBreak source) = some (text, left))
    (hsource : source = front ++ rest) (hlength : front.length ≤ text.length) : closing <:+: rest := by
  obtain ⟨used, same, hused⟩ := closes_of_basicLines h
  have hdropped : used ++ (closing ++ left) <:+ source := same ▸ dropLineBreak_suffix source
  have hclosing : closing ++ left <:+ source := (List.suffix_append used _).trans hdropped
  have hrest : rest <:+ source := hsource ▸ List.suffix_append front rest
  have : used.length + (closing ++ left).length ≤ front.length + rest.length := by
    simpa only [hsource, List.length_append] using hdropped.length_le
  exact (List.prefix_append closing left).isInfix.trans
    (List.suffix_of_suffix_length_le hclosing hrest (by omega)).isInfix

/-- What is read as the text that stands between two quotes was put there without escapes, unless
three quotes follow further down. -/
theorem unescaped_of_read {text rest left : List Char} (hrest : ¬ closing <:+: rest)
    (h : read ('"' :: (text ++ '"' :: '\n' :: rest)) = some (text, left)) :
    ∀ c ∈ text, isUnescaped c := by
  by_cases hlines : ∃ following, text ++ '"' :: '\n' :: rest = '"' :: '"' :: following
  · obtain ⟨following, same⟩ := hlines
    rcases text with _ | ⟨c, _ | ⟨d, text⟩⟩
    · simp at same
    · obtain ⟨rfl, -⟩ := List.cons.inj same
      exact absurd (exists_closing ['\n'] rest h rfl (by simp)) hrest
    · simp only [List.cons_append, List.cons.injEq] at same
      obtain ⟨rfl, rfl, -⟩ := same
      exact absurd (exists_closing (text ++ ['"', '\n']) rest h (by simp) (by simp)) hrest
  · rw [read_quote (not_exists.mp hlines)] at h
    exact unescaped_of_basic h

end Rebalancing.Toml.Quoted
