import CalendarStamp.Toml.Quoted
import Mathlib

/-!
# Texts in quotes and out of them

A text in a settings file stands in one of four forms, and the writer picks the first
one that suits it.  Whatever the text holds, the reader finds its way back.  The two
forms with double quotes can hold any text, since everything in the way is escaped.
The forms with single quotes hold a text as it is, so they are used only for texts
without control characters and without the quotes that would close them.  Where three
quotes close a text, up to two quotes at its end run into them; of such a run the
reader takes the last three as the closing ones.

Main results:

- Theorem `longestRun_le_iff`: what the longest run of a character says about a text.
- Theorem `formOf_eq`: the form in which a text is written.
- Theorem `closing?_quotes`: quotes at the end of a text in front of closing ones.
- Theorem `readText_writeText`: a text in quotes is read as that text.
-/

namespace CalendarStamp.Toml

/-! ## Runs -/

/-- Whether a character stands so many times in a row in a text. -/
def HasRun (target : Char) (count : Nat) (text : List Char) : Prop :=
  List.replicate count target <:+: text

instance (target : Char) (count : Nat) (text : List Char) : Decidable (HasRun target count text) :=
  inferInstanceAs (Decidable (_ <:+: _))

section

variable {target : Char} {count : Nat} {text rest : List Char}

/-- Another character ends a run. -/
theorem hasRun_append_cons {c : Char} (hc : c ≠ target) (hcount : 0 < count) :
    HasRun target count (text ++ c :: rest) ↔
      HasRun target count text ∨ HasRun target count rest := by
  have hstart : ∀ {front}, front ≠ [] → (∀ d ∈ front, d = target) → ¬front <+: c :: rest := by
    intro front hne hall hstarts
    rcases List.exists_cons_of_ne_nil hne with ⟨d, front, rfl⟩
    rw [List.cons_prefix_cons] at hstarts
    exact hc (hstarts.1.symm.trans (hall d List.mem_cons_self))
  constructor
  · intro h
    rcases List.infix_append_iff.mp h with h | h | ⟨front, back, hsplit, hfront, hback⟩
    · exact .inl h
    · rcases List.infix_cons_iff.mp h with h | h
      · exact absurd h (hstart (by simpa using hcount.ne') fun d => List.eq_of_mem_replicate)
      · exact .inr h
    · -- A run that lies over the other character ends in front of it.
      have hnil : back = [] := by
        by_contra hne
        refine hstart hne (fun d hd => List.eq_of_mem_replicate (n := count) ?_) hback
        rw [hsplit]
        exact List.mem_append_right _ hd
      rw [hnil, List.append_nil] at hsplit
      left
      rw [HasRun, hsplit]
      exact hfront.isInfix
  · rintro (h | h)
    · exact h.trans (List.prefix_append ..).isInfix
    · exact h.trans ⟨text ++ [c], [], by simp⟩

theorem hasRun_replicate_iff {n : Nat} :
    HasRun target count (List.replicate n target) ↔ count ≤ n := by
  simp [HasRun, List.infix_replicate_iff]

/-- The length of the longest run says which runs there are. -/
theorem longestRun_le_iff {current longest bound : Nat} (h : current ≤ longest) :
    longestRun target current longest text ≤ bound ↔
      longest ≤ bound ∧ ¬HasRun target (bound + 1) (List.replicate current target ++ text) := by
  induction text generalizing current longest with
  | nil =>
    rw [longestRun, List.append_nil, hasRun_replicate_iff]
    omega
  | cons c text ih =>
    by_cases hc : c = target
    · subst hc
      have hjoin : List.replicate current c ++ c :: text =
          List.replicate (current + 1) c ++ text := by
        simp [List.replicate_succ']
      rw [longestRun, if_pos rfl, ih (Nat.le_max_right ..), hjoin, Nat.max_le]
      refine ⟨fun ⟨hmax, hrun⟩ => ⟨hmax.1, hrun⟩, fun ⟨hlongest, hrun⟩ => ⟨⟨hlongest, ?_⟩, hrun⟩⟩
      by_contra hover
      exact hrun ((hasRun_replicate_iff.mpr (Nat.not_le.mp hover)).trans
        (List.prefix_append ..).isInfix)
    · rw [longestRun, if_neg hc, ih (Nat.zero_le _), hasRun_append_cons hc (Nat.succ_pos _),
        List.replicate_zero, List.nil_append, hasRun_replicate_iff, not_or]
      refine ⟨fun ⟨hlongest, hrun⟩ => ⟨hlongest, by omega, hrun⟩, fun ⟨hlongest, _, hrun⟩ => ?_⟩
      exact ⟨hlongest, hrun⟩

theorem longestRun_eq_zero_iff : longestRun target 0 0 text = 0 ↔ target ∉ text := by
  rw [← Nat.le_zero, longestRun_le_iff (Nat.le_refl 0), List.replicate_zero, List.nil_append]
  simp [HasRun, List.singleton_infix_iff]

theorem longestRun_le_two_iff : longestRun target 0 0 text ≤ 2 ↔ ¬HasRun target 3 text := by
  rw [longestRun_le_iff (Nat.le_refl 0), List.replicate_zero, List.nil_append]
  simp

end

/-! ## Forms -/

/-- Whether a text has no control characters, apart from tabs and line breaks. -/
def IsVisible (text : List Char) : Prop :=
  ∀ c ∈ text, isControl c = true → c = '\n'

instance (text : List Char) : Decidable (IsVisible text) :=
  inferInstanceAs (Decidable (∀ c ∈ text, _))

/-- Without line breaks there are no control characters but tabs. -/
theorem IsVisible.isControl_eq_false {text : List Char} (h : IsVisible text)
    (hbreak : '\n' ∉ text) :
    ∀ c ∈ text, isControl c = false := by
  intro c hc
  by_contra hcontrol
  rw [h c hc (by simpa using hcontrol)] at hc
  exact hbreak hc

/-- Whether a form suits a text.  Nothing in the text has to be escaped then, apart from tabs. -/
def Form.Suits (text : List Char) : Form → Prop
  | basic => IsVisible text ∧ '\n' ∉ text ∧ '\\' ∉ text ∧ '"' ∉ text
  | literal => IsVisible text ∧ '\n' ∉ text ∧ '\'' ∉ text
  | multilineBasic => IsVisible text ∧ '\\' ∉ text ∧ ¬HasRun '"' 3 text
  | multilineLiteral => IsVisible text ∧ ¬HasRun '\'' 3 text

instance (text : List Char) : DecidablePred (Form.Suits text)
  | .basic => inferInstanceAs (Decidable (_ ∧ _))
  | .literal => inferInstanceAs (Decidable (_ ∧ _))
  | .multilineBasic => inferInstanceAs (Decidable (_ ∧ _))
  | .multilineLiteral => inferInstanceAs (Decidable (_ ∧ _))

/-- The form for a text that has to be escaped. -/
def Form.escaping (text : List Char) : Form :=
  if '\n' ∈ text then multilineBasic else basic

/-- The form for a text: the first one that suits it, or the one that escapes if none does. -/
def Form.first (text : List Char) : Form :=
  ([basic, literal, multilineBasic, multilineLiteral].find? fun form => form.Suits text).getD
    (escaping text)

theorem hasControl_eq_false_iff {text : List Char} : hasControl text = false ↔ IsVisible text := by
  simp [hasControl, IsVisible]

/-- The first form by cases. -/
theorem Form.first_eq (text : List Char) :
    Form.first text =
      if basic.Suits text then basic
      else if literal.Suits text then literal
      else if multilineBasic.Suits text then multilineBasic
      else if multilineLiteral.Suits text then multilineLiteral
      else escaping text := by
  rw [Form.first]
  by_cases hbasic : basic.Suits text
  · simp [hbasic]
  by_cases hliteral : literal.Suits text
  · simp [hbasic, hliteral]
  by_cases hmultilineBasic : multilineBasic.Suits text
  · simp [hbasic, hliteral, hmultilineBasic]
  by_cases hmultilineLiteral : multilineLiteral.Suits text <;>
    simp [hbasic, hliteral, hmultilineBasic, hmultilineLiteral]

/-- A text is written in the first form that suits it, and if none does it is escaped. -/
theorem formOf_eq (text : List Char) : formOf text = Form.first text := by
  rw [Form.first_eq]
  by_cases hvisible : IsVisible text
  · rw [formOf, if_neg (by simp [hasControl_eq_false_iff.mpr hvisible])]
    simp only [longestRun_eq_zero_iff, longestRun_le_two_iff, List.contains_eq_mem, Form.Suits,
      hvisible, true_and, Bool.and_eq_true, Bool.not_eq_true', decide_eq_true_eq,
      decide_eq_false_iff_not, Form.escaping]
    exact if_congr and_comm rfl (if_congr and_comm rfl rfl)
  · rw [formOf, if_pos (by simpa using mt hasControl_eq_false_iff.mp hvisible)]
    simp [Form.Suits, hvisible, Form.escaping]

/-- A form with single quotes is only used for texts that it suits. -/
theorem suits_formOf {text : List Char} {form : Form} (hform : formOf text = form)
    (hsingle : form = .literal ∨ form = .multilineLiteral) : form.Suits text := by
  rw [formOf_eq, Form.first] at hform
  cases hfind : [Form.basic, .literal, .multilineBasic, .multilineLiteral].find? fun form =>
      form.Suits text with
  | some found =>
    rw [hfind, Option.getD_some] at hform
    simpa [hform] using List.find?_some hfind
  | none =>
    rw [hfind, Option.getD_none, Form.escaping] at hform
    split at hform <;> simp [← hform] at hsingle

/-! ## Closing quotes -/

section

variable {quote : Char} {text rest : List Char}

/-- Up to two quotes in front of closing quotes belong to the text. -/
theorem closing?_quotes {count : Nat} (hcount : count ≤ 2) (hrest : rest.head? ≠ some quote) :
    closing? quote (List.replicate count quote ++ (List.replicate 3 quote ++ rest)) =
      some (List.replicate count quote, rest) := by
  have hstop : rest.takeWhile (· = quote) = [] := by
    cases rest with
    | nil => rfl
    | cons c rest => exact List.takeWhile_cons_of_neg (by simpa using hrest)
  have hrun : (List.replicate count quote ++ (List.replicate 3 quote ++ rest)).takeWhile
      (· = quote) = List.replicate (count + 3) quote := by
    rw [← List.append_assoc, ← List.replicate_add,
      List.takeWhile_append_of_pos (by simp), hstop, List.append_nil]
  rw [closing?, hrun]
  simp only [List.length_replicate]
  rw [if_neg (by omega), Nat.add_sub_cancel, Nat.min_eq_left hcount, ← List.append_assoc,
    ← List.replicate_add, List.drop_left' (List.length_replicate ..)]

/-- Where another character comes before three quotes in a row, nothing closes. -/
theorem closing?_eq_none (hother : ¬∀ c ∈ text, c = quote) (hrun : ¬List.replicate 3 quote <+: text)
    (rest : List Char) : closing? quote (text ++ rest) = none := by
  have htake : (text ++ rest).takeWhile (· = quote) = text.takeWhile (· = quote) := by
    rw [List.takeWhile_append, if_neg]
    intro hlength
    have hall := (List.takeWhile_sublist (· = quote)).eq_of_length hlength
    refine hother fun c hc => ?_
    rw [← hall] at hc
    simpa using List.mem_takeWhile_imp hc
  have hshort : (text.takeWhile (· = quote)).length < 3 := by
    by_contra hlong
    have htaken : text.takeWhile (· = quote) =
        List.replicate (text.takeWhile (· = quote)).length quote :=
      List.eq_replicate_of_mem fun d hd => by simpa using List.mem_takeWhile_imp hd
    have hquotes : List.replicate 3 quote <+: text.takeWhile (· = quote) := by
      rw [htaken, List.prefix_replicate_iff]
      simpa using Nat.not_lt.mp hlong
    have hfront : text.takeWhile (· = quote) <+: text := List.takeWhile_prefix _
    exact hrun (hquotes.trans hfront)
  rw [closing?, htake]
  simp only
  rw [if_pos hshort]

/-- Three quotes close a text without such quotes in front if it is quotes only.  Otherwise
something else comes first. -/
theorem closing?_append (hrun : ¬List.replicate 3 quote <+: text)
    (hrest : rest.head? ≠ some quote) :
    closing? quote (text ++ (List.replicate 3 quote ++ rest)) =
      if ∀ c ∈ text, c = quote then some (text, rest) else none := by
  by_cases hall : ∀ c ∈ text, c = quote
  · have htext := List.eq_replicate_of_mem hall
    have hcount : text.length ≤ 2 := by
      by_contra hlong
      apply hrun
      rw [htext, List.prefix_replicate_iff, List.length_replicate]
      exact ⟨Nat.not_le.mp hlong, rfl⟩
    rw [if_pos hall, htext]
    exact closing?_quotes hcount hrest
  · rw [if_neg hall, closing?_eq_none hall hrun]

end

/-! ## Escapes -/

/-- A reader that takes a plain character as it is and an escape for what it stands for. -/
structure ReadsEscapes (read : List Char → Option (List Char × List Char)) : Prop where
  letter : ∀ {letter c : Char} (rest : List Char), escaped? letter = some c →
    read ('\\' :: letter :: rest) = consText c <$> read rest
  code : ∀ {c : Char} (digits rest : List Char), digits.length = 4 → charOfHex? digits = some c →
    read ('\\' :: 'u' :: (digits ++ rest)) = consText c <$> read rest
  plain : ∀ {c : Char} (rest : List Char), isControl c = false → c ≠ '\\' → c ≠ '"' →
    read (c :: rest) = consText c <$> read rest

theorem escaped?_eq_some {letter c : Char} (h : escaped? letter = some c) :
    letter ≠ 'u' ∧ letter ≠ 'U' ∧ isSpace letter = false ∧ letter ≠ '\n' ∧ letter ≠ '\r' := by
  unfold escaped? at h
  split at h <;> first | decide | simp at h

theorem readsEscapes_readBasic : ReadsEscapes readBasic where
  letter rest h := by
    have hletter := escaped?_eq_some h
    rw [readBasic.eq_5 _ _ (fun _ _ _ _ _ hu => absurd hu hletter.1)
      (fun _ _ _ _ _ _ _ _ _ hu => absurd hu hletter.2.1), h]
    rfl
  code digits rest hlength h := by
    rcases List.length_eq_four.mp hlength with ⟨a, b, c, d, rfl⟩
    rw [List.cons_append, List.cons_append, List.cons_append, List.cons_append, List.nil_append,
      readBasic.eq_3, h]
    rfl
  plain rest hcontrol hslash hquote := by
    rw [readBasic.eq_6 _ _ hquote (fun _ _ _ _ _ h => absurd h hslash)
      (fun _ _ _ _ _ _ _ _ _ h => absurd h hslash) (fun _ _ h => absurd h hslash)]
    simp [hcontrol, hslash]

theorem ne_return_of_control {c : Char} (h : isControl c = true → c = '\n') : c ≠ '\r' := by
  rintro rfl
  exact absurd (h rfl) (by decide)

/-- A character that stands for itself is read, unless it begins the closing quotes. -/
theorem readMultilineBasic_cons {c : Char} (hcontrol : isControl c = true → c = '\n')
    (hslash : c ≠ '\\') (rest : List Char) :
    readMultilineBasic false (c :: rest) =
      (closing? '"' (c :: rest)).or (consText c <$> readMultilineBasic false rest) := by
  rw [readMultilineBasic.eq_6 _ _ _ (fun _ _ _ _ _ h => absurd h hslash)
    (fun _ _ _ _ _ _ _ _ _ h => absurd h hslash) (fun _ _ h => absurd h hslash)
    (fun _ h => absurd h (ne_return_of_control hcontrol)), Bool.false_and,
    if_neg Bool.false_ne_true]
  cases closing? '"' (c :: rest) with
  | some result => rfl
  | none =>
    have hplain : (isControl c && decide (c ≠ '\n') || decide (c = '\\')) = false := by
      cases hc : isControl c
      · simp [hslash]
      · simp [hcontrol hc]
    simp only [hplain, Option.none_or, if_neg Bool.false_ne_true]

/-- A character that stands for itself is read, unless it begins the closing quotes. -/
theorem readMultilineLiteral_cons {c : Char} (hcontrol : isControl c = true → c = '\n')
    (rest : List Char) :
    readMultilineLiteral (c :: rest) =
      (closing? '\'' (c :: rest)).or (consText c <$> readMultilineLiteral rest) := by
  rw [readMultilineLiteral.eq_3 _ _ fun _ h => absurd h (ne_return_of_control hcontrol)]
  cases closing? '\'' (c :: rest) with
  | some result => rfl
  | none =>
    have hplain : (isControl c && decide (c ≠ '\n')) = false := by
      cases hc : isControl c
      · rfl
      · simp [hcontrol hc]
    simp only [hplain, Option.none_or, if_neg Bool.false_ne_true]

theorem readsEscapes_readMultilineBasic : ReadsEscapes (readMultilineBasic false) where
  letter {letter c} rest h := by
    rcases escaped?_eq_some h with ⟨hshort, hlong, hspace, hbreak, hreturn⟩
    have hends : endsLine (letter :: rest) = false := by
      rw [endsLine, List.dropWhile_cons_of_neg (by simpa using hspace), lineBreak?.eq_3 _
        (fun _ hcons => hbreak (List.cons.inj hcons).1)
        (fun _ hcons => hreturn (List.cons.inj hcons).1)]
      rfl
    rw [readMultilineBasic.eq_4 _ _ _ (fun _ _ _ _ _ hu => absurd hu hshort)
      (fun _ _ _ _ _ _ _ _ _ hu => absurd hu hlong), hends, h]
    rfl
  code digits rest hlength h := by
    rcases List.length_eq_four.mp hlength with ⟨a, b, c, d, rfl⟩
    rw [List.cons_append, List.cons_append, List.cons_append, List.cons_append, List.nil_append,
      readMultilineBasic.eq_2, h]
    rfl
  plain {c} rest hcontrol hslash hquote := by
    have hopen : closing? '"' (c :: rest) = none := by
      simp [closing?, List.takeWhile_cons_of_neg, hquote]
    rw [readMultilineBasic_cons (fun h => absurd h (by simp [hcontrol])) hslash, hopen,
      Option.none_or]

/-- The code of a control character is written with four digits. -/
theorem charOfHex?_hexQuad {c : Char} (h : isControl c = true) :
    (hexQuad c.toNat).length = 4 ∧ charOfHex? (hexQuad c.toNat) = some c := by
  have hall : ∀ n < 128, (hexQuad n).length = 4 ∧ charOfHex? (hexQuad n) = some (Char.ofNat n) := by
    decide +kernel
  have hcode : c.toNat < 128 := by
    simp only [isControl, Bool.or_eq_true, Bool.and_eq_true, decide_eq_true_eq] at h
    omega
  simpa using hall c.toNat hcode

/-- What is written for a character is read as that character. -/
theorem ReadsEscapes.escapeChar {read : List Char → Option (List Char × List Char)}
    (h : ReadsEscapes read) {c : Char} (hquote : c ≠ '"') (rest : List Char) :
    read (escapeChar c ++ rest) = consText c <$> read rest := by
  unfold Toml.escapeChar
  split
  case h_6 =>
    split
    · rename_i hslash hcontrol
      rcases charOfHex?_hexQuad hcontrol with ⟨hlength, hcode⟩
      exact h.code _ rest hlength hcode
    · rename_i hslash hcontrol
      exact h.plain rest (by simpa using hcontrol) hslash hquote
  all_goals exact h.letter rest rfl

/-! ## Reading -/

/-- What is written between double quotes is read as the text. -/
theorem readBasic_escapeText (text rest : List Char) :
    readBasic (escapeText false 0 0 text ++ '"' :: rest) = some (text, rest) := by
  have hread := readsEscapes_readBasic
  induction text with
  | nil => rfl
  | cons c text ih =>
    rw [escapeText]
    by_cases hquote : c = '"'
    · rw [if_pos hquote, if_neg (Nat.not_lt_zero _), hquote, List.cons_append, List.cons_append,
        hread.letter _ rfl, ih]
      rfl
    rw [if_neg hquote]
    by_cases hbreak : c = '\n'
    · rw [if_pos hbreak, if_neg Bool.false_ne_true, hbreak, List.append_assoc, List.cons_append,
        List.cons_append, List.nil_append, hread.letter _ rfl, ih]
      rfl
    · rw [if_neg hbreak, List.append_assoc, hread.escapeChar hquote, ih]
      rfl

/-- A text without control characters and single quotes stands between single quotes. -/
theorem readLiteral_append {text : List Char} (hplain : ∀ c ∈ text, isControl c = false)
    (hquote : '\'' ∉ text) (rest : List Char) :
    readLiteral (text ++ '\'' :: rest) = some (text, rest) := by
  induction text with
  | nil => rfl
  | cons c text ih =>
    rw [List.mem_cons, not_or] at hquote
    rw [List.cons_append, readLiteral.eq_3 _ _ (fun h => hquote.1 h.symm),
      hplain c List.mem_cons_self, ih (fun d hd => hplain d (List.mem_cons_of_mem _ hd)) hquote.2]
    rfl

/-- What is written for a character other than a quote begins neither with a quote nor
with a control character. -/
theorem exists_escapeChar {c : Char} (hquote : c ≠ '"') :
    ∃ first others, escapeChar c = first :: others ∧ first ≠ '"' ∧ isControl first = false := by
  unfold escapeChar
  split
  case h_6 =>
    split
    · exact ⟨_, _, rfl, by decide⟩
    · rename_i hcontrol
      exact ⟨_, _, rfl, hquote, by simpa using hcontrol⟩
  all_goals exact ⟨_, _, rfl, by decide⟩

/-- A content begins with no more quotes than the ones just before it leave room for. -/
theorem not_prefix_escapeText {run : Nat} (hrun : run ≤ 2) (text : List Char) :
    ¬List.replicate (2 - run + 1) '"' <+: escapeText true 2 run text := by
  induction text generalizing run with
  | nil => simp [escapeText]
  | cons c text ih =>
    rw [escapeText, List.replicate_succ]
    by_cases hquote : c = '"'
    · by_cases hless : run < 2
      · rw [if_pos hquote, if_pos hless, List.cons_prefix_cons, not_and,
          show 2 - run = 2 - (run + 1) + 1 by omega]
        exact fun _ => ih (Nat.succ_le_of_lt hless)
      · rw [if_pos hquote, if_neg hless]
        simp
    · by_cases hbreak : c = '\n'
      · rw [if_neg hquote, if_pos hbreak]
        simp
      · rcases exists_escapeChar hquote with ⟨first, others, hfirst, hne, _⟩
        rw [if_neg hquote, if_neg hbreak, hfirst, List.cons_append, List.cons_prefix_cons]
        exact fun h => hne h.1.symm

/-- A content that is quotes only is the text itself. -/
theorem eq_escapeText_of_quotes {run : Nat} {text : List Char}
    (h : ∀ c ∈ escapeText true 2 run text, c = '"') : text = escapeText true 2 run text := by
  induction text generalizing run with
  | nil => rfl
  | cons c text ih =>
    rw [escapeText] at h ⊢
    by_cases hquote : c = '"'
    · by_cases hless : run < 2
      · rw [if_pos hquote, if_pos hless] at h ⊢
        rw [← ih fun d hd => h d (List.mem_cons_of_mem _ hd), hquote]
      · rw [if_pos hquote, if_neg hless] at h
        exact absurd (h '\\' List.mem_cons_self) (by decide)
    · rw [if_neg hquote] at h
      by_cases hbreak : c = '\n'
      · rw [if_pos hbreak] at h
        exact absurd (h '\n' List.mem_cons_self) (by decide)
      · rcases exists_escapeChar hquote with ⟨first, others, hfirst, hne, _⟩
        rw [if_neg hbreak, hfirst] at h
        exact absurd (h first List.mem_cons_self) hne

/-- A double quote that stands for itself is read, together with the closing ones if only
quotes are left. -/
theorem readMultilineBasic_quote {run : Nat} (hless : run < 2) {text rest : List Char}
    (hrest : rest.head? ≠ some '"')
    (hread : readMultilineBasic false
      (escapeText true 2 (run + 1) text ++ (List.replicate 3 '"' ++ rest)) = some (text, rest)) :
    readMultilineBasic false
        (escapeText true 2 run ('"' :: text) ++ (List.replicate 3 '"' ++ rest)) =
      some ('"' :: text, rest) := by
  have hcontent : escapeText true 2 run ('"' :: text) =
      '"' :: escapeText true 2 (run + 1) text := by
    rw [escapeText, if_pos rfl, if_pos hless]
  have hstarts : ¬List.replicate 3 '"' <+: escapeText true 2 run ('"' :: text) := by
    intro h
    refine not_prefix_escapeText hless.le ('"' :: text) (List.IsPrefix.trans ?_ h)
    rw [List.prefix_replicate_iff, List.length_replicate]
    exact ⟨by omega, rfl⟩
  have hclosing := closing?_append hstarts hrest
  by_cases hall : ∀ d ∈ escapeText true 2 run ('"' :: text), d = '"'
  · rw [if_pos hall, ← eq_escapeText_of_quotes hall, List.cons_append] at hclosing
    rw [← eq_escapeText_of_quotes hall, List.cons_append,
      readMultilineBasic_cons (by decide) (by decide), hclosing]
    rfl
  · rw [if_neg hall, hcontent, List.cons_append] at hclosing
    rw [hcontent, List.cons_append, readMultilineBasic_cons (by decide) (by decide), hclosing,
      hread]
    rfl

/-- What is written between three double quotes is read as the text. -/
theorem readMultilineBasic_escapeText {run : Nat} (hrun : run ≤ 2) (text : List Char)
    {rest : List Char} (hrest : rest.head? ≠ some '"') :
    readMultilineBasic false (escapeText true 2 run text ++ (List.replicate 3 '"' ++ rest)) =
      some (text, rest) := by
  have hread := readsEscapes_readMultilineBasic
  induction text generalizing run with
  | nil =>
    have hclosing := closing?_quotes (Nat.zero_le 2) hrest
    rw [List.replicate_zero, List.nil_append, List.replicate_succ, List.cons_append] at hclosing
    rw [escapeText, List.nil_append, List.replicate_succ, List.cons_append,
      readMultilineBasic_cons (by decide) (by decide), hclosing]
    rfl
  | cons c text ih =>
    by_cases hquote : c = '"'
    · subst hquote
      by_cases hless : run < 2
      · exact readMultilineBasic_quote hless hrest (ih (Nat.succ_le_of_lt hless))
      · rw [escapeText, if_pos rfl, if_neg hless, List.cons_append, List.cons_append,
          hread.letter _ rfl, ih (Nat.zero_le 2)]
        rfl
    · by_cases hbreak : c = '\n'
      · subst hbreak
        rw [escapeText, if_neg hquote, if_pos rfl, if_pos rfl, List.append_assoc, List.cons_append,
          List.nil_append, readMultilineBasic_cons (fun _ => rfl) (by decide), ih (Nat.zero_le 2)]
        simp [closing?, consText]
      · rw [escapeText, if_neg hquote, if_neg hbreak, List.append_assoc, hread.escapeChar hquote,
          ih (Nat.zero_le 2)]
        rfl

/-- A text with no single quotes to close it stands between three single quotes. -/
theorem readMultilineLiteral_append {text : List Char} (hvisible : IsVisible text)
    (hrun : ¬HasRun '\'' 3 text) {rest : List Char} (hrest : rest.head? ≠ some '\'') :
    readMultilineLiteral (text ++ (List.replicate 3 '\'' ++ rest)) = some (text, rest) := by
  induction text with
  | nil =>
    have hclosing := closing?_quotes (Nat.zero_le 2) hrest
    rw [List.replicate_zero, List.nil_append, List.replicate_succ, List.cons_append] at hclosing
    rw [List.nil_append, List.replicate_succ, List.cons_append,
      readMultilineLiteral_cons (by decide), hclosing]
    rfl
  | cons c text ih =>
    have hcontrol := hvisible c List.mem_cons_self
    have hstarts : ¬List.replicate 3 '\'' <+: c :: text := fun h => hrun h.isInfix
    have hclosing := closing?_append hstarts hrest
    rw [List.cons_append] at hclosing ⊢
    rw [readMultilineLiteral_cons hcontrol, hclosing]
    by_cases hall : ∀ d ∈ c :: text, d = '\''
    · rw [if_pos hall]
      rfl
    · rw [if_neg hall, ih (fun d hd => hvisible d (List.mem_cons_of_mem _ hd))
        fun h => hrun (h.trans (List.suffix_cons ..).isInfix)]
      rfl

/-! ## Quoted texts -/

/-- How the content of a text between double quotes may begin. -/
theorem head?_escapeText {multiline : Bool} {allowed run : Nat} {text : List Char} {d : Char}
    (h : (escapeText multiline allowed run text).head? = some d) :
    (d = '"' ∧ run < allowed) ∨ (d = '\n' ∧ '\n' ∈ text) ∨ (d ≠ '"' ∧ isControl d = false) := by
  cases text with
  | nil => simp [escapeText] at h
  | cons c text =>
    rw [escapeText] at h
    by_cases hquote : c = '"'
    · by_cases hless : run < allowed
      · rw [if_pos hquote, if_pos hless, List.head?_cons, Option.some_inj] at h
        exact .inl ⟨h.symm, hless⟩
      · rw [if_pos hquote, if_neg hless, List.head?_cons, Option.some_inj] at h
        exact h ▸ .inr (.inr (by decide))
    rw [if_neg hquote] at h
    by_cases hbreak : c = '\n'
    · rw [if_pos hbreak] at h
      cases multiline with
      | true =>
        rw [if_pos rfl, List.singleton_append, List.head?_cons, Option.some_inj] at h
        exact .inr (.inl ⟨h.symm, hbreak ▸ List.mem_cons_self⟩)
      | false =>
        rw [if_neg Bool.false_ne_true, List.cons_append, List.head?_cons, Option.some_inj] at h
        exact h ▸ .inr (.inr (by decide))
    · rcases exists_escapeChar hquote with ⟨first, others, hfirst, hplain⟩
      rw [if_neg hbreak, hfirst, List.cons_append, List.head?_cons, Option.some_inj] at h
      exact h ▸ .inr (.inr hplain)

/-- The line break behind opening quotes is passed over, and nothing else is. -/
theorem lineBreak?_opening {text content : List Char}
    (hcontent : '\n' ∉ text → ∀ d, content.head? = some d → isControl d = false) :
    (lineBreak? ((if text.contains '\n' then ['\n'] else []) ++ content)).getD
        ((if text.contains '\n' then ['\n'] else []) ++ content) = content := by
  by_cases hbreak : '\n' ∈ text
  · rw [if_pos (by simpa using hbreak)]
    rfl
  · rw [if_neg (by simpa using hbreak), List.nil_append]
    have hstart : ∀ c rest, isControl c = true → content ≠ c :: rest := by
      rintro c rest hcontrol rfl
      simp [hcontent hbreak c rfl] at hcontrol
    rw [lineBreak?.eq_3 _ (fun _ => hstart _ _ rfl) (fun _ => hstart _ _ rfl)]
    rfl

section

variable {text rest : List Char}

/-- A content that does not begin with a quote makes no three quotes with those around it. -/
theorem ne_three_quotes {quote : Char} {content : List Char} (hcontent : content.head? ≠ some quote)
    (hrest : rest.head? ≠ some quote) (tail : List Char) :
    quote :: (content ++ quote :: rest) ≠ quote :: quote :: quote :: tail := by
  intro h
  have htwo := List.tail_eq_of_cons_eq h
  cases content with
  | nil => simp [List.tail_eq_of_cons_eq htwo] at hrest
  | cons c content => simp [(List.cons.inj htwo).1] at hcontent

/-- In front of closing quotes a text begins as without them, or with a quote. -/
theorem isControl_head? {quote : Char} {content : List Char} (hquote : isControl quote = false)
    (hcontent : ∀ d, content.head? = some d → isControl d = false) :
    ∀ d, (content ++ (List.replicate 3 quote ++ rest)).head? = some d → isControl d = false := by
  intro d hd
  cases content with
  | nil =>
    cases hd
    exact hquote
  | cons c content => exact hcontent d hd

theorem readText_basic (hrest : rest.head? ≠ some '"') :
    readText (writeAs .basic text ++ rest) = some (text, rest) := by
  have hcontent : (escapeText false 0 0 text).head? ≠ some '"' := by
    intro h
    rcases head?_escapeText h with ⟨_, hless⟩ | ⟨hbreak, _⟩ | ⟨hquote, _⟩
    · exact absurd hless (Nat.not_lt_zero 0)
    · exact absurd hbreak (by decide)
    · exact hquote rfl
  rw [writeAs, List.cons_append, List.append_assoc, List.singleton_append,
    readText.eq_3 _ (ne_three_quotes hcontent hrest)
      (fun _ h => absurd (List.cons.inj h).1 (by decide))]
  exact readBasic_escapeText text rest

theorem readText_literal (hsuits : Form.literal.Suits text) (hrest : rest.head? ≠ some '\'') :
    readText (writeAs .literal text ++ rest) = some (text, rest) := by
  rcases hsuits with ⟨hvisible, hbreak, hquote⟩
  have hplain := hvisible.isControl_eq_false hbreak
  rw [writeAs, List.cons_append, List.append_assoc, List.singleton_append,
    readText.eq_3 _ (fun _ h => absurd (List.cons.inj h).1 (by decide))
      (ne_three_quotes (fun h => hquote (List.mem_of_head? h)) hrest)]
  exact readLiteral_append hplain hquote rest

theorem readText_multilineBasic (hrest : rest.head? ≠ some '"') :
    readText (writeAs .multilineBasic text ++ rest) = some (text, rest) := by
  have hcontent : '\n' ∉ text → ∀ d, (escapeText true 2 0 text).head? = some d →
      isControl d = false := by
    intro hbreak d hd
    rcases head?_escapeText hd with ⟨hquote, _⟩ | ⟨_, hmem⟩ | ⟨_, hcontrol⟩
    · rw [hquote]
      rfl
    · exact absurd hmem hbreak
    · exact hcontrol
  have hread := readMultilineBasic_escapeText (Nat.zero_le 2) text hrest
  rw [← lineBreak?_opening fun hbreak => isControl_head? rfl (hcontent hbreak)] at hread
  simpa [writeAs, readText] using hread

theorem readText_multilineLiteral (hsuits : Form.multilineLiteral.Suits text)
    (hrest : rest.head? ≠ some '\'') :
    readText (writeAs .multilineLiteral text ++ rest) = some (text, rest) := by
  rcases hsuits with ⟨hvisible, hrun⟩
  have hcontent : '\n' ∉ text → ∀ d, text.head? = some d → isControl d = false :=
    fun hbreak d hd => hvisible.isControl_eq_false hbreak d (List.mem_of_head? hd)
  have hread := readMultilineLiteral_append hvisible hrun hrest
  rw [← lineBreak?_opening fun hbreak => isControl_head? rfl (hcontent hbreak)] at hread
  simpa [writeAs, readText] using hread

/-- A text in quotes is read as that text. -/
theorem readText_writeText (text : List Char) (hdouble : rest.head? ≠ some '"')
    (hsingle : rest.head? ≠ some '\'') : readText (writeText text ++ rest) = some (text, rest) := by
  rw [writeText]
  cases hform : formOf text with
  | basic => exact readText_basic hdouble
  | literal => exact readText_literal (suits_formOf hform (.inl rfl)) hsingle
  | multilineBasic => exact readText_multilineBasic hdouble
  | multilineLiteral => exact readText_multilineLiteral (suits_formOf hform (.inr rfl)) hsingle

end

end CalendarStamp.Toml
