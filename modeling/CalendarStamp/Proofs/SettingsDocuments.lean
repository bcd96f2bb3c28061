import CalendarStamp.Proofs.CalendarLists
import CalendarStamp.Proofs.NumberLiterals
import CalendarStamp.Proofs.QuotedTexts
import CalendarStamp.Toml.Document
import Mathlib

/-!
# Documents of settings

Settings are written as two lines, or as more when there are several calendars and
each stands on a line of its own.  The reader takes blanks, line breaks and commas
between the texts of an array, and the words of which numbers consist.  A number in
decimal digits could be taken for a date, for a floating-point number or for a number in
another base, but nothing stands between its digits, it has neither a point nor a power
of ten, and no zero in front of other digits.

Main results:

- Theorem `word?_toDigits`: a whole number is read as that number.
- Theorem `readValue_writeTexts`: an array of texts is read as these texts.
- Theorem `readLines_pair`: a line at the start of a document.
-/

namespace CalendarStamp.Toml

open Json (IsDigits isDigits_toDigits exists_toDigits)

/-! ## Numbers -/

/-- A text of digits holds no other character. -/
theorem not_mem_of_isDigits {text : List Char} (h : IsDigits text) {c : Char}
    (hc : c.isDigit = false) : c ∉ text := fun hmem => by
  rw [h c hmem] at hc
  contradiction

theorem hexValue?_of_isDigit {c : Char} (h : c.isDigit = true) :
    (hexValue? c).filter (· < 10) = some (c.toNat - 48) := by
  have hnine : '9'.toNat = 57 := rfl
  have hcode := Char.isDigit_iff_toNat.mp h
  have hrange : '0' ≤ c ∧ c ≤ '9' := by
    simpa [Char.isDigit, Char.le_def, UInt32.le_iff_toNat_le] using h
  rw [hexValue?, if_pos hrange, Option.filter_some, if_pos (by simp; omega)]

theorem mapM_hexValue? {text : List Char} (h : IsDigits text) :
    (text.mapM fun c => (hexValue? c).filter (· < 10)) = some (text.map fun c => c.toNat - 48) := by
  induction text with
  | nil => rfl
  | cons c text ih =>
    rw [List.mapM_cons, hexValue?_of_isDigit (h c List.mem_cons_self),
      ih fun d hd => h d (List.mem_cons_of_mem _ hd)]
    rfl

/-- Decimal digits are read as the number that they show. -/
theorem digits?_ten {text : List Char} (h : IsDigits text) (hne : text ≠ []) :
    digits? 10 text = some (Nat.ofDigitChars 10 text 0) := by
  have hempty : text.isEmpty = false := by simpa using hne
  rw [digits?, Text.split_eq_singleton (not_mem_of_isDigits h rfl)]
  simp only [List.any_cons, List.any_nil, hempty, Bool.or_self, List.flatten_cons,
    List.flatten_nil, List.append_nil, mapM_hexValue? h]
  rw [if_neg Bool.false_ne_true, Nat.ofDigitChars_eq_foldl]
  simp [List.foldl_map]

/-- A number has no zero in front of other digits. -/
theorem toDigits_ne_zero_cons (n : Nat) (c : Char) (rest : List Char) :
    Nat.toDigits 10 n ≠ '0' :: c :: rest := by
  intro h
  rcases Nat.eq_zero_or_pos n with rfl | hpos
  · simp at h
  · rcases exists_toDigits hpos with ⟨first, digits, hdigits, hfirst⟩
    rw [hdigits] at h
    exact hfirst (List.cons.inj h).1

theorem decimal?_toDigits (n : Nat) : decimal? (Nat.toDigits 10 n) = some n := by
  have hzero : ¬(Nat.toDigits 10 n).head? = some '0' ∨ (Nat.toDigits 10 n).length = 1 := by
    rcases hdigits : Nat.toDigits 10 n with _ | ⟨c, _ | ⟨d, rest⟩⟩
    · exact absurd hdigits Nat.toDigits_ne_nil
    · exact .inr rfl
    · left
      intro hc
      cases hc
      exact toDigits_ne_zero_cons n d rest hdigits
  rw [decimal?, if_neg (by simpa [Decidable.or_iff_not_imp_left] using hzero),
    digits?_ten (isDigits_toDigits n) Nat.toDigits_ne_nil, Nat.ofDigitChars_ten_toDigits]

theorem signed_of_isDigits {text : List Char} (h : IsDigits text) :
    signed text = (false, text) := by
  cases text with
  | nil => rfl
  | cons c text =>
    have hc := h c List.mem_cons_self
    refine signed.eq_3 _ (fun _ heq => ?_) (fun _ heq => ?_) <;>
      exact absurd ((List.cons.inj heq).1 ▸ hc) (by decide)

/-- A number without a point and without a power of ten is no floating-point number. -/
theorem isFloat_toDigits (n : Nat) : isFloat (Nat.toDigits 10 n) = false := by
  have hdigits := isDigits_toDigits n
  have hlower : (Nat.toDigits 10 n).map (fun c => if c = 'E' then 'e' else c) =
      Nat.toDigits 10 n := by
    refine (List.map_congr_left (g := id) fun c hc => if_neg ?_).trans (List.map_id _)
    rintro rfl
    exact not_mem_of_isDigits hdigits rfl hc
  have hpoint := Text.split_eq_singleton (not_mem_of_isDigits hdigits (rfl : '.'.isDigit = false))
  have hscientific : scientific? (Nat.toDigits 10 n) = none := by
    rw [scientific?, hlower, Text.split_eq_singleton (not_mem_of_isDigits hdigits rfl)]
    simp only [mantissa?, hpoint, decimal?_toDigits]
    rfl
  have hword : ∀ {c rest}, c.isDigit = false → Nat.toDigits 10 n ≠ c :: rest := fun hc h =>
    not_mem_of_isDigits hdigits hc (h ▸ List.mem_cons_self)
  rw [isFloat, signed_of_isDigits hdigits]
  simp [hscientific, hword (rfl : 'i'.isDigit = false), hword (rfl : 'n'.isDigit = false)]

/-- A number without a sign stays below the limit.  The limit is a variable here since
its value is too great to be unfolded. -/
theorem withSign_of_lt {limit n : Nat} (h : n < limit) :
    (do
      let value ← withSign false <$> some n
      if -(limit : Int) ≤ value ∧ value < limit then some value else none) = some (n : Int) := by
  have hrange : -(limit : Int) ≤ n ∧ (n : Int) < limit := by omega
  exact if_pos hrange

theorem integer?_toDigits {n : Nat} (h : n < integerLimit) :
    integer? (Nat.toDigits 10 n) = some (n : Int) := by
  rw [integer?.eq_4 _ (toDigits_ne_zero_cons n _) (toDigits_ne_zero_cons n _)
    (toDigits_ne_zero_cons n _), signed_of_isDigits (isDigits_toDigits n)]
  simp only [decimal?_toDigits]
  exact withSign_of_lt h

theorem after?_of_not_mem {c : Char} {text : List Char} (h : c ∉ text) : after? c text = none := by
  cases text with
  | nil => rfl
  | cons first text =>
    refine if_neg fun hsame => h ?_
    rw [← hsame]
    exact List.mem_cons_self

/-- What is left behind digits was there before. -/
theorem mem_of_readDigits {count n : Nat} {text rest : List Char}
    (h : readDigits count text = some (n, rest)) {c : Char} (hmem : c ∈ rest) : c ∈ text := by
  unfold readDigits at h
  simp only at h
  split at h
  · cases h
    exact List.mem_of_mem_drop hmem
  · contradiction

/-- What a text does not hold does not follow its digits. -/
theorem after?_of_readDigits {count : Nat} {text : List Char} {found : Nat × List Char} {c : Char}
    (h : c ∉ text) (hfound : readDigits count text = some found) : after? c found.2 = none :=
  after?_of_not_mem fun hmem => h (mem_of_readDigits hfound hmem)

/-- A text with no hyphen does not begin with a date. -/
theorem afterDate?_of_not_mem {text : List Char} (h : '-' ∉ text) : afterDate? text = none := by
  rw [afterDate?]
  cases hyear : readDigits 4 text with
  | none => rfl
  | some year => simp [after?_of_readDigits h hyear]

/-- A text with no colon does not begin with a time. -/
theorem afterTime?_of_not_mem {text : List Char} (h : ':' ∉ text) : afterTime? text = none := by
  rw [afterTime?, afterMinute?]
  cases hhour : readDigits 2 text with
  | none => rfl
  | some hour => simp [after?_of_readDigits h hhour]

/-- A number is no date and no time. -/
theorem isDateTime_of_isDigits {text : List Char} (h : IsDigits text) :
    isDateTime text = false := by
  rw [isDateTime, afterDate?_of_not_mem (not_mem_of_isDigits h rfl),
    afterTime?_of_not_mem (not_mem_of_isDigits h rfl)]
  rfl

/-- A whole number is read as that number. -/
theorem word?_toDigits {n : Nat} (h : n < integerLimit) :
    word? (Nat.toDigits 10 n) = some (.integer n) := by
  have hword : ∀ {c rest}, c.isDigit = false → Nat.toDigits 10 n ≠ c :: rest := fun hc h =>
    not_mem_of_isDigits (isDigits_toDigits n) hc (h ▸ List.mem_cons_self)
  have htrue : Nat.toDigits 10 n ≠ ['t', 'r', 'u', 'e'] := hword rfl
  have hfalse : Nat.toDigits 10 n ≠ ['f', 'a', 'l', 's', 'e'] := hword rfl
  simp only [word?, htrue, hfalse, isDateTime_of_isDigits (isDigits_toDigits n),
    isFloat_toDigits, integer?_toDigits h, Bool.false_eq_true, if_false]
  rfl

/-- A word that is not a date ends where its characters end. -/
theorem splitWord_append {word rest : List Char} (hword : ∀ c ∈ word, isWordChar c = true)
    (hrest : ∀ c, rest.head? = some c → isWordChar c = false) (hdate : afterDate? word = none) :
    splitWord (word ++ rest) = (word, rest) := by
  have hstop : rest.takeWhile isWordChar = [] ∧ rest.dropWhile isWordChar = rest := by
    cases rest with
    | nil => exact ⟨rfl, rfl⟩
    | cons c rest => simp [hrest c rfl]
  rw [splitWord, List.takeWhile_append_of_pos hword, List.dropWhile_append_of_pos hword,
    hstop.1, hstop.2, List.append_nil]
  split
  · simp [hdate]
  · rfl

/-- A number in a document is read as that number. -/
theorem readValue_writeNatural {n : Nat} (h : n < integerLimit) (depth : Nat) {rest : List Char}
    (hrest : ∀ c, rest.head? = some c → isWordChar c = false) :
    readValue depth (writeNatural n ++ rest) = some (.integer n, rest) := by
  have hdigits := isDigits_toDigits n
  have hword : ∀ c ∈ Nat.toDigits 10 n, isWordChar c = true := by
    intro c hc
    simp [isWordChar, Char.isAlphanum, hdigits c hc]
  have hfirst : ∀ c, c.isDigit = false → (Nat.toDigits 10 n ++ rest).head? ≠ some c := by
    intro c hc hhead
    rcases List.exists_cons_of_ne_nil (Nat.toDigits_ne_nil (b := 10) (n := n)) with ⟨d, ds, hcons⟩
    rw [hcons, List.cons_append, List.head?_cons, Option.some_inj] at hhead
    exact not_mem_of_isDigits hdigits hc (by simp [hcons, hhead])
  have hsplit := splitWord_append hword hrest
    (afterDate?_of_not_mem (not_mem_of_isDigits hdigits rfl))
  rw [writeNatural, readValue_eq_readPlain (hfirst _ rfl) (hfirst _ rfl), readPlain,
    if_neg (by simpa only [Bool.or_eq_true, decide_eq_true_eq, not_or] using
      ⟨hfirst '"' rfl, hfirst '\'' rfl⟩), hsplit]
  simp only [word?_toDigits h]
  rfl

/-! ## Arrays of texts -/

/-- A text in quotes begins with a quote. -/
theorem head?_writeText (text : List Char) :
    ∃ quote others, writeText text = quote :: others ∧ (quote = '"' ∨ quote = '\'') := by
  rw [writeText]
  cases formOf text with
  | basic => exact ⟨_, _, rfl, .inl rfl⟩
  | literal => exact ⟨_, _, rfl, .inr rfl⟩
  | multilineBasic => exact ⟨_, _, rfl, .inl rfl⟩
  | multilineLiteral => exact ⟨_, _, rfl, .inr rfl⟩

theorem readValue_writeText (depth : Nat) (text : String) {rest : List Char}
    (hdouble : rest.head? ≠ some '"') (hsingle : rest.head? ≠ some '\'') :
    readValue depth (writeText text.toList ++ rest) = some (.text text, rest) := by
  have hread := readText_writeText text.toList hdouble hsingle
  rcases head?_writeText text.toList with ⟨quote, others, hwritten, hquote⟩
  rw [hwritten, List.cons_append] at hread ⊢
  have hplain : ∀ c ∈ ['[', '\x7b'], (quote :: (others ++ rest)).head? ≠ some c := by
    rcases hquote with rfl | rfl <;> simp
  rw [readValue_eq_readPlain (hplain _ (by simp)) (hplain _ (by simp)), readPlain,
    if_pos (by rcases hquote with rfl | rfl <;> rfl), hread]
  simp

/-- What is no blank, line break or comment is not skipped. -/
theorem skipLines_cons {c : Char} (h : c ∉ [' ', '\t', '\n', '\r', '#']) (rest : List Char) :
    skipLines false (c :: rest) = some (c :: rest) := by
  simp only [List.mem_cons, List.not_mem_nil, or_false, not_or] at h
  rcases h with ⟨hblank, htab, hbreak, hreturn, hcomment⟩
  rw [skipLines.eq_4 _ _ _ hbreak (fun _ heq => absurd heq hreturn)]
  simp [isSpace, hblank, htab, hcomment]

section

variable {readItem : List Char → Option (Value × List Char)} {text start rest more tail : List Char}
  {item : Value} {items : List Value}

theorem readItems_close (h : skipLines false text = some (']' :: rest)) :
    readItems readItem text = some ([], rest) := by
  rw [readItems, h]
  rfl

theorem readItems_last (hstart : skipLines false text = some start)
    (hopen : start.head? ≠ some ']') (hitem : readItem start = some (item, rest))
    (hclose : skipLines false rest = some (']' :: tail)) :
    readItems readItem text = some ([item], tail) := by
  rw [readItems, hstart]
  simp only [Option.bind_eq_bind, Option.bind_some]
  split
  · simp at hopen
  · simp only [hitem, hclose, Option.bind_some]
    rfl

theorem readItems_more (hstart : skipLines false text = some start)
    (hopen : start.head? ≠ some ']') (hitem : readItem start = some (item, rest))
    (hcomma : skipLines false rest = some (',' :: more))
    (hlength : more.length < text.length) (hitems : readItems readItem more = some (items, tail)) :
    readItems readItem text = some (item :: items, tail) := by
  rw [readItems, hstart]
  simp only [Option.bind_eq_bind, Option.bind_some]
  split
  · simp at hopen
  · simp only [hitem, hcomma, Option.bind_some]
    rw [dif_pos hlength, hitems]
    rfl

end

/-- A text in quotes is not skipped. -/
theorem skipLines_writeText (text rest : List Char) :
    skipLines false (writeText text ++ rest) = some (writeText text ++ rest) := by
  rcases head?_writeText text with ⟨quote, others, hwritten, rfl | rfl⟩ <;>
    rw [hwritten, List.cons_append] <;>
    exact skipLines_cons (by decide) _

/-- A text in quotes does not close an array. -/
theorem head?_writeText_append (text rest : List Char) :
    (writeText text ++ rest).head? ≠ some ']' := by
  rcases head?_writeText text with ⟨quote, others, hwritten, rfl | rfl⟩ <;>
    rw [hwritten, List.cons_append, List.head?_cons] <;> decide

/-- Texts on lines of their own are read one by one, up to the closing bracket. -/
theorem readItems_lines (depth : Nat) (texts : List String) (rest : List Char) :
    readItems (readValue depth) (texts.flatMap (fun item =>
        '\n' :: (List.replicate 4 ' ' ++ writeText item.toList ++ [','])) ++ '\n' :: ']' :: rest) =
      some (texts.map .text, rest) := by
  induction texts with
  | nil =>
    have hclose : skipLines false ('\n' :: ']' :: rest) = some (']' :: rest) :=
      skipLines_cons (by decide) rest
    exact readItems_close hclose
  | cons item texts ih =>
    rw [List.flatMap_cons, List.append_assoc]
    generalize texts.flatMap _ ++ '\n' :: ']' :: rest = more at ih ⊢
    have hline : '\n' :: (List.replicate 4 ' ' ++ writeText item.toList ++ [',']) ++ more =
        '\n' :: (List.replicate 4 ' ' ++ (writeText item.toList ++ ',' :: more)) := by
      simp
    rw [hline]
    refine readItems_more ?_ (head?_writeText_append _ _)
      (readValue_writeText depth item (by simp) (by simp))
      (skipLines_cons (by decide) _) ?_ ih
    · exact skipLines_writeText item.toList (',' :: more)
    · simp only [List.length_cons, List.length_append]
      omega

/-- An array of texts is read as these texts. -/
theorem readValue_writeTexts (depth : Nat) (texts : List String) (rest : List Char) :
    readValue (depth + 1) (writeTexts texts ++ rest) = some (.array (texts.map .text), rest) := by
  rcases texts with _ | ⟨first, _ | ⟨second, others⟩⟩
  · exact readValue_of_readItems (readItems_close (skipLines_cons (by decide) _))
  · have hjoin : writeTexts [first] ++ rest = '[' :: (writeText first.toList ++ ']' :: rest) := by
      simp [writeTexts]
    rw [hjoin]
    exact readValue_of_readItems (readItems_last (skipLines_writeText _ _)
      (head?_writeText_append _ _) (readValue_writeText depth first (by simp) (by simp))
      (skipLines_cons (by decide) _))
  · have hjoin : writeTexts (first :: second :: others) ++ rest =
        '[' :: ((first :: second :: others).flatMap (fun item =>
          '\n' :: (List.replicate 4 ' ' ++ writeText item.toList ++ [','])) ++
            '\n' :: ']' :: rest) := by
      simp [writeTexts]
    rw [hjoin]
    exact readValue_of_readItems (readItems_lines depth _ rest)

/-- An array begins with its bracket. -/
theorem isSpace_head?_writeTexts (texts : List String) :
    ∀ c, (writeTexts texts).head? = some c → isSpace c = false := by
  intro c hc
  have hopen : (writeTexts texts).head? = some '[' := by
    rcases texts with _ | ⟨_, _ | ⟨_, _⟩⟩ <;> rfl
  rw [← Option.some_inj.mp (hopen.symm.trans hc)]
  rfl

/-- A number begins with a digit. -/
theorem isSpace_head?_writeNatural (n : Nat) :
    ∀ c, (writeNatural n).head? = some c → isSpace c = false := by
  intro c hc
  have hdigit := isDigits_toDigits n c (List.mem_of_head? hc)
  by_contra hspace
  simp only [isSpace, Bool.not_eq_false, Bool.or_eq_true, decide_eq_true_eq] at hspace
  rcases hspace with rfl | rfl <;> exact absurd hdigit (by decide)

/-! ## Lines -/

/-- A name that needs no quotes. -/
def IsPlainName (name : List Char) : Prop :=
  name ≠ [] ∧ ∀ c ∈ name, isNameChar c = true

/-- A name begins with none of the characters that have a meaning of their own. -/
theorem IsPlainName.exists_cons {name : List Char} (h : IsPlainName name) :
    ∃ c others, name = c :: others ∧ c ∉ [' ', '\t', '\n', '\r', '#', '"', '\'', '['] := by
  rcases List.exists_cons_of_ne_nil h.1 with ⟨c, others, rfl⟩
  refine ⟨c, others, rfl, fun hmem => ?_⟩
  have hc := h.2 c List.mem_cons_self
  simp only [List.mem_cons, List.not_mem_nil, or_false] at hmem
  rcases hmem with rfl | rfl | rfl | rfl | rfl | rfl | rfl | rfl <;> exact absurd hc (by decide)

/-- A name without quotes is read up to the equals sign. -/
theorem readKey_append {name : List Char} (h : IsPlainName name) (rest : List Char) :
    readKey (name ++ ' ' :: '=' :: rest) = some ([String.ofList name], '=' :: rest) := by
  rcases h.exists_cons with ⟨c, others, hname, hc⟩
  have hstart : (name ++ ' ' :: '=' :: rest).dropWhile isSpace = name ++ ' ' :: '=' :: rest := by
    rw [hname]
    refine List.dropWhile_cons_of_neg ?_
    simp only [List.mem_cons, not_or] at hc
    simp [isSpace, hc]
  have hread : readName (name ++ ' ' :: '=' :: rest) =
      some (String.ofList name, ' ' :: '=' :: rest) := by
    have hquote : ¬((name ++ ' ' :: '=' :: rest).head? = some '"' ||
        (name ++ ' ' :: '=' :: rest).head? = some '\'') = true := by
      simp only [List.mem_cons, not_or] at hc
      simp [hname, hc]
    have hstop : (' ' :: '=' :: rest).takeWhile isNameChar = [] ∧
      (' ' :: '=' :: rest).dropWhile isNameChar = ' ' :: '=' :: rest := ⟨rfl, rfl⟩
    rw [readName, if_neg hquote, List.takeWhile_append_of_pos h.2, List.dropWhile_append_of_pos h.2,
      hstop.1, hstop.2, List.append_nil]
    exact if_neg h.1
  have hpath : readPath (name ++ ' ' :: '=' :: rest) =
      some ([String.ofList name], '=' :: rest) := by
    rw [readPath, hstart, hread]
    rfl
  rw [readKey, hpath]
  rfl

/-- The end of a line is skipped. -/
theorem skipRest_break (rest : List Char) : skipRest ('\n' :: rest) = some rest := rfl

section

variable {name value rest : List Char} {content : Value}

/-- A name is read with the value behind the equals sign. -/
theorem readPair_append (hname : IsPlainName name)
    (hopen : ∀ c, value.head? = some c → isSpace c = false)
    (hvalue : readValue maxDepth (value ++ '\n' :: rest) = some (content, '\n' :: rest)) :
    readPair (readValue maxDepth) (name ++ ' ' :: '=' :: ' ' :: (value ++ '\n' :: rest)) =
      some (([String.ofList name], content), '\n' :: rest) := by
  have hstart : (' ' :: (value ++ '\n' :: rest)).dropWhile isSpace = value ++ '\n' :: rest := by
    cases value with
    | nil => rfl
    | cons c value =>
      have hc : ¬isSpace c = true := by simp [hopen c rfl]
      exact (List.dropWhile_cons_of_pos rfl).trans (List.dropWhile_cons_of_neg hc)
  have hequals : after? '=' ('=' :: ' ' :: (value ++ '\n' :: rest)) =
      some (' ' :: (value ++ '\n' :: rest)) := rfl
  rw [readPair, readKey_append hname]
  simp only [Option.bind_eq_bind, Option.bind_some, hequals, hstart, hvalue]
  rfl

/-- A line gives a name a value. -/
theorem readLine_pair (hname : IsPlainName name)
    (hopen : ∀ c, value.head? = some c → isSpace c = false)
    (hvalue : readValue maxDepth (value ++ '\n' :: rest) = some (content, '\n' :: rest)) :
    readLine (name ++ ' ' :: '=' :: ' ' :: (value ++ '\n' :: rest)) =
      some (.pair [String.ofList name] content, rest) := by
  have hpair := readPair_append hname hopen hvalue
  rcases hname.exists_cons with ⟨c, others, rfl, hc⟩
  simp only [List.mem_cons, not_or] at hc
  have hheader : ∀ tail, c :: (others ++ ' ' :: '=' :: ' ' :: (value ++ '\n' :: rest)) ≠
      '[' :: tail := fun tail heq => absurd (List.cons.inj heq).1 (by simp [hc])
  rw [List.cons_append] at hpair ⊢
  rw [readLine.eq_3 _ (fun _ => hheader _) hheader, hpair]
  simp only [Option.bind_eq_bind, Option.bind_some, skipRest_break]
  rfl

/-- A line at the start of a document is read first. -/
theorem readLines_pair (hname : IsPlainName name)
    (hopen : ∀ c, value.head? = some c → isSpace c = false)
    (hvalue : readValue maxDepth (value ++ '\n' :: rest) = some (content, '\n' :: rest)) :
    readLines (name ++ ' ' :: '=' :: ' ' :: (value ++ '\n' :: rest)) =
      (.pair [String.ofList name] content :: ·) <$> readLines rest := by
  have hline := readLine_pair hname hopen hvalue
  have hlength : rest.length < (name ++ ' ' :: '=' :: ' ' :: (value ++ '\n' :: rest)).length := by
    simp only [List.length_append, List.length_cons]
    omega
  rcases hname.exists_cons with ⟨c, others, rfl, hc⟩
  rw [List.cons_append] at hline hlength ⊢
  have hskip : c ∉ [' ', '\t', '\n', '\r', '#'] := fun hmem =>
    hc (List.mem_append_left ['"', '\'', '['] hmem)
  rw [readLines, skipLines_cons hskip]
  simp only [Option.bind_eq_bind, Option.bind_some, hline]
  rw [dif_pos hlength]
  cases readLines rest <;> rfl

end

/-- At its end a document has no more lines. -/
theorem readLines_nil : readLines [] = some [] := by
  rw [readLines]
  rfl

end CalendarStamp.Toml
