import CalendarStamp.Proofs.CanonicalChains

/-!
# Chains that arrive in parts

Nothing marks the end of a chain.  An operation is read without a look at what
follows it, so a chain that could be read may go on, and a fault that was met is
there whatever comes later.  When bytes are missing at the end instead, reading
asks for more of them, unless they are missing between two operations: then an
earlier part of the chain is all there is.

Main results:

- Theorem `parse_eq_error_append`: no later bytes hide a fault.
- Theorem `parse_append`: what reading makes of bytes in front of other bytes.
- Theorem `read_of_isCut`: a numeral without its end is never read as another one.
- Theorem `readOperation_of_isCut`: an operation without its end is asked for.
- Theorem `parse_of_cut`: what reading makes of a chain without its end.
-/

namespace CalendarStamp

open Outcome

/-! ## Faults and missing bytes -/

/-- Whether an error of reading tells of a fault in the bytes, and not of bytes
that are missing. -/
def Error.isFault : Error → Bool
  | unsupportedOperation _ | varintOverflow | invalidCalendarUrl => true
  | _ => false

/-- Whether a step asks for more bytes than there are. -/
def AsksForMore {α : Type} (step : Except Error α) : Prop :=
  ∃ needed available, step = .error (.truncatedInput needed available) ∧ available < needed

theorem AsksForMore.bind {α β : Type} {first : Except Error α} (h : AsksForMore first)
    (next : α → Except Error β) : AsksForMore (first >>= next) := by
  rcases h with ⟨needed, available, rfl, hless⟩
  exact ⟨needed, available, rfl, hless⟩

theorem AsksForMore.map {α β : Type} {step : Except Error α} (h : AsksForMore step)
    (change : α → β) : AsksForMore (change <$> step) := by
  rcases h with ⟨needed, available, rfl, hless⟩
  exact ⟨needed, available, rfl, hless⟩

/-! ## Bytes without their end -/

namespace Bytes

/-- Whether bytes are others without some at their end. -/
def IsCut (cut whole : Bytes) : Prop :=
  ∃ missing, missing ≠ [] ∧ whole = cut ++ missing

theorem isCut_iff {cut whole : Bytes} : IsCut cut whole ↔ cut <+: whole ∧ cut ≠ whole := by
  constructor
  · rintro ⟨missing, hmissing, rfl⟩
    exact ⟨List.prefix_append cut missing, by simpa using hmissing⟩
  · rintro ⟨⟨missing, rfl⟩, hne⟩
    exact ⟨missing, by simpa using hne, rfl⟩

theorem not_isCut_nil (cut : Bytes) : ¬IsCut cut [] := by
  rintro ⟨missing, hmissing, hwhole⟩
  exact hmissing (List.append_eq_nil_iff.mp hwhole.symm).2

/-- The end is missing from the one part, or else from the other. -/
theorem isCut_append {cut front back : Bytes} (h : IsCut cut (front ++ back)) :
    IsCut cut front ∨ ∃ part, IsCut part back ∧ cut = front ++ part := by
  rcases h with ⟨missing, hmissing, hwhole⟩
  rcases List.append_eq_append_iff.mp hwhole with ⟨part, rfl, rfl⟩ | ⟨lost, rfl, rfl⟩
  · exact .inr ⟨part, ⟨missing, hmissing, rfl⟩, rfl⟩
  · by_cases hlost : lost = []
    · rw [hlost, List.nil_append] at hmissing
      exact .inr ⟨[], ⟨back, hmissing, rfl⟩, by simp [hlost]⟩
    · exact .inl ⟨lost, hlost, rfl⟩

theorem isCut_cons {cut back : Bytes} {byte : UInt8} (h : IsCut cut (byte :: back)) :
    cut = [] ∨ ∃ part, IsCut part back ∧ cut = byte :: part := by
  rcases h with ⟨missing, hmissing, hwhole⟩
  cases cut with
  | nil => exact .inl rfl
  | cons first part =>
    cases hwhole
    exact .inr ⟨part, ⟨missing, hmissing, rfl⟩, rfl⟩

/-- Pieces in a row lose some of them, and one loses its end. -/
theorem isCut_flatten {cut : Bytes} {pieces : List Bytes} (h : IsCut cut pieces.flatten) :
    ∃ before piece behind part, pieces = before ++ piece :: behind ∧ IsCut part piece ∧
      cut = before.flatten ++ part := by
  induction pieces generalizing cut with
  | nil => exact absurd h (not_isCut_nil cut)
  | cons first rest ih =>
    rw [List.flatten_cons] at h
    rcases isCut_append h with hfirst | ⟨remainder, hremainder, rfl⟩
    · exact ⟨[], first, rest, cut, rfl, hfirst, rfl⟩
    · rcases ih hremainder with ⟨before, piece, behind, part, rfl, hpart, rfl⟩
      exact ⟨first :: before, piece, behind, part, rfl, hpart, by simp⟩

end Bytes

/-! ## Reading in front of other bytes -/

namespace Varint

theorem readGroups_eq_error_append {input : Bytes} {scale value : Nat} {bytes : Bytes}
    {e : Error} (h : readGroups input scale value bytes = .error e) (fault : e.isFault = true)
    (whole more : Bytes) : readGroups whole scale value (bytes ++ more) = .error e := by
  induction bytes generalizing scale value with
  | nil =>
    cases h
    cases fault
  | cons byte rest ih =>
    rw [List.cons_append]
    rw [readGroups] at h ⊢
    split at h
    · rename_i hlarge
      rw [if_pos hlarge, h]
    · rename_i hfits
      rw [if_neg hfits]
      split at h
      · rename_i hcontinues
        rw [if_pos hcontinues]
        exact ih h
      · cases h

theorem readBlock_eq_error_append {bytes : Bytes} {e : Error} (h : readBlock bytes = .error e)
    (fault : e.isFault = true) (more : Bytes) : readBlock (bytes ++ more) = .error e := by
  rcases bind_eq_error.mp h with hsize | ⟨⟨size, rest⟩, _, hshort⟩
  · have hsize' : read (bytes ++ more) = .error e :=
      readGroups_eq_error_append hsize fault (bytes ++ more) more
    rw [readBlock, hsize']
    rfl
  · simp only at hshort
    split at hshort
    · cases hshort
    · cases hshort
      cases fault

theorem readBlock_eq_ok_append {bytes content rest : Bytes}
    (h : readBlock bytes = .ok (content, rest)) (more : Bytes) :
    readBlock (bytes ++ more) = .ok (content, rest ++ more) := by
  rcases readBlock_eq_ok_iff.mp h with ⟨digits, hnumeral, rfl⟩
  exact readBlock_eq_ok_iff.mpr ⟨digits, hnumeral, List.append_assoc ..⟩

end Varint

namespace Chain

open Varint Spelling Bytes

theorem readAttestation_eq_error_append {bytes : Bytes} {e : Error}
    (h : readAttestation bytes = .error e) (fault : e.isFault = true) (more : Bytes) :
    readAttestation (bytes ++ more) = .error e := by
  unfold readAttestation at h ⊢
  split at h
  · cases h
    cases fault
  · rename_i hlong
    have hlength : tagLength ≤ bytes.length := Nat.le_of_not_lt hlong
    have hlonger : ¬(bytes ++ more).length < tagLength := by
      rw [List.length_append]
      omega
    rw [if_neg hlonger, List.drop_append_of_le_length hlength,
      List.take_append_of_le_length hlength]
    rcases bind_eq_error.mp h with hblock | ⟨⟨payload, rest⟩, hblock, hpayload⟩
    · rw [readBlock_eq_error_append hblock fault more]
      rfl
    · -- The payload is complete, so what is wrong with it stays wrong.
      rcases bind_eq_error.mp hpayload with hpayload | ⟨operation, _, hnone⟩
      · rw [readBlock_eq_ok_append hblock more, ok_bind]
        simp only [hpayload, error_bind]
      · cases hnone

theorem readOperation_eq_error_append {tag : UInt8} {bytes : Bytes} {e : Error}
    (h : readOperation tag bytes = .error e) (fault : e.isFault = true) (more : Bytes) :
    readOperation tag (bytes ++ more) = .error e := by
  unfold readOperation at h ⊢
  split at h
  · rename_i kind hkind
    cases kind with
    | attestation => exact readAttestation_eq_error_append h fault more
    | sha1 | ripemd160 | sha256 => cases h
    | append | prepend =>
      rcases bind_eq_error.mp h with hblock | ⟨_, _, hnone⟩
      · rw [readBody, readBlock_eq_error_append hblock fault more]
        rfl
      · cases hnone
  · exact h

/-- No later bytes hide a fault. -/
theorem parse_eq_error_append {bytes : Bytes} {e : Error} (h : parse bytes = .error e)
    (fault : e.isFault = true) (more : Bytes) : parse (bytes ++ more) = .error e := by
  induction hlength : bytes.length using Nat.strongRecOn generalizing bytes with
  | ind length ih =>
    cases bytes with
    | nil =>
      rw [parse_nil] at h
      cases h
    | cons tag bytes =>
      rw [parse_cons] at h
      rw [List.cons_append, parse_cons]
      rcases bind_eq_error.mp h with hfirst | ⟨⟨first, rest⟩, hfirst, hrest⟩
      · rw [readOperation_eq_error_append hfirst fault more]
        rfl
      · have hshorter : rest.length < length := by
          have := readOperation_length hfirst
          simp only [List.length_cons] at hlength
          omega
        rcases isOperation_of_readOperation hfirst with ⟨piece, hpiece, hbytes⟩
        have hfirst' : readOperation tag (bytes ++ more) = .ok (first, rest ++ more) := by
          refine readOperation_of_isOperation hpiece ?_
          rw [← List.append_assoc, ← hbytes, List.cons_append]
        have hrest' := ih _ hshorter (map_eq_error.mp hrest) rfl
        rw [hfirst', ok_bind]
        simp only [hrest', map_error]

/-- Bytes that could be read go on with what can be read behind them, or fail as
that fails, and a fault in them is met whatever comes behind them. -/
theorem parse_append (bytes : Bytes) :
    (∀ operations, parse bytes = .ok operations → ∀ more,
      (∀ others, parse more = .ok others → parse (bytes ++ more) = .ok (operations ++ others)) ∧
      ∀ e, parse more = .error e → parse (bytes ++ more) = .error e) ∧
    ∀ e, parse bytes = .error e → e.isFault = true → ∀ more, parse (bytes ++ more) = .error e := by
  refine ⟨fun operations parsed more => ?_, fun e h => parse_eq_error_append h⟩
  have hread := parse_append_of_isChain (isChain_of_parse parsed) more
  constructor
  · intro others hothers
    rw [hread, hothers, map_ok]
  · intro e he
    rw [hread, he, map_error]

/-- A hash and an attestation of a block so high that its height is out of range. -/
def outOfRange : Bytes :=
  [0x08, 0x00, 0x05, 0x88, 0x96, 0x0d, 0x73, 0xd7, 0x19, 0x01, 0x05, 0x80, 0x80, 0x80, 0x80, 0x10]

/-- A loose chain takes another chain behind it, and fails with one that is cut off.  A
height out of range stays a failure. -/
theorem parse_append_looseBytes :
    parse looseBytes = .ok looseChain ∧
      parse (looseBytes ++ tightBytes) = .ok (looseChain ++ looseChain) ∧
      parse (looseBytes ++ [0xf0, 0x05, 0x01]) = .error (.truncatedInput 5 1) ∧
      parse outOfRange = .error .varintOverflow ∧
      ∀ more, parse (outOfRange ++ more) = .error .varintOverflow := by
  have hloose : parse looseBytes = .ok looseChain := by decide +kernel
  have htight : parse tightBytes = .ok looseChain := by decide +kernel
  have hshort : parse [0xf0, 0x05, 0x01] = .error (.truncatedInput 5 1) := by decide +kernel
  have hfault : parse outOfRange = .error .varintOverflow := by decide +kernel
  have hbehind := (parse_append looseBytes).1 looseChain hloose
  exact ⟨hloose, (hbehind _).1 _ htight, (hbehind _).2 _ hshort, hfault,
    (parse_append outOfRange).2 _ hfault rfl⟩

end Chain

/-! ## Reading bytes without their end -/

namespace Varint

open Bytes

/-- A numeral without its end has groups that are all in range, and asks for one more. -/
theorem readGroups_of_isCut {digits : Bytes} {n : Nat} (h : Groups digits n) {position : Nat}
    (fits : n * weight position < limit) (input : Bytes) (value : Nat) {cut : Bytes}
    (hcut : IsCut cut digits) :
    readGroups input (weight position) value cut =
      .error (.truncatedInput (input.length + 1) input.length) := by
  induction h generalizing position value cut with
  | last ends =>
    rcases isCut_cons hcut with rfl | ⟨part, hpart, _⟩
    · rfl
    · exact absurd hpart (not_isCut_nil part)
  | @more byte digits n follows tail ih =>
    rcases isCut_cons hcut with rfl | ⟨part, hpart, rfl⟩
    · rfl
    · rcases (groups_fit_iff (group_lt byte) n position).mp fits with ⟨hfirst, hrest⟩
      rw [readGroups, if_neg (Nat.not_le.mpr hfirst), if_pos follows, Nat.mul_comm, ← weight_succ]
      exact ih hrest _ hpart

/-- A numeral without its end is never read as another one. -/
theorem read_of_isCut {digits cut : Bytes} {n : Nat} (h : IsNumeral digits n)
    (hcut : IsCut cut digits) : AsksForMore (read cut) := by
  have hfits : n * weight 0 < limit := by simpa using h.lt_limit
  exact ⟨cut.length + 1, cut.length, readGroups_of_isCut h.groups hfits cut 0 hcut,
    Nat.lt_succ_self _⟩

end Varint

namespace Chain

open Varint Spelling Bytes

theorem readBlock_of_isCut {block content cut : Bytes} (h : lenient.IsBlock block content)
    (hcut : IsCut cut block) : AsksForMore (readBlock cut) := by
  rcases h with ⟨digits, hnumeral, rfl⟩
  rcases isCut_append hcut with hdigits | ⟨part, ⟨missing, hmissing, rfl⟩, rfl⟩
  · exact (read_of_isCut hnumeral hdigits).bind _
  · have hread : Varint.read (digits ++ part) = .ok ((part ++ missing).length, part) :=
      read_eq_ok_iff.mpr ⟨digits, hnumeral, rfl⟩
    have hpos := List.length_pos_iff.mpr hmissing
    have hless : part.length < (part ++ missing).length := by
      rw [List.length_append]
      omega
    refine ⟨(part ++ missing).length, part.length, ?_, hless⟩
    rw [readBlock, hread, ok_bind]
    simp only [if_neg (Nat.not_le.mpr hless), throw_eq]

theorem readAttestation_of_isCut {tag block payload cut : Bytes} {status : AttestationStatus}
    (tagged : IsTag tag status) (framed : lenient.IsBlock block payload)
    (hcut : IsCut cut (tag ++ block)) : AsksForMore (readAttestation cut) := by
  have hlength := (isTag_iff.mp tagged).1
  rcases isCut_append hcut with ⟨missing, hmissing, rfl⟩ | ⟨part, hpart, rfl⟩
  · have hpos := List.length_pos_iff.mpr hmissing
    have hshort : cut.length < tagLength := by
      rw [List.length_append] at hlength
      omega
    exact ⟨tagLength, cut.length, by rw [readAttestation, if_pos hshort, throw_eq], hshort⟩
  · have hlong : ¬(tag ++ part).length < tagLength := by
      rw [List.length_append]
      omega
    rw [readAttestation, if_neg hlong, ← hlength, List.drop_left]
    exact (readBlock_of_isCut framed hpart).bind _

/-- An operation of which the first byte is there asks for more when its body does. -/
theorem readOperation_of_isCut_body (kind : OperationKind) {tag : UInt8} {body cut : Bytes}
    (hcut : IsCut (tag :: cut) (kind.tag :: body))
    (hbody : IsCut cut body → AsksForMore (readBody kind cut)) :
    AsksForMore (readOperation tag cut) := by
  rcases isCut_cons hcut with hnil | ⟨part, hpart, hparts⟩
  · cases hnil
  · cases hparts
    rw [readOperation, OperationKind.ofTag?_tag]
    exact hbody hpart

/-- An operation without its end, of which there is at least the first byte, asks
for more. -/
theorem readOperation_of_isCut {tag : UInt8} {piece cut : Bytes} {operation : Operation}
    (h : lenient.IsOperation piece operation) (hcut : IsCut (tag :: cut) piece) :
    AsksForMore (readOperation tag cut) := by
  cases h with
  | sha1 =>
    exact readOperation_of_isCut_body .sha1 hcut fun hnone => absurd hnone (not_isCut_nil cut)
  | ripemd160 =>
    exact readOperation_of_isCut_body .ripemd160 hcut fun hnone => absurd hnone (not_isCut_nil cut)
  | sha256 =>
    exact readOperation_of_isCut_body .sha256 hcut fun hnone => absurd hnone (not_isCut_nil cut)
  | append framed =>
    refine readOperation_of_isCut_body .append hcut fun hpart => ?_
    exact (readBlock_of_isCut framed hpart).bind _
  | prepend framed =>
    refine readOperation_of_isCut_body .prepend hcut fun hpart => ?_
    exact (readBlock_of_isCut framed hpart).bind _
  | attestation tagged framed content =>
    refine readOperation_of_isCut_body .attestation hcut fun hpart => ?_
    exact readAttestation_of_isCut tagged framed hpart

/-- Whether bytes are those of a chain up to the end of so many of its operations. -/
def Spelling.EndsBehind (spelling : Spelling) (count : Nat) (operations : List Operation)
    (bytes cut : Bytes) : Prop :=
  ∃ pieces, List.Forall₂ spelling.IsOperation pieces operations ∧ bytes = pieces.flatten ∧
    cut = (pieces.take count).flatten

theorem parse_of_endsBehind {count : Nat} {operations : List Operation} {bytes cut : Bytes}
    (h : lenient.EndsBehind count operations bytes cut) :
    parse cut = .ok (operations.take count) := by
  rcases h with ⟨pieces, hpieces, _, rfl⟩
  exact parse_of_isChain ⟨pieces.take count, List.forall₂_take count hpieces, rfl⟩

/-- A chain that could be read, without its end, is read as an earlier part of it
where it ends between two operations; everywhere else reading asks for more bytes
than there are. -/
theorem parse_of_cut {bytes cut : Bytes} {operations : List Operation}
    (parsed : parse bytes = .ok operations) (shorter : cut <+: bytes) (proper : cut ≠ bytes) :
    (∃ count, count < operations.length ∧ lenient.EndsBehind count operations bytes cut ∧
        parse cut = .ok (operations.take count)) ∨
      (∀ count, ¬lenient.EndsBehind count operations bytes cut) ∧
        ∃ needed available, parse cut = .error (.truncatedInput needed available) ∧
          available < needed := by
  rcases isChain_of_parse parsed with ⟨pieces, hpieces, rfl⟩
  rcases isCut_flatten (isCut_iff.mpr ⟨shorter, proper⟩) with
    ⟨before, piece, behind, part, rfl, hpart, rfl⟩
  have hbefore : List.Forall₂ lenient.IsOperation before (operations.take before.length) := by
    simpa using List.forall₂_take before.length hpieces
  have hfollowing : List.Forall₂ lenient.IsOperation (piece :: behind)
      (operations.drop before.length) := by
    simpa using List.forall₂_drop before.length hpieces
  cases part with
  | nil =>
    -- The end is missing from a piece of which nothing is left.
    have hcount : before.length < operations.length := by
      rw [← hpieces.length_eq, List.length_append, List.length_cons]
      omega
    have hends : lenient.EndsBehind before.length operations
        (before ++ piece :: behind).flatten (before.flatten ++ []) :=
      ⟨before ++ piece :: behind, hpieces, rfl, by simp⟩
    exact .inl ⟨before.length, hcount, hends, parse_of_endsBehind hends⟩
  | cons tag rest =>
    rcases List.forall₂_cons_left_iff.mp hfollowing with ⟨operation, _, hpiece, _, _⟩
    have hasks : AsksForMore (parse (before.flatten ++ tag :: rest)) := by
      rw [parse_append_of_isChain ⟨before, hbefore, rfl⟩, parse_cons]
      exact ((readOperation_of_isCut hpiece hpart).bind _).map _
    refine .inr ⟨fun count hends => ?_, hasks⟩
    rcases hasks with ⟨needed, available, hfailed, _⟩
    rw [parse_of_endsBehind hends] at hfailed
    cases hfailed

/-- Four bytes of the loose chain are its first operation, two ask for more. -/
theorem parse_of_cut_looseBytes :
    parse looseBytes = .ok looseChain ∧
      (looseBytes.take 4 <+: looseBytes ∧ looseBytes.take 4 ≠ looseBytes ∧
        ∃ count, count < looseChain.length ∧
          lenient.EndsBehind count looseChain looseBytes (looseBytes.take 4) ∧
          parse (looseBytes.take 4) = .ok (looseChain.take count)) ∧
      looseBytes.take 2 <+: looseBytes ∧ looseBytes.take 2 ≠ looseBytes ∧
        (∀ count, ¬lenient.EndsBehind count looseChain looseBytes (looseBytes.take 2)) ∧
        ∃ needed available,
          parse (looseBytes.take 2) = .error (.truncatedInput needed available) ∧
            available < needed := by
  have hloose : parse looseBytes = .ok looseChain := by decide +kernel
  have hpiece : parse (looseBytes.take 4) = .ok [.append [0x2a]] := by decide +kernel
  have hlength : parse (looseBytes.take 2) = .error (.truncatedInput 2 1) := by decide +kernel
  have hfour : looseBytes.take 4 ≠ looseBytes := by decide
  have htwo : looseBytes.take 2 ≠ looseBytes := by decide
  refine ⟨hloose, ⟨List.take_prefix 4 _, hfour, ?_⟩, List.take_prefix 2 _, htwo, ?_⟩
  · rcases parse_of_cut hloose (List.take_prefix 4 _) hfour with hends | ⟨_, _, _, hfailed, _⟩
    · exact hends
    · rw [hpiece] at hfailed
      cases hfailed
  · rcases parse_of_cut hloose (List.take_prefix 2 _) htwo with ⟨_, _, _, hread⟩ | hasks
    · rw [hlength] at hread
      cases hread
    · exact hasks

end Chain

end CalendarStamp
