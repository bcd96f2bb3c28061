import CalendarStamp.Proofs.StoredRecords

/-!
# Records that stand behind one another

Nothing marks the end of a stored record, so bytes that were read as a record may
go on.  A reader takes a field without a look at what follows it, whatever came
before: fields that no record knows, groups within groups, numerals with zeros
that they do not need.  So the fields behind a record are read as if they stood
alone and laid over it, and a program may add to what is stored by appending.

Main results:

- Theorem `skipGroups_append`: skipping groups goes no further than their end.
- Theorem `Field.readAll_append`: behind fields that were read, more are read.
- Theorem `decode_append`: what stands behind a message is laid over it.
- Theorem `Record.decode?_append_encode`: a record that is stored behind another
  one is merged into it.
-/

namespace CalendarStamp

namespace Wire

/-! ## Reading in front of other bytes -/

section Appended

variable {nesting : Nat} {bytes rest : Bytes}

theorem readVarint_append {n : Nat} (h : readVarint bytes = some (n, rest)) (more : Bytes) :
    readVarint (bytes ++ more) = some (n, rest ++ more) := by
  rcases readVarint_eq_some_iff.mp h with ⟨digits, hnumeral, hlength, rfl⟩
  exact readVarint_eq_some_iff.mpr ⟨digits, hnumeral, hlength, List.append_assoc _ _ _⟩

theorem takeBytes_append {count : Nat} {taken : Bytes}
    (h : takeBytes count bytes = some (taken, rest)) (more : Bytes) :
    takeBytes count (bytes ++ more) = some (taken, rest ++ more) := by
  unfold takeBytes at h
  split at h
  · rename_i henough
    cases h
    have hlonger : count ≤ (bytes ++ more).length := by
      rw [List.length_append]
      omega
    rw [takeBytes, if_pos hlonger, List.take_append_of_le_length henough,
      List.drop_append_of_le_length henough]
  · cases h

theorem readDelimited_append {block : Bytes} (h : readDelimited bytes = some (block, rest))
    (more : Bytes) : readDelimited (bytes ++ more) = some (block, rest ++ more) := by
  rcases Option.bind_eq_some_iff.mp h with ⟨⟨size, tail⟩, hread, htake⟩
  simp only [readDelimited, readVarint_append hread more, Option.bind_eq_bind, Option.bind_some]
  exact takeBytes_append htake more

theorem readKey_append {key : Nat × Shape} (h : readKey bytes = some (key, rest))
    (more : Bytes) : readKey (bytes ++ more) = some (key, rest ++ more) := by
  rcases Option.bind_eq_some_iff.mp h with ⟨⟨value, tail⟩, hread, hkey⟩
  rcases Option.bind_eq_some_iff.mp hkey with ⟨shape, hshape, hkey⟩
  simp only [readKey, readVarint_append hread more, hshape, Option.bind_eq_bind, Option.bind_some]
  split at hkey
  · rename_i hvalid
    cases hkey
    rw [if_pos hvalid]
    rfl
  · cases hkey

theorem skipFlat_append {shape : Shape} (h : skipFlat shape bytes = some rest) (more : Bytes) :
    skipFlat shape (bytes ++ more) = some (rest ++ more) := by
  cases shape with
  | varint =>
    rcases Option.map_eq_some_iff.mp h with ⟨⟨value, tail⟩, hread, rfl⟩
    rw [skipFlat, readVarint_append hread more]
    rfl
  | fixed64 =>
    rcases Option.map_eq_some_iff.mp h with ⟨⟨digits, tail⟩, htake, rfl⟩
    rw [skipFlat, takeBytes_append htake more]
    rfl
  | delimited =>
    rcases Option.map_eq_some_iff.mp h with ⟨⟨block, tail⟩, hread, rfl⟩
    rw [skipFlat, readDelimited_append hread more]
    rfl
  | groupStart => cases h
  | groupEnd => cases h
  | fixed32 =>
    rcases Option.map_eq_some_iff.mp h with ⟨⟨digits, tail⟩, htake, rfl⟩
    rw [skipFlat, takeBytes_append htake more]
    rfl

/-- A step through open groups goes no further than its key and what belongs to it. -/
theorem groupStep_append {opened opened' : List Nat}
    (h : groupStep nesting opened bytes = some (opened', rest)) (more : Bytes) :
    groupStep nesting opened (bytes ++ more) = some (opened', rest ++ more) := by
  rcases Option.bind_eq_some_iff.mp h with ⟨⟨⟨number, shape⟩, tail⟩, hkey, hstep⟩
  simp only [groupStep, readKey_append hkey more, Option.bind_eq_bind, Option.bind_some]
  -- A payload of any shape but those of groups is skipped, where there is room for it.
  have hflat {shape : Shape}
      (hskip : (if opened.length < nesting then (fun rest => (opened, rest)) <$> skipFlat shape tail
        else none) = some (opened', rest)) :
      (if opened.length < nesting then
          (fun rest => (opened, rest)) <$> skipFlat shape (tail ++ more)
        else none) = some (opened', rest ++ more) := by
    split at hskip
    · rename_i hroom
      rcases Option.map_eq_some_iff.mp hskip with ⟨tail', hskip, htail⟩
      cases htail
      rw [if_pos hroom, skipFlat_append hskip more]
      rfl
    · cases hskip
  cases shape with
  | groupEnd =>
    simp only at hstep ⊢
    split at hstep
    · rename_i hends
      cases hstep
      rw [if_pos hends]
    · cases hstep
  | groupStart =>
    simp only at hstep ⊢
    split at hstep
    · rename_i hroom
      cases hstep
      rw [if_pos hroom]
    · cases hstep
  | varint => exact hflat hstep
  | fixed64 => exact hflat hstep
  | delimited => exact hflat hstep
  | fixed32 => exact hflat hstep

/-- Skipping groups goes no further than the end of the outermost one. -/
theorem skipGroups_append {opened : List Nat} (h : skipGroups nesting opened bytes = some rest)
    (more : Bytes) : skipGroups nesting opened (bytes ++ more) = some (rest ++ more) := by
  fun_induction skipGroups nesting opened bytes with
  | case1 bytes =>
    cases h
    rw [skipGroups]
  | case2 bytes number outer hstep => cases h
  | case3 bytes number outer opened' tail hstep ih =>
    have hlonger := groupStep_append hstep more
    rw [skipGroups]
    split
    · rename_i hnone
      rw [hlonger] at hnone
      cases hnone
    · rename_i opened'' tail' hsome
      rw [hlonger] at hsome
      cases hsome
      exact ih h

theorem readPayload_append {number : Nat} {shape : Shape} {payload : Payload}
    (h : readPayload nesting number shape bytes = some (payload, rest)) (more : Bytes) :
    readPayload nesting number shape (bytes ++ more) = some (payload, rest ++ more) := by
  cases shape with
  | varint =>
    rcases Option.bind_eq_some_iff.mp h with ⟨⟨value, tail⟩, hread, htail⟩
    cases htail
    simp [readPayload, readVarint_append hread more]
  | fixed64 =>
    rcases Option.bind_eq_some_iff.mp h with ⟨⟨digits, tail⟩, htake, htail⟩
    cases htail
    simp [readPayload, takeBytes_append htake more]
  | delimited =>
    rcases Option.bind_eq_some_iff.mp h with ⟨⟨content, tail⟩, hread, htail⟩
    cases htail
    simp [readPayload, readDelimited_append hread more]
  | groupStart =>
    rcases Option.bind_eq_some_iff.mp h with ⟨tail, hskip, htail⟩
    cases htail
    simp [readPayload, skipGroups_append hskip more]
  | groupEnd => cases h
  | fixed32 =>
    rcases Option.bind_eq_some_iff.mp h with ⟨⟨digits, tail⟩, htake, htail⟩
    cases htail
    simp [readPayload, takeBytes_append htake more]

namespace Field

/-- Reading a field goes no further than its end. -/
theorem read_append {field : Field} (h : read nesting bytes = some (field, rest))
    (more : Bytes) : read nesting (bytes ++ more) = some (field, rest ++ more) := by
  rcases Option.bind_eq_some_iff.mp h with ⟨⟨⟨number, shape⟩, tail⟩, hkey, hfield⟩
  rcases Option.bind_eq_some_iff.mp hfield with ⟨⟨payload, tail'⟩, hpayload, htail⟩
  cases htail
  simp [read, readKey_append hkey more, readPayload_append hpayload more]

/-- Behind fields that were read, more fields are read. -/
theorem readAll_append {fields : List Field} (h : readAll nesting bytes = some fields)
    (more : Bytes) :
    readAll nesting (bytes ++ more) = (fields ++ ·) <$> readAll nesting more := by
  fun_induction readAll nesting bytes generalizing fields with
  | case1 =>
    cases h
    simp
  | case2 byte rest hread => cases h
  | case3 byte rest field rest' hread ih =>
    rcases Option.map_eq_some_iff.mp h with ⟨later, hlater, rfl⟩
    rw [readAll_of_read (read_append hread more), ih hlater]
    cases readAll nesting more <;> rfl

end Field

end Appended

/-- Bytes behind a message that was read are read on top of it. -/
theorem decode_append {α : Type} (merge : α → Field → Option α) {nesting : Nat}
    {start reached : α} {bytes : Bytes} (h : decode merge nesting start bytes = some reached)
    (more : Bytes) :
    decode merge nesting start (bytes ++ more) = decode merge nesting reached more := by
  rcases Option.bind_eq_some_iff.mp h with ⟨fields, hfields, hmerged⟩
  simp only [decode, Field.readAll_append hfields more]
  cases Field.readAll nesting more with
  | none => rfl
  | some later => simp [List.foldlM_append, hmerged]

end Wire

/-! ## Records -/

namespace Record

/-- A record that is stored behind bytes which were read as another one is merged into that.
A number, a text or bytes that say something replace what was there, the attestations come
after those that were there, and an identity or a location is merged part by part into the one
that was there, or into an empty one.  The stored form is shorter than the limit of numerals,
as it is in any memory with addresses of 64 bits. -/
theorem decode?_append_encode {nesting : Nat} {bytes : Bytes} {earlier : Record}
    (h : decode? nesting bytes = some earlier) (later : Record)
    (fits : later.encode.length < Varint.limit) :
    decode? nesting (bytes ++ later.encode) = some (earlier.followedBy later) := by
  calc
    decode? nesting (bytes ++ later.encode)
        = Wire.decode (merge nesting) nesting earlier later.encode := Wire.decode_append _ h _
    _ = later.fields.foldlM (merge nesting) earlier :=
        Wire.decode_writeAll _ _ _ later.isPlain_fields fits
    _ = some (earlier.followedBy later) := foldlM_merge_fields nesting earlier later fits

/-- A group of a number that no record knows, an identity, a hash behind a length with a
needless zero, such a time, another hash, a location and an attestation that says nothing. -/
def scattered : Bytes :=
  [0x4b, 0x08, 0x80, 0x00, 0x4c] ++ [0x2a, 0x03, 0x0a, 0x01, 0x41] ++ [0x0a, 0x81, 0x00, 0x2a] ++
    [0x18, 0x87, 0x00] ++ [0x0a, 0x01, 0x2b] ++
    [0x32, 0x09, 0x09, 0x00, 0x00, 0x00, 0x00, 0x00, 0x00, 0xf8, 0x3f] ++ [0x3a, 0x00]

/-- A record with a part of each sort, and a negative zero. -/
def addition : Record :=
  { nonce := [0x01], identity := some { email := "b" }
    location := some { latitude := .negativeZero, direction := ⟨0x3f800000⟩ }
    attestations := [{ calendarUrl := "c", status := -1 }] }

/-- The scattered fields make a record, and the added record is merged into it. -/
theorem decode?_append_encode_scattered :
    decode? Wire.maxNesting scattered =
        some { hash := [0x2b], created := 7, identity := some { countryCode := "A" }
               location := some { latitude := ⟨0x3ff8000000000000⟩ }, attestations := [{}] } ∧
      addition.encode.length < Varint.limit ∧
      decode? Wire.maxNesting (scattered ++ addition.encode) =
        some { hash := [0x2b], nonce := [0x01], created := 7
               identity := some { countryCode := "A", email := "b" }
               location :=
                 some { latitude := ⟨0x3ff8000000000000⟩, direction := ⟨0x3f800000⟩ }
               attestations := [{}, { calendarUrl := "c", status := -1 }] } := by
  have hread : decode? Wire.maxNesting scattered =
      some { hash := [0x2b], created := 7, identity := some { countryCode := "A" }
             location := some { latitude := ⟨0x3ff8000000000000⟩ }, attestations := [{}] } := by
    decide +kernel
  have hfits : addition.encode.length < Varint.limit := by decide +kernel
  refine ⟨hread, hfits, (decode?_append_encode hread addition hfits).trans ?_⟩
  decide +kernel

end Record

end CalendarStamp
