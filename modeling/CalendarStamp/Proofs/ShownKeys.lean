import CalendarStamp.Proofs.HexTexts
import CalendarStamp.Proofs.UpdateReports
import CalendarStamp.View

/-!
# Keys that are shown and asked for

The lookup key of an attestation is derived in three places: for the view, for
the requests of an update, and to find the attestation that an answer belongs to.
The view shows an empty text where the derivation fails, and this cannot be
mistaken for a key, since no step makes the digest empty.  So the view shows the
keys that an update asks for, and they are the keys that attestations are found
under.

Main results:

- Theorem `deriveKey_ne_nil`: a derived key is never empty.
- Theorem `requests_update_keyText`: an update asks for the keys that the view shows.
- Theorem `view_names_keys`: the view, the requests of an update and the search
  for an attestation agree on each key.
-/

namespace CalendarStamp

open Outcome

/-! ## Keys are not empty -/

/-- A derived key is never empty, whatever the chain makes of the bytes it starts with. -/
theorem deriveKey_ne_nil {initial : Bytes} (hinitial : initial ≠ []) {operations : List Operation}
    {key : CalendarKey} (h : deriveKey initial operations = .ok key) : key.bytes ≠ [] := by
  induction operations generalizing initial with
  | nil =>
    cases h
    exact hinitial
  | cons operation rest ih =>
    rw [deriveKey] at h
    rcases bind_eq_ok.mp h with ⟨step, _, hrest⟩
    cases step with
    | attest attested =>
      cases hrest
      exact hinitial
    | sha1 | ripemd160 | sha256 | append | prepend =>
      exact ih (Step.apply_ne_nil hinitial _) hrest

/-- Only no bytes at all are written as the empty text. -/
theorem Hex.encode_eq_empty_iff {bytes : Bytes} : Hex.encode bytes = "" ↔ bytes = [] := by
  constructor
  · intro h
    have hdecoded := decode_encode bytes
    rw [h] at hdecoded
    cases hdecoded
    rfl
  · rintro rfl
    rfl

namespace Timestamp

variable {timestamp : Timestamp} {attestation : Attestation}

theorem keyText_of_ok {key : CalendarKey} (h : timestamp.calendarKey attestation = .ok key) :
    timestamp.keyText attestation = key.toHex := by
  rw [keyText, h]

theorem keyText_of_error {e : Error} (h : timestamp.calendarKey attestation = .error e) :
    timestamp.keyText attestation = "" := by
  rw [keyText, h]

/-- A derived key has a text. -/
theorem toHex_ne_empty {key : CalendarKey} (h : timestamp.calendarKey attestation = .ok key) :
    key.toHex ≠ "" := by
  have hdigest : timestamp.digestHash.bytes ≠ [] := by
    rw [← List.length_pos_iff, timestamp.digestHash.length_eq]
    decide
  exact fun hempty => deriveKey_ne_nil hdigest h (Hex.encode_eq_empty_iff.mp hempty)

/-- The text that is shown for a key is empty exactly when there is no key. -/
theorem keyText_eq_empty_iff :
    timestamp.keyText attestation = "" ↔ ∃ e, timestamp.calendarKey attestation = .error e := by
  cases hkey : timestamp.calendarKey attestation with
  | ok key => simp [keyText_of_ok hkey, toHex_ne_empty hkey]
  | error e => simp [keyText_of_error hkey]

/-- An update asks for the keys that the view shows, one after the other, with a
request for each pending attestation that has one. -/
theorem requests_update_keyText (timestamp : Timestamp) (transport : Transport) (start : Nat) :
    (timestamp.update transport start).requests =
      timestamp.pending.filterMap fun attestation =>
        if timestamp.keyText attestation = "" then
          none
        else
          some { method := .get
                 url := Request.endpoint attestation.calendarUrl
                   ("timestamp/" ++ timestamp.keyText attestation) } := by
  rw [requests_update]
  refine congrArg (List.filterMap · _) (funext fun attestation => ?_)
  cases hkey : timestamp.calendarKey attestation with
  | ok key =>
    rw [keyText_of_ok hkey, if_neg (toHex_ne_empty hkey)]
    rfl
  | error e =>
    rw [keyText_of_error hkey]
    rfl

end Timestamp

/-! ## The end of an address -/

/-- What stands in an address behind its last slash. -/
def Request.lastSegment (url : String) : String :=
  String.ofList (url.toList.reverse.takeWhile (· ≠ '/')).reverse

/-- A text without slashes behind a slash is the last segment. -/
theorem Request.lastSegment_append {segment : String} (h : ∀ c ∈ segment.toList, c ≠ '/')
    (front : String) : lastSegment (front ++ "/" ++ segment) = segment := by
  have hreverse : ∀ c ∈ segment.toList.reverse, decide (c ≠ '/') = true := by
    simpa using h
  rw [lastSegment, String.toList_append, String.toList_append, List.reverse_append,
    List.reverse_append, List.takeWhile_append_of_pos hreverse]
  simp

/-- A key is the last segment of the address under which it is asked for. -/
theorem Request.lastSegment_endpoint (base : String) (bytes : Bytes) :
    lastSegment (endpoint base ("timestamp/" ++ Hex.encode bytes)) = Hex.encode bytes := by
  have hslash : ∀ c ∈ (Hex.encode bytes).toList, c ≠ '/' := by
    intro c hc
    rw [Hex.encode, String.toList_ofList] at hc
    rcases List.mem_map.mp hc with ⟨code, hcode, rfl⟩
    have hall := Hex.forall_byte (p := fun code => Hex.isDigit code = true →
      Char.ofNat code.toNat ≠ '/') (by decide +kernel)
    exact hall code (Hex.isDigit_of_mem_encodeDigits hcode).1
  have hpath : endpoint base ("timestamp/" ++ Hex.encode bytes) =
      (trimSlashes base ++ "/timestamp") ++ "/" ++ Hex.encode bytes := by
    rw [endpoint, ← String.toList_inj]
    simp
  rw [hpath, lastSegment_append hslash]

/-! ## What the view shows -/

/-- The value of the first member of an object that has a name. -/
def Json.get? (name : String) : Json → Option Json
  | .object members => (members.find? fun member => member.1 = name).map Prod.snd
  | _ => none

namespace Timestamp

theorem get?_attestations_view (timestamp : Timestamp) :
    timestamp.view.get? "attestations" =
      some (.array (timestamp.attestations.map timestamp.viewAttestation)) := by
  cases hidentity : timestamp.identity <;> cases hlocation : timestamp.location <;>
    simp [view, Json.get?, hidentity, hlocation]

theorem get?_calendarKey_view (timestamp : Timestamp) (attestation : Attestation) :
    (timestamp.viewAttestation attestation).get? "calendarKey" =
      some (.string (timestamp.keyText attestation)) := by
  simp [viewAttestation, Json.get?]

/-- Under the key of an attestation one is found that has this key. -/
theorem exists_attestationOfKey {timestamp : Timestamp} {attestation : Attestation}
    {key : CalendarKey} (hmem : attestation ∈ timestamp.attestations)
    (hkey : timestamp.calendarKey attestation = .ok key) :
    ∃ found ∈ timestamp.attestations,
      timestamp.attestationOfKey key = .ok found ∧ timestamp.calendarKey found = .ok key := by
  cases hfind : timestamp.attestations.find? (hasKey timestamp.digestHash key) with
  | none => exact absurd (hasKey_iff.mpr hkey) (List.find?_eq_none.mp hfind attestation hmem)
  | some found =>
    refine ⟨found, List.mem_of_find?_eq_some hfind, ?_, hasKey_iff.mp (List.find?_some hfind)⟩
    rw [attestationOfKey, hfind]

/-- The view shows for each attestation, in order, a text for its lookup key, which
is empty exactly when no key can be derived.  If an attestation is pending and the
text is not empty, an update asks its calendar for an address whose last segment is
that text, and the text stands for a key under which an attestation is found. -/
theorem view_names_keys (timestamp : Timestamp) (transport : Transport) (start : Nat) :
    ∃ shown, timestamp.view.get? "attestations" = some (.array shown) ∧
      shown.length = timestamp.attestations.length ∧
      ∀ (index : Nat) (attestation : Attestation),
        timestamp.attestations[index]? = some attestation →
        ∃ value text, shown[index]? = some value ∧
          value.get? "calendarKey" = some (.string text) ∧
          (text = "" ↔
            ∃ e, deriveKey timestamp.digestHash.bytes attestation.operations = .error e) ∧
          (attestation.isPending = true → text ≠ "" →
            ∃ request ∈ (timestamp.update transport start).requests,
              request.method = .get ∧
              request.url = Request.endpoint attestation.calendarUrl ("timestamp/" ++ text) ∧
              Request.lastSegment request.url = text ∧
              ∃ key found, CalendarKey.ofHex text = .ok key ∧
                timestamp.attestationOfKey key = .ok found ∧
                deriveKey timestamp.digestHash.bytes found.operations = .ok key) := by
  refine ⟨_, get?_attestations_view timestamp, List.length_map .., fun index attestation held => ?_⟩
  refine ⟨timestamp.viewAttestation attestation, timestamp.keyText attestation, ?_,
    get?_calendarKey_view timestamp attestation, keyText_eq_empty_iff, fun waits named => ?_⟩
  · rw [List.getElem?_map, held, Option.map_some]
  · cases hkey : timestamp.calendarKey attestation with
    | error e => exact absurd (keyText_of_error hkey) named
    | ok key =>
      have hmem := List.mem_of_getElem? held
      rcases exists_attestationOfKey hmem hkey with ⟨found, _, hfound, hfoundKey⟩
      refine ⟨{ method := .get
                url := Request.endpoint attestation.calendarUrl
                  ("timestamp/" ++ timestamp.keyText attestation) },
        ?_, rfl, rfl, ?_, key, found, ?_, hfound, hfoundKey⟩
      · rw [requests_update_keyText]
        exact List.mem_filterMap.mpr ⟨attestation, List.mem_filter.mpr ⟨hmem, waits⟩,
          if_neg named⟩
      · rw [keyText_of_ok hkey]
        exact Request.lastSegment_endpoint _ _
      · rw [keyText_of_ok hkey, CalendarKey.ofHex, readHex, CalendarKey.toHex, Hex.decode_encode]
        rfl

/-- An attestation of which the chain holds an operation of unknown kind. -/
def keyless : Attestation :=
  { status := 2, operations := [{ kind := 7 }, .pending "a"] }

/-- A promise under an address that looks like a request itself. -/
def keyed : Attestation :=
  { status := 2, calendarUrl := "b/timestamp/00//", operations := [.sha256, .pending "b"] }

/-- The attestation without a key shows none.  The other shows the key by which it is
asked for, although its own address ends like a request. -/
theorem view_names_keys_keyed :
    let timestamp := specimen.withAttestations [keyless, keyed]
    timestamp.attestations[0]? = some keyless ∧ timestamp.attestations[1]? = some keyed ∧
      keyed.isPending = true ∧
      ∃ shown first second text, timestamp.view.get? "attestations" = some (.array shown) ∧
        shown[0]? = some first ∧ first.get? "calendarKey" = some (.string "") ∧
        shown[1]? = some second ∧ second.get? "calendarKey" = some (.string text) ∧
        text ≠ "" ∧
        ∃ request ∈ (timestamp.update (.ofList []) 0).requests,
          request.url = Request.endpoint "b/timestamp/00//" ("timestamp/" ++ text) ∧
          Request.lastSegment request.url = text := by
  intro timestamp
  have hfails : deriveKey timestamp.digestHash.bytes keyless.operations =
      .error (.unhandledOperation 7) := rfl
  have hderived : deriveKey timestamp.digestHash.bytes keyed.operations =
      .ok ⟨Hash.sha256 timestamp.digestHash.bytes⟩ := rfl
  rcases view_names_keys timestamp (.ofList []) 0 with ⟨shown, hshown, _, hkeys⟩
  rcases hkeys 0 keyless rfl with ⟨first, blank, hfirst, hblank, hempty, _⟩
  rcases hkeys 1 keyed rfl with ⟨second, text, hsecond, htext, hfilled, hasked⟩
  have hname : text ≠ "" := by
    intro h
    rcases hfilled.mp h with ⟨e, he⟩
    rw [hderived] at he
    cases he
  rcases hasked rfl hname with ⟨request, hrequest, _, hurl, hlast, _⟩
  rw [hempty.mpr ⟨_, hfails⟩] at hblank
  exact ⟨rfl, rfl, rfl, shown, first, second, text, hshown, hfirst, hblank, hsecond, htext, hname,
    request, hrequest, hurl, hlast⟩

end Timestamp

end CalendarStamp
