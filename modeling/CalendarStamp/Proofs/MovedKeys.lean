import CalendarStamp.Proofs.HexTexts
import CalendarStamp.Proofs.SeparatedContexts
import CalendarStamp.Proofs.UpdateReports

/-!
# What moves a lookup key

A lookup key is not stored.  It is derived anew each time, from the digest and
from the chain up to its first attestation.  Answers never move it: they leave
the digest alone, and they only add to chains behind an attestation.  A new nonce
or a new source moves it together with the digest, unless two runs from different
digests happen to come together in a hash, and a calendar is then asked for a key
that it has never seen.

Main results:

- Theorem `keys_never_move`: keys in a history of answers.
- Theorem `deriveKey_eq_iff`: when two runs of a chain end in the same key.
- Theorem `Request.lookup_injective`: requests for different keys are different.
- Theorem `keys_move_with_digest`: keys after a new nonce or source.
- Theorem `keys_lost`: a key that is lost with the old nonce, or the old source.
-/

namespace CalendarStamp

open Outcome

/-! ## Histories of answers -/

/-- In a history of answers that starts without attestations, an attestation has
a lookup key as soon as it is attached, and it has the same one in every later
state, be it between two actions or between the single steps of a batch. -/
theorem Timestamp.keys_never_move {timestamp : Timestamp}
    (unstamped : timestamp.attestations = []) {actions : List Action}
    (answers : ∀ action ∈ actions, action.isAnswer = true) {earlier later : List Action}
    (before : earlier <+: later)
    (passed : later <+: actions ∨ later <+: timestamp.singles actions) {index : Nat}
    {attestation : Attestation}
    (held : (timestamp.after earlier).attestations[index]? = some attestation) :
    ∃ key grown, (timestamp.after earlier).calendarKey attestation = .ok key ∧
      (timestamp.after later).attestations[index]? = some grown ∧
      (timestamp.after later).calendarKey grown = .ok key := by
  have hlater : ∀ action ∈ later, action.isAnswer = true := by
    intro action hmem
    rcases passed with hpassed | hpassed
    · exact answers action (hpassed.mem hmem)
    · rcases (mem_singles (hpassed.mem hmem)).2 with hmem | hanswer
      · exact answers action hmem
      · exact hanswer
  rcases before with ⟨more, rfl⟩
  rcases List.forall_mem_append.mp hlater with ⟨hearlier, hmore⟩
  have hrederivable : (timestamp.after earlier).Rederivable := by
    refine rederivable_after_answers hearlier ?_
    intro attestation hmem
    simp [unstamped] at hmem
  have hdigest : (timestamp.after (earlier ++ more)).digestHash =
      (timestamp.after earlier).digestHash := by
    rw [after_append]
    exact digestHash_congr (context_after _ hmore)
  rcases exists_calendarKey hrederivable (List.mem_of_getElem? held) with ⟨key, hkey⟩
  rcases (grows_along_history timestamp earlier more).attestations held with
    ⟨grown, hgrown, hgrows⟩
  refine ⟨key, grown, hkey, hgrown, ?_⟩
  rw [calendarKey, hdigest,
    Attestation.deriveKey_of_grows (hrederivable _ (List.mem_of_getElem? held)) hgrows]
  exact hkey

/-- The attestation that the second calendar completes keeps its key. -/
theorem Timestamp.keys_never_move_secondAnswers :
    specimen.attestations = [] ∧
      (∀ action ∈ promises ++ [detour, .update secondAnswers], action.isAnswer = true) ∧
      promises ++ [detour] <+: promises ++ [detour, .update secondAnswers] ∧
      (specimen.after (promises ++ [detour, .update secondAnswers])).attestations.map
          Attestation.isPending = [false, true, true] ∧
      ∃ attestation,
        (specimen.after (promises ++ [detour])).attestations[0]? = some attestation ∧
          ∃ key grown, (specimen.after (promises ++ [detour])).calendarKey attestation = .ok key ∧
            (specimen.after (promises ++ [detour, .update secondAnswers])).attestations[0]? =
              some grown ∧
            (specimen.after (promises ++ [detour, .update secondAnswers])).calendarKey grown =
              .ok key := by
  have hanswers : ∀ action ∈ promises ++ [detour, .update secondAnswers],
      action.isAnswer = true := by
    simp [promises, detour, Action.isAnswer]
  have hbefore : promises ++ [detour] <+: promises ++ [detour, .update secondAnswers] :=
    ⟨[.update secondAnswers], rfl⟩
  have hheld : (specimen.after (promises ++ [detour])).attestations[0]?.isSome = true := by
    decide +kernel
  rcases Option.isSome_iff_exists.mp hheld with ⟨attestation, hheld⟩
  exact ⟨rfl, hanswers, hbefore, by decide +kernel, attestation, hheld,
    keys_never_move rfl hanswers hbefore (.inl List.prefix_rfl) hheld⟩

/-! ## Runs from different accumulators -/

/-- The hash function that a step applies, if it applies one. -/
def Step.hash? : Step → Option (Bytes → Bytes)
  | .sha1 => some Hash.sha1
  | .ripemd160 => some Hash.ripemd160
  | .sha256 => some Hash.sha256
  | .append _ | .prepend _ | .attest _ => none

theorem Step.apply_of_hash? {step : Step} {hash : Bytes → Bytes} (h : step.hash? = some hash)
    (accumulator : Bytes) : step.apply accumulator = hash accumulator := by
  cases step <;> cases h <;> rfl

/-- An operation that applies a hash does not attest. -/
theorem Step.isAttestation_of_hash? {operation : Operation} {step : Step}
    (hstep : ofOperation operation = .ok step) {hash : Bytes → Bytes}
    (h : step.hash? = some hash) : operation.isAttestation = false := by
  cases hattests : operation.isAttestation with
  | false => rfl
  | true =>
    have hattest := ofOperation_eq_attest.mpr ⟨hattests, rfl⟩
    rw [hstep] at hattest
    cases hattest
    cases h

/-- A step that applies no hash keeps accumulators apart. -/
theorem Step.eq_of_apply_eq {step : Step} (h : step.hash? = none) {x y : Bytes}
    (hsame : step.apply x = step.apply y) : x = y := by
  cases step with
  | sha1 | ripemd160 | sha256 => cases h
  | append value => exact List.append_cancel_right hsame
  | prepend value => exact List.append_cancel_left hsame
  | attest operation => exact hsame

/-- Whether two runs of a chain come together on the way to its first
attestation, since one of its hashes gives the same for two different
accumulators. -/
def Meet (operations : List Operation) (x y : Bytes) : Prop :=
  ∃ (before : List Operation) (operation : Operation) (behind : List Operation) (step : Step)
      (hash : Bytes → Bytes) (u v : Bytes),
    operations = before ++ operation :: behind ∧
      (∀ earlier ∈ before, earlier.isAttestation = false) ∧
      deriveKey x before = .ok ⟨u⟩ ∧ deriveKey y before = .ok ⟨v⟩ ∧
      Step.ofOperation operation = .ok step ∧ step.hash? = some hash ∧ u ≠ v ∧ hash u = hash v

/-- Runs that come together in the first step. -/
theorem Meet.head {operation : Operation} {step : Step} {hash : Bytes → Bytes}
    (hstep : Step.ofOperation operation = .ok step) (hhash : step.hash? = some hash) {x y : Bytes}
    (hne : x ≠ y) (hsame : step.apply x = step.apply y) (rest : List Operation) :
    Meet (operation :: rest) x y := by
  rw [Step.apply_of_hash? hhash, Step.apply_of_hash? hhash] at hsame
  exact ⟨[], operation, rest, step, hash, x, y, rfl, nofun, rfl, rfl, hstep, hhash, hne, hsame⟩

/-- Runs that come together later. -/
theorem Meet.tail {operation : Operation} {step : Step}
    (hstep : Step.ofOperation operation = .ok step) (hother : operation.isAttestation = false)
    {rest : List Operation} {x y : Bytes} (h : Meet rest (step.apply x) (step.apply y)) :
    Meet (operation :: rest) x y := by
  rcases h with ⟨before, meeting, behind, last, hash, u, v, rfl, hbefore, hu, hv, hlast⟩
  refine ⟨operation :: before, meeting, behind, last, hash, u, v, rfl,
    List.forall_mem_cons.mpr ⟨hother, hbefore⟩, ?_, ?_, hlast⟩
  · rw [deriveKey_step hstep hother, hu]
  · rw [deriveKey_step hstep hother, hv]

/-- Runs that have come together end in the same key. -/
theorem Meet.deriveKey_eq {operations : List Operation} {x y : Bytes} (h : Meet operations x y) :
    deriveKey x operations = deriveKey y operations := by
  rcases h with ⟨before, operation, behind, step, hash, u, v, rfl, hbefore, hu, hv, hstep, hhash,
    _, hsame⟩
  have hother := Step.isAttestation_of_hash? hstep hhash
  rw [deriveKey_append_of_unattested hbefore, deriveKey_append_of_unattested hbefore, hu, hv,
    ok_bind, ok_bind, deriveKey_step hstep hother, deriveKey_step hstep hother,
    Step.apply_of_hash? hhash, Step.apply_of_hash? hhash, hsame]

/-- Whether a key can be derived does not depend on where the run starts. -/
theorem deriveKey_error_of_error {operations : List Operation} {x : Bytes} {e : Error}
    (h : deriveKey x operations = .error e) (y : Bytes) : deriveKey y operations = .error e := by
  induction operations generalizing x y with
  | nil => cases h
  | cons operation rest ih =>
    cases hstep : Step.ofOperation operation with
    | error cause =>
      rw [deriveKey_unknown hstep] at h ⊢
      exact h
    | ok step =>
      by_cases hattests : operation.isAttestation = true
      · rw [deriveKey_attest (Step.ofOperation_eq_attest.mpr ⟨hattests, rfl⟩)] at h
        cases h
      · have hother : operation.isAttestation = false := by simpa using hattests
        rw [deriveKey_step hstep hother] at h ⊢
        exact ih h _

/-- Two runs of a chain end in the same way when they start from the same
accumulator, or cannot be finished, or come together in a hash. -/
theorem deriveKey_eq_iff (operations : List Operation) (x y : Bytes) :
    deriveKey x operations = deriveKey y operations ↔
      x = y ∨ (∃ e, deriveKey x operations = .error e) ∨ Meet operations x y := by
  constructor
  · intro h
    induction operations generalizing x y with
    | nil =>
      cases h
      exact .inl rfl
    | cons operation rest ih =>
      cases hstep : Step.ofOperation operation with
      | error e => exact .inr (.inl ⟨e, deriveKey_unknown hstep x rest⟩)
      | ok step =>
        by_cases hattests : operation.isAttestation = true
        · have hattest := Step.ofOperation_eq_attest.mpr ⟨hattests, rfl⟩
          rw [deriveKey_attest hattest, deriveKey_attest hattest] at h
          cases h
          exact .inl rfl
        · have hother : operation.isAttestation = false := by simpa using hattests
          rw [deriveKey_step hstep hother, deriveKey_step hstep hother] at h
          rw [deriveKey_step hstep hother]
          rcases ih _ _ h with hsame | hfails | hmeet
          · by_cases hne : x = y
            · exact .inl hne
            · cases hhash : step.hash? with
              | none => exact absurd (Step.eq_of_apply_eq hhash hsame) hne
              | some hash => exact .inr (.inr (.head hstep hhash hne hsame rest))
          · exact .inr (.inl hfails)
          · exact .inr (.inr (.tail hstep hother hmeet))
  · rintro (rfl | ⟨e, hfails⟩ | hmeet)
    · rfl
    · rw [hfails, deriveKey_error_of_error hfails]
    · exact hmeet.deriveKey_eq

/-! ## Requests for keys -/

/-- The hexadecimal text of bytes tells the bytes. -/
theorem Hex.encode_injective {a b : Bytes} (h : encode a = encode b) : a = b := by
  have hdecoded := congrArg decode h
  rw [decode_encode, decode_encode] at hdecoded
  cases hdecoded
  rfl

/-- Requests to a calendar for different keys are different. -/
theorem Request.lookup_injective {url : String} {a b : CalendarKey}
    (h : lookup url a = lookup url b) : a = b := by
  have hurl : endpoint url ("timestamp/" ++ a.toHex) = endpoint url ("timestamp/" ++ b.toHex) :=
    congrArg Request.url h
  rw [endpoint, endpoint, String.append_right_inj, String.append_right_inj] at hurl
  cases a
  cases b
  exact congrArg CalendarKey.mk (Hex.encode_injective hurl)

/-! ## A new nonce or source -/

namespace Timestamp

/-- Whether a timestamp is another one with a new nonce or a new source. -/
inductive Reset (timestamp : Timestamp) : Timestamp → Prop
  | nonce (nonce : Nonce) : Reset timestamp (timestamp.setNonce nonce)
  | source (source : String) : Reset timestamp (timestamp.setSource source)

section Reset

variable {timestamp next : Timestamp} (reset : timestamp.Reset next)

include reset

theorem attestations_of_reset : next.attestations = timestamp.attestations := by
  cases reset <;> rfl

/-- A new nonce or source shows in the preimage, unless it is the old one. -/
theorem preimage_of_reset : next.preimage = timestamp.preimage ↔ next = timestamp := by
  constructor
  · intro h
    cases reset with
    | nonce nonce =>
      have hnonce : nonce.bytes = timestamp.nonce := by
        simpa [preimage, setNonce] using h
      rw [setNonce, hnonce]
    | source source =>
      have hsource : Utf8.encode source = Utf8.encode timestamp.source := by
        simpa [preimage, setSource] using h
      rw [setSource, Utf8.encode_injective hsource]
  · intro h
    rw [h]

/-- The digest stays when nothing is new, or else SHA-256 collides. -/
theorem digestHash_of_reset :
    next.digestHash = timestamp.digestHash ↔
      next = timestamp ∨ Hash.Collision next.preimage timestamp.preimage ∨
        Hash.Collision (Hash.sha256 next.preimage) (Hash.sha256 timestamp.preimage) := by
  rw [digestHash_eq_iff, preimage_of_reset reset]

end Reset

/-- Whether a key can be derived does not depend on the digest. -/
theorem calendarKey_eq_error_iff (a b : Timestamp) (attestation : Attestation) (e : Error) :
    a.calendarKey attestation = .error e ↔ b.calendarKey attestation = .error e :=
  ⟨fun h => deriveKey_error_of_error h _, fun h => deriveKey_error_of_error h _⟩

/-- The request for an attestation, if its key can be derived. -/
def requestFor? (timestamp : Timestamp) (attestation : Attestation) : Option Request :=
  (timestamp.calendarKey attestation).toOption.map fun key =>
    .lookup attestation.calendarUrl key

/-- Two timestamps have the same request for an attestation when they have the
same key for it, and both have one or none. -/
theorem requestFor?_cases (a b : Timestamp) (attestation : Attestation) :
    (a.requestFor? attestation = b.requestFor? attestation ↔
        a.calendarKey attestation = b.calendarKey attestation) ∧
      (a.requestFor? attestation).isSome = (b.requestFor? attestation).isSome := by
  unfold requestFor?
  cases ha : a.calendarKey attestation with
  | error e =>
    rw [(calendarKey_eq_error_iff a b attestation e).mp ha]
    simp
  | ok key =>
    cases hb : b.calendarKey attestation with
    | error e =>
      rw [(calendarKey_eq_error_iff b a attestation e).mp hb] at ha
      cases ha
    | ok other =>
      simp only [Except.toOption, Option.map_some, Option.some.injEq, Except.ok.injEq,
        Option.isSome_some, and_true]
      exact ⟨Request.lookup_injective, fun h => h ▸ rfl⟩

/-- Two timestamps have the same requests for some attestations when they have
the same key for each of them. -/
theorem filterMap_requestFor?_eq_iff (a b : Timestamp) (attestations : List Attestation) :
    attestations.filterMap a.requestFor? = attestations.filterMap b.requestFor? ↔
      ∀ attestation ∈ attestations, a.calendarKey attestation = b.calendarKey attestation := by
  induction attestations with
  | nil => simp
  | cons attestation rest ih =>
    rcases requestFor?_cases a b attestation with ⟨hsame, hsome⟩
    rw [List.forall_mem_cons, ← hsame, ← ih, List.filterMap_cons, List.filterMap_cons]
    cases ha : a.requestFor? attestation with
    | none =>
      have hb : b.requestFor? attestation = none := by simpa [ha] using hsome.symm
      simp [hb]
    | some request =>
      rcases Option.isSome_iff_exists.mp (hsome.symm.trans (by simp [ha])) with ⟨other, hb⟩
      simp [hb]

/-- Updates of two timestamps with the same attestations send the same requests
when they have the same key for each pending attestation. -/
theorem requests_update_eq_iff {a b : Timestamp} (same : a.attestations = b.attestations)
    (transport transport' : Transport) (start start' : Nat) :
    (a.update transport start).requests = (b.update transport' start').requests ↔
      ∀ attestation ∈ b.attestations, attestation.isPending = true →
        a.calendarKey attestation = b.calendarKey attestation := by
  have hpending : a.pending = b.pending := by rw [pending, pending, same]
  have hrequests := filterMap_requestFor?_eq_iff a b b.pending
  rw [requests_update, requests_update, hpending]
  refine hrequests.trans ⟨fun h attestation hmem hwaits => ?_, fun h attestation hmem => ?_⟩
  · exact h attestation (List.mem_filter.mpr ⟨hmem, hwaits⟩)
  · rcases List.mem_filter.mp hmem with ⟨hmem, hwaits⟩
    exact h attestation hmem hwaits

/-- A new nonce or source keeps the attestations, and with them which ones have
a key.  The key of an attestation is the same as before exactly when the digest
is the same, or the key cannot be derived at all, or the runs of its chain from
the two digests come together in a hash; and the digest is the same exactly when
nothing is new or SHA-256 collides.  So the next update asks for the same as
before only if that holds of every attestation that is pending. -/
theorem keys_move_with_digest {timestamp next : Timestamp} (reset : timestamp.Reset next) :
    next.attestations = timestamp.attestations ∧
      (next.digestHash = timestamp.digestHash ↔
        next = timestamp ∨ Hash.Collision next.preimage timestamp.preimage ∨
          Hash.Collision (Hash.sha256 next.preimage) (Hash.sha256 timestamp.preimage)) ∧
      (∀ attestation ∈ timestamp.attestations,
        (∀ e, next.calendarKey attestation = .error e ↔
          timestamp.calendarKey attestation = .error e) ∧
        (next.calendarKey attestation = timestamp.calendarKey attestation ↔
          next.digestHash = timestamp.digestHash ∨
            (∃ e, timestamp.calendarKey attestation = .error e) ∨
            Meet attestation.operations next.digestHash.bytes timestamp.digestHash.bytes)) ∧
      ∀ (transport transport' : Transport) (start start' : Nat),
        (next.update transport start).requests = (timestamp.update transport' start').requests ↔
          ∀ attestation ∈ timestamp.attestations, attestation.isPending = true →
            next.calendarKey attestation = timestamp.calendarKey attestation := by
  have hattestations := attestations_of_reset reset
  refine ⟨hattestations, digestHash_of_reset reset, fun attestation _ => ⟨?_, ?_⟩, ?_⟩
  · exact calendarKey_eq_error_iff next timestamp attestation
  · have hdigest : next.digestHash.bytes = timestamp.digestHash.bytes ↔
        next.digestHash = timestamp.digestHash :=
      ⟨fun h => Digest.ext h, fun h => congrArg Digest.bytes h⟩
    have herror : (∃ e, next.calendarKey attestation = .error e) ↔
        ∃ e, timestamp.calendarKey attestation = .error e :=
      exists_congr fun e => calendarKey_eq_error_iff next timestamp attestation e
    rw [← hdigest, ← herror]
    exact deriveKey_eq_iff attestation.operations _ _
  · exact requests_update_eq_iff hattestations

/-! ## A key that is lost -/

/-- A timestamp with the promise of a calendar that appends a byte and hashes what
it has before it attests. -/
def waiting : Timestamp :=
  specimen.after [.importResponse 7 ([0xf0, 0x01, 0x2a, 0x08] ++ promise 0x61)]

/-- A nonce that the timestamp did not have. -/
def otherNonce : Nonce := ⟨List.replicate 16 1, rfl⟩

/-- No key of the waiting timestamp is what it was once the nonce is another one,
or once there is a source. -/
theorem calendarKey_waiting :
    ∀ next ∈ [waiting.setNonce otherNonce, waiting.setSource "report"],
      ∀ attestation ∈ waiting.attestations,
        next.calendarKey attestation ≠ waiting.calendarKey attestation := by
  have hkeys : ∀ next ∈ [waiting.setNonce otherNonce, waiting.setSource "report"],
      ∀ attestation ∈ waiting.attestations,
        (next.calendarKey attestation).toOption ≠ (waiting.calendarKey attestation).toOption := by
    decide +kernel
  exact fun next hnext attestation hmem h =>
    hkeys next hnext attestation hmem (congrArg Except.toOption h)

/-- The waiting timestamp holds one attestation, which is pending. -/
theorem attestations_waiting :
    ∃ attestation, waiting.attestations = [attestation] ∧ attestation.isPending = true := by
  have hpending : waiting.attestations.map Attestation.isPending = [true] := by decide +kernel
  exact List.map_eq_singleton_iff.mp hpending

/-- Another nonce moves the key of the waiting attestation, and with it the request by
which an update asks for the rest. -/
theorem keys_move_with_digest_waiting :
    waiting.Reset (waiting.setNonce otherNonce) ∧
      (waiting.setNonce otherNonce).digestHash ≠ waiting.digestHash ∧
      ∃ attestation, waiting.attestations = [attestation] ∧ attestation.isPending = true ∧
        ¬Meet attestation.operations (waiting.setNonce otherNonce).digestHash.bytes
          waiting.digestHash.bytes ∧
        ((waiting.setNonce otherNonce).update (.ofList []) 0).requests ≠
          (waiting.update (.ofList []) 0).requests := by
  have hreset : waiting.Reset (waiting.setNonce otherNonce) := .nonce otherNonce
  rcases attestations_waiting with ⟨attestation, hone, hwaits⟩
  have hmem : attestation ∈ waiting.attestations := by simp [hone]
  have hmoved := calendarKey_waiting (waiting.setNonce otherNonce) (by simp) attestation hmem
  rcases keys_move_with_digest hreset with ⟨_, _, hkeys, hrequests⟩
  rcases hkeys attestation hmem with ⟨_, hkey⟩
  refine ⟨hreset, ?_, attestation, hone, hwaits, ?_, ?_⟩
  · exact fun hdigest => hmoved (hkey.mpr (.inl hdigest))
  · exact fun hmeet => hmoved (hkey.mpr (.inr (.inr hmeet)))
  · exact fun hsame => hmoved ((hrequests _ _ _ _).mp hsame attestation hmem hwaits)

/-- The key that an attestation is looked up under is lost with the old nonce, and
with the old source: it is another key from then on, and the one that the calendar
knows finds nothing. -/
theorem keys_lost :
    create 0 [0x2a] ⟨List.replicate 16 0, rfl⟩ = .ok specimen ∧
      ∃ attestation key, waiting.attestations = [attestation] ∧
        waiting.calendarKey attestation = .ok key ∧
        (waiting.setNonce otherNonce).calendarKey attestation ≠
          waiting.calendarKey attestation ∧
        (waiting.setSource "report").calendarKey attestation ≠
          waiting.calendarKey attestation ∧
        (waiting.setNonce otherNonce).positionOfKey? key = none ∧
        (waiting.setSource "report").positionOfKey? key = none := by
  rcases attestations_waiting with ⟨attestation, hone, _⟩
  have hmem : attestation ∈ waiting.attestations := by simp [hone]
  have hrederivable : waiting.Rederivable :=
    rederivable_after_answers (by simp [Action.isAnswer]) nofun
  rcases exists_calendarKey hrederivable hmem with ⟨key, hkey⟩
  have hlost {next : Timestamp} (reset : waiting.Reset next)
      (moved : next.calendarKey attestation ≠ waiting.calendarKey attestation) :
      next.positionOfKey? key = none := by
    rw [positionOfKey?_eq_none_iff, attestations_of_reset reset, hone, ← hkey]
    simpa using moved
  have hnonce := calendarKey_waiting (waiting.setNonce otherNonce) (by simp) attestation hmem
  have hsource := calendarKey_waiting (waiting.setSource "report") (by simp) attestation hmem
  exact ⟨rfl, attestation, key, hone, hkey, hnonce, hsource, hlost (.nonce otherNonce) hnonce,
    hlost (.source "report") hsource⟩

end Timestamp

end CalendarStamp
