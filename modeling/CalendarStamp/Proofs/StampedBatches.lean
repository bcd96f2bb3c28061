import CalendarStamp.Proofs.Rederivation

/-!
# What comes of stamping

Each calendar that answers well offers an attestation, which depends on its
answer and on the digest alone.  Stamping attaches, of all that is offered, the
first attestation for each address that the timestamp does not hold yet.  A
calendar that fails offers nothing, so the others are served as if it had not
been asked.

Main results:

- Theorem `importReply_cases`: a reply is taken in when it offers an attestation.
- Theorem `applyStamps_eq`: stamping attaches the first offer for each new address.
- Theorem `offers_thinned`: replies that offer nothing may be left out.
- Theorem `stamp_isolates`: what is sent, what is counted, what stays as it is,
  and that a calendar that fails has no part in the outcome.
-/

namespace CalendarStamp

open Outcome

/-! ## Offers -/

/-- What a reply to a digest offers: the attestation that its chain leads to,
when there is a chain. -/
def Reply.offer? (digest : Digest) (reply : Reply) : Option Attestation :=
  match reply with
  | .ok body =>
    if body = [] then
      none
    else
      (Chain.parse body >>= fun operations =>
        (Attestation.ofOperations operations).fold digest.bytes).toOption
  | .error _ => none

/-- What replies offer, in order. -/
def offers (digest : Digest) (answers : List (String × Reply)) : List Attestation :=
  answers.filterMap fun (_, reply) => Reply.offer? digest reply

/-- The first attestations with each address, apart from addresses that are known. -/
def firsts (known : List String) : List Attestation → List Attestation
  | [] => []
  | attestation :: rest =>
    if attestation.calendarUrl ∈ known then
      firsts known rest
    else
      attestation :: firsts (known ++ [attestation.calendarUrl]) rest

namespace Clock

/-- Attestations marked with the time, one after the other. -/
def mark (clock : Clock) (attestations : List Attestation) : List Attestation :=
  attestations.mapIdx fun index attestation =>
    { attestation with submitted := clock.reading index }

@[simp] theorem mark_nil (clock : Clock) : clock.mark [] = [] := rfl

theorem mark_cons (clock : Clock) (attestation : Attestation) (rest : List Attestation) :
    clock.mark (attestation :: rest) =
      { attestation with submitted := clock.now } :: (clock.after 1).mark rest :=
  List.mapIdx_cons

@[simp] theorem length_mark (clock : Clock) (attestations : List Attestation) :
    (clock.mark attestations).length = attestations.length :=
  List.length_mapIdx

theorem getElem?_mark (clock : Clock) (attestations : List Attestation) (index : Nat) :
    (clock.mark attestations)[index]? =
      attestations[index]?.map fun attestation =>
        { attestation with submitted := clock.reading index } :=
  List.getElem?_mapIdx

/-- While the clock stands still, all attestations are marked with one time. -/
theorem mark_still (now : UInt32) (attestations : List Attestation) :
    (still now).mark attestations = attestations.map ({ · with submitted := now }) := by
  induction attestations with
  | nil => rfl
  | cons attestation rest ih =>
    rw [mark_cons, List.map_cons, ← ih]
    rfl

/-- The time has no part in what else attestations say. -/
theorem map_mark {α : Type} {see : Attestation → α}
    (h : ∀ attestation time, see { attestation with submitted := time } = see attestation)
    (clock : Clock) (attestations : List Attestation) :
    (clock.mark attestations).map see = attestations.map see := by
  induction attestations generalizing clock with
  | nil => rfl
  | cons attestation rest ih => rw [mark_cons, List.map_cons, List.map_cons, ih, h]

@[simp] theorem map_calendarUrl_mark (clock : Clock) (attestations : List Attestation) :
    (clock.mark attestations).map Attestation.calendarUrl =
      attestations.map Attestation.calendarUrl :=
  map_mark (fun _ _ => rfl) clock attestations

end Clock

namespace Timestamp

/-! ## Attaching several attestations -/

/-- The addresses of the attestations held. -/
def addresses (timestamp : Timestamp) : List String :=
  timestamp.attestations.map Attestation.calendarUrl

@[simp] theorem addresses_attach (timestamp : Timestamp) (now : UInt32)
    (attestation : Attestation) :
    (timestamp.attach now attestation).addresses =
      timestamp.addresses ++ [attestation.calendarUrl] := by
  simp [addresses]

/-- An attestation is new when its address is not held. -/
theorem isNew_iff {timestamp : Timestamp} {attestation : Attestation} :
    timestamp.IsNew attestation ↔ attestation.calendarUrl ∉ timestamp.addresses := by
  simp [IsNew, addresses]

/-- The timestamp with more attestations, marked with the time one after the other. -/
def attachAll (timestamp : Timestamp) (clock : Clock) (attestations : List Attestation) :
    Timestamp :=
  timestamp.withAttestations (timestamp.attestations ++ clock.mark attestations)

@[simp] theorem attestations_attachAll (timestamp : Timestamp) (clock : Clock)
    (attestations : List Attestation) :
    (timestamp.attachAll clock attestations).attestations =
      timestamp.attestations ++ clock.mark attestations := rfl

@[simp] theorem context_attachAll (timestamp : Timestamp) (clock : Clock)
    (attestations : List Attestation) :
    (timestamp.attachAll clock attestations).context = timestamp.context := rfl

@[simp] theorem digestHash_attachAll (timestamp : Timestamp) (clock : Clock)
    (attestations : List Attestation) :
    (timestamp.attachAll clock attestations).digestHash = timestamp.digestHash := rfl

@[simp] theorem addresses_attachAll (timestamp : Timestamp) (clock : Clock)
    (attestations : List Attestation) :
    (timestamp.attachAll clock attestations).addresses =
      timestamp.addresses ++ attestations.map Attestation.calendarUrl := by
  simp [addresses]

@[simp] theorem attachAll_nil (timestamp : Timestamp) (clock : Clock) :
    timestamp.attachAll clock [] = timestamp := by
  simp [attachAll, withAttestations]

theorem attachAll_cons (timestamp : Timestamp) (clock : Clock) (attestation : Attestation)
    (rest : List Attestation) :
    timestamp.attachAll clock (attestation :: rest) =
      (timestamp.attach clock.now attestation).attachAll (clock.after 1) rest := by
  simp [attachAll, attach, withAttestations, Clock.mark_cons]

/-! ## Taking in replies -/

/-- A reply is taken in when it offers an attestation, and refused when it does
not, which leaves the timestamp as it was. -/
theorem importReply_cases (timestamp : Timestamp) (now : UInt32) (request : Request)
    (reply : Reply) :
    (∃ attestation, Reply.offer? timestamp.digestHash reply = some attestation ∧
        (importReply now (Reply.nonempty request reply)).apply timestamp =
          (.ok (timestamp.addAttestation now attestation).1,
            (timestamp.addAttestation now attestation).2)) ∨
      Reply.offer? timestamp.digestHash reply = none ∧
        ∃ cause, (importReply now (Reply.nonempty request reply)).apply timestamp =
          (.error cause, timestamp) := by
  cases reply with
  | error cause => exact .inr ⟨rfl, cause, rfl⟩
  | ok body =>
    by_cases hempty : body = []
    · subst hempty
      exact .inr ⟨rfl, _, rfl⟩
    · have hnonempty : Reply.nonempty request (.ok body) = .ok body := by
        simp [Reply.nonempty, hempty]
      have himport := timestamp.importResponse_eq now body
      simp only [Reply.offer?, hempty, if_false, hnonempty]
      cases hparsed : Chain.parse body with
      | error e =>
        rw [hparsed, error_bind] at himport
        exact .inr ⟨rfl, _, apply_importReply_of_error himport⟩
      | ok operations =>
        rw [hparsed, ok_bind] at himport
        simp only [ok_bind]
        cases hran : (Attestation.ofOperations operations).fold timestamp.digestHash.bytes with
        | error e =>
          rw [hran, error_bind] at himport
          exact .inr ⟨rfl, _, apply_importReply_of_error himport⟩
        | ok attestation =>
          rw [hran, ok_bind] at himport
          exact .inl ⟨attestation, rfl, apply_importReply_of_ok himport⟩

/-- Stamping attaches the first offer for each address that is not held, and
counts what it attaches. -/
theorem applyStamps_eq (clock : Clock) (digest : Digest) (request : String → Request)
    (timestamp : Timestamp) (answers : List (String × Reply)) :
    (applyStamps clock digest timestamp
          (answers.map fun (url, reply) => (url, Reply.nonempty (request url) reply))).1 =
        timestamp.attachAll clock
          (firsts timestamp.addresses (offers timestamp.digestHash answers)) ∧
      (applyStamps clock digest timestamp
          (answers.map fun (url, reply) => (url, Reply.nonempty (request url) reply))).2.1 =
        (firsts timestamp.addresses (offers timestamp.digestHash answers)).length := by
  induction answers generalizing clock timestamp with
  | nil => exact ⟨(attachAll_nil timestamp clock).symm, rfl⟩
  | cons answer rest ih =>
    rcases answer with ⟨url, reply⟩
    rw [List.map_cons]
    rcases timestamp.importReply_cases clock.now (request url) reply with
      ⟨attestation, hoffer, hreply⟩ | ⟨hoffer, cause, hreply⟩
    · have hoffers : offers timestamp.digestHash ((url, reply) :: rest) =
          attestation :: offers timestamp.digestHash rest :=
        List.filterMap_cons_some hoffer
      rw [hoffers, firsts, applyStamps_cons hreply]
      rcases timestamp.addAttestation_cases clock.now attestation with
        ⟨hnew, hadded⟩ | ⟨hknown, hadded⟩
      · rw [isNew_iff] at hnew
        -- The digest stays the same, so the rest of the replies offer what they did.
        rcases ih (clock.after 1) (timestamp.attach clock.now attestation) with ⟨hfinal, hcount⟩
        rw [addresses_attach, show (timestamp.attach clock.now attestation).digestHash =
          timestamp.digestHash from rfl] at hfinal hcount
        rw [if_neg hnew, attachAll_cons, List.length_cons, ← hfinal, ← hcount, hadded]
        exact ⟨rfl, rfl⟩
      · rw [isNew_iff, Decidable.not_not] at hknown
        rcases ih clock timestamp with ⟨hfinal, hcount⟩
        rw [if_pos hknown, ← hfinal, ← hcount, hadded]
        exact ⟨rfl, rfl⟩
    · have hoffers : offers timestamp.digestHash ((url, reply) :: rest) =
          offers timestamp.digestHash rest :=
        List.filterMap_cons_none hoffer
      rcases ih clock timestamp with ⟨hfinal, hcount⟩
      rw [hoffers, ← hfinal, ← hcount, applyStamps_cons hreply]
      exact ⟨rfl, rfl⟩

/-- Each reply is noted by one event, which is no request. -/
theorem applyStamps_log (clock : Clock) (digest : Digest) (timestamp : Timestamp)
    (answers : List (String × Reply)) :
    (applyStamps clock digest timestamp answers).2.2.length = answers.length ∧
      ∀ event ∈ (applyStamps clock digest timestamp answers).2.2,
        ∀ request, event ≠ .sent request := by
  have hevent (url : String) (result : Except ClientError Bool) (request : Request) :
      stampEvent digest url result ≠ .sent request := by
    rcases result with cause | (_ | _) <;> exact nofun
  induction answers generalizing clock timestamp with
  | nil => exact ⟨rfl, nofun⟩
  | cons answer rest ih =>
    rcases answer with ⟨url, reply⟩
    rcases htaken : (importReply clock.now reply).apply timestamp with ⟨result, next⟩
    rw [applyStamps_cons htaken]
    rcases ih (clock.after (countAdded result)) next with ⟨hlength, hrest⟩
    exact ⟨congrArg Nat.succ hlength, List.forall_mem_cons.mpr ⟨hevent url _, hrest⟩⟩

/-! ## What is heard -/

/-- What comes back for each address that a timestamp is submitted to. -/
def heard (timestamp : Timestamp) (transport : Transport) (start : Nat) (urls : List String) :
    List (String × Reply) :=
  urls.mapIdx fun index url =>
    (url, transport (start + index) (.submit url timestamp.digestHash))

/-- Any list of answers is heard from the transport that gives its replies in
order. -/
@[simp] theorem heard_ofList (timestamp : Timestamp) (answers : List (String × Reply)) :
    timestamp.heard (.ofList (answers.map Prod.snd)) 0 (answers.map Prod.fst) = answers := by
  refine List.ext_getElem (by simp [heard]) fun index _ hindex => ?_
  simp [heard, Transport.ofList, hindex]

/-- The answers that are applied are those heard, where an empty one is an error. -/
theorem stampAnswers_eq (timestamp : Timestamp) (transport : Transport) (start : Nat)
    (urls : List String) :
    timestamp.stampAnswers transport start urls =
      (timestamp.heard transport start urls).map fun (url, reply) =>
        (url, Reply.nonempty (.submit url timestamp.digestHash) reply) := by
  refine List.ext_getElem ?_ fun index hindex _ => ?_
  · simp [stampAnswers, heard, stampRequests, Transport.exchange]
  · simp [stampAnswers, heard, stampRequests, Transport.exchange]

/-- What a timestamp is offered by what it hears and does not hold yet. -/
def newOffers (timestamp : Timestamp) (answers : List (String × Reply)) : List Attestation :=
  firsts timestamp.addresses (offers timestamp.digestHash answers)

/-- Stamping attaches the first offer for each address that is not held. -/
theorem stamp_timestamp (timestamp : Timestamp) (clock : Clock) (transport : Transport)
    (start : Nat) (urls : List String) :
    (timestamp.stamp clock transport start urls).timestamp =
      timestamp.attachAll clock (timestamp.newOffers (timestamp.heard transport start urls)) := by
  have happlied := applyStamps_eq clock timestamp.digestHash (.submit · timestamp.digestHash)
    timestamp (timestamp.heard transport start urls)
  rw [← stampAnswers_eq] at happlied
  exact happlied.1

/-- Stamping counts what it attaches. -/
theorem stamp_count (timestamp : Timestamp) (clock : Clock) (transport : Transport)
    (start : Nat) (urls : List String) :
    (timestamp.stamp clock transport start urls).count =
      (timestamp.newOffers (timestamp.heard transport start urls)).length := by
  have happlied := applyStamps_eq clock timestamp.digestHash (.submit · timestamp.digestHash)
    timestamp (timestamp.heard transport start urls)
  rw [← stampAnswers_eq] at happlied
  exact happlied.2

end Timestamp

/-! ## Calendars that fail -/

/-- Whether nothing can be done with a reply: none came, or it is empty, or it
cannot be read. -/
inductive Reply.IsUseless : Reply → Prop
  | failed (cause : ClientError) : IsUseless (.error cause)
  | empty : IsUseless (.ok [])
  | unreadable {body : Bytes} {e : Error} (h : Chain.parse body = .error e) : IsUseless (.ok body)

/-- A useless reply offers nothing. -/
theorem Reply.offer?_of_isUseless {reply : Reply} (h : Reply.IsUseless reply) (digest : Digest) :
    Reply.offer? digest reply = none := by
  cases h with
  | failed cause => rfl
  | empty => rfl
  | @unreadable body e hparse =>
    simp only [offer?, hparse]
    split <;> rfl

/-- Whether some answers are left of others after useless ones were left out. -/
inductive Thinned : List (String × Reply) → List (String × Reply) → Prop
  | nil : Thinned [] []
  | keep (answer : String × Reply) {answers rest : List (String × Reply)}
      (h : Thinned answers rest) : Thinned (answer :: answers) (answer :: rest)
  | drop {answer : String × Reply} {answers rest : List (String × Reply)}
      (useless : Reply.IsUseless answer.2) (h : Thinned answers rest) :
      Thinned (answer :: answers) rest

/-- Replies that offer nothing may be left out. -/
theorem offers_thinned {answers rest : List (String × Reply)} (h : Thinned answers rest)
    (digest : Digest) : offers digest answers = offers digest rest := by
  induction h with
  | nil => rfl
  | keep answer _ ih =>
    unfold offers at ih ⊢
    rw [List.filterMap_cons, List.filterMap_cons, ih]
  | drop useless _ ih =>
    rw [← ih]
    exact List.filterMap_cons_none (Reply.offer?_of_isUseless useless digest)

namespace Timestamp

/-- Stamping submits the digest that the timestamp has at first to each address
in order, before any answer is applied.  It adds at the end the first attestation
that is offered for each new address, marked with the time at which it is added,
counts these, and leaves the attestations before and all else as they are.  Whatever
the replies, and by whatever transport they come, leaving out addresses whose reply
is useless changes neither the count nor the timestamp. -/
theorem stamp_isolates (timestamp : Timestamp) (clock : Clock) (transport : Transport)
    (start : Nat) (urls : List String) :
    (timestamp.stamp clock transport start urls).requests =
        urls.map (fun url =>
          { method := .post, url := Request.endpoint url "digest"
            body := some timestamp.digestHash.bytes }) ∧
      (∃ applied,
        (timestamp.stamp clock transport start urls).log =
            (timestamp.stamp clock transport start urls).requests.map .sent ++ applied ∧
          applied.length = urls.length ∧
          ∀ event ∈ applied, ∀ request, event ≠ .sent request) ∧
      (timestamp.stamp clock transport start urls).timestamp.attestations.length =
        timestamp.attestations.length + (timestamp.stamp clock transport start urls).count ∧
      (timestamp.stamp clock transport start urls).timestamp.attestations =
        timestamp.attestations ++
          clock.mark (timestamp.newOffers (timestamp.heard transport start urls)) ∧
      (timestamp.stamp clock transport start urls).timestamp.context = timestamp.context ∧
      (timestamp.stamp clock transport start urls).timestamp.digestHash = timestamp.digestHash ∧
      ∀ (transport' : Transport) (start' : Nat) (urls' : List String),
        Thinned (timestamp.heard transport start urls)
            (timestamp.heard transport' start' urls') →
          (timestamp.stamp clock transport' start' urls').count =
              (timestamp.stamp clock transport start urls).count ∧
            (timestamp.stamp clock transport' start' urls').timestamp =
              (timestamp.stamp clock transport start urls).timestamp := by
  refine ⟨rfl, ?_, ?_, ?_, ?_, ?_, ?_⟩
  · have hanswers : (timestamp.stampAnswers transport start urls).length = urls.length := by
      simp [stampAnswers_eq, heard]
    rcases applyStamps_log clock timestamp.digestHash timestamp
      (timestamp.stampAnswers transport start urls) with ⟨hlength, hevents⟩
    exact ⟨_, rfl, hlength.trans hanswers, hevents⟩
  · rw [stamp_timestamp, stamp_count, attestations_attachAll, List.length_append, Clock.length_mark]
  · rw [stamp_timestamp, attestations_attachAll]
  · rw [stamp_timestamp, context_attachAll]
  · rw [stamp_timestamp, digestHash_attachAll]
  · intro transport' start' urls' thinned
    have hoffers : timestamp.newOffers (timestamp.heard transport' start' urls') =
        timestamp.newOffers (timestamp.heard transport start urls) := by
      rw [newOffers, newOffers, offers_thinned thinned]
    rw [stamp_count, stamp_count, stamp_timestamp, stamp_timestamp, hoffers]
    exact ⟨rfl, rfl⟩

/-- Stamping with calendars whose replies are listed. -/
def stampBy (timestamp : Timestamp) (clock : Clock) (answers : List (String × Reply)) : Stamping :=
  timestamp.stamp clock (.ofList (answers.map Prod.snd)) 0 (answers.map Prod.fst)

/-- A clock that is a second further at each look. -/
def ticking : Clock := ⟨fun index => 7 + UInt32.ofNat index⟩

/-- Two calendars that answer well, and between them one that does not answer,
one that has nothing to say and one that cannot be read. -/
def mixedAnswers : List (String × Reply) :=
  [("https://a", .ok (promise 0x61)), ("https://b", .error .timeout), ("https://c", .ok []),
    ("https://d", .ok [0x42]), ("https://e", .ok (promise 0x65))]

/-- The calendars among them that answer well. -/
def goodAnswers : List (String × Reply) :=
  [("https://a", .ok (promise 0x61)), ("https://e", .ok (promise 0x65))]

/-- The two of five calendars that answer well are served as if the others had not
been asked, each at its own time. -/
theorem stamp_isolates_mixedAnswers :
    Thinned mixedAnswers goodAnswers ∧ (specimen.stampBy ticking mixedAnswers).count = 2 ∧
      (specimen.stampBy ticking mixedAnswers).timestamp =
        (specimen.stampBy ticking goodAnswers).timestamp ∧
      (specimen.stampBy ticking mixedAnswers).timestamp.attestations.map
          (fun attestation => (attestation.calendarUrl, attestation.submitted)) =
        [("a", 7), ("e", 8)] := by
  have hunreadable : Chain.parse [0x42] = .error (.unsupportedOperation 0x42) := by
    rw [Chain.parse]
    rfl
  have hthinned : Thinned mixedAnswers goodAnswers :=
    .keep _ (.drop (.failed _) (.drop .empty (.drop (.unreadable hunreadable) (.keep _ .nil))))
  rcases specimen.stamp_isolates ticking (.ofList (mixedAnswers.map Prod.snd)) 0
    (mixedAnswers.map Prod.fst) with ⟨_, _, _, _, _, _, hisolates⟩
  rw [heard_ofList] at hisolates
  have hheard := hisolates (.ofList (goodAnswers.map Prod.snd)) 0 (goodAnswers.map Prod.fst)
  rw [heard_ofList] at hheard
  rcases hheard hthinned with ⟨hcounts, htimestamps⟩
  have hcount : (specimen.stampBy ticking goodAnswers).count = 2 := by decide +kernel
  have hattached : (specimen.stampBy ticking goodAnswers).timestamp.attestations.map
      (fun attestation => (attestation.calendarUrl, attestation.submitted)) =
        [("a", 7), ("e", 8)] := by
    decide +kernel
  refine ⟨hthinned, hcounts.symm.trans hcount, htimestamps.symm, ?_⟩
  rw [stampBy, ← htimestamps]
  exact hattached

end Timestamp

end CalendarStamp
