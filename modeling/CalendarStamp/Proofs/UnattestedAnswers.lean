import CalendarStamp.Proofs.CalendarOrder
import CalendarStamp.Proofs.WrittenChains

/-!
# Answers that attest nothing

An empty answer to a digest is refused.  Any other answer that can be read offers
an attestation, also one that breaks off before the calendar attests: its chain
leads nowhere, so what it offers is invalid and names no calendar.  Stamping
attaches and counts such an offer like any other, unless an attestation without
an address is there already, which can only be so after the first one.

Main results:

- Theorem `Chain.status_ne_invalid_of_parse`: no attestation that was read is invalid.
- Theorem `Attestation.status_eq_invalid_iff`: what is offered is invalid exactly
  when the answer attests nothing.
- Theorem `length_firsts_insert`: what one more offer adds to the first ones.
- Theorem `countP_invalid_newOffers`: at most one new offer is invalid.
- Theorem `stamp_attested_iff`: which attestations stamping attaches, and what an
  answer that attests nothing does to them and to the count.
- Theorem `stamp_counts_unattested`: an answer of one hash that is counted.
-/

namespace CalendarStamp

open Outcome

/-! ## Chains that attest nothing -/

/-- Whether no operation of a chain attests. -/
def Unattested (operations : List Operation) : Prop :=
  ∀ operation ∈ operations, operation.isAttestation = false

instance (operations : List Operation) : Decidable (Unattested operations) :=
  inferInstanceAs (Decidable (∀ operation ∈ operations, operation.isAttestation = false))

/-- No attestation of a chain that was read is invalid. -/
theorem Chain.status_ne_invalid_of_parse {bytes : Bytes} {operations : List Operation}
    (h : parse bytes = .ok operations) :
    ∀ operation ∈ operations, operation.isAttestation = true →
      operation.status ≠ AttestationStatus.invalid.code := by
  refine forall_mem_of_parse (fun {tag bytes operation rest} hread hattests => ?_) h
  rcases isOperation_of_readOperation hread with ⟨piece, hpiece, _⟩
  cases hpiece with
  | sha1 | ripemd160 | sha256 => cases hattests
  | append | prepend =>
    cases hattests
  | @attestation tag _ _ status _ tagged _ content =>
    rw [(kind?_status_of_isPayload content).2]
    cases tagged <;> decide

namespace Operation

/-- A chain that attests nothing has no last attestation. -/
theorem lastAttestation?_eq_none_iff {operations : List Operation} :
    lastAttestation? operations = none ↔ Unattested operations := by
  simp [lastAttestation?, Unattested]

/-- A chain that attests nothing names no calendar. -/
theorem lastAddress?_of_unattested {operations : List Operation} (h : Unattested operations) :
    lastAddress? operations = none := by
  rw [lastAddress?, Option.map_eq_none_iff, List.find?_eq_none]
  intro operation hmem
  simp [namesCalendar, h operation (List.mem_reverse.mp hmem)]

end Operation

namespace Attestation

/-- What an answer leads to is invalid exactly when the answer attests nothing. -/
theorem status_eq_invalid_iff {body initial : Bytes} {operations : List Operation}
    {attestation : Attestation} (hparsed : Chain.parse body = .ok operations)
    (hran : (ofOperations operations).fold initial = .ok attestation) :
    attestation.status = AttestationStatus.invalid.code ↔ Unattested operations := by
  have hstatus : attestation.status =
      ((Operation.lastAttestation? operations).map Operation.status).getD 0 :=
    status_of_fold hran
  rw [hstatus, ← Operation.lastAttestation?_eq_none_iff]
  cases hlast : Operation.lastAttestation? operations with
  | none => exact ⟨fun _ => rfl, fun _ => rfl⟩
  | some operation =>
    have hmem := List.mem_reverse.mp (List.mem_of_find?_eq_some hlast)
    have hvalid := Chain.status_ne_invalid_of_parse hparsed operation hmem (List.find?_some hlast)
    simpa using hvalid

/-- What an answer leads to that attests nothing names no calendar. -/
theorem calendarUrl_of_unattested {initial : Bytes} {operations : List Operation}
    {attestation : Attestation} (h : Unattested operations)
    (hran : (ofOperations operations).fold initial = .ok attestation) :
    attestation.calendarUrl = "" := by
  have haddress := calendarUrl_of_fold hran
  rw [ofOperations, Operation.lastAddress?_of_unattested h] at haddress
  exact haddress

end Attestation

/-- An answer offers an attestation when it is not empty and can be read. -/
theorem Reply.offer?_eq_some {digest : Digest} {reply : Reply} {attestation : Attestation} :
    Reply.offer? digest reply = some attestation ↔
      ∃ body operations, reply = .ok body ∧ body ≠ [] ∧ Chain.parse body = .ok operations ∧
        (Attestation.ofOperations operations).fold digest.bytes = .ok attestation := by
  cases reply with
  | error cause => simp [offer?]
  | ok body =>
    by_cases hempty : body = []
    · simp [offer?, hempty]
    · simp [offer?, hempty, bind_eq_ok]

/-! ## One more offer -/

/-- The first offers are among the offers. -/
theorem firsts_sublist (known : List String) (attestations : List Attestation) :
    (firsts known attestations).Sublist attestations := by
  induction attestations generalizing known with
  | nil => exact .slnil
  | cons attestation rest ih =>
    rw [firsts]
    split
    · exact (ih known).cons attestation
    · exact (ih _).cons_cons attestation

/-- The first offers of a list go before those of the rest that are new after it. -/
theorem firsts_append (known : List String) (attestations more : List Attestation) :
    firsts known (attestations ++ more) =
      firsts known attestations ++
        firsts (known ++ (firsts known attestations).map Attestation.calendarUrl) more := by
  induction attestations generalizing known with
  | nil => simp [firsts]
  | cons attestation rest ih =>
    rw [List.cons_append, firsts, firsts]
    split
    · exact ih known
    · rw [ih, List.cons_append, List.map_cons, List.append_assoc, List.singleton_append]

/-- An address is known after some offers when it was before, or is offered. -/
theorem mem_known_firsts {known : List String} {attestations : List Attestation} {url : String} :
    url ∈ known ++ (firsts known attestations).map Attestation.calendarUrl ↔
      url ∈ known ∨ url ∈ attestations.map Attestation.calendarUrl := by
  rw [List.mem_append, mem_addresses_firsts]
  by_cases hknown : url ∈ known
  · simp [hknown]
  · simp [hknown]

/-- One more offer changes nothing when its address is known by then. -/
theorem firsts_insert_of_known {known : List String} {before behind : List Attestation}
    {attestation : Attestation}
    (h : attestation.calendarUrl ∈ known ∨
      attestation.calendarUrl ∈ before.map Attestation.calendarUrl) :
    firsts known (before ++ attestation :: behind) = firsts known (before ++ behind) := by
  rw [firsts_append, firsts_append, firsts, if_pos (mem_known_firsts.mpr h)]

/-- Else it is itself among the first ones. -/
theorem mem_firsts_insert {known : List String} {before behind : List Attestation}
    {attestation : Attestation}
    (h : ¬(attestation.calendarUrl ∈ known ∨
      attestation.calendarUrl ∈ before.map Attestation.calendarUrl)) :
    attestation ∈ firsts known (before ++ attestation :: behind) := by
  rw [firsts_append, firsts, if_neg (mem_known_firsts.not.mpr h)]
  exact List.mem_append_right _ List.mem_cons_self

/-- One more offer, wherever it stands, raises the number of first offers by one
when its address is neither known nor offered otherwise. -/
theorem length_firsts_insert (known : List String) (before behind : List Attestation)
    (attestation : Attestation) :
    (firsts known (before ++ attestation :: behind)).length =
      (firsts known (before ++ behind)).length +
        if attestation.calendarUrl ∈ known ∨
            attestation.calendarUrl ∈ (before ++ behind).map Attestation.calendarUrl then
          0
        else
          1 := by
  -- The number does not depend on the order, so the offer may as well be the last one.
  have hlast : (before ++ attestation :: behind).Perm ((before ++ behind) ++ [attestation]) := by
    rw [List.append_assoc]
    exact (List.perm_append_singleton attestation behind).symm.append_left before
  have hlength := (perm_addresses_firsts hlast known).length_eq
  rw [List.length_map, List.length_map] at hlength
  rw [hlength, firsts_append, List.length_append, firsts]
  simp only [mem_known_firsts]
  split <;> simp [firsts]

namespace Timestamp

/-- Whether an address is known after some answers: an attestation with it is
held, or offered by one of them. -/
def Knows (timestamp : Timestamp) (answers : List (String × Reply)) (url : String) : Prop :=
  url ∈ timestamp.addresses ∨
    url ∈ (offers timestamp.digestHash answers).map Attestation.calendarUrl

instance (timestamp : Timestamp) (answers : List (String × Reply)) (url : String) :
    Decidable (timestamp.Knows answers url) :=
  inferInstanceAs (Decidable (_ ∨ _))

section OneMore

variable {timestamp : Timestamp} {before behind : List (String × Reply)} {url : String}
  {reply : Reply} {attestation : Attestation}
  (h : Reply.offer? timestamp.digestHash reply = some attestation)

include h

/-- What one more answer offers stands where the answer stands. -/
theorem offers_insert :
    offers timestamp.digestHash (before ++ (url, reply) :: behind) =
      offers timestamp.digestHash before ++ attestation :: offers timestamp.digestHash behind :=
  List.filterMap_append.trans (congrArg _ (List.filterMap_cons_some h))

/-- One more answer offers nothing new when its address is known by then. -/
theorem newOffers_insert_of_knows (known : timestamp.Knows before attestation.calendarUrl) :
    timestamp.newOffers (before ++ (url, reply) :: behind) =
      timestamp.newOffers (before ++ behind) := by
  rw [newOffers, newOffers, offers_insert h, firsts_insert_of_known known, offers, offers, offers,
    List.filterMap_append]

/-- Else what it offers is new. -/
theorem mem_newOffers_insert (unknown : ¬timestamp.Knows before attestation.calendarUrl) :
    attestation ∈ timestamp.newOffers (before ++ (url, reply) :: behind) := by
  rw [newOffers, offers_insert h]
  exact mem_firsts_insert unknown

/-- One more answer raises the number of new offers by one when its address is
neither held nor offered otherwise. -/
theorem length_newOffers_insert :
    (timestamp.newOffers (before ++ (url, reply) :: behind)).length =
      (timestamp.newOffers (before ++ behind)).length +
        if timestamp.Knows (before ++ behind) attestation.calendarUrl then 0 else 1 := by
  have happend : offers timestamp.digestHash (before ++ behind) =
      offers timestamp.digestHash before ++ offers timestamp.digestHash behind :=
    List.filterMap_append
  rw [newOffers, newOffers, offers_insert h, length_firsts_insert, ← happend]
  rfl

end OneMore

/-! ## Stamping with answers that attest nothing -/

/-- What is newly offered comes from one of the answers. -/
theorem answer_of_mem_newOffers {timestamp : Timestamp} {answers : List (String × Reply)}
    {attestation : Attestation} (h : attestation ∈ timestamp.newOffers answers) :
    ∃ url body operations, (url, .ok body) ∈ answers ∧ body ≠ [] ∧
      Chain.parse body = .ok operations ∧
        (Attestation.ofOperations operations).fold timestamp.digestHash.bytes =
          .ok attestation := by
  rcases List.mem_filterMap.mp ((firsts_sublist _ _).subset h) with ⟨⟨url, reply⟩, hmem, hoffer⟩
  rcases Reply.offer?_eq_some.mp hoffer with ⟨body, operations, rfl, hbody, hparsed, hran⟩
  exact ⟨url, body, operations, hmem, hbody, hparsed, hran⟩

theorem countP_invalid_mark (clock : Clock) (attestations : List Attestation) :
    (clock.mark attestations).countP
        (fun attestation => attestation.status = AttestationStatus.invalid.code) =
      attestations.countP
        (fun attestation => attestation.status = AttestationStatus.invalid.code) := by
  have hstatus : (clock.mark attestations).map Attestation.status =
      attestations.map Attestation.status :=
    Clock.map_mark (fun _ _ => rfl) clock attestations
  have hcount :=
    congrArg (List.countP fun status => status = AttestationStatus.invalid.code) hstatus
  rw [List.countP_map, List.countP_map] at hcount
  exact hcount

/-- At most one of what is newly offered is invalid. -/
theorem countP_invalid_newOffers (timestamp : Timestamp) (answers : List (String × Reply)) :
    (timestamp.newOffers answers).countP
      (fun attestation => attestation.status = AttestationStatus.invalid.code) ≤ 1 := by
  rw [List.countP_eq_length_filter]
  generalize hinvalid : (timestamp.newOffers answers).filter
    (fun attestation => attestation.status = AttestationStatus.invalid.code) = invalid
  -- All of them go without an address, and no two new offers share one.
  have haddresses : invalid.map Attestation.calendarUrl = List.replicate invalid.length "" := by
    refine List.eq_replicate_iff.mpr ⟨List.length_map _, fun url hurl => ?_⟩
    rcases List.mem_map.mp hurl with ⟨attestation, hmem, rfl⟩
    rw [← hinvalid, List.mem_filter, decide_eq_true_eq] at hmem
    rcases answer_of_mem_newOffers hmem.1 with ⟨_, _, operations, _, _, hparsed, hran⟩
    exact Attestation.calendarUrl_of_unattested
      ((Attestation.status_eq_invalid_iff hparsed hran).mp hmem.2) hran
  have hdistinct : (invalid.map Attestation.calendarUrl).Nodup := by
    rw [← hinvalid]
    exact (nodup_addresses_firsts _ _).sublist (List.filter_sublist.map _)
  rw [haddresses, List.nodup_replicate] at hdistinct
  exact hdistinct

/-- An answer that can be read, but attests nothing, offers an attestation all the
same, which is invalid and goes without an address. -/
theorem offer?_of_unattested (timestamp : Timestamp) {body : Bytes} {operations : List Operation}
    (hbody : body ≠ []) (hparsed : Chain.parse body = .ok operations)
    (unattested : Unattested operations) :
    ∃ attestation, Reply.offer? timestamp.digestHash (.ok body) = some attestation ∧
      attestation.operations = operations ∧
        attestation.status = AttestationStatus.invalid.code ∧ attestation.calendarUrl = "" := by
  rcases (Attestation.fold_isOk_iff timestamp.digestHash.bytes
    (Attestation.ofOperations operations)).mpr (Chain.isSome_kind?_of_parse hparsed) with
    ⟨attestation, hran⟩
  exact ⟨attestation,
    Reply.offer?_eq_some.mpr ⟨body, operations, rfl, hbody, hparsed, hran⟩,
    Attestation.operations_of_fold hran,
    (Attestation.status_eq_invalid_iff hparsed hran).mpr unattested,
    Attestation.calendarUrl_of_unattested unattested hran⟩

/-- Stamping attaches and counts what the answers lead to that can be read and
are not empty, each marked with the time at which it is attached, and an
attestation that it attaches is invalid exactly when no operation of its answer
attests; of these there is at most one.  One more answer that attests nothing,
wherever it stands, adds one to the count unless an attestation without an address
is held or offered otherwise.  It changes nothing when there is one by the time
that it comes, and is attached when there is none. -/
theorem stamp_attested_iff (timestamp : Timestamp) (clock : Clock) (transport : Transport)
    (start : Nat) (urls : List String) :
    (∃ attached,
      (timestamp.stamp clock transport start urls).timestamp.attestations =
          timestamp.attestations ++ attached ∧
        (timestamp.stamp clock transport start urls).count = attached.length ∧
        (∀ index attestation, attached[index]? = some attestation →
          (∃ url body, (url, .ok body) ∈ timestamp.heard transport start urls ∧ body ≠ [] ∧
              Chain.parse body = .ok attestation.operations) ∧
            attestation.Rederivable timestamp.digestHash ∧
            attestation.submitted = clock.reading index ∧
            (attestation.status = AttestationStatus.invalid.code ↔
              Unattested attestation.operations)) ∧
        attached.countP
          (fun attestation => attestation.status = AttestationStatus.invalid.code) ≤ 1) ∧
      ∀ (transport' : Transport) (start' : Nat) (urls' : List String)
          (before behind : List (String × Reply)) (url : String) (body : Bytes)
          (operations : List Operation),
        timestamp.heard transport start urls = before ++ behind →
        timestamp.heard transport' start' urls' = before ++ (url, .ok body) :: behind →
        body ≠ [] → Chain.parse body = .ok operations → Unattested operations →
          (timestamp.stamp clock transport' start' urls').count =
              (timestamp.stamp clock transport start urls).count +
                (if timestamp.Knows (before ++ behind) "" then 0 else 1) ∧
            (timestamp.Knows before "" →
              (timestamp.stamp clock transport' start' urls').timestamp =
                (timestamp.stamp clock transport start urls).timestamp) ∧
            (¬timestamp.Knows before "" →
              ∃ index attestation,
                (timestamp.stamp clock transport' start' urls').timestamp.attestations[
                    timestamp.attestations.length + index]? = some attestation ∧
                  attestation.operations = operations ∧
                  attestation.status = AttestationStatus.invalid.code ∧
                  attestation.calendarUrl = "" ∧
                  attestation.submitted = clock.reading index) := by
  constructor
  · refine ⟨clock.mark (timestamp.newOffers (timestamp.heard transport start urls)),
      ?_, ?_, ?_, ?_⟩
    · rw [stamp_timestamp, attestations_attachAll]
    · rw [stamp_count, Clock.length_mark]
    · intro index attestation hattached
      rw [Clock.getElem?_mark] at hattached
      rcases Option.map_eq_some_iff.mp hattached with ⟨offered, hoffered, rfl⟩
      rcases answer_of_mem_newOffers (List.mem_of_getElem? hoffered) with
        ⟨url, body, operations, hanswer, hbody, hparsed, hran⟩
      have hoperations : offered.operations = operations := Attestation.operations_of_fold hran
      subst hoperations
      have hstatus : offered.status = AttestationStatus.invalid.code ↔
          Unattested offered.operations :=
        Attestation.status_eq_invalid_iff hparsed hran
      exact ⟨⟨url, body, hanswer, hbody, hparsed⟩, Attestation.rederivable_of_fold hran _, rfl,
        hstatus⟩
    · rw [countP_invalid_mark]
      exact timestamp.countP_invalid_newOffers (timestamp.heard transport start urls)
  · intro transport' start' urls' before behind url body operations hheard hmore hbody hparsed
      unattested
    rcases timestamp.offer?_of_unattested hbody hparsed unattested with
      ⟨attestation, hoffer, hoperations, hstatus, hurl⟩
    refine ⟨?_, ?_, ?_⟩
    · rw [stamp_count, stamp_count, hheard, hmore, length_newOffers_insert hoffer, hurl]
    · intro known
      rw [← hurl] at known
      rw [stamp_timestamp, stamp_timestamp, hheard, hmore, newOffers_insert_of_knows hoffer known]
    · intro unknown
      rw [← hurl] at unknown
      have hnew : attestation ∈ timestamp.newOffers (before ++ (url, .ok body) :: behind) :=
        mem_newOffers_insert hoffer unknown
      obtain ⟨index, hindex⟩ := List.getElem?_of_mem hnew
      refine ⟨index, { attestation with submitted := clock.reading index }, ?_, hoperations,
        hstatus, hurl, rfl⟩
      rw [stamp_timestamp, hmore, attestations_attachAll, List.getElem?_append_right (by omega),
        Nat.add_sub_cancel_left, Clock.getElem?_mark, hindex, Option.map_some]

/-- An answer that breaks off before its attestation, between two that do not. -/
def brokenAnswers : List (String × Reply) :=
  [("https://a", .ok (promise 0x61)), ("https://b", .ok [0x08]), ("https://e", .ok (promise 0x65))]

/-- The broken answer is counted between the good ones, and attached without an
address. -/
theorem stamp_attested_iff_brokenAnswers :
    Chain.parse [0x08] = .ok [.sha256] ∧ Unattested [.sha256] ∧
      (specimen.stampBy ticking goodAnswers).count = 2 ∧
      (specimen.stampBy ticking brokenAnswers).count = 3 ∧
      ∃ attestation ∈ (specimen.stampBy ticking brokenAnswers).timestamp.attestations,
        attestation.operations = [.sha256] ∧ attestation.calendarUrl = "" := by
  have hparsed : Chain.parse [0x08] = .ok [.sha256] := by decide +kernel
  have hunattested : Unattested [.sha256] := by decide
  have hcount : (specimen.stampBy ticking goodAnswers).count = 2 := by decide +kernel
  have hunknown : ¬specimen.Knows goodAnswers "" := by decide +kernel
  have hbefore : ¬specimen.Knows (goodAnswers.take 1) "" := by decide +kernel
  rcases (specimen.stamp_attested_iff ticking (.ofList (goodAnswers.map Prod.snd)) 0
    (goodAnswers.map Prod.fst)).2 (.ofList (brokenAnswers.map Prod.snd)) 0
    (brokenAnswers.map Prod.fst) (goodAnswers.take 1) (goodAnswers.drop 1) "https://b" [0x08]
    [.sha256] (by rw [heard_ofList, List.take_append_drop]) (by rw [heard_ofList]; rfl)
    (by decide) hparsed hunattested with ⟨hcounts, _, hattached⟩
  rw [List.take_append_drop, if_neg hunknown] at hcounts
  rcases hattached hbefore with ⟨index, attestation, hheld, hoperations, _, hurl, _⟩
  exact ⟨hparsed, hunattested, hcount, hcounts.trans (congrArg (· + 1) hcount),
    attestation, List.mem_of_getElem? hheld, hoperations, hurl⟩

/-- A hash with the attestation behind it cut off is counted and attached. -/
theorem stamp_counts_unattested :
    Chain.parse (0x08 :: promise 0x61) = .ok [.sha256, .pending "a"] ∧
      Chain.parse [0x08] = .ok [.sha256] ∧
      (specimen.stampBy ticking [("https://a", .ok [0x08])]).count = 1 ∧
      (specimen.stampBy ticking [("https://a", .ok [0x08])]).timestamp.attestations =
        [{ submitted := 7, operations := [.sha256],
           status := AttestationStatus.invalid.code }] := by
  decide +kernel

end Timestamp

end CalendarStamp
