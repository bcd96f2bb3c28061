import CalendarStamp.Proofs.StampedBatches

/-!
# The order of calendars

Several calendars may offer an attestation for the same address, and then the
first of them counts.  So the order of calendars decides which attestation
stands for an address, but neither which addresses there are in the end nor how
many were added.  Once an address is held, no further answer changes anything.

Main results:

- Theorem `mem_addresses_firsts`: the addresses of the first offers are the
  addresses of all offers, but for those that are known.
- Theorem `firsts_of_nodup`: offers that share no address are all first.
- Theorem `stamp_any_order`: what does not depend on the order of calendars, and
  that stamping again with the same answers changes nothing.
-/

namespace CalendarStamp

/-! ## First offers -/

/-- The addresses of the first offers are the addresses of all offers, but for
those that are known. -/
theorem mem_addresses_firsts {known : List String} {attestations : List Attestation}
    {url : String} :
    url ∈ (firsts known attestations).map Attestation.calendarUrl ↔
      url ∉ known ∧ url ∈ attestations.map Attestation.calendarUrl := by
  induction attestations generalizing known with
  | nil => simp [firsts]
  | cons attestation rest ih =>
    by_cases hknown : attestation.calendarUrl ∈ known
    · rw [firsts, if_pos hknown, ih, List.map_cons, List.mem_cons]
      constructor
      · rintro ⟨hurl, hrest⟩
        exact ⟨hurl, .inr hrest⟩
      · rintro ⟨hurl, rfl | hrest⟩
        · exact absurd hknown hurl
        · exact ⟨hurl, hrest⟩
    · rw [firsts, if_neg hknown, List.map_cons, List.mem_cons, ih, List.map_cons, List.mem_cons,
        List.mem_append, List.mem_singleton, not_or]
      constructor
      · rintro (rfl | ⟨⟨hurl, _⟩, hrest⟩)
        · exact ⟨hknown, .inl rfl⟩
        · exact ⟨hurl, .inr hrest⟩
      · rintro ⟨hurl, hfirst | hrest⟩
        · exact .inl hfirst
        · by_cases hfirst : url = attestation.calendarUrl
          · exact .inl hfirst
          · exact .inr ⟨⟨hurl, hfirst⟩, hrest⟩

/-- The first offers share no address. -/
theorem nodup_addresses_firsts (known : List String) (attestations : List Attestation) :
    ((firsts known attestations).map Attestation.calendarUrl).Nodup := by
  induction attestations generalizing known with
  | nil => exact List.nodup_nil
  | cons attestation rest ih =>
    by_cases hknown : attestation.calendarUrl ∈ known
    · rw [firsts, if_pos hknown]
      exact ih known
    · rw [firsts, if_neg hknown, List.map_cons, List.nodup_cons, mem_addresses_firsts]
      exact ⟨fun hlater => hlater.1 (List.mem_append_right _ (List.mem_singleton_self _)), ih _⟩

/-- Offers that share no address are all first, but for known addresses. -/
theorem firsts_of_nodup {known : List String} {attestations : List Attestation}
    (h : (attestations.map Attestation.calendarUrl).Nodup) :
    firsts known attestations =
      attestations.filter fun attestation => attestation.calendarUrl ∉ known := by
  induction attestations generalizing known with
  | nil => rfl
  | cons attestation rest ih =>
    rw [List.map_cons, List.nodup_cons] at h
    rcases h with ⟨hnew, hrest⟩
    by_cases hknown : attestation.calendarUrl ∈ known
    · rw [firsts, if_pos hknown, ih hrest, List.filter_cons_of_neg (by simpa using hknown)]
    · rw [firsts, if_neg hknown, ih hrest, List.filter_cons_of_pos (by simpa using hknown)]
      refine congrArg _ (List.filter_congr fun later hlater => ?_)
      have hother : later.calendarUrl ≠ attestation.calendarUrl := fun h =>
        hnew (h ▸ List.mem_map_of_mem hlater)
      simp [hother]

/-- Offers for known addresses are not first. -/
theorem firsts_eq_nil {known : List String} {attestations : List Attestation}
    (h : ∀ attestation ∈ attestations, attestation.calendarUrl ∈ known) :
    firsts known attestations = [] := by
  rw [← List.map_eq_nil_iff (f := Attestation.calendarUrl), List.eq_nil_iff_forall_not_mem]
  intro url hmem
  rcases mem_addresses_firsts.mp hmem with ⟨hurl, hoffered⟩
  rcases List.mem_map.mp hoffered with ⟨attestation, hattestation, rfl⟩
  exact hurl (h attestation hattestation)

/-! ## Offers in another order -/

section Order

variable {attestations others : List Attestation} (h : attestations.Perm others)

include h

/-- The addresses of the first offers do not depend on the order. -/
theorem perm_addresses_firsts (known : List String) :
    ((firsts known attestations).map Attestation.calendarUrl).Perm
      ((firsts known others).map Attestation.calendarUrl) := by
  rw [List.perm_ext_iff_of_nodup (nodup_addresses_firsts known attestations)
    (nodup_addresses_firsts known others)]
  intro url
  rw [mem_addresses_firsts, mem_addresses_firsts,
    (h.map Attestation.calendarUrl).mem_iff]

/-- Neither do the first offers themselves, when no address is offered twice. -/
theorem perm_firsts (distinct : (attestations.map Attestation.calendarUrl).Nodup)
    (known : List String) : (firsts known attestations).Perm (firsts known others) := by
  have hdistinct : (others.map Attestation.calendarUrl).Nodup :=
    (h.map Attestation.calendarUrl).nodup_iff.mp distinct
  rw [firsts_of_nodup distinct, firsts_of_nodup hdistinct]
  exact h.filter _

end Order

namespace Timestamp

/-! ## Stamping in another order -/

/-- What was heard before offers nothing new. -/
theorem newOffers_attachAll (timestamp : Timestamp) (clock : Clock)
    {answers again : List (String × Reply)} (heard : ∀ answer ∈ again, answer ∈ answers) :
    (timestamp.attachAll clock (timestamp.newOffers answers)).newOffers again = [] := by
  refine firsts_eq_nil fun attestation hmem => ?_
  rw [digestHash_attachAll] at hmem
  rcases List.mem_filterMap.mp hmem with ⟨answer, hanswer, hoffer⟩
  have hoffered : attestation ∈ offers timestamp.digestHash answers :=
    List.mem_filterMap.mpr ⟨answer, heard answer hanswer, hoffer⟩
  rw [addresses_attachAll, List.mem_append]
  by_cases hheld : attestation.calendarUrl ∈ timestamp.addresses
  · exact .inl hheld
  · exact .inr (mem_addresses_firsts.mpr ⟨hheld, List.mem_map_of_mem hoffered⟩)

/-- The attestations that stamping attaches are what is newly offered, marked
with the time. -/
theorem drop_attachAll (timestamp : Timestamp) (clock : Clock) (attestations : List Attestation) :
    (timestamp.attachAll clock attestations).attestations.drop timestamp.attestations.length =
      clock.mark attestations := by
  rw [attestations_attachAll, List.drop_left]

/-- Whatever the clocks show and however the same answers are ordered, stamping
counts the same and leads to the same addresses, those held before and those that
are offered; if no two of the answers offer an attestation for the same address,
it attaches the same attestations up to their order and their times, and at one
fixed time the same ones up to their order.  Stamping again, at any time, with
answers that were all there before counts nothing and changes nothing. -/
theorem stamp_any_order (timestamp : Timestamp) (clock clock' : Clock)
    {transport transport' : Transport} {start start' : Nat} {urls urls' : List String}
    (same : (timestamp.heard transport start urls).Perm (timestamp.heard transport' start' urls')) :
    (timestamp.stamp clock transport start urls).count =
        (timestamp.stamp clock' transport' start' urls').count ∧
      (∀ url,
        url ∈ (timestamp.stamp clock transport start urls).timestamp.addresses ↔
          url ∈ (timestamp.stamp clock' transport' start' urls').timestamp.addresses) ∧
      (∀ url,
        url ∈ (timestamp.stamp clock transport start urls).timestamp.addresses ↔
          url ∈ timestamp.addresses ∨
            url ∈ (offers timestamp.digestHash (timestamp.heard transport start urls)).map
              Attestation.calendarUrl) ∧
      (((offers timestamp.digestHash (timestamp.heard transport start urls)).map
          Attestation.calendarUrl).Nodup →
        (((timestamp.stamp clock transport start urls).timestamp.attestations.drop
              timestamp.attestations.length).map ({ · with submitted := 0 })).Perm
            (((timestamp.stamp clock' transport' start' urls').timestamp.attestations.drop
              timestamp.attestations.length).map ({ · with submitted := 0 })) ∧
          ∀ now : UInt32,
            ((timestamp.stamp now transport start urls).timestamp.attestations.drop
                timestamp.attestations.length).Perm
              ((timestamp.stamp now transport' start' urls').timestamp.attestations.drop
                timestamp.attestations.length)) ∧
      ∀ (later : Clock) (nextTransport : Transport) (nextStart : Nat)
          (nextUrls : List String),
        (∀ answer ∈ (timestamp.stamp clock transport start urls).timestamp.heard nextTransport
            nextStart nextUrls, answer ∈ timestamp.heard transport start urls) →
          ((timestamp.stamp clock transport start urls).timestamp.stamp later nextTransport
              nextStart nextUrls).count = 0 ∧
            ((timestamp.stamp clock transport start urls).timestamp.stamp later nextTransport
              nextStart nextUrls).timestamp =
                (timestamp.stamp clock transport start urls).timestamp := by
  have hoffers : (offers timestamp.digestHash (timestamp.heard transport start urls)).Perm
      (offers timestamp.digestHash (timestamp.heard transport' start' urls')) :=
    same.filterMap _
  have haddresses := perm_addresses_firsts hoffers timestamp.addresses
  refine ⟨?_, ?_, ?_, ?_, ?_⟩
  · rw [stamp_count, stamp_count, newOffers, newOffers]
    simpa using haddresses.length_eq
  · intro url
    rw [stamp_timestamp, stamp_timestamp, addresses_attachAll, addresses_attachAll,
      List.mem_append, List.mem_append]
    exact or_congr_right haddresses.mem_iff
  · intro url
    rw [stamp_timestamp, addresses_attachAll, List.mem_append, newOffers, mem_addresses_firsts]
    by_cases hheld : url ∈ timestamp.addresses
    · simp [hheld]
    · simp [hheld]
  · intro distinct
    have hnew := perm_firsts hoffers distinct timestamp.addresses
    constructor
    · rw [stamp_timestamp, stamp_timestamp, drop_attachAll, drop_attachAll,
        Clock.map_mark fun _ _ => rfl, Clock.map_mark fun _ _ => rfl]
      exact hnew.map _
    · intro now
      rw [stamp_timestamp, stamp_timestamp, drop_attachAll, drop_attachAll, Clock.mark_still,
        Clock.mark_still]
      exact hnew.map _
  · intro later nextTransport nextStart nextUrls heard
    rw [stamp_timestamp timestamp] at heard ⊢
    rw [stamp_count, stamp_timestamp, newOffers_attachAll timestamp clock heard, attachAll_nil]
    exact ⟨rfl, rfl⟩

/-- Two calendars asked in both orders, and once more. -/
theorem stamp_any_order_goodAnswers :
    goodAnswers.Perm goodAnswers.reverse ∧
      ((offers specimen.digestHash goodAnswers).map Attestation.calendarUrl).Nodup ∧
      (specimen.stampBy ticking goodAnswers.reverse).count = 2 ∧
      ((specimen.stampBy (7 : UInt32) goodAnswers).timestamp.attestations.drop 0).Perm
        ((specimen.stampBy (7 : UInt32) goodAnswers.reverse).timestamp.attestations.drop 0) ∧
      ((specimen.stampBy ticking goodAnswers).timestamp.stampBy ticking goodAnswers).count = 0 := by
  have hreverse : goodAnswers.Perm goodAnswers.reverse := (List.reverse_perm goodAnswers).symm
  have hdistinct :
      ((offers specimen.digestHash goodAnswers).map Attestation.calendarUrl).Nodup := by
    decide +kernel
  have hcount : (specimen.stampBy ticking goodAnswers).count = 2 := by decide +kernel
  have hsame : (specimen.heard (.ofList (goodAnswers.map Prod.snd)) 0
      (goodAnswers.map Prod.fst)).Perm
        (specimen.heard (.ofList (goodAnswers.reverse.map Prod.snd)) 0
          (goodAnswers.reverse.map Prod.fst)) := by
    rwa [heard_ofList, heard_ofList]
  rcases specimen.stamp_any_order ticking ticking hsame with ⟨hcounts, _, _, hattached, hagain⟩
  rw [heard_ofList] at hattached hagain
  refine ⟨hreverse, hdistinct, hcounts.symm.trans hcount, (hattached hdistinct).2 7, ?_⟩
  refine (hagain ticking (.ofList (goodAnswers.map Prod.snd)) 0 (goodAnswers.map Prod.fst) ?_).1
  rw [heard_ofList]
  exact fun _ hmem => hmem

end Timestamp

end CalendarStamp
