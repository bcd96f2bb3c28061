import CalendarStamp.Proofs.LookupReplies

/-!
# What an update reports

An update says whether any attestation was completed, and nothing else about
what it did.  The answer can be relied on: it is yes exactly when one of the
upgrades that the replies come to succeeds, and after a no the timestamp is what
it was.  An attestation takes a continuation as a whole or not at all, whatever
the calendars send and whatever chains the timestamp was loaded with.

Main results:

- Theorem `after_of_all_failed`: a history in which everything fails changes nothing.
- Theorem `applyUpgrades_upgraded`: the answer is yes when an upgrade succeeds.
- Theorem `wholeOrSame_after_completing`: replies change an attestation by whole
  continuations only, and only if it is pending and has a lookup key.
- Theorem `update_truthful`: what an update sends, what it does and what it reports.
-/

namespace CalendarStamp

open Outcome

/-! ## Replies with content -/

/-- What a reply says: the bytes that came, if there are any. -/
def Reply.content? (reply : Reply) : Option Bytes :=
  match reply with
  | .ok body => if body = [] then none else some body
  | .error _ => none

/-- What is left of a reply when an empty one is an error. -/
theorem Reply.toOption_nonempty (request : Request) (reply : Reply) :
    (Reply.nonempty request reply).toOption = Reply.content? reply := by
  cases reply with
  | error cause => rfl
  | ok body =>
    by_cases hempty : body = []
    · subst hempty
      rfl
    · simp [Reply.nonempty, Reply.content?, hempty]

namespace Timestamp

/-! ## Results of a history -/

/-- Each result of a history is that of one of its actions, in some state. -/
theorem exists_of_mem_results {timestamp : Timestamp} {actions : List Action}
    {result : Except Error Result} (h : result ∈ timestamp.results actions) :
    ∃ action ∈ actions, ∃ reached : Timestamp, result = (reached.step action).1 := by
  induction actions generalizing timestamp with
  | nil => cases h
  | cons action rest ih =>
    rcases List.mem_cons.mp h with rfl | h
    · exact ⟨action, List.mem_cons_self, timestamp, rfl⟩
    · rcases ih h with ⟨later, hmem, reached, hresult⟩
      exact ⟨later, List.mem_cons_of_mem _ hmem, reached, hresult⟩

/-- A history in which everything fails changes nothing. -/
theorem after_of_all_failed {timestamp : Timestamp} {actions : List Action}
    (h : ∀ result ∈ timestamp.results actions, ∃ e, result = .error e) :
    timestamp.after actions = timestamp := by
  induction actions with
  | nil => rfl
  | cons action rest ih =>
    rcases List.forall_mem_cons.mp h with ⟨⟨e, hfirst⟩, hrest⟩
    have hsame : (timestamp.step action).2 = timestamp := action.atomic_edit timestamp e hfirst
    rw [hsame] at hrest
    rw [after_cons, hsame]
    exact ih hrest

/-! ## Upgrades one after the other -/

/-- What comes back for each lookup of an update, with what was asked. -/
def lookedUp (timestamp : Timestamp) (transport : Transport) (start : Nat) :
    List ((String × CalendarKey) × Reply) :=
  timestamp.pendingKeys.mapIdx fun index asked =>
    (asked, transport (start + index) (.lookup asked.1 asked.2))

/-- The upgrades that replies come to: one for each reply with content, under the
key that was asked for. -/
def upgradesFrom (answers : List ((String × CalendarKey) × Reply)) : List Action :=
  answers.filterMap fun ((_, key), reply) => (Reply.content? reply).map (.upgrade key)

/-- The answers that are applied are what came back, where an empty one is an error. -/
theorem updateAnswers_eq (timestamp : Timestamp) (transport : Transport) (start : Nat) :
    timestamp.updateAnswers transport start =
      (timestamp.lookedUp transport start).map fun (asked, reply) =>
        (asked, Reply.nonempty (.lookup asked.1 asked.2) reply) := by
  refine List.ext_getElem ?_ fun index hindex _ => ?_
  · simp [updateAnswers, lookedUp, Transport.exchange]
  · simp [updateAnswers, lookedUp, Transport.exchange]

/-- The upgrades of an update are those of the replies with content. -/
theorem completing_updateAnswers (timestamp : Timestamp) (transport : Transport) (start : Nat) :
    completing (timestamp.updateAnswers transport start) =
      upgradesFrom (timestamp.lookedUp transport start) := by
  rw [updateAnswers_eq, completing, List.filterMap_map, upgradesFrom]
  refine congrArg (List.filterMap · _) (funext fun answer => ?_)
  simp only [Function.comp_apply, Reply.toOption_nonempty]

/-- An upgrade from a reply stands for what the reply says. -/
theorem mem_completing {answers : List ((String × CalendarKey) × Reply)} {action : Action}
    (h : action ∈ completing answers) : ∃ key bytes, action = .upgrade key bytes := by
  rcases List.mem_filterMap.mp h with ⟨⟨⟨url, key⟩, reply⟩, _, h⟩
  rcases Option.map_eq_some_iff.mp h with ⟨bytes, _, rfl⟩
  exact ⟨key, bytes, rfl⟩

/-- Applying replies answers yes exactly when one of the upgrades succeeds. -/
theorem applyUpgrades_upgraded (timestamp : Timestamp)
    (answers : List ((String × CalendarKey) × Reply)) :
    (applyUpgrades timestamp answers).2.1 = true ↔
      .ok .nothing ∈ timestamp.results (completing answers) := by
  induction answers generalizing timestamp with
  | nil => simp [applyUpgrades, completing, results]
  | cons answer rest ih =>
    rcases answer with ⟨⟨url, key⟩, reply⟩
    cases reply with
    | error cause => exact ih timestamp
    | ok bytes =>
      have htail : completing (((url, key), .ok bytes) :: rest) =
          .upgrade key bytes :: completing rest := rfl
      rw [htail, results, List.mem_cons]
      cases hupgrade : timestamp.upgrade key bytes with
      | ok next =>
        rw [applyUpgrades_cons (apply_upgradeReply_of_ok hupgrade), step_upgrade_of_ok hupgrade]
        simp [Except.isOk, Except.toBool]
      | error e =>
        rw [applyUpgrades_cons (apply_upgradeReply_of_error hupgrade),
          step_upgrade_of_error hupgrade, ← ih timestamp]
        simp [Except.isOk, Except.toBool]

/-- After a no, the timestamp is what it was. -/
theorem after_of_not_upgraded {timestamp : Timestamp}
    {answers : List ((String × CalendarKey) × Reply)}
    (h : (applyUpgrades timestamp answers).2.1 = false) :
    timestamp.after (completing answers) = timestamp := by
  refine after_of_all_failed fun result hmem => ?_
  rcases exists_of_mem_results hmem with ⟨action, haction, reached, rfl⟩
  rcases mem_completing haction with ⟨key, bytes, rfl⟩
  cases hupgrade : reached.upgrade key bytes with
  | error e => exact ⟨e, by rw [step_upgrade_of_error hupgrade]⟩
  | ok next =>
    -- A success among the upgrades would have been reported.
    have hok : (reached.step (.upgrade key bytes)).1 = .ok .nothing := by
      rw [step_upgrade_of_ok hupgrade]
    rw [hok] at hmem
    rw [(applyUpgrades_upgraded timestamp answers).mpr hmem] at h
    cases h

/-! ## Whole continuations -/

/-- Whether an attestation is what it was, or else was pending with a lookup key
and is now its chain run again with continuations behind it, each read in full
from one of some bodies. -/
def WholeOrSame (digest : Digest) (bodies : List Bytes) (earlier later : Attestation) : Prop :=
  later = earlier ∨
    earlier.isPending = true ∧
      (∃ key, deriveKey digest.bytes earlier.operations = .ok key) ∧
      ∃ continuations : List (List Operation), continuations ≠ [] ∧
        (∀ continuation ∈ continuations,
          ∃ body ∈ bodies, Chain.parse body = .ok continuation) ∧
        extended digest earlier continuations.flatten = .ok later

/-- More bodies do no harm. -/
theorem WholeOrSame.cons {digest : Digest} {bodies : List Bytes} {earlier later : Attestation}
    (h : WholeOrSame digest bodies earlier later) (body : Bytes) :
    WholeOrSame digest (body :: bodies) earlier later := by
  rcases h with hsame | ⟨hpending, hkey, continuations, hsome, hread, hran⟩
  · exact .inl hsame
  · refine .inr ⟨hpending, hkey, continuations, hsome, fun continuation hmem => ?_, hran⟩
    rcases hread continuation hmem with ⟨other, hother, hparsed⟩
    exact ⟨other, List.mem_cons_of_mem _ hother, hparsed⟩

/-- One continuation and then others are continuations. -/
theorem WholeOrSame.of_upgrading {timestamp : Timestamp} {key : CalendarKey} {body : Bytes}
    (upgrading : timestamp.Upgrading key body) {bodies : List Bytes} {later : Attestation}
    (h : WholeOrSame timestamp.digestHash bodies upgrading.result later) :
    WholeOrSame timestamp.digestHash (body :: bodies) upgrading.current later := by
  refine .inr ⟨upgrading.pending, ⟨key, calendarKey_of_found upgrading.found upgrading.held⟩, ?_⟩
  have hfirst : ∃ other ∈ body :: bodies, Chain.parse other = .ok upgrading.continuation :=
    ⟨body, List.mem_cons_self, upgrading.parsed⟩
  rcases h.cons body with rfl | ⟨_, _, continuations, _, hread, hran⟩
  · refine ⟨[upgrading.continuation], List.cons_ne_nil _ _, by simpa using hfirst, ?_⟩
    simpa using upgrading.ran
  · refine ⟨upgrading.continuation :: continuations, List.cons_ne_nil _ _,
      List.forall_mem_cons.mpr ⟨hfirst, hread⟩, ?_⟩
    rw [List.flatten_cons, ← extended_append upgrading.ran]
    exact hran

/-- Replies change an attestation by whole continuations only, and only if it is
pending and has a lookup key. -/
theorem wholeOrSame_after_completing {timestamp : Timestamp}
    (answers : List ((String × CalendarKey) × Reply)) {index : Nat} {earlier : Attestation}
    (hheld : timestamp.attestations[index]? = some earlier) :
    ∃ later, (timestamp.after (completing answers)).attestations[index]? = some later ∧
      WholeOrSame timestamp.digestHash (answers.filterMap fun answer => answer.2.toOption)
        earlier later := by
  induction answers generalizing timestamp earlier with
  | nil => exact ⟨earlier, hheld, .inl rfl⟩
  | cons answer rest ih =>
    rcases answer with ⟨⟨url, key⟩, reply⟩
    cases reply with
    | error cause => exact ih hheld
    | ok bytes =>
      have hafter : timestamp.after (completing (((url, key), .ok bytes) :: rest)) =
          (timestamp.step (.upgrade key bytes)).2.after (completing rest) := rfl
      have hbodies : (((url, key), (.ok bytes : Reply)) :: rest).filterMap
            (fun answer => answer.2.toOption) =
          bytes :: rest.filterMap fun answer => answer.2.toOption := rfl
      rw [hafter, hbodies]
      rcases timestamp.step_upgrade_cases key bytes with hstep | ⟨upgrading, hstep⟩
      · rw [hstep]
        rcases ih hheld with ⟨later, hlater, hwhole⟩
        exact ⟨later, hlater, hwhole.cons bytes⟩
      · rw [hstep]
        by_cases hindex : upgrading.index = index
        · subst hindex
          have hcurrent : earlier = upgrading.current :=
            Option.some.inj (hheld.symm.trans upgrading.held)
          rcases ih upgrading.getElem?_next with ⟨later, hlater, hwhole⟩
          exact ⟨later, hlater, hcurrent ▸ .of_upgrading upgrading hwhole⟩
        · have hother : upgrading.next.attestations[index]? = some earlier := by
            rw [Upgrading.next, attestations_withAttestations, List.getElem?_set_ne hindex, hheld]
          rcases ih hother with ⟨later, hlater, hwhole⟩
          exact ⟨later, hlater, hwhole.cons bytes⟩

/-! ## Pending attestations -/

/-- An upgrade makes no attestation pending. -/
theorem length_pending_upgrade {timestamp : Timestamp} {key : CalendarKey} {bytes : Bytes}
    (upgrading : timestamp.Upgrading key bytes) :
    upgrading.next.pending.length ≤ timestamp.pending.length := by
  rcases List.getElem?_eq_some_iff.mp upgrading.held with ⟨hlt, hheld⟩
  have hpositive : 0 < timestamp.attestations.countP Attestation.isPending :=
    List.countP_pos_iff.mpr ⟨upgrading.current, List.mem_of_getElem? upgrading.held,
      upgrading.pending⟩
  rw [pending, pending, ← List.countP_eq_length_filter, ← List.countP_eq_length_filter,
    Upgrading.next, attestations_withAttestations, List.countP_set hlt, hheld,
    if_pos upgrading.pending]
  split <;> omega

/-- Replies make no attestation pending. -/
theorem length_pending_after_completing (timestamp : Timestamp)
    (answers : List ((String × CalendarKey) × Reply)) :
    (timestamp.after (completing answers)).pending.length ≤ timestamp.pending.length := by
  refine after_induction_singles (fun action => ∃ key bytes, action = .upgrade key bytes)
    (fun reached => reached.pending.length ≤ timestamp.pending.length) ?_ ?_ (Nat.le_refl _)
  · rintro reached next _ ⟨key, bytes, rfl⟩ move h
    cases move with
    | idle => exact h
    | setContext sets => cases sets
    | upgrade upgrading => exact Nat.le_trans (length_pending_upgrade upgrading) h
  · intro action hmem
    rcases mem_completing hmem with ⟨key, bytes, rfl⟩
    exact ⟨rfl, key, bytes, rfl⟩

/-! ## Updates -/

/-- The requests of an update are for the pending attestations whose key can be
derived. -/
theorem requests_update (timestamp : Timestamp) (transport : Transport) (start : Nat) :
    (timestamp.update transport start).requests =
      timestamp.pending.filterMap fun attestation =>
        (timestamp.calendarKey attestation).toOption.map fun key =>
          .lookup attestation.calendarUrl key := by
  simp only [update, pendingKeys, List.map_filterMap]
  refine congrArg (List.filterMap · _) (funext fun attestation => ?_)
  cases timestamp.calendarKey attestation <;> rfl

/-- Without a pending attestation whose key can be derived there is nobody to ask. -/
theorem pendingKeys_eq_nil {timestamp : Timestamp}
    (h : ∀ attestation ∈ timestamp.attestations, attestation.isPending = true →
      ∀ key, timestamp.calendarKey attestation ≠ .ok key) : timestamp.pendingKeys = [] := by
  rw [List.eq_nil_iff_forall_not_mem]
  rintro ⟨url, key⟩ hmem
  rcases mem_pendingKeys.mp hmem with ⟨attestation, hheld, hpending, hkey, _⟩
  exact h attestation hheld hpending key hkey

/-- What an update makes of an attestation. -/
theorem wholeOrSame_update {timestamp : Timestamp} (transport : Transport) (start : Nat)
    {index : Nat} {earlier : Attestation}
    (hheld : timestamp.attestations[index]? = some earlier) :
    ∃ later, (timestamp.update transport start).timestamp.attestations[index]? = some later ∧
      WholeOrSame timestamp.digestHash
        ((timestamp.lookedUp transport start).filterMap fun answer => Reply.content? answer.2)
        earlier later := by
  have hbodies : ((timestamp.updateAnswers transport start).filterMap fun answer =>
        answer.2.toOption) =
      (timestamp.lookedUp transport start).filterMap fun answer => Reply.content? answer.2 := by
    rw [updateAnswers_eq, List.filterMap_map]
    refine congrArg (List.filterMap · _) (funext fun answer => ?_)
    exact Reply.toOption_nonempty _ _
  rw [timestamp_update, ← hbodies]
  exact wholeOrSame_after_completing _ hheld

/-- An update asks the calendar of each pending attestation whose key can be
derived, once and in order, under the key as it is before any reply is applied.
What it makes of the timestamp is what the upgrades make of it that the replies
with content come to, one after the other, where those that fail change nothing;
it says yes exactly when one of them succeeds, and after a no the timestamp is
what it was, as it is when there is nobody to ask.  All that is not an attestation
stays, and no attestation comes or goes.  Each of them takes continuations as
wholes or stays as it was, and it stays if it is not pending or has no key; no
attestation becomes pending. -/
theorem update_truthful (timestamp : Timestamp) (transport : Transport) (start : Nat) :
    (timestamp.update transport start).requests =
        (timestamp.attestations.filter Attestation.isPending).filterMap (fun attestation =>
          (timestamp.calendarKey attestation).toOption.map fun key =>
            { method := .get
              url := Request.endpoint attestation.calendarUrl ("timestamp/" ++ key.toHex) }) ∧
      (timestamp.update transport start).timestamp =
        timestamp.after (upgradesFrom (timestamp.lookedUp transport start)) ∧
      ((timestamp.update transport start).upgraded = true ↔
        .ok .nothing ∈ timestamp.results (upgradesFrom (timestamp.lookedUp transport start))) ∧
      ((timestamp.update transport start).upgraded = false →
        (timestamp.update transport start).timestamp = timestamp) ∧
      ((∀ attestation ∈ timestamp.attestations, attestation.isPending = true →
          ∀ key, timestamp.calendarKey attestation ≠ .ok key) →
        (timestamp.update transport start).requests = [] ∧
          (timestamp.update transport start).upgraded = false ∧
          (timestamp.update transport start).timestamp = timestamp) ∧
      (timestamp.update transport start).timestamp.context = timestamp.context ∧
      (timestamp.update transport start).timestamp.digestHash = timestamp.digestHash ∧
      (timestamp.update transport start).timestamp.attestations.length =
        timestamp.attestations.length ∧
      (∀ (index : Nat) (earlier : Attestation),
        timestamp.attestations[index]? = some earlier →
          ∃ later,
            (timestamp.update transport start).timestamp.attestations[index]? = some later ∧
            WholeOrSame timestamp.digestHash
              ((timestamp.lookedUp transport start).filterMap fun answer =>
                Reply.content? answer.2)
              earlier later ∧
            (earlier.isPending = false ∨
                (∀ key, timestamp.calendarKey earlier ≠ .ok key) →
              later = earlier)) ∧
      (timestamp.update transport start).timestamp.pending.length ≤ timestamp.pending.length := by
  have hcontext : (timestamp.update transport start).timestamp.context = timestamp.context := by
    rw [timestamp_update]
    refine context_after timestamp fun action hmem => ?_
    rcases mem_completing hmem with ⟨key, bytes, rfl⟩
    rfl
  refine ⟨requests_update timestamp transport start, ?_, ?_, ?_, ?_, hcontext,
    digestHash_congr hcontext, ?_, ?_, ?_⟩
  · rw [timestamp_update, completing_updateAnswers]
  · rw [← completing_updateAnswers]
    exact applyUpgrades_upgraded timestamp _
  · intro hnot
    rw [timestamp_update]
    exact after_of_not_upgraded hnot
  · intro hnobody
    have hkeys := pendingKeys_eq_nil hnobody
    simp only [update, hkeys]
    exact ⟨rfl, rfl, rfl⟩
  · rw [timestamp_update, length_after_completing]
  · intro index earlier hheld
    rcases wholeOrSame_update transport start hheld with ⟨later, hlater, hwhole⟩
    refine ⟨later, hlater, hwhole, ?_⟩
    rintro hframe
    rcases hwhole with hsame | ⟨hpending, ⟨key, hkey⟩, _⟩
    · exact hsame
    · rcases hframe with hfinal | hunkeyed
      · simp [hpending] at hfinal
      · exact absurd hkey (hunkeyed key)
  · rw [timestamp_update]
    exact length_pending_after_completing timestamp _

/-- An attestation that waits, but holds an operation of a kind that nobody knows. -/
def unkeyed : Attestation :=
  { calendarUrl := "b", operations := [{ kind := 123 }], status := AttestationStatus.pending.code }

/-- A loaded timestamp: a promise, an attestation without a key and a final one. -/
def loaded : Timestamp :=
  specimen.withAttestations
    [{ calendarUrl := "a", operations := [.pending "a"], status := AttestationStatus.pending.code },
      unkeyed,
      { calendarUrl := "c", operations := [.anchored .bitcoin 1], blockHeight := 1
        status := AttestationStatus.bitcoin.code }]

/-- Only the promise that has a key is asked for.  It is completed by a chain that can
be read and left alone otherwise. -/
theorem update_truthful_loaded :
    (loaded.update (.ofList [.ok anchorage]) 0).requests.length = 1 ∧
      (loaded.update (.ofList [.ok anchorage]) 0).upgraded = true ∧
      (loaded.update (.ofList [.ok anchorage]) 0).timestamp.attestations[1]? = some unkeyed ∧
      (loaded.update (.ofList [.ok [0x42]]) 0).upgraded = false ∧
      (loaded.update (.ofList [.ok [0x42]]) 0).timestamp = loaded ∧
      ((loaded.withAttestations [unkeyed]).update (.ofList [.ok anchorage]) 0).requests = [] := by
  have hunkeyed : ∀ key, loaded.calendarKey unkeyed ≠ .ok key := by
    intro key hkey
    cases (deriveKey_unknown (e := .unhandledOperation 123) rfl _ []).symm.trans hkey
  rcases loaded.update_truthful (.ofList [.ok anchorage]) 0 with
    ⟨_, _, _, _, _, _, _, _, hframe, _⟩
  rcases hframe 1 unkeyed rfl with ⟨later, hlater, _, hsame⟩
  rcases loaded.update_truthful (.ofList [.ok [0x42]]) 0 with ⟨_, _, _, hno, _⟩
  rcases (loaded.withAttestations [unkeyed]).update_truthful (.ofList [.ok anchorage]) 0 with
    ⟨_, _, _, _, hnobody, _⟩
  have hrefused : (loaded.update (.ofList [.ok [0x42]]) 0).upgraded = false := by decide +kernel
  refine ⟨by decide +kernel, by decide +kernel, ?_, hrefused, hno hrefused, ?_⟩
  · rw [hlater, hsame (.inr hunkeyed)]
  · refine (hnobody fun attestation hmem _ => ?_).1
    cases List.mem_singleton.mp hmem
    exact hunkeyed

end Timestamp

end CalendarStamp
