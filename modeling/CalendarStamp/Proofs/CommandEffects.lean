import CalendarStamp.CommandLine.Run
import CalendarStamp.Proofs.KeptTimestamps
import CalendarStamp.Proofs.StampedBatches
import CalendarStamp.Proofs.UpdateReports
import Mathlib.Data.List.Nodup

/-!
# What commands do to a store

Two commands write to a store after they have talked to calendars.  Stamping
writes the one entry that it has posted the digest of, or nothing.  An update
reads timestamps from the store, lets calendars complete them and writes back
those that were completed, each under a digest that it computes anew.  Since this
is the digest under which the timestamp was found, no entry is lost and none is
written in another's place.

Main results:

- Theorem `keepsFinal_update`: an update leaves what does not wait alone.
- Theorem `stamp_effect`: stamping writes one entry under the digest it posted,
  or fails without an attestation.
- Theorem `foldl_updateTarget`: an update of stored timestamps does what the
  single updates do, and saves those that completed something.
- Theorem `update_effect`: an update changes the entries of upgraded timestamps.
- Theorem `commands_keep_records`: both commands on any store that was filled by
  saving and importing.
-/

namespace CalendarStamp

open Outcome

/-- The request that an event notes, if it notes one. -/
def Event.request? : Event → Option Request
  | sent request => some request
  | _ => none

namespace Timestamp

/-- The log of stamping notes the requests that submit the digest, and no others. -/
theorem sent_stamp (timestamp : Timestamp) (clock : Clock) (transport : Transport) (start : Nat)
    (urls : List String) :
    (timestamp.stamp clock transport start urls).log.filterMap Event.request? =
      timestamp.stampRequests urls := by
  have happlied : (applyStamps clock timestamp.digestHash timestamp
      (timestamp.stampAnswers transport start urls)).2.2.filterMap Event.request? = [] := by
    refine List.filterMap_eq_nil_iff.mpr fun event hmem => ?_
    have hevent := (applyStamps_log clock timestamp.digestHash timestamp _).2 event hmem
    cases event with
    | sent request => exact absurd rfl (hevent request)
    | _ => rfl
  have hlog : (timestamp.stamp clock transport start urls).log =
      (timestamp.stampRequests urls).map .sent ++ (applyStamps clock timestamp.digestHash timestamp
        (timestamp.stampAnswers transport start urls)).2.2 := rfl
  rw [hlog, List.filterMap_append, happlied, List.append_nil, List.filterMap_map]
  exact List.filterMap_some

/-- What an update of a timestamp does not change: all but the attestations, how
many of these there are, and each of them that does not wait. -/
structure KeepsFinal (earlier later : Timestamp) : Prop where
  context : later.context = earlier.context
  length : later.attestations.length = earlier.attestations.length
  final : ∀ (index : Nat) (attestation : Attestation),
    earlier.attestations[index]? = some attestation → attestation.isPending = false →
      later.attestations[index]? = some attestation

/-- An update leaves what does not wait alone. -/
theorem keepsFinal_update (timestamp : Timestamp) (transport : Transport) (start : Nat) :
    timestamp.KeepsFinal (timestamp.update transport start).timestamp := by
  refine ⟨?_, ?_, ?_⟩
  · rw [timestamp_update]
    refine context_after timestamp fun action hmem => ?_
    rcases mem_completing hmem with ⟨key, bytes, rfl⟩
    rfl
  · rw [timestamp_update, length_after_completing]
  · intro index attestation hheld hfinal
    rcases wholeOrSame_update transport start hheld with ⟨later, hlater, rfl | ⟨hpending, _⟩⟩
    · exact hlater
    · cases hfinal.symm.trans hpending

end Timestamp

namespace CommandLine

/-! ## Stamping -/

section Stamping

variable (session : Session) (tree : FileTree) (store : Store) {configurationFile : Option String}
  {file : String} {source : Option String} {calendars urls : List String} {hash : Bytes}
  {timestamp : Timestamp}

/-- A file that cannot be stamped leaves everything as it was. -/
theorem run_stamp_of_error {failure : Failure}
    (h : prepareStamp session tree configurationFile file source calendars = .error failure) :
    run session tree store configurationFile (.stamp file source calendars) =
      { result := .error failure, left := { tree, store } } := by
  simp only [run, Command.job, stamp, Change.apply_get_bind, h, Change.apply_error_bind]

/-- A file's timestamp that no calendar takes is forgotten. -/
theorem run_stamp_of_refused
    (h : prepareStamp session tree configurationFile file source calendars =
      .ok (hash, timestamp, urls))
    (refused : (timestamp.stamp session.clock session.transport 0 urls).count = 0) :
    run session tree store configurationFile (.stamp file source calendars) =
      { result := .error (.notAccepted file)
        left := {
          tree, store
          log := (timestamp.stamp session.clock session.transport 0 urls).log } } := by
  simp only [run, Command.job, stamp, note, Change.apply_get_bind, h, Change.apply_ok_bind,
    Change.apply_modify_bind, if_pos refused, Change.apply_throw, List.nil_append]

/-- A file's timestamp that a calendar takes is saved. -/
theorem run_stamp_of_taken
    (h : prepareStamp session tree configurationFile file source calendars =
      .ok (hash, timestamp, urls))
    {stamping : Stamping}
    (hstamping : stamping = timestamp.stamp session.clock session.transport 0 urls)
    (taken : stamping.count ≠ 0) :
    run session tree store configurationFile (.stamp file source calendars) =
      { result := .ok ()
        left := {
          tree
          store := (store.save stamping.timestamp).2
          saved := [stamping.timestamp.digestHash]
          log := stamping.log
          output := lines
            ["Timestamp submitted to " ++ toString stamping.count ++ " calendar(s)",
             "Digest: " ++ stamping.timestamp.digestHash.toHex,
             "Hash:   " ++ Hex.encode hash] } } := by
  subst hstamping
  simp only [run, Command.job, stamp, note, Change.apply_get_bind, h, Change.apply_ok_bind,
    Change.apply_modify_bind, if_neg taken, List.nil_append]
  rfl

end Stamping

/-- What a file's timestamp, posted to calendars, leaves behind when it is kept. -/
structure Kept (session : Session) (tree : FileTree) (store : Store) (timestamp : Timestamp)
    (urls : List String) (report : Report) (stamped : Timestamp) : Prop where
  succeeds : report.result = .ok ()
  /-- The digest was posted to every calendar. -/
  posted : report.left.log.filterMap Event.request? = urls.map fun url =>
    { method := .post, url := Request.endpoint url "digest"
      body := some timestamp.digestHash.bytes }
  /-- What is kept is what the calendars made of the timestamp. -/
  stamped_eq : stamped = (timestamp.stamp session.clock session.transport 0 urls).timestamp
  /-- At least one attestation was attached. -/
  attached : timestamp.attestations.length < stamped.attestations.length
  /-- It is found under the digest that was posted, which is still its own. -/
  found : report.left.store.lookup timestamp.digestHash.bytes = some stamped.toBytes
  digest : stamped.digestHash = timestamp.digestHash
  context : stamped.context = timestamp.context
  /-- All other entries are as they were. -/
  others : ∀ key, key ≠ timestamp.digestHash.bytes →
    report.left.store.lookup key = store.lookup key
  /-- One entry is written down, and nothing else. -/
  written : report.left.store.entriesAt report.left.saved =
    [(timestamp.digestHash.bytes, stamped.toBytes)]
  files : report.left.tree = tree

/-- What stamping a file comes to. -/
inductive StampOutcome (session : Session) (tree : FileTree) (store : Store)
    (configurationFile : Option String) (file : String) (source : Option String)
    (calendars : List String) (report : Report) : Prop
  /-- It fails and leaves everything as it was, and no attestation was attached, if
  there was a timestamp to attach one to. -/
  | failed {failure : Failure} (fails : report.result = .error failure)
      (unchanged : report.left.lasting = (tree, store, []))
      (unattested : ∀ hash timestamp urls,
        prepareStamp session tree configurationFile file source calendars =
            .ok (hash, timestamp, urls) →
          (timestamp.stamp session.clock session.transport 0 urls).timestamp = timestamp)
  /-- The file's timestamp is kept. -/
  | kept {hash : Bytes} {timestamp stamped : Timestamp} {urls : List String}
      (prepared : prepareStamp session tree configurationFile file source calendars =
        .ok (hash, timestamp, urls))
      (kept : Kept session tree store timestamp urls report stamped)

/-- Stamping writes one entry under the digest that it posted, or fails without an
attestation. -/
theorem stamp_effect (session : Session) (tree : FileTree) (store : Store)
    (configurationFile : Option String) (file : String) (source : Option String)
    (calendars : List String) :
    StampOutcome session tree store configurationFile file source calendars
      (run session tree store configurationFile (.stamp file source calendars)) := by
  cases hprepared : prepareStamp session tree configurationFile file source calendars with
  | error failure =>
    have hfails : (run session tree store configurationFile
        (.stamp file source calendars)).result = .error failure := by
      rw [run_stamp_of_error session tree store hprepared]
    refine .failed hfails (run_of_error hfails) fun hash timestamp urls hsame => ?_
    cases hprepared.symm.trans hsame
  | ok prepared =>
    rcases prepared with ⟨hash, timestamp, urls⟩
    have hcount := timestamp.stamp_count session.clock session.transport 0 urls
    have hstamped := timestamp.stamp_timestamp session.clock session.transport 0 urls
    have hsent := timestamp.sent_stamp session.clock session.transport 0 urls
    by_cases hzero : (timestamp.stamp session.clock session.transport 0 urls).count = 0
    · -- Nothing is counted, so nothing was offered.
      rw [run_stamp_of_refused session tree store hprepared hzero]
      refine .failed rfl rfl fun hash' timestamp' urls' hsame => ?_
      cases hprepared.symm.trans hsame
      rw [hcount, List.length_eq_zero_iff] at hzero
      rw [hstamped, hzero, Timestamp.attachAll_nil]
    · rw [run_stamp_of_taken session tree store hprepared rfl hzero]
      have hdigest : (timestamp.stamp session.clock session.transport 0 urls).timestamp.digestHash =
          timestamp.digestHash := by
        rw [hstamped, Timestamp.digestHash_attachAll]
      refine .kept hprepared ⟨rfl, hsent, rfl, ?_, ?_, hdigest, ?_, ?_, ?_, rfl⟩
      · rw [hstamped, Timestamp.attestations_attachAll, List.length_append, Clock.length_mark,
          ← hcount]
        omega
      · rw [← hdigest]
        exact store.lookup_save _
      · rw [hstamped, Timestamp.context_attachAll]
      · intro key hkey
        rw [← hdigest] at hkey
        exact store.lookup_save_of_ne hkey
      · have hdistinct : ([(timestamp.stamp session.clock session.transport 0 urls).timestamp].map
            Timestamp.digestHash).Nodup := by simp
        rw [← hdigest]
        exact store.entriesAt_saveAll hdistinct

/-! ## Single updates -/

/-- An update of a stored timestamp: under which digest it was found, what it was
and what came of it. -/
structure Visit where
  digest : Digest
  earlier : Timestamp
  updating : Updating

/-- The line that is printed about an update. -/
def Visit.line (visit : Visit) : String :=
  visit.digest.toHex ++ "  " ++ statusSummary visit.updating.timestamp

/-- The updates that are made when timestamps are to be updated: one for each in
which something waits.  `sent` counts the requests that were sent before. -/
def visits (transport : Transport) (sent : Nat) : List (Digest × Timestamp) → List Visit
  | [] => []
  | (digest, timestamp) :: rest =>
    if timestamp.hasPending then
      let updating := timestamp.update transport sent
      ⟨digest, timestamp, updating⟩ :: visits transport (sent + updating.requests.length) rest
    else
      visits transport sent rest

/-- The timestamps of updates that completed something, in their new state. -/
def completed (made : List Visit) : List Timestamp :=
  (made.filter fun visit => visit.updating.upgraded).map fun visit => visit.updating.timestamp

/-- An update is made for each timestamp in which something waits. -/
theorem exists_visit {transport : Transport} {sent : Nat} {targets : List (Digest × Timestamp)}
    {target : Digest × Timestamp} (hmem : target ∈ targets) (waits : target.2.hasPending = true) :
    ∃ visit ∈ visits transport sent targets,
      visit.digest = target.1 ∧ visit.earlier = target.2 := by
  induction targets generalizing sent with
  | nil => cases hmem
  | cons first rest ih =>
    rw [visits]
    rcases List.mem_cons.mp hmem with rfl | hmem
    · rw [if_pos waits]
      exact ⟨_, List.mem_cons_self, rfl, rfl⟩
    · split
      · obtain ⟨visit, hvisit, hsame⟩ := ih hmem
        exact ⟨visit, List.mem_cons_of_mem _ hvisit, hsame⟩
      · exact ih hmem

/-- Updates are made for nothing but the targets, at most once for each and in their
order. -/
theorem sublist_visits (transport : Transport) (sent : Nat)
    (targets : List (Digest × Timestamp)) :
    ((visits transport sent targets).map fun visit => (visit.digest, visit.earlier)).Sublist
      targets := by
  induction targets generalizing sent with
  | nil => exact List.Sublist.slnil
  | cons first rest ih =>
    rw [visits]
    split
    · exact (ih _).cons_cons _
    · exact (ih _).cons _

/-- Each update is one of a timestamp in which something waits. -/
theorem exists_update_of_mem_visits {transport : Transport} {sent : Nat}
    {targets : List (Digest × Timestamp)} {visit : Visit}
    (hmem : visit ∈ visits transport sent targets) :
    visit.earlier.hasPending = true ∧
      ∃ start, visit.updating = visit.earlier.update transport start := by
  induction targets generalizing sent with
  | nil => cases hmem
  | cons first rest ih =>
    rw [visits] at hmem
    split at hmem
    · rename_i waits
      rcases List.mem_cons.mp hmem with rfl | hmem
      · exact ⟨waits, sent, rfl⟩
      · exact ih hmem
    · exact ih hmem

/-- An update of stored timestamps does what the single updates do, and saves those
that completed something. -/
theorem foldl_updateTarget (session : Session) (progress : Progress)
    (targets : List (Digest × Timestamp)) {made : List Visit}
    (hmade : made = visits session.transport progress.sent targets) :
    targets.foldl (updateTarget session) progress =
      { sent := progress.sent + (made.flatMap fun visit => visit.updating.requests).length
        upgraded := progress.upgraded + made.countP fun visit => visit.updating.upgraded
        printed := progress.printed ++ made.map Visit.line
        log := progress.log ++ made.flatMap fun visit => visit.updating.log
        store := progress.store.saveAll (completed made)
        saved := progress.saved ++ (completed made).map Timestamp.digestHash } := by
  subst hmade
  induction targets generalizing progress with
  | nil => simp [visits, completed]
  | cons target rest ih =>
    rcases target with ⟨digest, timestamp⟩
    rw [List.foldl_cons, ih, visits]
    by_cases waits : timestamp.hasPending = true
    · cases hupgraded : (timestamp.update session.transport progress.sent).upgraded
      · simp [updateTarget, waits, hupgraded, completed, Visit.line, Nat.add_assoc]
      · simp [updateTarget, waits, hupgraded, completed, Visit.line, Nat.add_assoc, Nat.add_comm]
    · simp [updateTarget, waits]

/-! ## Updating -/

/-- Whether timestamps to be updated are in a store, each under its digest, and no
digest occurs twice. -/
structure AreTargets (store : Store) (targets : List (Digest × Timestamp)) : Prop where
  stored : ∀ target ∈ targets, store.get? target.1 = .ok (some target.2)
  distinct : (targets.map Prod.fst).Nodup

/-- What is loaded is in the store. -/
theorem get?_of_loadTimestamp {store : Store} {text : String} {target : Digest × Timestamp}
    (h : loadTimestamp store text = .ok target) :
    store.get? target.1 = .ok (some target.2) := by
  obtain ⟨digest, _, h⟩ := bind_eq_ok.mp h
  obtain ⟨held, hget, h⟩ := bind_eq_ok.mp h
  cases held with
  | none => cases h
  | some timestamp =>
    cases h
    exact mapError_eq_ok.mp hget

/-- What is to be updated is in the store, whether a digest is given or not. -/
theorem areTargets_updateTargets {store : Store} (faithful : store.Faithful)
    {digest : Option String} {targets : List (Digest × Timestamp)}
    (h : updateTargets store digest = .ok targets) : AreTargets store targets := by
  cases digest with
  | some text =>
    obtain ⟨target, hloaded, rfl⟩ := map_eq_ok.mp h
    refine ⟨fun other hmem => ?_, by simp⟩
    rw [List.mem_singleton.mp hmem]
    exact get?_of_loadTimestamp hloaded
  | none =>
    cases faithful.list.symm.trans (mapError_eq_ok.mp h)
    refine ⟨fun target hmem => Store.mem_contents.mp hmem, List.pairwise_map.mpr ?_⟩
    refine store.ascending_contents.imp fun {a b} hlt heq => ?_
    rw [heq] at hlt
    exact List.lt_irrefl _ hlt

/-- Without a digest all that is stored is to be updated. -/
theorem updateTargets_none {store : Store} (faithful : store.Faithful) :
    updateTargets store none = .ok store.contents := by
  rw [updateTargets, faithful.list]
  rfl

/-- What an update of stored timestamps leaves behind, where `made` are the single
updates. -/
structure Updated (transport : Transport) (tree : FileTree) (store : Store)
    (targets : List (Digest × Timestamp)) (made : List Visit) (left : Workspace) : Prop where
  /-- Each single update is one of a target in which something waits. -/
  made_of : ∀ visit ∈ made, (visit.digest, visit.earlier) ∈ targets ∧
    visit.earlier.hasPending = true ∧
      ∃ start, visit.updating = visit.earlier.update transport start
  /-- There is one for each such target. -/
  visited : ∀ target ∈ targets, target.2.hasPending = true →
    ∃ visit ∈ made, visit.digest = target.1 ∧ visit.earlier = target.2
  distinct : (made.map Visit.digest).Nodup
  /-- No digest comes or goes. -/
  keys : left.store.keys = store.keys
  /-- What is not to be updated is byte for byte what it was. -/
  untargeted : ∀ key, (∀ target ∈ targets, key ≠ target.1.bytes) →
    left.store.lookup key = store.lookup key
  /-- So is each timestamp in which nothing waits. -/
  idle : ∀ target ∈ targets, target.2.hasPending = false →
    left.store.lookup target.1.bytes = store.lookup target.1.bytes
  /-- So is each timestamp of which nothing was completed. -/
  refused : ∀ visit ∈ made, visit.updating.upgraded = false →
    left.store.lookup visit.digest.bytes = store.lookup visit.digest.bytes
  /-- Each other timestamp is replaced in its place, and keeps all that did not wait. -/
  upgraded : ∀ visit ∈ made, visit.updating.upgraded = true →
    store.lookup visit.digest.bytes = some visit.earlier.toBytes ∧
      left.store.lookup visit.digest.bytes = some visit.updating.timestamp.toBytes ∧
      visit.updating.timestamp.digestHash = visit.digest ∧
      visit.earlier.KeepsFinal visit.updating.timestamp
  /-- The number of single updates that completed something is reported. -/
  reported : left.output = lines (made.map Visit.line ++
    ["Upgraded " ++ toString (made.countP fun visit => visit.updating.upgraded) ++
      " timestamp(s)"])
  /-- What these came to is all that is written down. -/
  written : left.store.entriesAt left.saved =
    (completed made).map fun timestamp => (timestamp.digestHash.bytes, timestamp.toBytes)
  files : left.tree = tree

/-- A completed timestamp is what an update that completed something came to. -/
theorem mem_completed {made : List Visit} {timestamp : Timestamp} :
    timestamp ∈ completed made ↔
      ∃ visit ∈ made, visit.updating.upgraded = true ∧ visit.updating.timestamp = timestamp := by
  simp [completed, and_assoc]

section Targets

variable {store : Store} {targets : List (Digest × Timestamp)} {transport : Transport} {sent : Nat}

/-- The digests under which updates are made are different ones. -/
theorem AreTargets.nodup_visits (h : AreTargets store targets) :
    ((visits transport sent targets).map Visit.digest).Nodup := by
  have hsublist := (sublist_visits transport sent targets).map Prod.fst
  rw [List.map_map] at hsublist
  exact h.distinct.sublist hsublist

/-- An update is made of what is stored, and its digest stays what it was. -/
theorem AreTargets.of_mem_visits (h : AreTargets store targets) (faithful : store.Faithful)
    {visit : Visit} (hmem : visit ∈ visits transport sent targets) :
    (visit.digest, visit.earlier) ∈ targets ∧
      store.lookup visit.digest.bytes = some visit.earlier.toBytes ∧
      visit.updating.timestamp.digestHash = visit.digest ∧
      visit.earlier.KeepsFinal visit.updating.timestamp := by
  have htarget : (visit.digest, visit.earlier) ∈ targets :=
    (sublist_visits transport sent targets).subset
      (List.mem_map_of_mem (f := fun visit : Visit => (visit.digest, visit.earlier)) hmem)
  obtain ⟨hdigest, hlookup, _⟩ := faithful.of_get? (h.stored _ htarget)
  obtain ⟨_, start, hupdating⟩ := exists_update_of_mem_visits hmem
  have hkeeps : visit.earlier.KeepsFinal visit.updating.timestamp := by
    rw [hupdating]
    exact visit.earlier.keepsFinal_update transport start
  exact ⟨htarget, hlookup, (Timestamp.digestHash_congr hkeeps.context).trans hdigest, hkeeps⟩

/-- What an update comes to would be saved under the digest that it was found under. -/
theorem AreTargets.digestHash_updating (h : AreTargets store targets) (faithful : store.Faithful)
    {visit : Visit} (hmem : visit ∈ visits transport sent targets) :
    visit.updating.timestamp.digestHash = visit.digest :=
  (h.of_mem_visits faithful hmem).2.2.1

/-- The digests of completed timestamps are different ones. -/
theorem AreTargets.nodup_completed (h : AreTargets store targets) (faithful : store.Faithful) :
    ((completed (visits transport sent targets)).map Timestamp.digestHash).Nodup := by
  have hdigests : (completed (visits transport sent targets)).map Timestamp.digestHash =
      ((visits transport sent targets).filter fun visit => visit.updating.upgraded).map
        Visit.digest := by
    rw [completed, List.map_map]
    refine List.map_congr_left fun visit hmem => ?_
    exact h.digestHash_updating faithful (List.mem_of_mem_filter hmem)
  rw [hdigests]
  exact h.nodup_visits.sublist (List.filter_sublist.map _)

/-- Saving the completed timestamps leaves the entries of all others alone. -/
theorem AreTargets.lookup_of_not_upgraded (h : AreTargets store targets)
    (faithful : store.Faithful) {key : Bytes}
    (hkey : ∀ visit ∈ visits transport sent targets, visit.updating.upgraded = true →
      key ≠ visit.digest.bytes) :
    (store.saveAll (completed (visits transport sent targets))).lookup key = store.lookup key := by
  refine store.lookup_saveAll_of_ne fun timestamp hmem => ?_
  obtain ⟨visit, hvisit, hupgraded, rfl⟩ := mem_completed.mp hmem
  rw [h.digestHash_updating faithful hvisit]
  exact hkey visit hvisit hupgraded

/-- Saving the completed timestamps is an update of the targets. -/
theorem AreTargets.updated (h : AreTargets store targets) (faithful : store.Faithful)
    {tree : FileTree} {left : Workspace} (htree : left.tree = tree)
    (hstore : left.store = store.saveAll (completed (visits transport sent targets)))
    (hsaved : left.saved =
      (completed (visits transport sent targets)).map Timestamp.digestHash)
    (houtput : left.output = lines ((visits transport sent targets).map Visit.line ++
      ["Upgraded " ++
        toString ((visits transport sent targets).countP fun visit => visit.updating.upgraded) ++
        " timestamp(s)"])) :
    Updated transport tree store targets (visits transport sent targets) left where
  made_of visit hvisit :=
    ⟨(h.of_mem_visits faithful hvisit).1, exists_update_of_mem_visits hvisit⟩
  visited target hmem waits := exists_visit hmem waits
  distinct := h.nodup_visits
  keys := by
    rw [hstore]
    refine Store.keys_saveAll fun timestamp hmem => ?_
    obtain ⟨visit, hvisit, _, rfl⟩ := mem_completed.mp hmem
    obtain ⟨_, hlookup, hdigest, _⟩ := h.of_mem_visits faithful hvisit
    rw [hdigest]
    exact Store.mem_keys.mpr ⟨_, hlookup⟩
  untargeted key hkey := by
    rw [hstore]
    refine h.lookup_of_not_upgraded faithful fun visit hvisit _ => ?_
    exact hkey _ (h.of_mem_visits faithful hvisit).1
  idle target hmem hidle := by
    rw [hstore]
    refine h.lookup_of_not_upgraded faithful fun visit hvisit _ hsame => ?_
    -- The update would be one of this very target.
    have hother : (visit.digest, visit.earlier) = target :=
      List.inj_on_of_nodup_map h.distinct (h.of_mem_visits faithful hvisit).1 hmem
        (Digest.ext hsame.symm)
    have hwaits := (exists_update_of_mem_visits hvisit).1
    rw [← hother, hwaits] at hidle
    cases hidle
  refused visit hvisit hrefused := by
    rw [hstore]
    refine h.lookup_of_not_upgraded faithful fun other hother hupgraded hsame => ?_
    cases List.inj_on_of_nodup_map h.nodup_visits hvisit hother (Digest.ext hsame)
    rw [hrefused] at hupgraded
    cases hupgraded
  upgraded visit hvisit hupgraded := by
    obtain ⟨_, hlookup, hdigest, hkeeps⟩ := h.of_mem_visits faithful hvisit
    refine ⟨hlookup, ?_, hdigest, hkeeps⟩
    rw [hstore, ← hdigest]
    exact store.lookup_saveAll_of_mem (h.nodup_completed faithful)
      (mem_completed.mpr ⟨visit, hvisit, hupgraded, rfl⟩)
  reported := houtput
  written := by
    rw [hstore, hsaved]
    exact store.entriesAt_saveAll (h.nodup_completed faithful)
  files := htree

end Targets

section Updating

variable (session : Session) (tree : FileTree) (store : Store)
  {configurationFile digest : Option String} {targets : List (Digest × Timestamp)}
  {failure : Failure}

/-- An update without targets leaves everything as it was. -/
theorem run_update_of_untargeted (htargets : updateTargets store digest = .error failure) :
    run session tree store configurationFile (.update digest) =
      { result := .error failure, left := { tree, store } } := by
  simp only [run, Command.job, update, Change.apply_get_bind, htargets, Change.apply_error_bind]

/-- So does an update without settings. -/
theorem run_update_of_unsettled (htargets : updateTargets store digest = .ok targets)
    (hconfiguration : loadConfiguration session tree configurationFile = .error failure) :
    run session tree store configurationFile (.update digest) =
      { result := .error failure, left := { tree, store } } := by
  simp only [run, Command.job, update, Change.apply_get_bind, htargets, Change.apply_ok_bind,
    hconfiguration, Change.apply_error_bind]

/-- An update with targets and settings makes the single updates and saves what they
completed. -/
theorem run_update_of_ok {configuration : Configuration}
    (htargets : updateTargets store digest = .ok targets)
    (hconfiguration : loadConfiguration session tree configurationFile = .ok configuration)
    {made : List Visit} (hmade : made = visits session.transport 0 targets) :
    run session tree store configurationFile (.update digest) =
      { result := .ok ()
        left := {
          tree
          store := store.saveAll (completed made)
          saved := (completed made).map Timestamp.digestHash
          log := made.flatMap fun visit => visit.updating.log
          output := lines (made.map Visit.line ++
            ["Upgraded " ++ toString (made.countP fun visit => visit.updating.upgraded) ++
              " timestamp(s)"]) } } := by
  simp only [run, Command.job, update, print, Change.apply_get_bind, htargets,
    Change.apply_ok_bind, hconfiguration, Change.apply_set_bind, Change.apply_modify,
    foldl_updateTarget session { store } targets hmade, List.nil_append, String.empty_append,
    Nat.zero_add]

end Updating

/-- What an update of stored timestamps comes to. -/
inductive UpdateOutcome (session : Session) (tree : FileTree) (store : Store)
    (configurationFile : Option String) (digest : Option String) (report : Report) : Prop
  /-- It fails and leaves everything as it was, which is the settings' fault unless a
  digest was given. -/
  | failed {failure : Failure} (fails : report.result = .error failure)
      (unchanged : report.left.lasting = (tree, store, []))
      (fault : digest = none →
        loadConfiguration session tree configurationFile = .error failure)
  /-- The targets are updated. -/
  | updated {targets : List (Digest × Timestamp)}
      (targeted : updateTargets store digest = .ok targets)
      (succeeds : report.result = .ok ())
      (updated : Updated session.transport tree store targets (visits session.transport 0 targets)
        report.left)

/-- An update changes the entries of timestamps of which it completes something, or
fails and changes nothing. -/
theorem update_effect (session : Session) (tree : FileTree) {store : Store}
    (faithful : store.Faithful) (configurationFile : Option String) (digest : Option String) :
    UpdateOutcome session tree store configurationFile digest
      (run session tree store configurationFile (.update digest)) := by
  cases htargets : updateTargets store digest with
  | error failure =>
    rw [run_update_of_untargeted session tree store htargets]
    refine .failed rfl rfl ?_
    rintro rfl
    rw [updateTargets_none faithful] at htargets
    cases htargets
  | ok targets =>
    cases hconfiguration : loadConfiguration session tree configurationFile with
    | error failure =>
      rw [run_update_of_unsettled session tree store htargets hconfiguration]
      exact .failed rfl rfl fun _ => hconfiguration
    | ok configuration =>
      rw [run_update_of_ok session tree store htargets hconfiguration rfl]
      exact .updated htargets rfl
        ((areTargets_updateTargets faithful htargets).updated faithful rfl rfl rfl rfl)

/-! ## Stores that were filled -/

/-- On any store that was filled by saving and importing, with any settings and
whatever the calendars reply, stamping either fails without an attestation and
changes nothing or writes a single entry under the digest that it posted to every
calendar; and an update, of one timestamp or of all, keeps the digests as they are,
changes an entry only when one of its attestations was completed, and then in
nothing but attestations that waited, and reports how many entries these are. -/
theorem commands_keep_records (session : Session) (tree : FileTree)
    (configurationFile : Option String) (deposits : List Store.Deposit)
    (fits : ∀ timestamp ∈ Store.brought deposits, timestamp.toBytes.length < Varint.limit) :
    (∀ (file : String) (source : Option String) (calendars : List String),
        StampOutcome session tree (Store.empty.after deposits) configurationFile file source
          calendars
          (run session tree (Store.empty.after deposits) configurationFile
            (.stamp file source calendars))) ∧
      ∀ digest : Option String,
        UpdateOutcome session tree (Store.empty.after deposits) configurationFile digest
          (run session tree (Store.empty.after deposits) configurationFile (.update digest)) := by
  constructor
  · intro file source calendars
    exact stamp_effect session tree _ configurationFile file source calendars
  · intro digest
    exact update_effect session tree (Store.faithful_after fits) configurationFile digest

/-- A store with a promise in one timestamp and nothing that waits in the other. -/
def filled : List Store.Deposit :=
  [.save Timestamp.loaded, .importBytes [0x09], .save Timestamp.oddities]

/-- Calendars that promise an attestation for each digest and keep each promise, each
after a second. -/
def helpful : Session :=
  { calendarList := none
    now := 7
    clock := ⟨fun reading => 8 + reading.toUInt32⟩
    nonce := ⟨List.replicate 16 0, rfl⟩
    transport := fun _ request =>
      match request.method with
      | .post => .ok (Timestamp.promise 0x61)
      | .get => .ok Timestamp.anchorage }

/-- A single file. -/
def desk : FileTree :=
  (FileTree.fresh []).setContent ["report"] [0x2a]

/-- A file is stamped into the filled store, and one of the timestamps in it is
completed. -/
theorem commands_keep_records_filled :
    (∀ timestamp ∈ Store.brought filled, timestamp.toBytes.length < Varint.limit) ∧
      (∃ (timestamp stamped : Timestamp) (report : Report),
        report = run helpful desk (Store.empty.after filled) none
            (.stamp "/report" none ["https://a"]) ∧
          report.result = .ok () ∧
          timestamp.attestations.length < stamped.attestations.length ∧
          report.left.store.entriesAt report.left.saved =
            [(timestamp.digestHash.bytes, stamped.toBytes)]) ∧
      ∃ (targets : List (Digest × Timestamp)) (report : Report),
        report = run helpful desk (Store.empty.after filled) none (.update none) ∧
          report.result = .ok () ∧
          report.left.store.keys = (Store.empty.after filled).keys ∧
          report.left.output = lines ((visits helpful.transport 0 targets).map Visit.line ++
            ["Upgraded 1 timestamp(s)"]) := by
  have hfits : ∀ timestamp ∈ Store.brought filled, timestamp.toBytes.length < Varint.limit := by
    decide +kernel
  obtain ⟨hstamp, hupdate⟩ := commands_keep_records helpful desk none filled hfits
  refine ⟨hfits, ?_, ?_⟩
  · have hsucceeds : (run helpful desk (Store.empty.after filled) none
        (.stamp "/report" none ["https://a"])).result.isOk = true := by decide +kernel
    cases hstamp "/report" none ["https://a"] with
    | failed fails => simp [fails, Except.isOk, Except.toBool] at hsucceeds
    | kept prepared kept => exact ⟨_, _, _, rfl, kept.succeeds, kept.attached, kept.written⟩
  · have hcount : ((visits helpful.transport 0 (Store.empty.after filled).contents).countP
        fun visit => visit.updating.upgraded) = 1 := by decide +kernel
    cases hupdate none with
    | failed _ _ fault => cases fault rfl
    | updated targeted succeeds updated =>
      cases targeted.symm.trans (updateTargets_none (Store.faithful_after hfits))
      have houtput := updated.reported
      rw [hcount] at houtput
      exact ⟨_, _, rfl, succeeds, updated.keys, houtput⟩

end CommandLine

end CalendarStamp
