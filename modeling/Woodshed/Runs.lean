import Woodshed.Journal

/-! Runs of a store: every proper request keeps it in agreement with its journal, and a store that
agrees with a journal shows it. -/
namespace Woodshed
open Framing

section
variable [Crates]

/-- Opening a clean directory of ascending entries gives a store to read from, whose index has all
checkpoints. -/
theorem Clean.readable {d : Dir} {es : List Entry} {st : StoreState} {log : SegmentId → List Entry}
    {active : SegmentEntry} (h : Clean d es st log active) (ho : Ordered st log) (cfg : StoreCfg) :
    ∃ s, Store.openStore cfg (calm d) = .ok s (calm d) ∧ Readable s d es log active ∧
      s.cfg = cfg ∧ s.state = st ∧ s.index = indexOf st log ∧ s.activeCursor.buf = ⟨[]⟩ ∧
      s.rolloverPending = false := by
  obtain ⟨s, hopen, hrun, hcfg, hst, hindex, hbuf, hpend, _⟩ := h.openStore cfg
  have hfull : ∀ seg ∈ st.segments, seg ≠ active → log seg.id ≠ [] := by
    intro seg hseg hne hnil
    obtain ⟨_, e, _, he, _⟩ := h.sealsOk.full h.shaped hseg hne
    rw [hnil] at he
    cases he
  subst hst
  refine ⟨s, hopen, ⟨hrun, h.whole, ho, ?_⟩, hcfg, rfl, hindex, hbuf, hpend⟩
  rw [hindex]
  exact indexOf_ok h.shaped ho.inside ho.across_ids hfull

/-- It is a session if only the first segment of all can be without entries. -/
theorem Clean.session {d : Dir} {es : List Entry} {st : StoreState} {log : SegmentId → List Entry}
    {active : SegmentEntry} (h : Clean d es st log active) (ho : Ordered st log)
    (hstart : log active.id = [] → st.segments = [active] ∧ active.firstEntry = ⟨0⟩)
    (cfg : StoreCfg) :
    ∃ s, Store.openStore cfg (calm d) = .ok s (calm d) ∧ Session s d es log active ∧
      s.cfg = cfg ∧ s.state = st ∧ s.index = indexOf st log ∧ s.rolloverPending = false := by
  obtain ⟨s, hopen, hread, hcfg, hst, hindex, hbuf, hpend⟩ := h.readable ho cfg
  subst hst
  exact ⟨s, hopen, ⟨hread.toRunning, hread.whole, ho, hread.index, hbuf, hstart⟩, hcfg, rfl, hindex,
    hpend⟩

theorem Session.reopen {s : Store} {d : Dir} {es : List Entry} {log : SegmentId → List Entry}
    {active : SegmentEntry} (h : Session s d es log active) (cfg : StoreCfg) :
    ∃ s', Store.openStore cfg (calm d) = .ok s' (calm d) ∧ Session s' d es log active ∧
      s'.cfg = cfg ∧ s'.state = s.state ∧ s'.index = indexOf s.state log ∧
      s'.rolloverPending = false :=
  h.clean.session h.ordered h.start cfg

/-- Creating a store starts a session without entries. -/
theorem Fresh.session {d : Dir} (h : Fresh d) (cfg : StoreCfg) :
    ∃ s, Store.openOrCreate cfg (calm d) = .ok s (calm d.formatted) ∧
      Session s d.formatted [opFrame creation] (fun _ => []) firstSegment ∧ s.cfg = cfg ∧
      s.state = firstState ∧ s.rolloverPending = false := by
  have hordered : Ordered firstState fun _ => [] := by
    refine ⟨fun _ _ => List.Pairwise.nil, ?_, ?_⟩
    · intro seg _ e he
      cases he
    · exact List.pairwise_singleton _ _
  obtain ⟨s, hopen, hsess, hcfg, hst, _, hpend⟩ :=
    (clean_formatted h).session hordered (fun _ => ⟨rfl, rfl⟩) cfg
  exact ⟨s, (openOrCreate_fresh h cfg).trans hopen, hsess, hcfg, hst, hpend⟩

/-! ### What a session shows -/

section
variable {s : Store} {d : Dir} {es : List Entry} {log : SegmentId → List Entry}
  {active : SegmentEntry}

/-- `last_entry_id()` is the last of the entries from the head on. -/
theorem Session.lastEntry (h : Session s d es log active) :
    s.lastEntry = (entriesFrom s.state.firstEntry (liveLog s.state log)).getLast?.map (·.1) := by
  have hasc := h.ordered.liveLog
  unfold Store.lastEntry
  rcases h.last with hl | ⟨hnil, hl⟩
  · rw [hl]
    rcases List.eq_nil_or_concat (liveLog s.state log) with hnil | ⟨front, last, hlog⟩
    · rw [hnil]
      rfl
    · rw [List.concat_eq_append] at hlog
      rw [hlog] at hasc ⊢
      rw [List.getLast?_concat, Option.map_some, Option.bind_some]
      by_cases hlt : last.1 < s.state.firstEntry
      · -- then all entries are before the head
        have hall := (last_lt_iff hasc s.state.firstEntry).mp (by
          intro e he
          rw [List.getLast?_concat] at he
          cases he
          exact hlt)
        rw [if_pos hlt, (entriesFrom_eq_nil _ _).mpr hall]
        rfl
      · have hself : entriesFrom s.state.firstEntry [last] = [last] :=
          (entriesFrom_eq_self _ _).mpr (by simpa using hlt)
        rw [if_neg hlt, entriesFrom_append, hself, List.getLast?_concat]
        rfl
  · rw [hnil]
    cases hid : s.lastEntryId with
    | none => rfl
    | some x => simp [hl x hid, entriesFrom]

omit [Crates] in
theorem entriesFrom_entriesFrom {a b : EntryId} (h : a ≤ b) (xs : List Entry) :
    entriesFrom b (entriesFrom a xs) = entriesFrom b xs := by
  rw [entriesFrom, entriesFrom, entriesFrom, List.filter_filter]
  apply List.filter_congr
  intro e _
  rw [Bool.eq_iff_iff]
  simp only [Bool.and_eq_true, decide_eq_true_eq, and_iff_left_iff_imp]
  exact fun hb => h.trans hb

end

theorem Agrees.showsJournal {m : Machine} {j : Journal} {d : Dir} {es : List Entry}
    {log : SegmentId → List Entry} {active : SegmentEntry} (h : Agrees m j d es log active) :
    Shows m j := by
  obtain ⟨s, w⟩ := m
  obtain rfl : w = calm d := h.world
  have hs := h.session
  have hhead : s.state.firstEntry = j.head := h.head
  have hvisible : entriesFrom j.head (liveLog s.state log) = j.visible := h.visible
  refine ⟨hhead, ?_, ?_, h.metadata, ?_, ?_⟩
  · rw [hs.lastEntry, hhead, hvisible]
    rfl
  · have hyields := hs.readable.yields_head h.headed
    rw [hhead, hvisible] at hyields
    change Machine.Yields _ s.state.firstEntry _
    rw [hhead]
    exact hyields
  · refine ⟨survey d, scan_calm d, ?_⟩
    rw [hs.clean.layout.survey_eq]
    exact hs.clean.issues
  · intro cfg
    obtain ⟨s', hopen, hs', _, hst, hindex, _⟩ := hs.reopen cfg
    refine ⟨s', hopen, fun fromId => ?_⟩
    -- the index that opening builds covers every id
    have hge : s'.state.firstEntry ≤ max fromId s'.state.firstEntry := le_max_right _ _
    have hcov := covered_indexOf s'.state log hs'.ordered.inside (max fromId s'.state.firstEntry)
    rw [← hst] at hindex
    rw [← hindex] at hcov
    have hyields := (hs'.readable.yields_iff hge).mpr (Or.inr hcov)
    rw [hst, hhead] at hyields
    have hall : entriesFrom (max fromId j.head) (liveLog s.state log) =
        entriesFrom (max fromId j.head) j.written := by
      have hle : j.head ≤ max fromId j.head := le_max_right _ _
      rw [← entriesFrom_entriesFrom hle (liveLog s.state log), hvisible, Journal.visible,
        entriesFrom_entriesFrom hle]
    rw [hall] at hyields
    refine (Machine.yields_max ⟨s', calm d⟩ fromId _).mp ?_
    change Machine.Yields _ (max fromId s'.state.firstEntry) _
    rw [hst, hhead]
    exact hyields

/-! ### Requests -/

/-- Every proper request whose op can be recorded does what the journal does, and keeps the two in
agreement. -/
theorem Agrees.request {m : Machine} {j : Journal} {d : Dir} {es : List Entry}
    {log : SegmentId → List Entry} {active : SegmentEntry} (h : Agrees m j d es log active)
    (r : Request) (hr : r.Proper m j) (hp : r.Recordable m) :
    (r.perform m).1 = j.outcome r ∧
      ∃ d' es' log' active', Agrees (r.perform m).2 (j.after r) d' es' log' active' := by
  obtain ⟨s, w⟩ := m
  obtain rfl : w = calm d := h.world
  have hs := h.session
  have hhead : s.state.firstEntry = j.head := h.head
  have hmeta : s.state.metaPairs = j.metaPairs := h.metadata
  have hheaded : Headed s.state log := h.headed
  have hvisible : entriesFrom j.head (liveLog s.state log) = j.visible := h.visible
  have hlive : ∀ e ∈ liveLog s.state log, e ∈ j.written := h.live
  cases r with
  | batch xs =>
    obtain ⟨hasc, hfit, hge, hnew, hroom⟩ := hr
    by_cases hne : xs = []
    · subst hne
      have hafter : j.after (.batch []) = j := by simp [Journal.after]
      have hrun : Request.perform ⟨s, calm d⟩ (.batch []) = (.done, ⟨s, calm d⟩) := by
        rw [Request.perform, outcomeOf, hs.batch_nil]
      rw [hrun, hafter]
      exact ⟨rfl, d, es, log, active, h⟩
    · obtain ⟨s', d', es', log', active', hrun, hs', hlog, hfirst, hpairs, _, _, hkeep⟩ :=
        hs.batch hne hfit hasc (fun f hf e he => hnew f (hlive f hf) e he) (hroom hne)
      have hperform : Request.perform ⟨s, calm d⟩ (.batch xs) = (.done, ⟨s', calm d'⟩) := by
        rw [Request.perform, outcomeOf, hrun]
      rw [hperform]
      refine ⟨rfl, d', es', log', active', rfl, hs', hfirst.trans hhead, hpairs.trans hmeta,
        hkeep hheaded (by rw [hhead]; exact hge), ?_, ?_⟩
      · change entriesFrom j.head (liveLog s'.state log') = entriesFrom j.head (j.written ++ xs)
        rw [hlog, entriesFrom_append, hvisible, entriesFrom_append]
        rfl
      · intro e he
        change e ∈ liveLog s'.state log' at he
        rw [hlog] at he
        exact (List.mem_append.mp he).elim (fun he => List.mem_append_left _ (hlive e he))
          (List.mem_append_right _)
  | truncateStart first metaPairs =>
    by_cases hlt : first < j.head
    · have hlt' : first < s.state.firstEntry := by rw [hhead]; exact hlt
      have hrun := Store.truncateStart_refused (m := ⟨s, calm d⟩) metaPairs hlt'
      have hafter : j.after (.truncateStart first metaPairs) = j := by
        rw [Journal.after, if_pos hlt]
      rw [Request.perform, outcomeOf, hrun, hafter, Journal.outcome, if_pos hlt]
      exact ⟨rfl, d, es, log, active, h⟩
    · have hge : s.state.firstEntry ≤ first := by rw [hhead]; exact not_lt.mp hlt
      have hfit : Fits (opFrame (headOp s.state first metaPairs)) := by
        refine hp _ ?_
        rw [Request.recorded, if_neg (not_lt.mpr hge)]
      obtain ⟨s', d', es', hrun, hs', hst, _, _, hfilter, hheaded'⟩ := hs.truncateStart hge hfit
      have hafter : j.after (.truncateStart first metaPairs) =
          { j with head := first
                   metaPairs := metaPairs.foldl StoreState.setMeta j.metaPairs } := by
        rw [Journal.after, if_neg hlt]
      rw [Request.perform, outcomeOf, hrun, hafter, Journal.outcome, if_neg hlt]
      refine ⟨rfl, d', es', log, active, rfl, hs', by rw [hst]; rfl, ?_, hheaded', ?_, ?_⟩
      · change s'.state.metaPairs = _
        rw [hst, ← hmeta]
        rfl
      · -- the entries from the new head on are the same in memory, on disk and in the journal
        have hle : j.head ≤ first := not_lt.mp hlt
        have hsame : entriesFrom first (liveLog s'.state log) =
            entriesFrom first (liveLog s.state log) :=
          hfilter _ fun e he => by simpa using he
        change entriesFrom first (liveLog s'.state log) = entriesFrom first j.written
        rw [hsame, ← entriesFrom_entriesFrom hle, hvisible, Journal.visible,
          entriesFrom_entriesFrom hle]
      · intro e he
        change e ∈ liveLog s'.state log at he
        rw [hst] at he
        obtain ⟨seg, hseg, he⟩ := List.mem_flatMap.mp he
        exact hlive e (List.mem_flatMap.mpr ⟨seg, mem_killed hseg, he⟩)
  | deleteDeadSegments =>
    obtain ⟨s', d', es', hrun, hs', _, _, hst⟩ := hs.deleteDeadSegments
    rw [Request.perform, outcomeOf, hrun]
    refine ⟨rfl, d', es', log, active, rfl, hs', ?_, ?_, ?_, ?_, ?_⟩
    all_goals simp only [hst]
    exacts [hhead, hmeta, hheaded, hvisible, hlive]
  | writeMetadata pairs =>
    have hfit : Fits (opFrame (ManifestOp.withMeta .metadata pairs)) := hp _ rfl
    obtain ⟨s', d', es', hrun, hs', _, _, hst⟩ := hs.writeMetadata hfit
    rw [Request.perform, outcomeOf, hrun]
    refine ⟨rfl, d', es', log, active, rfl, hs', ?_, ?_, ?_, ?_, ?_⟩
    all_goals simp only [hst]
    exacts [hhead, by rw [hmeta]; rfl, hheaded, hvisible, hlive]
  | reopen cfg =>
    obtain ⟨s', hopen, hs', _, hst, _, _⟩ := hs.reopen cfg
    have hperform : Request.perform ⟨s, calm d⟩ (.reopen cfg) = (.done, ⟨s', calm d⟩) := by
      rw [Request.perform, hopen]
    rw [hperform]
    refine ⟨rfl, d, es, log, active, rfl, hs', ?_, ?_, ?_, ?_, ?_⟩
    all_goals simp only [hst]
    exacts [hhead, hmeta, hheaded, hvisible, hlive]

/-- In a run whose ops can all be recorded, the store agrees with the journal. -/
theorem Reached.agrees {m : Machine} {j : Journal}
    (h : Reached (fun m r => r.Recordable m) m j) :
    ∃ d es log active, Agrees m j d es log active := by
  induction h with
  | opened hd hopen =>
    rename_i d cfg s w
    obtain ⟨s', hopen', hs, _, hst, _⟩ := hd.session cfg
    rw [hopen] at hopen'
    obtain ⟨rfl, rfl⟩ := EStateM.Result.ok.inj hopen'
    refine ⟨_, _, _, _, rfl, hs, ?_, ?_, ?_, ?_, ?_⟩
    all_goals simp only [hst]
    · rfl
    · rfl
    · intro seg _ e he
      cases he
    · rfl
    · intro e he
      cases he
  | request r _ hr hp ih =>
    obtain ⟨d, es, log, active, h⟩ := ih
    exact (h.request r hr hp).2

/-- A store refines its journal: in every run it shows the journal it should have come to, and
takes every proper request the way the journal does. -/
theorem Reached.shows {m : Machine} {j : Journal} (h : Reached (fun m r => r.Recordable m) m j) :
    Shows m j ∧ ∀ r : Request, r.Proper m j → r.Recordable m → (r.perform m).1 = j.outcome r := by
  obtain ⟨d, es, log, active, h⟩ := h.agrees
  exact ⟨h.showsJournal, fun r hr hp => (h.request r hr hp).1⟩

end

section
attribute [local instance] sample

/-- An empty directory. -/
def blank : Dir := ⟨true, ∅⟩

theorem fresh_blank : Fresh blank :=
  ⟨rfl, by simp [blank], by simp [blank]⟩

/-- A store created in an empty directory. -/
def openedBlank (cfg : StoreCfg) : Option Machine :=
  match Store.openOrCreate cfg (calm blank) with
  | .ok s w => some ⟨s, w⟩
  | .error _ _ => none

/-- What proper requests lead to from an empty directory. -/
theorem reached_openedBlank {P : Machine → Request → Prop} (cfg : StoreCfg) (rs : List Request)
    (hP : ∀ r ∈ rs, ∀ m, P m r)
    (h : (openedBlank cfg).all (fun m => properRun m Journal.start rs) = true) :
    ∃ m, openedBlank cfg = some m ∧
      Reached P (performAll m rs) (rs.foldl Journal.after Journal.start) := by
  obtain ⟨s, hopen, _⟩ := fresh_blank.session cfg
  have hsome : openedBlank cfg = some ⟨s, calm blank.formatted⟩ := by rw [openedBlank, hopen]
  rw [hsome] at h
  exact ⟨_, hsome, (Reached.opened fresh_blank hopen).run rs hP h⟩

/-- A store is created, takes an entry, and shows it. -/
theorem Reached.shows_blank :
    ∃ s w, Store.openOrCreate ⟨0⟩ (calm blank) = .ok s w ∧
      Shows (Request.perform ⟨s, w⟩ (.batch [(⟨5⟩, [1, 2])])).2 ⟨⟨0⟩, [(⟨5⟩, [1, 2])], []⟩ := by
  obtain ⟨s, hopen, _, _, _, hpend⟩ := fresh_blank.session ⟨0⟩
  have hproper : (Request.batch [(⟨5⟩, [1, 2])]).Proper ⟨s, calm blank.formatted⟩ Journal.start := by
    refine ⟨by simp, by simp [Fits], fun _ _ => EntryId.zero_le _, by simp [Journal.start], ?_⟩
    intro _ hp
    rw [hpend] at hp
    cases hp
  have hreached : Reached (fun m r => r.Recordable m) _ _ :=
    (Reached.opened fresh_blank hopen).request _ hproper (fun op hop => by cases hop)
  exact ⟨s, _, hopen, hreached.shows.1⟩

/-- How long the op gets that records `n` zeros under a key. -/
theorem length_encode_zeros (n : ℕ) :
    (ManifestOp.withMeta .metadata [(0, List.replicate n 0)]).encode.length = 4*n+39 := by
  have hbuild (fs : List Field) : Crates.build fs = Sample.build fs := rfl
  simp only [ManifestOp.withMeta, ManifestOp.encode, Op.fields, metaField, hbuild, Sample.build,
    Sample.fieldBytes, Field.u8, List.map_cons, List.map_nil, List.flatMap_cons, List.flatMap_nil,
    List.length_append, List.length_cons, List.length_nil, Sample.length_flagged,
    BaseDigits.length_toBytes, List.length_replicate, List.cons_append, List.nil_append]
  omega

/-- The metadata of 4 GiB: the checksum of what its frame claims to hold is not the one of all. -/
theorem frameHead_huge {n : ℕ} (hn : n = 2^32) (rest : Bytes) :
    frameHead (frame (opFrame (ManifestOp.withMeta .metadata [(0, List.replicate n 0)])) ++ rest) =
      .corrupt := by
  have hlen := length_encode_zeros n
  set op := ManifestOp.withMeta .metadata [(0, List.replicate n 0)] with hop
  have hsplit := List.take_append_drop (op.encode.length%2^32) op.encode
  refine frameHead_wrapped (opFrame op) _ ?_
  change Sample.digest (be64 0 ++ op.encode.take (op.encode.length%2^32)) ≠
    Sample.digest (be64 0 ++ op.encode)
  have hne := Sample.digest_append_ne (be64 0 ++ op.encode.take (op.encode.length%2^32))
    (op.encode.drop (op.encode.length%2^32)) ?_ ?_
  · rwa [List.append_assoc, hsplit] at hne
  · intro hnil
    rw [List.drop_eq_nil_iff] at hnil
    omega
  · rw [List.append_assoc, hsplit, List.length_append, length_be64]
    omega

/-- After metadata of 4 GiB a store does not show its journal: the next open finds the manifest
corrupt. -/
theorem Reached.not_shows_huge : ¬ ∀ m j, Reached (fun _ _ => True) m j → Shows m j := by
  intro hall
  obtain ⟨n, hn⟩ : ∃ n, n = 2^32 := ⟨_, rfl⟩
  set op := ManifestOp.withMeta .metadata [(0, List.replicate n 0)] with hop
  obtain ⟨s, hopen, hs, _, _, _⟩ := fresh_blank.session ⟨0⟩
  have hreached : Reached (fun _ _ => True) _ _ :=
    (Reached.opened fresh_blank hopen).request (.writeMetadata [(0, List.replicate n 0)]) trivial
      trivial
  obtain ⟨report, hscan, hissues⟩ := (hall _ _ hreached).intact
  -- the op is appended behind the others, with a length field that is too short
  have hrun : Store.appendOp op "NoOp must always be valid" ⟨s, calm blank.formatted⟩ = _ :=
    hs.appendOp rfl _
  have hperform : (Request.perform ⟨s, calm blank.formatted⟩
      (.writeMetadata [(0, List.replicate n 0)])).2.world =
      calm (blank.formatted.appended (manifestEnd [opFrame creation]) op) := by
    rw [Request.perform, outcomeOf, Store.writeMetadata, hrun]
  rw [hperform, scan_calm] at hscan
  obtain rfl : report = _ := by
    cases hscan
    rfl
  have hbytes := Dir.bytes_appended hs.kept.recorded.manifest op
  rw [Grammar.encodeAll_append] at hbytes
  refine survey_corrupt ?_ hbytes hs.kept.recorded.fits ?_ hissues
  · exact (Dir.differs_appended _ _ _).present.trans hs.kept.present
  · rw [Grammar.encodeAll_cons, frames_encode]
    exact frameHead_huge hn _

end
end Woodshed
