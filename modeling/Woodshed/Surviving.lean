import Woodshed.Commands
import Woodshed.Mending
import Woodshed.Reopening
import Woodshed.Runs
import Woodshed.Suffix

/-! Head truncation and clean-up through crashes: a crash between any two steps leaves a directory
that opens without approval, to the journal before or after. -/
namespace Woodshed
open Sequencing Framing

section
variable [Crates]

/-! ### Steps -/

/-- Run steps one after the other, up to the first that fails. -/
def runSteps : List (StoreM Unit) → Machine → Machine
  | [], m => m
  | step :: steps, m =>
    match step m with
    | .ok _ m' => runSteps steps m'
    | .error _ m' => m'

/-- What `delete_dead_segments` does to the directory, for the dead segments in the order `ids`. -/
def deleteSteps (ids : List SegmentId) : List (StoreM Unit) :=
  ids.flatMap fun id => [fs (deleteSegment id),
    Store.appendOp (ManifestOp.bare (.segmentDeleted id))
      "SegmentDeleted on a dead segment must be valid"]

/-- What `truncate_start` and `delete_dead_segments` do: the append of a frame is one step. -/
def trimSteps (first : EntryId) (metaPairs : Meta) (ids : List SegmentId) : List (StoreM Unit) :=
  Store.truncateStart first metaPairs :: deleteSteps ids

theorem deleteSteps_cons (id : SegmentId) (ids : List SegmentId) :
    deleteSteps (id :: ids) = fs (deleteSegment id) ::
      Store.appendOp (ManifestOp.bare (.segmentDeleted id))
        "SegmentDeleted on a dead segment must be valid" :: deleteSteps ids := rfl

omit [Crates] in
theorem runSteps_ok {step : StoreM Unit} {m m' : Machine} (h : step m = .ok ⟨⟩ m')
    (steps : List (StoreM Unit)) : runSteps (step :: steps) m = runSteps steps m' := by
  rw [runSteps, h]

omit [Crates] in
theorem runSteps_error {step : StoreM Unit} {m m' : Machine} {e : Failure IoError}
    (h : step m = .error e m') (steps : List (StoreM Unit)) :
    runSteps (step :: steps) m = m' := by
  rw [runSteps, h]

/-- The steps are those of the loop. -/
theorem runSteps_deleteSteps (ids : List SegmentId) (m : Machine) :
    runSteps (deleteSteps ids) m = (outcomeOf (forM ids Store.deleteDead) m).2 := by
  induction ids generalizing m with
  | nil => rfl
  | cons id ids ih =>
    rw [deleteSteps_cons, forM_cons]
    cases hd : fs (deleteSegment id) m with
    | error e m₁ =>
      have hdead : Store.deleteDead id m = .error e m₁ := bind_error hd
      rw [runSteps_error hd, outcomeOf_error (bind_error hdead)]
    | ok _ m₁ =>
      rw [runSteps_ok hd]
      cases ha : Store.appendOp (ManifestOp.bare (.segmentDeleted id))
          "SegmentDeleted on a dead segment must be valid" m₁ with
      | error e m₂ =>
        have hdead : Store.deleteDead id m = .error e m₂ := (bind_ok hd).trans ha
        rw [runSteps_error ha, outcomeOf_error (bind_error hdead)]
      | ok _ m₂ =>
        have hdead : Store.deleteDead id m = .ok ⟨⟩ m₂ := (bind_ok hd).trans ha
        have hrest : (forM (id :: ids) Store.deleteDead : StoreM PUnit) m =
            (forM ids Store.deleteDead) m₂ := by
          rw [forM_cons, bind_ok hdead]
        rw [runSteps_ok ha, ih, outcomeOf, outcomeOf, ← forM_cons, hrest]

/-- All steps together are the two calls. -/
theorem runSteps_trimSteps (first : EntryId) (metaPairs : Meta) (ids : List SegmentId)
    {m m' : Machine} (h : Store.truncateStart first metaPairs m = .ok ⟨⟩ m') :
    runSteps (trimSteps first metaPairs ids) m = (outcomeOf (forM ids Store.deleteDead) m').2 := by
  rw [trimSteps, runSteps_ok h, runSteps_deleteSteps]

/-! ### Crashes -/

section
variable {s : Store} {d : Dir} {es : List Entry} {log : SegmentId → List Entry}
  {active : SegmentEntry}

/-- Wherever a clean-up stops, nothing is lost but dead files. -/
theorem Session.deleteSteps (ids : List SegmentId) (h : Session s d es log active) (hnd : ids.Nodup)
    (hin : ∀ id ∈ ids, id ∈ s.state.dead) (k : ℕ) :
    ∃ s' d' es', runSteps ((Woodshed.deleteSteps ids).take k) ⟨s, calm d⟩ = ⟨s', calm d'⟩ ∧
      Nearly d' es' s'.state log active ∧ s'.state = { s.state with dead := s'.state.dead } ∧
      ∀ seg ∈ s.state.segments, d'.bytes (segmentPath seg.id) = d.bytes (segmentPath seg.id) := by
  induction ids generalizing s d es k with
  | nil => exact ⟨s, d, es, by rw [show Woodshed.deleteSteps [] = [] from rfl, List.take_nil]; rfl,
      h.clean.nearly, rfl, fun _ _ => rfl⟩
  | cons id ids ih =>
    obtain ⟨hnot, hnd⟩ := List.nodup_cons.mp hnd
    have hid := hin id (by simp)
    have hremove : deleteSegment id (calm d) = .ok () (calm (d.remove (segmentPath id))) := by
      unfold deleteSegment
      rw [bind_ok (attempt_ok (File.remove_calm d _ (h.kept.filed.found id hid)))]
      rfl
    have hfirst : fs (deleteSegment id) ⟨s, calm d⟩ =
        .ok ⟨⟩ ⟨s, calm (d.remove (segmentPath id))⟩ := fs_ok hremove
    have hlive : ∀ seg ∈ s.state.segments, (d.remove (segmentPath id)).bytes (segmentPath seg.id) =
        d.bytes (segmentPath seg.id) := by
      intro seg hseg
      rw [Dir.bytes_remove, if_neg]
      intro heq
      have hl := h.kept.shaped.dead id hid
      rw [← segmentPath_injective heq, lists_of_mem hseg] at hl
      cases hl
    rw [deleteSteps_cons]
    match k with
    | 0 => exact ⟨s, d, es, rfl, h.clean.nearly, rfl, fun _ _ => rfl⟩
    | 1 =>
      refine ⟨s, d.remove (segmentPath id), es, ?_, h.clean.nearly.remove hid, rfl, hlive⟩
      rw [List.take_succ_cons, runSteps_ok hfirst]
      rfl
    | k+2 =>
      -- the file is removed and this is recorded: the store is as if it had begun with the others
      obtain ⟨s₁, d₁, es₁, hrun, h₁, _, _, hst⟩ := h.deleteDead hid
      have hrecord : Store.appendOp (ManifestOp.bare (.segmentDeleted id))
          "SegmentDeleted on a dead segment must be valid"
          ⟨s, calm (d.remove (segmentPath id))⟩ = .ok ⟨⟩ ⟨s₁, calm d₁⟩ := by
        rw [← hrun, Store.deleteDead, bind_ok hfirst]
      have hbytes : ∀ seg ∈ s.state.segments,
          d₁.bytes (segmentPath seg.id) = d.bytes (segmentPath seg.id) := by
        intro seg hseg
        have hseg₁ : seg ∈ s₁.state.segments := by rw [hst]; exact hseg
        rw [h₁.kept.holds seg hseg₁, h.kept.holds seg hseg]
      have hin₁ : ∀ other ∈ ids, other ∈ s₁.state.dead := by
        intro other ho
        rw [hst]
        refine Finset.mem_erase.mpr ⟨?_, hin other (by simp [ho])⟩
        rintro rfl
        exact hnot ho
      obtain ⟨s', d', es', hsteps, hnearly, hst', hbytes'⟩ := ih h₁ hnd hin₁ k
      refine ⟨s', d', es', ?_, hnearly, ?_, ?_⟩
      · rw [List.take_succ_cons, List.take_succ_cons, runSteps_ok hfirst, runSteps_ok hrecord, hsteps]
      · rw [hst', hst]
      · intro seg hseg
        rw [hbytes' seg (by rw [hst]; exact hseg), hbytes seg hseg]

end

/-- An open of what a crash leaves of a store. -/
theorem Agrees.opened {m : Machine} {j : Journal} {d : Dir} {es : List Entry}
    {log : SegmentId → List Entry} {active : SegmentEntry} (h : Agrees m j d es log active)
    {d₁ : Dir} {es₁ : List Entry} {st₁ : StoreState} (hl : Littered d₁ es₁ st₁ log active)
    (hst₁ : st₁ = { m.store.state with dead := st₁.dead }) (cfg : StoreCfg) :
    ∃ s' d' es', Store.openStore cfg (calm d₁) = .ok s' (calm d') ∧
      Agrees ⟨s', calm d'⟩ j d' es' log active ∧ s'.state.segments = m.store.state.segments := by
  obtain ⟨s, w⟩ := m
  have hs := h.session
  obtain ⟨s', d', es', hopen, hclean, hst', _, s'', hopen', rfl⟩ := hl.openStore cfg
  have hsegs : s''.state.segments = s.state.segments := by rw [hst', hst₁]
  have hordered : Ordered s''.state log := by
    refine ⟨?_, ?_, ?_⟩
    · exact fun seg hseg => hs.ordered.inside seg (hsegs ▸ hseg)
    · exact fun seg hseg => hs.ordered.first seg (hsegs ▸ hseg)
    · rw [hsegs]
      exact hs.ordered.across
  obtain ⟨s₂, hopen₂, hsess, _⟩ := hclean.session hordered (by rw [hsegs]; exact hs.start) cfg
  obtain rfl : s'' = s₂ := by
    rw [hopen'] at hopen₂
    cases hopen₂
    rfl
  have hhead : s''.state.firstEntry = s.state.firstEntry := by rw [hst', hst₁]
  have hmeta : s''.state.metaPairs = s.state.metaPairs := by rw [hst', hst₁]
  have hlog : liveLog s''.state log = liveLog s.state log := by rw [liveLog, hsegs, liveLog]
  refine ⟨s'', d', es', hopen, ⟨rfl, hsess, hhead.trans h.head, hmeta.trans h.metadata, ?_, ?_, ?_⟩,
    hsegs⟩
  · change ∀ seg ∈ s''.state.segments.tail, _
    rw [hsegs]
    intro seg hseg e he
    rw [hhead]
    exact h.headed seg hseg e he
  · change entriesFrom j.head (liveLog s''.state log) = _
    rw [hlog]
    exact h.visible
  · change ∀ e ∈ liveLog s''.state log, _
    rw [hlog]
    exact h.live

/-- A crash in a clean-up, and an open. -/
theorem Agrees.crash {m : Machine} {j : Journal} {d : Dir} {es : List Entry}
    {log : SegmentId → List Entry} {active : SegmentEntry} (h : Agrees m j d es log active)
    {ids : List SegmentId} (hnd : ids.Nodup) (hin : ∀ id ∈ ids, id ∈ m.store.state.dead) (k : ℕ)
    (cfg : StoreCfg) :
    ∃ s' d' es', Store.openStore cfg (runSteps ((deleteSteps ids).take k) m).world =
        .ok s' (calm d') ∧ Agrees ⟨s', calm d'⟩ j d' es' log active ∧
      s'.state.segments = m.store.state.segments ∧
      ∀ seg ∈ m.store.state.segments,
        (runSteps ((deleteSteps ids).take k) m).world.dir.bytes (segmentPath seg.id) =
          m.world.dir.bytes (segmentPath seg.id) := by
  obtain ⟨s, w⟩ := m
  obtain rfl : w = calm d := h.world
  obtain ⟨s₁, d₁, es₁, hsteps, hnearly, hst₁, hbytes⟩ := h.session.deleteSteps ids hnd hin k
  obtain ⟨s', d', es', hopen, hagrees, hsegs⟩ := h.opened hnearly.littered hst₁ cfg
  rw [hsteps]
  exact ⟨s', d', es', hopen, hagrees, hsegs, hbytes⟩

/-- A session is upright. -/
theorem Session.upright {s : Store} {d : Dir} {es : List Entry} {log : SegmentId → List Entry}
    {active : SegmentEntry} (h : Session s d es log active) : Upright s d active := by
  refine ⟨h.kept.present, h.kept.shaped, fun seg hseg => (h.kept.holds.hasSegment hseg).1,
    h.kept.filed, ?_, h.activeId, h.idle, ?_, ?_⟩
  · rw [h.manifestCursor]
  · rw [h.position, (h.kept.holds.hasSegment h.kept.shaped.mem).2, segmentEnd, List.length_append]
    rfl
  · intro x hx c hc
    obtain ⟨before, e, _, _, rfl⟩ := h.index.marks x hx c hc
    exact Nat.le_add_right _ _

/-! ### Runs with crashes -/

/-- What runs lead to whose clean-ups may stop anywhere, with an open after each crash. -/
inductive Endured (P : Machine → Request → Prop) : Machine → Journal → Prop
  | opened {d : Dir} {cfg : StoreCfg} {s : Store} {w : World} (hd : Fresh d)
      (h : Store.openOrCreate cfg (calm d) = .ok s w) : Endured P ⟨s, w⟩ Journal.start
  | request {m : Machine} {j : Journal} (r : Request) (h : Endured P m j) (hr : r.Proper m j)
      (hp : P m r) : Endured P (r.perform m).2 (j.after r)
  | crashed {m : Machine} {j : Journal} {s : Store} {w : World} (h : Endured P m j)
      (ids : List SegmentId) (hnd : ids.Nodup) (hids : ∀ id, id ∈ ids ↔ id ∈ m.store.state.dead)
      (k : ℕ) (cfg : StoreCfg)
      (hopen : Store.openStore cfg (runSteps ((deleteSteps ids).take k) m).world = .ok s w) :
      Endured P ⟨s, w⟩ j

/-- A run without crashes. -/
theorem Reached.endured {P : Machine → Request → Prop} {m : Machine} {j : Journal}
    (h : Reached P m j) : Endured P m j := by
  induction h with
  | opened hd hopen => exact .opened hd hopen
  | request r _ hr hp ih => exact ih.request r hr hp

theorem Endured.agrees {m : Machine} {j : Journal} (h : Endured (fun m r => r.Recordable m) m j) :
    ∃ d es log active, Agrees m j d es log active := by
  induction h with
  | opened hd hopen => exact (Reached.opened hd hopen).agrees
  | request r _ hr hp ih =>
    obtain ⟨d, es, log, active, h⟩ := ih
    exact (h.request r hr hp).2
  | crashed _ ids hnd hids k cfg hopen ih =>
    obtain ⟨d, es, log, active, h⟩ := ih
    obtain ⟨s', d', es', hopen', h', _⟩ := h.crash hnd (fun id hid => (hids id).mp hid) k cfg
    rw [hopen] at hopen'
    cases hopen'
    exact ⟨d', es', log, active, h'⟩

/-- The entries that count are in the files of the live segments. -/
def Machine.Stores (m : Machine) (j : Journal) : Prop :=
  ∃ log : SegmentId → List Entry, (∀ seg ∈ m.store.state.segments,
    m.world.dir.bytes (segmentPath seg.id) = some (segmentMagic ++ frames.encodeAll (log seg.id))) ∧
    entriesFrom m.store.state.firstEntry (liveLog m.store.state log) = j.visible

/-- A clean-up leaves no dead segment, and removes the files of the dead ones only. -/
def Machine.CleansUp (m : Machine) : Prop :=
  ∃ n m', Store.deleteDeadSegments m = .ok n m' ∧ m'.store.state.dead = ∅ ∧
    ∀ name, name ∈ m'.world.dir.files ↔
      name ∈ m.world.dir.files ∧ ∀ id ∈ m.store.state.dead, name ≠ segmentPath id

/-- After `k` steps of a trim and an open without approval the store is there, before or after the
trim, and no file of a live segment has changed. -/
structure Survives (m : Machine) (j : Journal) (first : EntryId) (metaPairs : Meta)
    (ids : List SegmentId) (k : ℕ) (cfg : StoreCfg) (s : Store) (w : World) : Prop where
  opens : Store.openStore cfg (runSteps ((trimSteps first metaPairs ids).take k) m).world = .ok s w
  shows : Shows ⟨s, w⟩ (if k = 0 then j else j.after (.truncateStart first metaPairs))
  stores : Machine.Stores ⟨s, w⟩ (if k = 0 then j else j.after (.truncateStart first metaPairs))
  kept : ∀ seg ∈ s.state.segments,
    (runSteps ((trimSteps first metaPairs ids).take k) m).world.dir.bytes (segmentPath seg.id) =
      m.world.dir.bytes (segmentPath seg.id)
  cleansUp : Machine.CleansUp ⟨s, w⟩

theorem Agrees.stores {m : Machine} {j : Journal} {d : Dir} {es : List Entry}
    {log : SegmentId → List Entry} {active : SegmentEntry} (h : Agrees m j d es log active) :
    m.Stores j := by
  refine ⟨log, ?_, ?_⟩
  · intro seg hseg
    rw [h.world]
    exact h.session.kept.holds seg hseg
  · rw [h.head]
    exact h.visible

theorem Agrees.cleansUp {m : Machine} {j : Journal} {d : Dir} {es : List Entry}
    {log : SegmentId → List Entry} {active : SegmentEntry} (h : Agrees m j d es log active) :
    m.CleansUp := by
  obtain ⟨s, w⟩ := m
  obtain rfl : w = calm d := h.world
  obtain ⟨s', d', hrun, _, _, _, hst, _, hmem⟩ := h.session.upright.deleteDeadSegments
  exact ⟨_, _, hrun, by rw [hst], hmem⟩

/-- Head truncation and clean-up survive a crash between any two steps, any number of times. -/
theorem Endured.survives {m : Machine} {j : Journal}
    (h : Endured (fun m r => r.Recordable m) m j) {first : EntryId} {metaPairs : Meta}
    (hfirst : m.store.state.firstEntry ≤ first)
    (hrec : (Request.truncateStart first metaPairs).Recordable m) {ids : List SegmentId}
    (hnd : ids.Nodup) (hids : ∀ id, id ∈ ids ↔ id ∈ (advanced m.store.state first metaPairs).dead)
    (k : ℕ) (cfg : StoreCfg) : ∃ s w, Survives m j first metaPairs ids k cfg s w := by
  obtain ⟨d, es, log, active, ha⟩ := h.agrees
  obtain ⟨s, w⟩ := m
  obtain rfl : w = calm d := ha.world
  match k with
  | 0 =>
    -- nothing has happened yet
    obtain ⟨s', d', es', hopen, ha', _, hbytes⟩ := ha.crash List.nodup_nil (by simp) 0 cfg
    exact ⟨s', calm d', hopen, ha'.showsJournal, ha'.stores, fun _ _ => rfl, ha'.cleansUp⟩
  | k+1 =>
    have hfit : Fits (opFrame (headOp s.state first metaPairs)) := by
      refine hrec _ ?_
      rw [Request.recorded, if_neg (not_lt.mpr hfirst)]
    obtain ⟨s₁, d₁, _, hrun, hsess, hst, _⟩ := ha.session.truncateStart hfirst hfit
    have hperform : Request.perform ⟨s, calm d⟩ (.truncateStart first metaPairs) =
        (.done, ⟨s₁, calm d₁⟩) := outcomeOf_ok hrun
    obtain ⟨_, _, _, _, _, ha₁⟩ := ha.request (.truncateStart first metaPairs) trivial hrec
    rw [hperform] at ha₁
    have hin : ∀ id ∈ ids, id ∈ s₁.state.dead := by
      intro id hid
      rw [hst]
      exact (hids id).mp hid
    obtain ⟨s', d', es', hopen, ha', hsegs, hbytes⟩ := ha₁.crash hnd hin k cfg
    have hsteps : runSteps ((trimSteps first metaPairs ids).take (k+1)) ⟨s, calm d⟩ =
        runSteps ((deleteSteps ids).take k) ⟨s₁, calm d₁⟩ := by
      rw [trimSteps, List.take_succ_cons, runSteps_ok hrun]
    refine ⟨s', calm d', ?_, ha'.showsJournal, ha'.stores, ?_, ha'.cleansUp⟩
    · rw [hsteps]
      exact hopen
    · intro seg hseg
      rw [hsteps, hbytes seg (hsegs ▸ hseg)]
      have hseg₁ : seg ∈ s₁.state.segments := hsegs ▸ hseg
      have hlive : seg ∈ s.state.segments := by
        rw [hst] at hseg₁
        exact mem_killed hseg₁
      exact (hsess.kept.holds seg hseg₁).trans (ha.session.kept.holds seg hlive).symm

/-- Without approval no store with a corrupt manifest opens. -/
theorem openStore_corrupt {d : Dir} {es : List Entry} {xs : Bytes} (hp : d.present = true)
    (hm : d.bytes manifestFileName = some (manifestMagic ++ (frames.encodeAll es ++ xs)))
    (hf : ∀ e ∈ es, Fits e) (hc : frameHead xs = .corrupt) (cfg : StoreCfg) (s : Store) (w : World) :
    Store.openStore cfg (calm d) ≠ .ok s w := by
  intro hopen
  have hfix := fixable_of_isAuto (isAuto_of_openStore hopen)
  have hdec := decode_stop_corrupt hf hc
  unfold Fixable survey at hfix
  rw [hp, if_neg (by decide), hm] at hfix
  dsimp only at hfix
  rw [behindMagic_append _ _ rfl] at hfix
  dsimp only at hfix
  rw [surveyManifest, hdec, if_pos rfl] at hfix
  exact @not_fixable_last [] _ rfl hfix

end

section
attribute [local instance] sample

/-- Two segments are evicted, and the removal of the second file is never recorded. -/
theorem Endured.survives_rolling : ∃ m, openedBlank ⟨0⟩ = some m ∧ ∃ s w,
    Survives (performAll m rolling) (rolling.foldl Journal.after Journal.start) ⟨4⟩ [(7, [9])]
      [⟨2⟩, ⟨1⟩] 4 ⟨0⟩ s w := by
  have hproper : (openedBlank ⟨0⟩).all (fun m => properRun m Journal.start rolling) = true := by
    decide +kernel
  obtain ⟨m, hm, hreached⟩ := reached_openedBlank (P := fun m r => r.Recordable m) ⟨0⟩ rolling
    (by simp [rolling, Request.Recordable, Request.recorded]) hproper
  have hrun (p : Machine → Prop) [DecidablePred p]
      (h : (openedBlank ⟨0⟩).all (fun m => decide (p (performAll m rolling))) = true) :
      p (performAll m rolling) := by
    rw [hm] at h
    exact of_decide_eq_true h
  have hfirst := hrun (fun m => m.store.state.firstEntry ≤ ⟨4⟩) (by decide +kernel)
  have hlen := hrun (fun m => (headOp m.store.state ⟨4⟩ [(7, [9])]).encode.length < 2^32)
    (by decide +kernel)
  have hrec : (Request.truncateStart ⟨4⟩ [(7, [9])]).Recordable (performAll m rolling) := by
    intro op hop
    rw [Request.recorded, if_neg (not_lt.mpr hfirst)] at hop
    cases hop
    exact hlen
  have hids := hrun (fun m => ([⟨2⟩, ⟨1⟩] : List SegmentId).toFinset =
    (advanced m.store.state ⟨4⟩ [(7, [9])]).dead) (by decide +kernel)
  refine ⟨m, hm, hreached.endured.survives hfirst hrec (by decide) ?_ 4 ⟨0⟩⟩
  intro id
  rw [← hids, List.mem_toFinset]

/-- After metadata of 4 GiB a store does not open, so it survives no crash. -/
theorem Endured.not_survives_huge : ¬ ∀ m j, Endured (fun _ _ => True) m j →
    ∀ first metaPairs, m.store.state.firstEntry ≤ first → ∀ ids : List SegmentId, ids.Nodup →
      (∀ id, id ∈ ids ↔ id ∈ (advanced m.store.state first metaPairs).dead) → ∀ k cfg,
        ∃ s w, Survives m j first metaPairs ids k cfg s w := by
  intro hall
  obtain ⟨n, hn⟩ : ∃ n, n = 2^32 := ⟨_, rfl⟩
  set op := ManifestOp.withMeta .metadata [(0, List.replicate n 0)] with hop
  obtain ⟨s, hopen, hs, _⟩ := fresh_blank.session ⟨0⟩
  have hendured : Endured (fun _ _ => True) _ _ :=
    (Endured.opened fresh_blank hopen).request (.writeMetadata [(0, List.replicate n 0)]) trivial
      trivial
  have hrun : Store.appendOp op "NoOp must always be valid" ⟨s, calm blank.formatted⟩ = _ :=
    hs.appendOp rfl _
  have hworld : (Request.perform ⟨s, calm blank.formatted⟩
      (.writeMetadata [(0, List.replicate n 0)])).2.world =
      calm (blank.formatted.appended (manifestEnd [opFrame creation]) op) := by
    rw [Request.perform, outcomeOf, Store.writeMetadata, hrun]
  obtain ⟨s', w', hsurvives⟩ := hall _ _ hendured _ [] le_rfl _ (Finset.nodup_toList _)
    (fun _ => Finset.mem_toList) 0 ⟨0⟩
  have hreopen := hsurvives.opens
  rw [List.take_zero, runSteps, hworld] at hreopen
  have hbytes := Dir.bytes_appended hs.kept.recorded.manifest op
  rw [Grammar.encodeAll_append] at hbytes
  refine openStore_corrupt ?_ hbytes hs.kept.recorded.fits ?_ _ _ _ hreopen
  · exact (Dir.differs_appended _ _ _).present.trans hs.kept.present
  · rw [Grammar.encodeAll_cons, frames_encode]
    exact frameHead_huge hn _

end
end Woodshed
