import Woodshed.Standing

/-! Sealed segments: where they come from, that nothing touches their files any more, and how large
they are. -/
namespace Woodshed
open Sequencing Framing

section
variable [Crates]

/-- A pending rollover means that the active segment is over the trigger. -/
def Store.Due (s : Store) : Prop :=
  s.rolloverPending = true → s.cfg.segmentRolloverTriggerBytes < s.activeCursor.position

/-- What a step does to sealed segments: their files are as they were, and sealed is what had been
sealed before, or the active segment if the rollover was due. -/
structure Seals (s : Store) (d : Dir) (s' : Store) (d' : Dir) : Prop where
  bytes : ∀ seg ∈ s'.state.segments, (s'.state.seals seg.id).isSome = true →
    d'.bytes (segmentPath seg.id) = d.bytes (segmentPath seg.id)
  origin : ∀ seg ∈ s'.state.segments, ∀ info, s'.state.seals seg.id = some info →
    seg ∈ s.state.segments ∧ (s.state.seals seg.id = some info ∨
      s.rolloverPending = true ∧ seg.id = s.activeId ∧
        info.finalSize = UInt64.ofNat s.activeCursor.position)
  due : s.Due → s'.Due

section
variable {s s' : Store} {d d' : Dir} {active : SegmentEntry}

omit [Crates] in
/-- Nothing is sealed, and live segments keep their files. -/
theorem Seals.fewer (hsegs : ∀ seg ∈ s'.state.segments, seg ∈ s.state.segments)
    (hseals : ∀ seg ∈ s'.state.segments, ∀ info, s'.state.seals seg.id = some info →
      s.state.seals seg.id = some info ∧ d'.bytes (segmentPath seg.id) = d.bytes (segmentPath seg.id))
    (hdue : s.Due → s'.Due) : Seals s d s' d' := by
  refine ⟨fun seg hseg hsome => ?_, fun seg hseg info hi => ?_, hdue⟩
  · obtain ⟨info, hi⟩ := Option.isSome_iff_exists.mp hsome
    exact (hseals seg hseg info hi).2
  · exact ⟨hsegs seg hseg, Or.inl (hseals seg hseg info hi).1⟩

omit [Crates] in
theorem Seals.refl (s : Store) (d : Dir) : Seals s d s d :=
  Seals.fewer (fun _ hseg => hseg) (fun _ _ _ hi => ⟨hi, rfl⟩) id

/-- A rollover seals the active segment, with the size of its file. -/
theorem Upright.seals_rolled (h : Upright s d active) (hnew : segmentPath s.nextSegId ∉ d.files)
    (hp : s.rolloverPending = true) (first : EntryId) :
    Seals s d (s.rolled first) (d.rolled s first) := by
  obtain ⟨hup, _, hbytes⟩ := h.rolled hnew first
  have hold {seg : SegmentEntry} (hseg : seg ∈ (s.rolled first).state.segments)
      (hsome : ((s.rolled first).state.seals seg.id).isSome = true) : seg ∈ s.state.segments := by
    rcases List.mem_append.mp hseg with hseg | hseg
    · exact hseg
    · rw [List.mem_singleton.mp hseg, hup.shaped.unsealed] at hsome
      cases hsome
  refine ⟨fun seg hseg hsome => hbytes seg (hold hseg hsome), fun seg hseg info hi => ?_, ?_⟩
  · -- the only new seal is that of the segment that was active
    refine ⟨hold hseg (by rw [hi]; rfl), ?_⟩
    change Function.update s.state.seals s.activeId _ seg.id = some info at hi
    by_cases heq : seg.id = s.activeId
    · rw [heq, Function.update_self] at hi
      cases hi
      exact Or.inr ⟨hp, heq, rfl⟩
    · rw [Function.update_of_ne heq] at hi
      exact Or.inl hi
  · intro _ hpend
    cases hpend

/-- A flush goes to the active segment, and makes a rollover pending if that is over the trigger. -/
theorem Seals.flushed (hs : Seals s d s' d') (h : Upright s' d' active) (xs : List Entry)
    (last : EntryId) (count : ℕ) (hready : s'.rolloverPending = false) :
    Seals s d ((s'.buffered xs).flushed last count) (d'.flushed (s'.buffered xs)) := by
  have hact : (s'.buffered xs).activeId = active.id := h.activeId
  have hdiff : d'.Differs (d'.flushed (s'.buffered xs)) (segmentPath active.id) := by
    rw [Dir.flushed, hact]
    exact d'.differs_writeAt _ _ _
  refine ⟨fun seg hseg hsome => ?_, hs.origin, fun _ hpend => ?_⟩
  · -- the active segment, which is written to, has no seal
    change seg ∈ s'.state.segments at hseg
    change (s'.state.seals seg.id).isSome = true at hsome
    have hne : segmentPath seg.id ≠ segmentPath active.id := by
      intro heq
      rw [segmentPath_injective heq, h.shaped.unsealed] at hsome
      cases hsome
    rw [hdiff.bytes _ hne, hs.bytes seg hseg hsome]
  · -- no rollover is left over from before, so the trigger is passed now
    change (s'.rolloverPending || decide (_ > _)) = true at hpend
    rw [hready, Bool.false_or, decide_eq_true_eq] at hpend
    exact hpend

/-- The store behind a batch: a rollover if it is due, then a flush. -/
theorem Upright.batch_eq (h : Upright s d active) {xs : List Entry} {first last : Entry}
    (hfirst : xs.head? = some first) (hlast : xs.getLast? = some last)
    (hnew : s.rolloverPending = true → segmentPath s.nextSegId ∉ d.files) :
    ∃ c, Store.batch xs ⟨s, calm d⟩ =
      .ok c ⟨((s.readyFor first.1).buffered xs).flushed last.1 xs.length,
        calm ((d.readyFor s first.1).flushed ((s.readyFor first.1).buffered xs))⟩ := by
  obtain ⟨rest, hcons⟩ : ∃ rest, xs = first :: rest := by
    cases xs with
    | nil => cases hfirst
    | cons e rest =>
      cases hfirst
      exact ⟨rest, rfl⟩
  -- the write finds a store that is ready: the rollover that was due is done
  have hready : ∃ active', Upright (s.readyFor first.1) (d.readyFor s first.1) active' := by
    by_cases hp : s.rolloverPending = true
    · rw [show s.readyFor first.1 = s.rolled first.1 from if_pos hp,
        show d.readyFor s first.1 = d.rolled s first.1 from if_pos hp]
      exact ⟨_, (h.rolled (hnew hp) first.1).1⟩
    · rw [show s.readyFor first.1 = s from if_neg hp, show d.readyFor s first.1 = d from if_neg hp]
      exact ⟨active, h⟩
  obtain ⟨active', hup⟩ := hready
  have hbuffered := buffered_readyFor s xs first.1
  have hseg : HasSegment ((calm d).dir.readyFor (s.buffered xs) first.1)
      ((s.buffered xs).readyFor first.1).activeId := by
    rw [hbuffered]
    change HasSegment (d.readyFor s first.1) (s.readyFor first.1).activeId
    rw [hup.activeId]
    exact hup.files active' hup.shaped.mem
  have hwrite : StoreWriter.write ⟨some first.1, some last.1, xs.length⟩ ⟨s.buffered xs, calm d⟩ = _ :=
    StoreWriter.write_eq (steady_calm d) h.recorded h.present hnew h.activeState hseg
  refine ⟨some (s.readyFor first.1).activeId, ?_⟩
  rw [Store.batch, bind_ok (Store.pushAll_eq xs s (calm d)), writerOf_eq hcons hlast, hwrite]
  dsimp only
  rw [show (calm d).flushFails = false from rfl, if_neg Bool.false_ne_true, popped_calm, hbuffered]
  rfl

/-- An empty batch does nothing. -/
theorem Upright.batch_nil (h : Upright s d active) (w : World) :
    Store.batch [] ⟨s, w⟩ = .ok none ⟨s, w⟩ := by
  have hsame : s.buffered [] = s := by
    rw [Store.buffered, h.idle]
    obtain ⟨cfg, state, index, manifestCursor, segments, activeId, ⟨buf, position⟩, rest⟩ := s
    have hb : buf = ⟨[]⟩ := h.idle
    rw [hb]
    rfl
  rw [Store.batch, bind_ok (Store.pushAll_eq [] s w), hsame]
  rfl

theorem Upright.seals_batch (h : Upright s d active) (xs : List Entry)
    (hnew : s.rolloverPending = true → segmentPath s.nextSegId ∉ d.files) :
    ∃ s' d', (Command.perform ⟨s, calm d⟩ (.request (.batch xs))).2 = ⟨s', calm d'⟩ ∧
      Seals s d s' d' ∧ s'.cfg = s.cfg := by
  by_cases hne : xs = []
  · subst hne
    exact ⟨s, d, congrArg Prod.snd (outcomeOf_ok (h.batch_nil (calm d))), Seals.refl s d, rfl⟩
  · have hfirst := List.head?_eq_some_head hne
    have hlast := List.getLast?_eq_some_getLast hne
    set first := xs.head hne
    set last := xs.getLast hne
    obtain ⟨c, hrun⟩ := h.batch_eq hfirst hlast hnew
    refine ⟨_, _, congrArg Prod.snd (outcomeOf_ok hrun), ?_, ?_⟩
    -- `do_rollover` runs before the flush, so what is flushed goes to a segment without a seal
    · by_cases hp : s.rolloverPending = true
      · rw [show s.readyFor first.1 = s.rolled first.1 from if_pos hp,
          show d.readyFor s first.1 = d.rolled s first.1 from if_pos hp]
        exact (h.seals_rolled (hnew hp) hp first.1).flushed (h.rolled (hnew hp) first.1).1 xs
          last.1 xs.length rfl
      · rw [show s.readyFor first.1 = s from if_neg hp,
          show d.readyFor s first.1 = d from if_neg hp]
        exact (Seals.refl s d).flushed h xs last.1 xs.length (Bool.eq_false_of_not_eq_true hp)
    · change (s.readyFor first.1).cfg = s.cfg
      unfold Store.readyFor
      split <;> rfl

omit [Crates] in
/-- A segment that is not dropped keeps what is recorded of it. -/
theorem seals_killed {st : StoreState} {drop : List SegmentId} {id : SegmentId} {info : SealInfo}
    (h : (killed st drop).seals id = some info) : st.seals id = some info := by
  change (if id ∈ drop then none else st.seals id) = some info at h
  by_cases hin : id ∈ drop
  · rw [if_pos hin] at h
    cases h
  · rwa [if_neg hin] at h

theorem Dir.bytes_appended_segment (d : Dir) (pos : ℕ) (op : ManifestOp) (id : SegmentId) :
    (d.appended pos op).bytes (segmentPath id) = d.bytes (segmentPath id) :=
  (d.differs_appended pos op).bytes _ (segmentPath_ne_manifest id)

theorem Upright.seals_truncateStart (h : Upright s d active) (first : EntryId) (metaPairs : Meta) :
    ∃ s' d', (Command.perform ⟨s, calm d⟩ (.request (.truncateStart first metaPairs))).2 =
      ⟨s', calm d'⟩ ∧ Seals s d s' d' ∧ s'.cfg = s.cfg := by
  by_cases hlt : first < s.state.firstEntry
  · have hrun := Store.truncateStart_refused (m := ⟨s, calm d⟩) metaPairs hlt
    exact ⟨s, d, congrArg Prod.snd (outcomeOf_error hrun), Seals.refl s d, rfl⟩
  · obtain ⟨hrun, _⟩ := h.truncateStart metaPairs (not_lt.mp hlt)
    refine ⟨_, _, congrArg Prod.snd (outcomeOf_ok hrun), Seals.fewer ?_ ?_ id, rfl⟩
    · exact fun seg hseg => mem_killed hseg
    · exact fun seg _ info hi => ⟨seals_killed hi, d.bytes_appended_segment _ _ _⟩

theorem Upright.seals_deleteDeadSegments (h : Upright s d active) :
    ∃ s' d', (Command.perform ⟨s, calm d⟩ (.request .deleteDeadSegments)).2 = ⟨s', calm d'⟩ ∧
      Seals s d s' d' ∧ s'.cfg = s.cfg := by
  obtain ⟨s', d', hrun, _, _, hs', hst, hbytes, _⟩ := h.deleteDeadSegments
  have hsegs : s'.state.segments = s.state.segments := by rw [hst]
  have hseals : s'.state.seals = s.state.seals := by rw [hst]
  refine ⟨s', d', congrArg Prod.snd (outcomeOf_ok hrun), Seals.fewer ?_ ?_ ?_, by rw [hs']⟩
  · exact fun seg hseg => hsegs ▸ hseg
  · exact fun seg hseg info hi => ⟨hseals ▸ hi, hbytes seg (hsegs ▸ hseg)⟩
  · intro hdue
    rw [hs']
    exact hdue

theorem Upright.seals_writeMetadata (h : Upright s d active) (pairs : Meta) :
    ∃ s' d', (Command.perform ⟨s, calm d⟩ (.request (.writeMetadata pairs))).2 = ⟨s', calm d'⟩ ∧
      Seals s d s' d' ∧ s'.cfg = s.cfg := by
  have ha : StoreState.apply (ManifestOp.withMeta .metadata pairs) s.state =
      .ok ⟨⟩ { s.state with
        metaPairs := pairs.foldl StoreState.setMeta s.state.metaPairs } := rfl
  have hrun : Store.writeMetadata pairs ⟨s, calm d⟩ = _ := h.appendOp ha d _
  refine ⟨_, _, congrArg Prod.snd (outcomeOf_ok hrun), Seals.fewer ?_ ?_ id, rfl⟩
  · exact fun _ hseg => hseg
  · exact fun seg _ info hi => ⟨hi, d.bytes_appended_segment _ _ _⟩

theorem Upright.seals_truncateEnd (h : Upright s d active) (lastValid : EntryId) :
    ∃ s' d', (Command.perform ⟨s, calm d⟩ (.truncateEnd lastValid)).2 = ⟨s', calm d'⟩ ∧
      Seals s d s' d' ∧ s'.cfg = s.cfg := by
  rcases h.cases_truncateEnd lastValid with hrun | ⟨e, hrun⟩ | ⟨pre, target, post, off, hcut⟩
  · exact ⟨s, d, congrArg Prod.snd (outcomeOf_ok hrun), Seals.refl s d, rfl⟩
  · exact ⟨s, d, congrArg Prod.snd (outcomeOf_error hrun), Seals.refl s d, rfl⟩
  · obtain ⟨hrun, hup, _⟩ := h.cut hcut
    have hmem : target ∈ s.state.segments := by simp [hcut.split]
    refine ⟨_, _, congrArg Prod.snd (outcomeOf_ok hrun), Seals.fewer ?_ ?_ ?_, rfl⟩
    · exact fun seg hseg => mem_killed hseg
    · -- the segment that is cut is sealed no more
      intro seg hseg info hi
      have hne : seg ≠ target := by
        rintro rfl
        rw [hup.shaped.unsealed] at hi
        cases hi
      have hid : seg.id ≠ target.id := fun hid => hne (h.shaped.inj (mem_killed hseg) hmem hid)
      change Function.update (killed s.state (post.map (·.id))).seals target.id none seg.id =
        some info at hi
      rw [Function.update_of_ne hid] at hi
      exact ⟨seals_killed hi, h.bytes_uncut hmem _ _ _ (mem_killed hseg) hne⟩
    · -- a cut takes back the pending rollover
      intro _ hp
      cases hp

end

/-- What every call does to sealed segments. -/
theorem Standing.seals {s : Store} {d : Dir} {active : SegmentEntry} (h : Standing s d active)
    (c : Command) (hroom : c.Roomy ⟨s, calm d⟩) :
    ∃ s' d', (c.perform ⟨s, calm d⟩).2 = ⟨s', calm d'⟩ ∧ Seals s d s' d' ∧
      (s'.cfg = s.cfg ∨ c = .request (.reopen s'.cfg)) := by
  have hup := h.upright
  have hsame {s' : Store} {d' : Dir} : (c.perform ⟨s, calm d⟩).2 = ⟨s', calm d'⟩ ∧ Seals s d s' d' ∧
      s'.cfg = s.cfg → (c.perform ⟨s, calm d⟩).2 = ⟨s', calm d'⟩ ∧ Seals s d s' d' ∧
      (s'.cfg = s.cfg ∨ c = .request (.reopen s'.cfg)) :=
    fun ⟨hrun, hseals, hcfg⟩ => ⟨hrun, hseals, Or.inl hcfg⟩
  cases c with
  | truncateEnd lastValid =>
    obtain ⟨s', d', hall⟩ := hup.seals_truncateEnd lastValid
    exact ⟨s', d', hsame hall⟩
  | request r =>
    cases r with
    | batch xs =>
      obtain ⟨s', d', hall⟩ := hup.seals_batch xs fun _ => h.fresh
      exact ⟨s', d', hsame hall⟩
    | truncateStart first metaPairs =>
      obtain ⟨s', d', hall⟩ := hup.seals_truncateStart first metaPairs
      exact ⟨s', d', hsame hall⟩
    | deleteDeadSegments =>
      obtain ⟨s', d', hall⟩ := hup.seals_deleteDeadSegments
      exact ⟨s', d', hsame hall⟩
    | writeMetadata pairs =>
      obtain ⟨s', d', hall⟩ := hup.seals_writeMetadata pairs
      exact ⟨s', d', hsame hall⟩
    | reopen cfg =>
      obtain ⟨s', w', hopen, hperform⟩ := reopen_isDone hroom
      obtain ⟨es, hr⟩ := h.kempt.recorded hopen
      obtain ⟨d', es', rfl, hre⟩ := hup.reopen hr hopen
      obtain ⟨_, _, _, hlayout⟩ := layout_of_isAuto (isAuto_of_openStore hopen)
      obtain ⟨d'', _, _, _, _, ht, _, _, _, hopen'⟩ :=
        (hlayout.of_recorded hr).openStore_ok cfg hup.shaped.activeSegment
      rw [hopen] at hopen'
      obtain rfl : d' = d'' := congrArg World.dir (EStateM.Result.ok.inj hopen').2
      -- recovery only cuts segments without a seal, and creates none that is there
      refine ⟨s', d', congrArg Prod.snd hperform, Seals.fewer ?_ ?_ ?_, Or.inr (by rw [hre.cfg])⟩
      · exact fun seg hseg => hre.state ▸ hseg
      · intro seg hseg info hi
        rw [hre.state] at hseg hi
        refine ⟨hi, ht.files _ (segmentPath_ne_manifest _) ?_⟩
        rintro id hid _ hnone
        rw [← segmentPath_injective hid, hi] at hnone
        cases hnone
      · intro _ hp
        rw [hre.pending] at hp
        cases hp

/-! ### Runs -/

/-- A machine of a run. -/
def Machine.Stands (m : Machine) : Prop := ∃ s d active, m = ⟨s, calm d⟩ ∧ Standing s d active

theorem Follows.stands {d : Dir} (hd : Fresh d) {cfg : StoreCfg} {s : Store} {w : World}
    (hopen : Store.openOrCreate cfg (calm d) = .ok s w) {m : Machine}
    (hrun : Follows (fun m c => c.Roomy m ∧ c.Guarded m) ⟨s, w⟩ m) : m.Stands := by
  obtain ⟨d', rfl, h₀⟩ := hd.standing hopen
  refine hrun.invariant (I := Machine.Stands) ⟨s, d', firstSegment, rfl, h₀⟩ ?_
  rintro _ c ⟨s, d, active, rfl, h⟩ ⟨hroom, hguard⟩
  obtain ⟨_, s', d', active', hperform, _, h'⟩ := h.perform c hroom hguard
  exact ⟨s', d', active', congrArg Prod.snd hperform, h'⟩

/-- A store is only opened with a trigger of at least `T` bytes. -/
def Command.Triggers (T : ℕ) : Command → Prop
  | .request (.reopen cfg) => T ≤ cfg.segmentRolloverTriggerBytes
  | _ => True

instance (T : ℕ) (c : Command) : Decidable (c.Triggers T) :=
  match c with
  | .request (.reopen cfg) => inferInstanceAs (Decidable (T ≤ cfg.segmentRolloverTriggerBytes))
  | .request (.batch _) | .request (.truncateStart _ _) | .request .deleteDeadSegments
  | .request (.writeMetadata _) | .truncateEnd _ => inferInstanceAs (Decidable True)

/-- The sealed live segments are larger than `T` bytes, and the manifest has their sizes. -/
def Machine.Filled (T : ℕ) (m : Machine) : Prop :=
  ∀ seg ∈ m.store.state.segments, ∀ info, m.store.state.seals seg.id = some info →
    ∃ bytes, m.world.dir.bytes (segmentPath seg.id) = some bytes ∧ T < bytes.length ∧
      info.finalSize = UInt64.ofNat bytes.length

omit [Crates] in
theorem Seals.filled {s s' : Store} {d d' : Dir} {active : SegmentEntry} {T : ℕ}
    (hs : Seals s d s' d') (h : Upright s d active) (hdue : s.Due)
    (hT : T ≤ s.cfg.segmentRolloverTriggerBytes) (hf : Machine.Filled T ⟨s, calm d⟩) :
    Machine.Filled T ⟨s', calm d'⟩ := by
  intro seg hseg info hi
  have hbytes : d'.bytes (segmentPath seg.id) = d.bytes (segmentPath seg.id) :=
    hs.bytes seg hseg (by rw [show s'.state.seals seg.id = some info from hi]; rfl)
  obtain ⟨hmem, hold | ⟨hp, hid, hsize⟩⟩ := hs.origin seg hseg info hi
  · obtain ⟨bytes, hfile, hlt, hsize⟩ := hf seg hmem info hold
    exact ⟨bytes, hbytes.trans hfile, hlt, hsize⟩
  · -- the active segment was over the trigger
    have hact : seg = active := h.shaped.inj hmem h.shaped.mem (hid.trans h.activeId)
    subst hact
    have hpos := h.position
    refine ⟨segmentMagic ++ body d seg.id, hbytes.trans (h.files seg hmem), ?_, ?_⟩
    · rw [← hpos]
      exact hT.trans_lt (hdue hp)
    · rw [← hpos]
      exact hsize

/-- A store of a run, with what is due and the sizes of its sealed segments. -/
structure Sized (T : ℕ) (s : Store) (d : Dir) (active : SegmentEntry) : Prop where
  standing : Standing s d active
  trigger : T ≤ s.cfg.segmentRolloverTriggerBytes
  due : s.Due
  filled : Machine.Filled T ⟨s, calm d⟩

theorem Sized.perform {T : ℕ} {s : Store} {d : Dir} {active : SegmentEntry} (h : Sized T s d active)
    (c : Command) (hroom : c.Roomy ⟨s, calm d⟩) (hguard : c.Guarded ⟨s, calm d⟩)
    (htrigger : c.Triggers T) :
    ∃ s' d' active', (c.perform ⟨s, calm d⟩).2 = ⟨s', calm d'⟩ ∧ Sized T s' d' active' := by
  -- both lemmas speak of the one machine behind the call
  obtain ⟨_, s', d', active', hrun, _, hstanding⟩ := h.standing.perform c hroom hguard
  obtain ⟨s'', d'', hrun', hseals, hcfg⟩ := h.standing.seals c hroom
  rw [hrun] at hrun'
  obtain ⟨rfl, hworld⟩ := Machine.mk.inj hrun'
  obtain rfl : d' = d'' := congrArg World.dir hworld
  refine ⟨s', d', active', congrArg Prod.snd hrun, hstanding, ?_, hseals.due h.due,
    hseals.filled h.standing.upright h.due h.trigger h.filled⟩
  rcases hcfg with hcfg | rfl
  · rw [hcfg]
    exact h.trigger
  · exact htrigger

/-- Only full segments are sealed: in every run of all calls that opens the store with triggers of at
least `T` bytes, every sealed live segment is larger than that and has the size that the manifest
records, so the bytes of the live segments bound how many there are. -/
theorem Follows.sealed_full {T : ℕ} {d : Dir} (hd : Fresh d) {cfg : StoreCfg} {s : Store} {w : World}
    (hopen : Store.openOrCreate cfg (calm d) = .ok s w) (hT : T ≤ cfg.segmentRolloverTriggerBytes)
    {m : Machine} (hrun : Follows (fun m c => c.Roomy m ∧ c.Guarded m ∧ c.Triggers T) ⟨s, w⟩ m) :
    m.Filled T ∧ (T+1)*(m.store.state.segments.length-1) ≤
      (m.store.state.segments.map fun seg =>
        ((m.world.dir.bytes (segmentPath seg.id)).getD []).length).sum := by
  obtain ⟨d', rfl, hstanding⟩ := hd.standing hopen
  obtain ⟨s', hopen', _, hcfg, hst, hpend⟩ := hd.session cfg
  rw [hopen] at hopen'
  obtain ⟨rfl, -⟩ := EStateM.Result.ok.inj hopen'
  have h₀ : Sized T s d' firstSegment := by
    refine ⟨hstanding, by rwa [hcfg], fun hp => ?_, fun seg _ info hi => ?_⟩
    · rw [hpend] at hp
      cases hp
    · change s.state.seals seg.id = some info at hi
      rw [hst] at hi
      cases hi
  have hsized := hrun.invariant (I := fun m => ∃ s d active, m = ⟨s, calm d⟩ ∧ Sized T s d active)
    ⟨s, d', firstSegment, rfl, h₀⟩ (by
      rintro _ c ⟨s, d, active, rfl, h⟩ ⟨hroom, hguard, htrigger⟩
      obtain ⟨s', d', active', hperform, h'⟩ := h.perform c hroom hguard htrigger
      exact ⟨s', d', active', hperform, h'⟩)
  obtain ⟨s, d, active, rfl, h⟩ := hsized
  refine ⟨h.filled, ?_⟩
  have hshape := h.standing.upright.shaped
  set size := fun seg : SegmentEntry => ((d.bytes (segmentPath seg.id)).getD []).length with hsize
  change (T+1)*(s.state.segments.length-1) ≤ (s.state.segments.map size).sum
  -- all live segments but the last have a seal
  have hlarge : ∀ n ∈ s.state.segments.dropLast.map size, T+1 ≤ n := by
    intro n hn
    obtain ⟨seg, hseg, rfl⟩ := List.mem_map.mp hn
    obtain ⟨hmem, hne⟩ := hshape.dropLast hseg
    obtain ⟨info, hi⟩ := hshape.seals_of_ne hmem hne
    obtain ⟨bytes, hfile, hlt, _⟩ := h.filled seg hmem info hi
    change d.bytes (segmentPath seg.id) = some bytes at hfile
    rw [hsize]
    dsimp only
    rw [hfile]
    exact hlt
  have hsum := List.card_nsmul_le_sum _ (T+1) hlarge
  rw [List.length_map, List.length_dropLast, smul_eq_mul] at hsum
  calc (T+1)*(s.state.segments.length-1) = (s.state.segments.length-1)*(T+1) := Nat.mul_comm _ _
    _ ≤ (s.state.segments.dropLast.map size).sum := hsum
    _ ≤ (s.state.segments.map size).sum := by
      conv_rhs => rw [hshape.split]
      rw [List.map_append, List.sum_append]
      exact Nat.le_add_right _ _

/-- Sealed segments are immutable: in every run, as long as a segment stays live and sealed, neither
its file nor what the manifest says of it changes, whatever the calls. -/
theorem Follows.sealed_immutable {d : Dir} (hd : Fresh d) {cfg : StoreCfg} {s : Store} {w : World}
    (hopen : Store.openOrCreate cfg (calm d) = .ok s w) {m₀ m : Machine}
    (hrun₀ : Follows (fun m c => c.Roomy m ∧ c.Guarded m) ⟨s, w⟩ m₀) {seg : SegmentEntry}
    (hseg : seg ∈ m₀.store.state.segments) {info : SealInfo}
    (hi : m₀.store.state.seals seg.id = some info)
    (hrun : Follows (fun m c => c.Roomy m ∧ c.Guarded m ∧
      seg ∈ (c.perform m).2.store.state.segments ∧
      ((c.perform m).2.store.state.seals seg.id).isSome = true) m₀ m) :
    m.store.state.seals seg.id = some info ∧
      m.world.dir.bytes (segmentPath seg.id) = m₀.world.dir.bytes (segmentPath seg.id) := by
  obtain ⟨s₀, d₀, active₀, rfl, h₀⟩ := Follows.stands hd hopen hrun₀
  -- the file and the seal are compared with those of the machine the stretch begins with
  have hkept := hrun.invariant (I := fun m => ∃ s d active, m = ⟨s, calm d⟩ ∧ Standing s d active ∧
      seg ∈ s.state.segments ∧ s.state.seals seg.id = some info ∧
      d.bytes (segmentPath seg.id) = d₀.bytes (segmentPath seg.id))
    ⟨s₀, d₀, active₀, rfl, h₀, hseg, hi, rfl⟩ (by
      rintro _ c ⟨s, d, active, rfl, h, hmem, hs, hb⟩ ⟨hroom, hguard, hlive, hsealed⟩
      obtain ⟨_, s', d', active', hperform, _, h'⟩ := h.perform c hroom hguard
      obtain ⟨s'', d'', hperform', hseals, _⟩ := h.seals c hroom
      rw [hperform] at hperform'
      obtain ⟨rfl, hworld⟩ := Machine.mk.inj hperform'
      obtain rfl : d' = d'' := congrArg World.dir hworld
      rw [hperform] at hlive hsealed
      obtain ⟨info', hi'⟩ := Option.isSome_iff_exists.mp hsealed
      refine ⟨s', d', active', congrArg Prod.snd hperform, h', hlive, ?_,
        (hseals.bytes seg hlive hsealed).trans hb⟩
      rcases (hseals.origin seg hlive info' hi').2 with hold | ⟨_, hid, _⟩
      · rw [hs] at hold
        cases hold
        exact hi'
      · -- what is sealed is not the active segment
        rw [hid, h.upright.activeId, h.upright.shaped.unsealed] at hs
        cases hs)
  obtain ⟨s, d, active, rfl, _, _, hs, hb⟩ := hkept
  exact ⟨hs, hb⟩

end

section
attribute [local instance] sample

/-- Segments of more than 20 bytes, and a store that is opened again. -/
def filling : List Command :=
  [.request (.batch [(⟨1⟩, [])]), .request (.batch [(⟨2⟩, [])]), .request (.reopen ⟨30⟩),
    .request (.batch [(⟨3⟩, [])]), .request (.batch [(⟨4⟩, [])])]

theorem Follows.sealed_full_filling : ∃ s w, Store.openOrCreate ⟨20⟩ (calm blank) = .ok s w ∧
    (commandAll ⟨s, w⟩ filling).Filled 20 := by
  obtain ⟨s, hopen, _⟩ := fresh_blank.session ⟨20⟩
  have hsome : openedBlank ⟨20⟩ = some ⟨s, calm blank.formatted⟩ := by rw [openedBlank, hopen]
  have hruns : (openedBlank ⟨20⟩).all (fun m => followsRun
      (fun m c => decide (c.Roomy m ∧ c.Guarded m ∧ c.Triggers 20)) m filling) = true := by
    decide +kernel
  rw [hsome] at hruns
  exact ⟨s, _, hopen, (Follows.sealed_full fresh_blank hopen (by decide)
    (Follows.here.run (fun m c hc => of_decide_eq_true hc) filling hruns)).1⟩

/-- The first segment is sealed by a second batch, and left as it is by what comes then. -/
theorem Follows.sealed_immutable_filling : ∃ m₀ m : Machine, ∃ info,
    m₀.store.state.seals ⟨1⟩ = some info ∧ m.store.state.seals ⟨1⟩ = some info ∧
      m.world.dir.bytes (segmentPath ⟨1⟩) = m₀.world.dir.bytes (segmentPath ⟨1⟩) := by
  obtain ⟨s, hopen, _⟩ := fresh_blank.session ⟨20⟩
  have hsome : openedBlank ⟨20⟩ = some ⟨s, calm blank.formatted⟩ := by rw [openedBlank, hopen]
  have hruns : (openedBlank ⟨20⟩).all (fun m =>
      followsRun (fun m c => decide (c.Roomy m ∧ c.Guarded m)) m (filling.take 2) &&
      decide (firstSegment ∈ (commandAll m (filling.take 2)).store.state.segments) &&
      ((commandAll m (filling.take 2)).store.state.seals firstSegment.id).isSome &&
      followsRun (fun m c => decide (c.Roomy m ∧ c.Guarded m ∧
        firstSegment ∈ (c.perform m).2.store.state.segments ∧
        ((c.perform m).2.store.state.seals firstSegment.id).isSome = true))
        (commandAll m (filling.take 2)) (filling.drop 2)) = true := by
    decide +kernel
  rw [hsome] at hruns
  change (_ && _ && _ && _) = true at hruns
  simp only [Bool.and_eq_true, decide_eq_true_eq] at hruns
  obtain ⟨⟨⟨hrun₀, hmem⟩, hsealed⟩, hrun⟩ := hruns
  obtain ⟨info, hi⟩ := Option.isSome_iff_exists.mp hsealed
  exact ⟨_, _, info, hi, Follows.sealed_immutable fresh_blank hopen
    (Follows.here.run (fun m c hc => of_decide_eq_true hc) _ hrun₀) hmem hi
    (Follows.here.run (fun m c hc => of_decide_eq_true hc) _ hrun)⟩

end
end Woodshed
