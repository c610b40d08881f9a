import Woodshed.NextId
import Woodshed.Standing

/-! What a store remembers holds together whichever of its calls fail, and no call panics. -/
namespace Woodshed
open Sequencing Framing

/-- An error that is returned. -/
def Failure.Raised {ε : Type} : Failure ε → Prop
  | .err _ => True
  | _ => False

/-- What a store has in memory: the active segment is the last live one, the others are sealed, the ids
of the live ones ascend, and the next id is above all in use. -/
structure Sturdy (s : Store) (active : SegmentEntry) : Prop where
  shaped : Shaped s.state active
  activeId : s.activeId = active.id
  next : ∀ id, s.state.Uses id → id < s.nextSegId
  ascending : s.state.segments.Pairwise fun a b => a.id < b.id

def Machine.Sturdy (m : Machine) : Prop := ∃ active, Woodshed.Sturdy m.store active

/-- The store is `s` but for the manifest's cursor. -/
def Machine.SameAs (s : Store) (m : Machine) : Prop :=
  ∃ c, m.store = { s with manifestCursor := c }

section
variable {s s' : Store} {active : SegmentEntry}

/-- A change of what the memory of a store does not depend on. -/
theorem Sturdy.of_eq (h : Sturdy s active) (hs : s'.state = s.state) (ha : s'.activeId = s.activeId)
    (hn : s'.nextSegId = s.nextSegId) : Sturdy s' active :=
  ⟨by rw [hs]; exact h.shaped, ha.trans h.activeId, by rw [hs, hn]; exact h.next,
    by rw [hs]; exact h.ascending⟩

theorem Sturdy.sameAs (h : Sturdy s active) {m : Machine} (hm : m.SameAs s) : m.Sturdy := by
  obtain ⟨c, hc⟩ := hm
  exact ⟨active, h.of_eq (by rw [hc]) (by rw [hc]) (by rw [hc])⟩

theorem Sturdy.activeState (h : Sturdy s active) : s.state.activeSegmentId = some s.activeId := by
  rw [h.shaped.activeId, h.activeId]

/-- A rollover puts a segment of a new id behind the others. -/
theorem Shaped.rolled (h : Sturdy s active) (first : EntryId) :
    Shaped (rolledState s first) ⟨s.nextSegId, first⟩ := by
  have hlists := lists_rolledState s first
  have hnot {id : SegmentId} (hid : s.state.Uses id) : id ≠ s.nextSegId := (h.next id hid).ne
  refine ⟨List.getLast?_concat, ?_, rfl, ?_, ?_⟩
  · change ((s.state.segments ++ [(⟨s.nextSegId, first⟩ : SegmentEntry)]).map
      (fun seg => seg.id)).Nodup
    rw [List.map_append, List.nodup_append]
    refine ⟨h.shaped.nodup, by simp, ?_⟩
    intro id hid other hother heq
    obtain ⟨seg, hseg, rfl⟩ := List.mem_map.mp hid
    rw [List.map_cons, List.map_nil, List.mem_singleton] at hother
    exact hnot (Or.inl (lists_of_mem hseg)) (heq.trans hother)
  · intro id
    change (Function.update s.state.seals s.activeId _ id).isSome = true ↔
      (rolledState s first).lists id = true ∧ id ≠ s.nextSegId
    rw [hlists]
    -- the rollover seals the segment that was active, and no other
    by_cases hid : id = s.activeId
    · have hactive : s.state.lists id = true := by
        rw [hid, h.activeId]
        exact lists_of_mem h.shaped.mem
      rw [hid, Function.update_self, ← hid]
      simp [hactive, hnot (Or.inl hactive)]
    · rw [Function.update_of_ne hid, h.shaped.seals, ← h.activeId]
      constructor
      · rintro ⟨hl, -⟩
        exact ⟨Or.inl hl, hnot (Or.inl hl)⟩
      · rintro ⟨hl | heq, hne⟩
        · exact ⟨hl, hid⟩
        · exact absurd heq hne
  · intro id hid
    have hold := h.shaped.dead id hid
    change (rolledState s first).lists id = false
    rw [Bool.eq_false_iff, ne_eq, hlists, hold]
    rintro (hc | rfl)
    · cases hc
    · exact hnot (Or.inr hid) rfl

end

section
variable [Crates]
variable {s : Store} {active : SegmentEntry}

/-! ### Calls and ops -/

omit [Crates] in
/-- Whatever a call on the files comes to, the store is as it was. -/
theorem fs_within {α : Type} (x : Fs α) {I : Machine → Prop} (h : ∀ m w, I m → I ⟨m.store, w⟩) :
    Within Failure.Raised I (fs x) (fun _ => I) I :=
  Within.onPart (fun w m hm => h m w hm) fun _ => trivial

omit [Crates] in
theorem fs_sameAs {α : Type} (x : Fs α) (s : Store) :
    Within Failure.Raised (Machine.SameAs s) (fs x) (fun _ => Machine.SameAs s) (Machine.SameAs s) :=
  fs_within x fun _ _ hm => hm

omit [Crates] in
theorem sameAs_setManifestCursor (c : FrameCursor) (s : Store) :
    Within Failure.Raised (Machine.SameAs s) (Store.setManifestCursor c)
      (fun _ => Machine.SameAs s) (Machine.SameAs s) := by
  refine Within.modify fun m hm => ?_
  obtain ⟨_, hc⟩ := hm
  exact ⟨c, by rw [hc]⟩

/-- An op that the state accepts is recorded, or nothing is remembered of it. -/
theorem appendOp_within {op : ManifestOp} {st' : StoreState}
    (ha : StoreState.apply op s.state = .ok ⟨⟩ st') (message : String) :
    Within Failure.Raised (Machine.SameAs s) (Store.appendOp op message)
      (fun _ => Machine.SameAs { s with state := st' }) (Machine.SameAs s) := by
  unfold Store.appendOp
  -- up to the sync of the manifest only its cursor is changed
  refine Within.read fun m => ?_
  refine Within.bind (sameAs_setManifestCursor _ s) fun _ => Within.read fun m => ?_
  refine Within.bind (fs_sameAs _ s) fun c => ?_
  refine Within.bind (sameAs_setManifestCursor c s) fun _ => ?_
  refine Within.bind (fs_sameAs _ s) fun _ => ?_
  -- `expect` has nothing to complain of: the state accepts the op
  rintro ⟨_, w⟩ ⟨c', rfl⟩
  unfold Store.applyExpect
  dsimp only
  rw [ha]
  exact ⟨c', rfl⟩

/-! ### Writing -/

omit [Crates] in
theorem sturdy_fs {α : Type} (x : Fs α) :
    Within Failure.Raised Machine.Sturdy (fs x) (fun _ => Machine.Sturdy) Machine.Sturdy :=
  fs_within x fun _ _ hm => hm

omit [Crates] in
theorem sturdy_modify {f : Machine → Machine} (hs : ∀ m, (f m).store.state = m.store.state)
    (ha : ∀ m, (f m).store.activeId = m.store.activeId)
    (hn : ∀ m, (f m).store.nextSegId = m.store.nextSegId) :
    Within Failure.Raised Machine.Sturdy (modify f : StoreM PUnit) (fun _ => Machine.Sturdy)
      Machine.Sturdy :=
  Within.modify fun m ⟨active, h⟩ => ⟨active, h.of_eq (hs m) (ha m) (hn m)⟩

/-- A rollover that stops on the way leaves the store on its active segment. -/
theorem Sturdy.doRollover (h : Sturdy s active) (w : World) (first : EntryId)
    (hroom : s.nextSegId.val.toNat+1 < 2^32) :
    Within Failure.Raised (· = ⟨s, w⟩) (Store.doRollover first) (fun _ => Machine.Sturdy)
      Machine.Sturdy := by
  unfold Store.doRollover
  refine Within.get fun m hm => ?_
  subst hm
  -- what fails on the way leaves the old active segment in memory, with its seal not yet set
  refine Within.weaken (P := Machine.SameAs s) (R := Machine.SameAs s) ?_
    (fun _ hm => hm ▸ ⟨_, rfl⟩) (fun _ _ hm => hm) fun _ hm => h.sameAs hm
  refine Within.bind (fs_sameAs _ s) fun _ => ?_
  refine Within.bind (appendOp_within (apply_rollOp first h.activeState) _) fun _ => ?_
  refine Within.modify fun m hm => ?_
  obtain ⟨c, hc⟩ := hm
  have hlt : s.nextSegId < s.nextSegId.succ := by
    rw [SegmentId.lt_iff, SegmentId.succ_toNat hroom]
    exact Nat.lt_succ_self _
  refine ⟨⟨s.nextSegId, first⟩, ?_, rfl, fun id hid => ?_, ?_⟩
  · change Shaped m.store.state _
    rw [hc]
    exact Shaped.rolled h first
  · change m.store.state.Uses id at hid
    rw [hc] at hid
    rcases hid with hid | hid
    · rcases (lists_rolledState s first id).mp hid with hl | rfl
      · exact (h.next id (Or.inl hl)).trans hlt
      · exact hlt
    · exact (h.next id (Or.inr hid)).trans hlt
  · change m.store.state.segments.Pairwise _
    rw [hc]
    -- the new id is above all in use
    refine List.pairwise_append.mpr ⟨h.ascending, List.pairwise_singleton _ _, fun a ha b hb => ?_⟩
    rw [List.mem_singleton.mp hb]
    exact h.next a.id (Or.inl (lists_of_mem ha))

omit [Crates] in
theorem sturdy_writeBehind (last : EntryId) (count : ℕ) :
    Within Failure.Raised Machine.Sturdy (Store.writeBehind last count) (fun _ => Machine.Sturdy)
      Machine.Sturdy := by
  have hopen : Within Failure.Raised Machine.Sturdy Store.openActive (fun _ => Machine.Sturdy)
      Machine.Sturdy := by
    unfold Store.openActive
    refine Within.read fun m => ?_
    split
    · exact Within.ret fun _ hm => hm
    · exact Within.bind (sturdy_fs _) fun _ =>
        sturdy_modify (fun _ => rfl) (fun _ => rfl) fun _ => rfl
  have hflush : Within Failure.Raised Machine.Sturdy Store.flushActive (fun _ => Machine.Sturdy)
      Machine.Sturdy :=
    Within.read fun m => Within.bind (sturdy_fs _) fun _ =>
      sturdy_modify (fun _ => rfl) (fun _ => rfl) fun _ => rfl
  exact Within.bind hopen fun _ => Within.bind hflush fun _ =>
    Within.bind (sturdy_modify (fun _ => rfl) (fun _ => rfl) fun _ => rfl) fun _ =>
      Within.read fun _ => Within.ret fun _ hm => hm

theorem Sturdy.batch (h : Sturdy s active) (w : World) (xs : List Entry)
    (hroom : xs ≠ [] → s.Room) :
    Within Failure.Raised (· = ⟨s, w⟩) (Store.batch xs) (fun _ => Machine.Sturdy)
      Machine.Sturdy := by
  rintro _ rfl
  have hbuffered : Sturdy (s.buffered xs) active := h.of_eq rfl rfl rfl
  have hbatch : Store.batch xs ⟨s, w⟩ = (writerOf xs).write ⟨s.buffered xs, w⟩ :=
    bind_ok (Store.pushAll_eq xs s w)
  rw [hbatch]
  cases xs with
  | nil => exact ⟨active, hbuffered⟩
  | cons x xs =>
    have hw : writerOf (x :: xs) = _ := writerOf_eq rfl (List.getLast?_eq_some_getLast (by simp))
    rw [hw, StoreWriter.write_begins]
    -- behind the rollover, or without it, no step touches the state
    by_cases hp : (s.buffered (x :: xs)).rolloverPending = true
    · rw [if_pos hp]
      refine Within.bind (hbuffered.doRollover w x.1 (hroom (by simp) hp)) (fun _ => ?_) _ rfl
      exact Within.bind (sturdy_modify (fun _ => rfl) (fun _ => rfl) fun _ => rfl) fun _ =>
        sturdy_writeBehind _ _
    · rw [if_neg hp]
      exact sturdy_writeBehind _ _ _ ⟨active, hbuffered⟩

/-! ### The other calls -/

theorem Sturdy.truncateStart (h : Sturdy s active) (w : World) (first : EntryId) (metaPairs : Meta) :
    Within Failure.Raised (· = ⟨s, w⟩) (Store.truncateStart first metaPairs)
      (fun _ => Machine.Sturdy) (Machine.SameAs s) := by
  rintro _ rfl
  by_cases hfirst : first < s.state.firstEntry
  · rw [Store.truncateStart_refused metaPairs hfirst]
    exact ⟨trivial, _, rfl⟩
  · have ha := apply_headOp metaPairs (not_lt.mp hfirst)
    -- only sealed segments are evicted
    have hactive : active.id ∉ toEvict s.state first := by
      intro hin
      obtain ⟨-, info, hi, -⟩ := mem_toEvict.mp hin
      rw [h.shaped.unsealed] at hi
      cases hi
    have hkilled := h.shaped.killed hactive
    rw [Store.truncateStart_begins (m := ⟨s, w⟩) metaPairs (not_lt.mp hfirst)]
    refine Within.bind (appendOp_within ha _) (fun _ => Within.modify fun m hm => ?_) _ ⟨_, rfl⟩
    obtain ⟨c, hc⟩ := hm
    refine ⟨active, ?_, ?_, fun id hid => ?_, ?_⟩
    · change Shaped m.store.state active
      rw [hc]
      exact ⟨hkilled.last, hkilled.nodup, hkilled.activeId, hkilled.seals, hkilled.dead⟩
    · change m.store.activeId = active.id
      rw [hc]
      exact h.activeId
    · change m.store.state.Uses id at hid
      change id < m.store.nextSegId
      rw [hc] at hid ⊢
      exact h.next id ((known_killed (fun id hid => (mem_toEvict.mp hid).1) id).mp hid)
    · change m.store.state.segments.Pairwise _
      rw [hc]
      exact h.ascending.sublist List.filter_sublist

theorem Sturdy.deleteDead {ids : List SegmentId} (hnd : ids.Nodup) {s : Store}
    (h : Sturdy s active) (hin : ∀ id ∈ ids, id ∈ s.state.dead) :
    Within Failure.Raised (Machine.SameAs s) (forM ids Store.deleteDead) (fun _ => Machine.Sturdy)
      Machine.Sturdy := by
  -- a failure leaves the ids that are deleted already out of the dead set, and the others in it
  induction ids generalizing s with
  | nil => exact fun m hm => h.sameAs hm
  | cons id ids ih =>
    obtain ⟨hnot, hnd⟩ := List.nodup_cons.mp hnd
    have ha := apply_segmentDeleted (hin id (by simp))
    have hdelete : Within Failure.Raised (Machine.SameAs s) (Store.deleteDead id)
        (fun _ => Machine.SameAs { s with state := { s.state with dead := s.state.dead.erase id } })
        Machine.Sturdy :=
      (Within.bind (fs_sameAs _ s) fun _ => appendOp_within ha _).weaken (fun _ hm => hm)
        (fun _ _ hm => hm) fun _ hm => h.sameAs hm
    have hnext : Sturdy { s with state := { s.state with dead := s.state.dead.erase id } } active :=
      ⟨⟨h.shaped.last, h.shaped.nodup, h.shaped.activeId, h.shaped.seals,
          fun other ho => h.shaped.dead other (Finset.mem_of_mem_erase ho)⟩, h.activeId,
        fun other ho => h.next other (ho.imp (fun hl => hl) Finset.mem_of_mem_erase), h.ascending⟩
    rw [forM_cons]
    refine Within.bind hdelete fun _ => ih hnd hnext fun other ho => ?_
    refine Finset.mem_erase.mpr ⟨?_, hin other (by simp [ho])⟩
    rintro rfl
    exact hnot ho

theorem Sturdy.deleteDeadSegments (h : Sturdy s active) (w : World) :
    Within Failure.Raised (· = ⟨s, w⟩) Store.deleteDeadSegments (fun _ => Machine.Sturdy)
      Machine.Sturdy := by
  unfold Store.deleteDeadSegments
  refine Within.get fun m hm => ?_
  subst hm
  have hloop := h.deleteDead (Crates.hashIter_nodup s.state.dead)
    fun id hid => (Crates.mem_hashIter _ _).mp hid
  exact Within.bind (hloop.weaken (fun _ hm => hm ▸ ⟨_, rfl⟩) (fun _ _ hm => hm) fun _ hm => hm)
    fun _ => Within.ret fun _ hm => hm

theorem Sturdy.writeMetadata (h : Sturdy s active) (w : World) (pairs : Meta) :
    Within Failure.Raised (· = ⟨s, w⟩) (Store.writeMetadata pairs) (fun _ => Machine.Sturdy)
      (Machine.SameAs s) := by
  have ha : StoreState.apply (ManifestOp.withMeta .metadata pairs) s.state =
      .ok ⟨⟩ { s.state with metaPairs := pairs.foldl StoreState.setMeta s.state.metaPairs } := rfl
  have hnext : Sturdy { s with state := { s.state with
      metaPairs := pairs.foldl StoreState.setMeta s.state.metaPairs } } active :=
    ⟨⟨h.shaped.last, h.shaped.nodup, h.shaped.activeId, h.shaped.seals, h.shaped.dead⟩,
      h.activeId, h.next, h.ascending⟩
  exact (appendOp_within ha _).weaken (fun _ hm => hm ▸ ⟨_, rfl⟩) (fun _ _ hm => hnext.sameAs hm)
    fun _ hm => hm

omit [Crates] in
theorem scanTo_sameAs (file : File) (offset : ℕ) (lastValid : EntryId) (s : Store) :
    Within Failure.Raised (Machine.SameAs s) (scanTo file offset lastValid)
      (fun _ => Machine.SameAs s) (Machine.SameAs s) := by
  unfold scanTo
  split
  · exact Within.ret fun _ hm => hm
  · exact Within.throw trivial

theorem Sturdy.truncateEnd (h : Sturdy s active) (w : World) (lastValid : EntryId) :
    Within Failure.Raised (· = ⟨s, w⟩) (Store.truncateEnd lastValid) (fun _ => Machine.Sturdy)
      (Machine.SameAs s) := by
  unfold Store.truncateEnd
  refine Within.get fun m hm => ?_
  subst hm
  refine Within.weaken (P := Machine.SameAs s) ?_ (fun _ hm => hm ▸ ⟨_, rfl⟩) (fun _ _ hm => hm)
    fun _ hm => hm
  dsimp only
  split
  · exact fun _ hm => h.sameAs hm
  · obtain ⟨pre, target, post, hsplit, hchosen, -⟩ :=
      truncateTarget_split s.state.segments lastValid (List.ne_nil_of_mem h.shaped.mem)
    have htarget : target ∈ s.state.segments := by simp [hsplit]
    have hdrop : ∀ id ∈ post.map (·.id), s.state.lists id = true := by
      intro id hid
      obtain ⟨seg, hseg, rfl⟩ := List.mem_map.mp hid
      exact lists_of_mem (by simp [hsplit, hseg])
    rw [hchosen]
    -- the calls on the files come first; the op is recorded behind them
    refine Within.bind (fs_sameAs _ s) fun seg => ?_
    refine Within.bind (scanTo_sameAs _ _ _ s) fun off => ?_
    refine Within.bind (fs_sameAs _ s) fun rw => ?_
    refine Within.bind (fs_sameAs _ s) fun _ => ?_
    refine Within.bind (fs_sameAs _ s) fun _ => ?_
    have ha : StoreState.apply (cutOp target off (post.map (·.id))) s.state = _ :=
      apply_cutOp hdrop htarget
    refine Within.bind (appendOp_within ha _) fun _ => ?_
    refine Within.modify fun m hm => ?_
    obtain ⟨c, hc⟩ := hm
    refine ⟨target, ?_, rfl, fun id hid => ?_, ?_⟩
    · change Shaped m.store.state target
      rw [hc]
      exact h.shaped.cut hsplit
    · change m.store.state.Uses id at hid
      change id < m.store.nextSegId
      rw [hc] at hid ⊢
      exact h.next id ((known_killed hdrop id).mp hid)
    · change m.store.state.segments.Pairwise _
      rw [hc]
      exact h.ascending.sublist List.filter_sublist

/-! ### Runs -/

/-- The calls that record one op. -/
def Command.AppendsOne : Command → Prop
  | .request (.truncateStart _ _) | .request (.writeMetadata _) | .truncateEnd _ => True
  | _ => False

omit [Crates] in
theorem outcomeOf_within {α : Type} {x : StoreM α} {m : Machine} {R : Machine → Prop}
    (hx : Within Failure.Raised (· = m) x (fun _ => Machine.Sturdy) R) (hR : ∀ m', R m' → m'.Sturdy) :
    (outcomeOf x m).1.panics = false ∧ (outcomeOf x m).2.Sturdy ∧
      ((outcomeOf x m).1.isDone = false → R (outcomeOf x m).2) := by
  cases hrun : x m with
  | ok a m' =>
    rw [outcomeOf_ok hrun]
    exact ⟨rfl, hx.ok rfl hrun, fun hdone => by cases hdone⟩
  | error e m' =>
    obtain ⟨he, hm'⟩ := hx.error rfl hrun
    rw [outcomeOf_error hrun]
    cases e with
    | err e => exact ⟨rfl, hR m' hm', fun _ => hm'⟩
    -- neither of these is an error that is returned
    | panic message => exact he.elim
    | diverges => exact he.elim

theorem Sturdy.perform (h : Sturdy s active) (w : World) (c : Command)
    (hopen : ∀ cfg, c ≠ .request (.reopen cfg)) (hc : c.Spares ⟨s, w⟩) :
    (c.perform ⟨s, w⟩).1.panics = false ∧ (c.perform ⟨s, w⟩).2.Sturdy ∧
      (c.AppendsOne → (c.perform ⟨s, w⟩).1.isDone = false → (c.perform ⟨s, w⟩).2.SameAs s) := by
  have hsame : ∀ m : Machine, m.SameAs s → m.Sturdy := fun m hm => h.sameAs hm
  cases c with
  | truncateEnd lastValid =>
    obtain ⟨hpanic, hnext, hfail⟩ := outcomeOf_within (h.truncateEnd w lastValid) hsame
    exact ⟨hpanic, hnext, fun _ => hfail⟩
  | request r =>
    cases r with
    | batch xs =>
      obtain ⟨hpanic, hnext, -⟩ := outcomeOf_within (h.batch w xs hc) fun _ hm => hm
      exact ⟨hpanic, hnext, fun hone => hone.elim⟩
    | truncateStart first metaPairs =>
      obtain ⟨hpanic, hnext, hfail⟩ := outcomeOf_within (h.truncateStart w first metaPairs) hsame
      exact ⟨hpanic, hnext, fun _ => hfail⟩
    | deleteDeadSegments =>
      obtain ⟨hpanic, hnext, -⟩ := outcomeOf_within (h.deleteDeadSegments w) fun _ hm => hm
      exact ⟨hpanic, hnext, fun hone => hone.elim⟩
    | writeMetadata pairs =>
      obtain ⟨hpanic, hnext, hfail⟩ := outcomeOf_within (h.writeMetadata w pairs) hsame
      exact ⟨hpanic, hnext, fun _ => hfail⟩
    | reopen cfg => exact absurd rfl (hopen cfg)

/-- A running store whose live ids ascend. -/
def Machine.Firm (m : Machine) : Prop :=
  ∃ s d active, m = ⟨s, calm d⟩ ∧ Standing s d active ∧
    s.state.segments.Pairwise fun a b => a.id < b.id

theorem Machine.Firm.perform {m : Machine} (h : m.Firm) (c : Command) (hroom : c.Roomy m)
    (hguard : c.Guarded m) : (c.perform m).2.Firm := by
  obtain ⟨s, d, active, rfl, h, hasc⟩ := h
  obtain ⟨_, s', d', active', hperform, _, h'⟩ := h.perform c hroom hguard
  refine ⟨s', d', active', congrArg Prod.snd hperform, h', ?_⟩
  by_cases hc : ∃ cfg, c = .request (.reopen cfg)
  · obtain ⟨cfg, rfl⟩ := hc
    obtain ⟨s'', w'', hopen, hrun⟩ := reopen_isDone hroom
    obtain ⟨es, hr⟩ := h.kempt.recorded hopen
    obtain ⟨_, _, rfl, hre⟩ := h.upright.reopen hr hopen
    rw [hrun] at hperform
    obtain ⟨rfl, -⟩ := Machine.mk.inj (Prod.mk.inj hperform).2
    -- an open reads back the state that the store was closed with
    rw [hre.state]
    exact hasc
  · have hspares : c.Spares ⟨s, calm d⟩ := by
      cases c with
      | truncateEnd lastValid => trivial
      | request r =>
        cases r with
        | batch xs => exact fun _ => hroom
        | reopen cfg => exact absurd ⟨cfg, rfl⟩ hc
        | truncateStart first metaPairs => trivial
        | deleteDeadSegments => trivial
        | writeMetadata pairs => trivial
    have hsturdy : Woodshed.Sturdy s active := ⟨h.upright.shaped, h.upright.activeId, h.next, hasc⟩
    obtain ⟨_, hnext⟩ := (hsturdy.perform (calm d) c (fun cfg heq => hc ⟨cfg, heq⟩) hspares).2.1
    rw [hperform] at hnext
    exact hnext.ascending

/-- Calls on one open store, each with faults of its own, as long as there are segment ids left. -/
inductive Stumbling (m₀ : Machine) : Machine → Prop
  | here : Stumbling m₀ m₀
  | next {m : Machine} (c : Command) (f : Faults) (h : Stumbling m₀ m)
      (hopen : ∀ cfg, c ≠ .request (.reopen cfg)) (hc : c.Spares (m.facing f)) :
      Stumbling m₀ (c.perform (m.facing f)).2

/-- Whichever calls on the files fail, and however often: in every run the memory of a store holds
together, no call panics, and a failed one that records an op has changed nothing in memory but the
manifest's cursor. -/
theorem Stumbling.sturdy {d : Dir} (hd : Fresh d) {cfg : StoreCfg} {s : Store} {w : World}
    (hopen : Store.openOrCreate cfg (calm d) = .ok s w) {m₀ m : Machine}
    (hstart : Follows (fun m c => c.Roomy m ∧ c.Guarded m) ⟨s, w⟩ m₀) (hrun : Stumbling m₀ m) :
    m.Sturdy ∧ ∀ (c : Command) (f : Faults), (∀ cfg, c ≠ .request (.reopen cfg)) →
      c.Spares (m.facing f) → (c.perform (m.facing f)).1.panics = false ∧
        (c.AppendsOne → (c.perform (m.facing f)).1.isDone = false →
          (c.perform (m.facing f)).2.SameAs m.store) := by
  obtain ⟨d', rfl, h₀⟩ := hd.standing hopen
  obtain ⟨s', hopen', _, _, hst, _⟩ := hd.session cfg
  rw [hopen] at hopen'
  obtain ⟨rfl, -⟩ := EStateM.Result.ok.inj hopen'
  have hfirm : m₀.Firm := by
    refine hstart.invariant ⟨s, d', firstSegment, rfl, h₀, ?_⟩ fun m c h hp => h.perform c hp.1 hp.2
    rw [hst]
    exact List.pairwise_singleton _ _
  obtain ⟨s₁, d₁, active, rfl, h₁, hasc⟩ := hfirm
  have hsturdy : m.Sturdy := by
    induction hrun with
    | here => exact ⟨active, h₁.upright.shaped, h₁.upright.activeId, h₁.next, hasc⟩
    | next c f _ hopen hc ih =>
      obtain ⟨active, h⟩ := ih
      exact (h.perform _ c hopen hc).2.1
  obtain ⟨active, h⟩ := hsturdy
  refine ⟨⟨active, h⟩, fun c f hopen hc => ?_⟩
  obtain ⟨hpanic, -, hfail⟩ := h.perform ⟨m.world.dir, f⟩ c hopen hc
  exact ⟨hpanic, hfail⟩

end

section
attribute [local instance] sample

/-- The rollover of a second batch stops at the flush of the manifest. -/
theorem Stumbling.sturdy_failed : ∃ m : Machine,
    ((Command.request (.batch [(⟨2⟩, [])])).perform (m.facing flushFails)).2.Sturdy := by
  obtain ⟨s, hopen, _⟩ := fresh_blank.session ⟨0⟩
  have hsome : openedBlank ⟨0⟩ = some ⟨s, calm blank.formatted⟩ := by rw [openedBlank, hopen]
  have hruns : (openedBlank ⟨0⟩).all (fun m =>
      followsRun (fun m c => decide (c.Roomy m ∧ c.Guarded m)) m [.request (.batch [(⟨1⟩, [])])] &&
      decide (commandAll m [.request (.batch [(⟨1⟩, [])])]).store.Room) = true := by
    decide +kernel
  rw [hsome] at hruns
  change (_ && _) = true at hruns
  rw [Bool.and_eq_true, decide_eq_true_eq] at hruns
  obtain ⟨hrun, hroom⟩ := hruns
  refine ⟨_, (Stumbling.sturdy fresh_blank hopen
    (Follows.here.run (fun m c hc => of_decide_eq_true hc) _ hrun)
    (.next (.request (.batch [(⟨2⟩, [])])) flushFails .here ?_ fun _ => hroom)).1⟩
  rintro cfg ⟨⟩

end
end Woodshed
