import Woodshed.Altered
import Woodshed.Reading
import Woodshed.Refusing
import Woodshed.Reopening

/-! The index of a running store points at frames of live segments, whatever the store is asked
for: trimming the index and dropping segments go together. -/
namespace Woodshed
open Sequencing Framing PartitionPoint

section
variable [Crates]

namespace FrameScanner

/-- A scan to an entry does not stop in front of the entries before it. -/
theorem scanToAfter_past (before : List Entry) {e : Entry} {rest : Bytes} {p off : ℕ}
    {target : EntryId} {t : FrameScanner} (hf : ∀ x ∈ before ++ [e], Fits x)
    (hlt : ∀ x ∈ before, x.1 < e.1) (hle : e.1 ≤ target)
    (h : scanToAfter target (facing (frames.encodeAll (before ++ [e]) ++ rest) p) = .ok off t) :
    p+(frames.encodeAll (before ++ [e])).length ≤ off := by
  induction before generalizing p with
  | nil =>
    have hpeek := peekHeader_frame e rest p
    have hskip := consumePeekedPayload_ok e.2 rest p p none
    have hone : frames.encodeAll ([] ++ [e]) = frame e := by simp
    rw [hone] at h ⊢
    rw [scanToAfter] at h
    split at h <;> rename_i hc <;> rw [hpeek] at hc <;> cases hc
    split at h <;> rename_i hc <;>
      rw [headerPayloadLen_frameHeader e (hf e (by simp)), hskip] at hc <;> cases hc
    rw [length_frame]
    split at h
    · cases h
      exact (Nat.add_assoc _ _ _).ge
    · have hpos := scanToAfter_le rfl h
      change p+headerLen+e.2.length ≤ off at hpos
      omega
  | cons x before ih =>
    have hpeek := peekHeader_frame x (frames.encodeAll (before ++ [e]) ++ rest) p
    have hskip := consumePeekedPayload_ok x.2 (frames.encodeAll (before ++ [e]) ++ rest) p p none
    rw [List.cons_append, Grammar.encodeAll_cons, frames_encode] at h ⊢
    rw [List.append_assoc, scanToAfter] at h
    split at h <;> rename_i hc <;> rw [hpeek] at hc <;> cases hc
    split at h <;> rename_i hc <;>
      rw [headerPayloadLen_frameHeader x (hf x (by simp)), hskip] at hc <;> cases hc
    have hne : ¬ headerId (frameHeader x) = target := by
      rw [headerId_frameHeader]
      exact ((hlt x (by simp)).trans_le hle).ne
    rw [if_neg hne] at h
    have hrest := ih (fun y hy => hf y (List.mem_cons_of_mem x hy))
      (fun y hy => hlt y (by simp [hy])) h
    rw [List.length_append, length_frame]
    omega

end FrameScanner

/-! ### Checkpoints and frames -/

/-- In a file with `xs` behind its magic number, `c` is the id and the place of a frame behind whole
ones with lower ids. -/
def FrameAt (xs : Bytes) (c : EntryId × ℕ) : Prop :=
  ∃ before e rest, xs = frames.encodeAll (before ++ [e]) ++ rest ∧ (∀ x ∈ before ++ [e], Fits x) ∧
    (∀ x ∈ before, x.1 < e.1) ∧ c = (e.1, segmentEnd before)

theorem FrameAt.extend {xs ys : Bytes} {c : EntryId × ℕ} (h : FrameAt xs c) (hp : xs <+: ys) :
    FrameAt ys c := by
  obtain ⟨before, e, rest, rfl, hf, hlt, hc⟩ := h
  obtain ⟨more, rfl⟩ := hp
  exact ⟨before, e, rest ++ more, by rw [List.append_assoc], hf, hlt, hc⟩

/-- A cut behind the entry `last` leaves the frames before it, and its own. -/
theorem FrameAt.cut {xs : Bytes} {c : EntryId × ℕ} (h : FrameAt xs c) {last : EntryId} {p off : ℕ}
    {t : FrameScanner} (hle : c.1 ≤ last) (hp : magicLen ≤ p)
    (hscan : FrameScanner.scanToAfter last ⟨⟨xs, []⟩, p, none⟩ = .ok off t) :
    FrameAt (resize xs (off-magicLen)) c := by
  obtain ⟨before, e, rest, rfl, hf, hlt, rfl⟩ := h
  have hpast := FrameScanner.scanToAfter_past before hf hlt hle hscan
  have hlen : (frames.encodeAll (before ++ [e])).length ≤ off-magicLen := by omega
  refine ⟨before, e, resize rest (off-magicLen-(frames.encodeAll (before ++ [e])).length), ?_, hf,
    hlt, rfl⟩
  rw [resize, resize, List.append_assoc, List.take_append, List.take_of_length_le hlen,
    List.length_append]
  congr 4
  omega

/-- A running store whose checkpoints mark frames of live segments, in order. A checkpoint of a
sealed segment is not behind the last id of the seal, unless it is before the head, and no segment
starts behind a checkpoint of its own or of a later one. -/
structure Pointing (s : Store) (d : Dir) (active : SegmentEntry) : Prop
    extends Upright s d active where
  sorted : s.index.Sorted
  live : ∀ id c, s.Checkpoint id c → s.state.lists id = true
  framed : ∀ id c, s.Checkpoint id c → FrameAt (body d id) c
  sealed : ∀ id c, s.Checkpoint id c → ∀ info, s.state.seals id = some info →
    c.1 ≤ info.lastEntry ∨ c.1 < s.state.firstEntry
  last : ∀ id c, s.Checkpoint id c →
    (∃ last, s.lastEntryId = some last ∧ c.1 ≤ last) ∨ c.1 < s.state.firstEntry
  own : ∀ seg ∈ s.state.segments, ∀ c, s.Checkpoint seg.id c → seg.firstEntry ≤ c.1
  behind : s.state.segments.Pairwise fun a b => ∀ c, s.Checkpoint b.id c → a.firstEntry ≤ c.1

/-! ### What the calls keep -/

section
variable {s : Store} {d : Dir} {active : SegmentEntry}

/-- Calls that leave the index and the live segments alone. -/
theorem Pointing.same (h : Pointing s d active) {s' : Store} {d' : Dir} {active' : SegmentEntry}
    (hup : Upright s' d' active') (hindex : s'.index = s.index)
    (hlast : s'.lastEntryId = s.lastEntryId)
    (hst : s'.state = { s.state with dead := s'.state.dead, metaPairs := s'.state.metaPairs })
    (hbody : ∀ seg ∈ s.state.segments, body d' seg.id = body d seg.id) :
    Pointing s' d' active' := by
  have hcheck (id : SegmentId) (c : EntryId × ℕ) : s'.Checkpoint id c ↔ s.Checkpoint id c := by
    rw [Store.Checkpoint, hindex, Store.Checkpoint]
  have hsegs : s'.state.segments = s.state.segments := by rw [hst]
  have hseals : s'.state.seals = s.state.seals := by rw [hst]
  have hhead : s'.state.firstEntry = s.state.firstEntry := by rw [hst]
  have hlists (id : SegmentId) : s'.state.lists id = s.state.lists id := by
    rw [StoreState.lists, StoreState.lists, hsegs]
  refine ⟨hup, hindex ▸ h.sorted, ?_, ?_, ?_, ?_, ?_, ?_⟩
  · intro id c hc
    rw [hlists]
    exact h.live id c ((hcheck id c).mp hc)
  · intro id c hc
    have hc' := (hcheck id c).mp hc
    obtain ⟨seg, hseg, rfl⟩ := (lists_iff _ _).mp (h.live id c hc')
    rw [hbody seg hseg]
    exact h.framed _ c hc'
  · rw [hseals, hhead]
    exact fun id c hc => h.sealed id c ((hcheck id c).mp hc)
  · rw [hlast, hhead]
    exact fun id c hc => h.last id c ((hcheck id c).mp hc)
  · rw [hsegs]
    exact fun seg hseg c hc => h.own seg hseg c ((hcheck _ c).mp hc)
  · rw [hsegs]
    exact h.behind.imp fun hab c hc => hab c ((hcheck _ c).mp hc)

omit [Crates] in
theorem Store.Checkpoint.of_within {s s' : Store} {P : EntryId → Prop}
    (h : s'.index.Within s.index P) {id : SegmentId} {c : EntryId × ℕ} (hc : s'.Checkpoint id c) :
    s.Checkpoint id c ∧ P c.1 := by
  obtain ⟨x, hx, rfl, hc⟩ := hc
  obtain ⟨y, hy, heq, hsub⟩ := h x hx
  exact ⟨⟨y, hy, heq.symm, (hsub c hc).1⟩, (hsub c hc).2⟩

/-- A segment that is evicted has no checkpoint left. -/
theorem Pointing.truncateStart (h : Pointing s d active) {first : EntryId} (metaPairs : Meta)
    (hfirst : s.state.firstEntry ≤ first) :
    Pointing (s.headed first metaPairs)
      (d.appended s.manifestCursor.position (headOp s.state first metaPairs)) active := by
  obtain ⟨_, hup, _⟩ := h.toUpright.truncateStart metaPairs hfirst
  obtain ⟨hsorted, hwithin⟩ := h.sorted.truncateStart first
  have hdiff := d.differs_appended s.manifestCursor.position (headOp s.state first metaPairs)
  have hcheck {id : SegmentId} {c : EntryId × ℕ} (hc : (s.headed first metaPairs).Checkpoint id c) :
      s.Checkpoint id c ∧ first ≤ c.1 := hc.of_within hwithin
  have hkeep (id : SegmentId) (c : EntryId × ℕ) (hc : (s.headed first metaPairs).Checkpoint id c) :
      id ∉ toEvict s.state first := by
    obtain ⟨hold, hge⟩ := hcheck hc
    intro hin
    obtain ⟨_, info, hi, hlt⟩ := mem_toEvict.mp hin
    rcases h.sealed id c hold info hi with hle | hbefore
    · exact absurd (hge.trans hle) (not_le.mpr hlt)
    · exact absurd (hfirst.trans hge) (not_le.mpr hbefore)
  refine ⟨hup, hsorted, ?_, ?_, ?_, ?_, ?_, ?_⟩
  · intro id c hc
    exact (lists_killed s.state _ id).mpr ⟨h.live id c (hcheck hc).1, hkeep id c hc⟩
  · intro id c hc
    rw [hdiff.body]
    exact h.framed id c (hcheck hc).1
  · intro id c hc info hi
    have hi' : (if id ∈ toEvict s.state first then none else s.state.seals id) = some info := hi
    rw [if_neg (hkeep id c hc)] at hi'
    obtain ⟨hold, hge⟩ := hcheck hc
    rcases h.sealed id c hold info hi' with hle | hbefore
    · exact Or.inl hle
    · exact absurd (hfirst.trans hge) (not_le.mpr hbefore)
  · intro id c hc
    obtain ⟨hold, hge⟩ := hcheck hc
    rcases h.last id c hold with hle | hbefore
    · exact Or.inl hle
    · exact absurd (hfirst.trans hge) (not_le.mpr hbefore)
  · exact fun seg hseg c hc => h.own seg (mem_killed hseg) c (hcheck hc).1
  · exact (h.behind.sublist List.filter_sublist).imp fun hab c hc => hab c (hcheck hc).1

/-- A cut leaves the frames of the checkpoints that it leaves. -/
theorem Pointing.cut (h : Pointing s d active) {target : SegmentEntry} {pre post : List SegmentEntry}
    {lastValid : EntryId} {off : ℕ} (hcut : CutsAt s d lastValid pre target post off) :
    Pointing (s.cut target off (post.map (·.id)) lastValid)
      ((d.cut target off).appended s.manifestCursor.position
        (cutOp target off (post.map (·.id)))) target := by
  obtain ⟨_, hup, _⟩ := h.toUpright.cut hcut
  obtain ⟨hsorted, hwithin⟩ := h.sorted.truncateEnd lastValid
  have hoff := hcut.magicLen_le h.offsets
  obtain ⟨_, hsplit, _, hbound, t, hscan⟩ := hcut
  have hsegs := segments_cutState h.shaped.nodup hsplit
  have hmem : target ∈ s.state.segments := by simp [hsplit]
  have hcheck {id : SegmentId} {c : EntryId × ℕ}
      (hc : (s.cut target off (post.map (·.id)) lastValid).Checkpoint id c) :
      s.Checkpoint id c ∧ c.1 ≤ lastValid := hc.of_within hwithin
  have hkeep {id : SegmentId} {c : EntryId × ℕ}
      (hc : (s.cut target off (post.map (·.id)) lastValid).Checkpoint id c) :
      id ∉ post.map (·.id) := by
    obtain ⟨hold, hle⟩ := hcheck hc
    intro hin
    obtain ⟨seg, hseg, rfl⟩ := List.mem_map.mp hin
    have hbehind := h.behind
    rw [hsplit] at hbehind
    obtain ⟨_, htarget, _⟩ := List.pairwise_append.mp hbehind
    obtain ⟨htarget, hpost⟩ := List.pairwise_cons.mp htarget
    rcases hbound with hbound | ⟨_, hbound⟩
    · -- the first segment behind the cut starts behind it
      obtain ⟨next, rest, rfl⟩ := List.exists_cons_of_ne_nil (List.ne_nil_of_mem hseg)
      have hnext := hbound next rfl
      have hge : next.firstEntry ≤ c.1 := by
        rcases List.mem_cons.mp hseg with rfl | hseg
        · exact h.own seg (by simp [hsplit]) c hold
        · exact (List.pairwise_cons.mp hpost).1 seg hseg c hold
      exact absurd (hge.trans hle) (not_le.mpr hnext)
    · exact absurd ((htarget seg hseg c hold).trans hle) (not_le.mpr hbound)
  have hsub : (pre ++ [target]).Sublist s.state.segments := by
    rw [hsplit]
    exact (List.Sublist.refl pre).append (List.cons_sublist_cons.mpr (List.nil_sublist post))
  refine ⟨hup, hsorted, ?_, ?_, ?_, ?_, ?_, ?_⟩
  · intro id c hc
    exact (lists_cutState _ id).mpr ⟨h.live id c (hcheck hc).1, hkeep hc⟩
  · intro id c hc
    obtain ⟨hold, hle⟩ := hcheck hc
    obtain ⟨seg, hseg, rfl⟩ := (lists_iff _ _).mp (h.live id c hold)
    by_cases heq : seg = target
    · rw [heq] at hold ⊢
      rw [body_eq (h.bytes_cut hmem hoff _ _)]
      exact (h.framed _ c hold).cut hle (magicLen_le_startOffset lastValid _ h.offsets) hscan
    · rw [body, h.bytes_uncut hmem off _ _ hseg heq]
      exact h.framed _ c hold
  · intro id c hc info hi
    have hi' : Function.update (killed s.state (post.map (·.id))).seals target.id none id =
      some info := hi
    obtain ⟨hold, _⟩ := hcheck hc
    by_cases hid : id = target.id
    · rw [hid, Function.update_self] at hi'
      cases hi'
    · rw [Function.update_of_ne hid] at hi'
      have hseal : (if id ∈ post.map (·.id) then none else s.state.seals id) = some info := hi'
      rw [if_neg (hkeep hc)] at hseal
      exact h.sealed id c hold info hseal
  · intro id c hc
    exact Or.inl ⟨lastValid, rfl, (hcheck hc).2⟩
  · intro seg hseg c hc
    exact h.own seg (mem_killed hseg) c (hcheck hc).1
  · change (cutState s.state target (post.map (·.id))).segments.Pairwise _
    rw [hsegs]
    exact (h.behind.sublist hsub).imp fun hab c hc => hab c (hcheck hc).1

/-- A batch of ids behind the last entry adds no checkpoint, and seals no segment that has one
behind its last id. -/
theorem Pointing.batch (h : Pointing s d active) {xs : List Entry}
    (habove : ∀ last ∈ s.lastEntry, ∀ e ∈ xs, last < e.1)
    (hnew : xs ≠ [] → s.rolloverPending = true → segmentPath s.nextSegId ∉ d.files) :
    ∃ c s' d' active', Store.batch xs ⟨s, calm d⟩ = .ok c ⟨s', calm d'⟩ ∧ Pointing s' d' active' := by
  obtain ⟨c, s', d', active', ops, hrun, hup, _, _, hindex, hnil, hlast, hstate, _, hbody⟩ :=
    h.toUpright.batch xs hnew
  refine ⟨c, s', d', active', hrun, ?_⟩
  have hcheck {id : SegmentId} {c : EntryId × ℕ} (hc : s'.Checkpoint id c) : s.Checkpoint id c := by
    rwa [Store.Checkpoint, hindex] at hc
  have hhead : s'.state.firstEntry = s.state.firstEntry := by
    rcases hstate with ⟨_, hst, _⟩ | ⟨_, _, first, hst, _⟩
    · rw [hst]
    · rw [hst, rolledState]
  have hlastOk : ∀ id c, s'.Checkpoint id c →
      (∃ last, s'.lastEntryId = some last ∧ c.1 ≤ last) ∨ c.1 < s'.state.firstEntry := by
    intro id c hc
    rw [hhead]
    rcases List.eq_nil_or_concat xs with rfl | ⟨front, e, hxs⟩
    · rw [hnil rfl]
      exact h.last id c (hcheck hc)
    · rw [List.concat_eq_append] at hxs
      have hnewLast := hlast e (by rw [hxs, List.getLast?_concat])
      rcases h.last id c (hcheck hc) with ⟨last, hl, hle⟩ | hbefore
      · by_cases hlt : last < s.state.firstEntry
        · exact Or.inr (hle.trans_lt hlt)
        · have hmem : last ∈ s.lastEntry := by
            rw [Store.lastEntry, hl, Option.bind_some, if_neg hlt]
            rfl
          exact Or.inl ⟨e.1, hnewLast, hle.trans (habove last hmem e (by simp [hxs])).le⟩
      · exact Or.inr hbefore
  have hframed : ∀ id c, s'.Checkpoint id c → FrameAt (body d' id) c := by
    intro id c hc
    obtain ⟨seg, hseg, rfl⟩ := (lists_iff _ _).mp (h.live id c (hcheck hc))
    exact (h.framed _ c (hcheck hc)).extend (hbody seg hseg)
  rcases hstate with ⟨_, hst, rfl⟩ | ⟨hp, _, first, hst, hactive⟩
  · refine ⟨hup, hindex ▸ h.sorted, ?_, hframed, ?_, hlastOk, ?_, ?_⟩
    · rw [hst]
      exact fun id c hc => h.live id c (hcheck hc)
    · rw [hst]
      exact fun id c hc => h.sealed id c (hcheck hc)
    · rw [hst]
      exact fun seg hseg c hc => h.own seg hseg c (hcheck hc)
    · rw [hst]
      exact h.behind.imp fun hab c hc => hab c (hcheck hc)
  · have hne : xs ≠ [] := by
      intro hxs
      have hsame := congrArg (fun s : Store => s.state.segments.length) (hnil hxs)
      rw [hst] at hsame
      simp [rolledState] at hsame
    obtain ⟨hnl, _⟩ := h.unused (hnew hne hp)
    -- the new segment has no checkpoint
    have hfresh {c : EntryId × ℕ} (hc : s'.Checkpoint s.nextSegId c) : False := by
      rw [h.live _ c (hcheck hc)] at hnl
      cases hnl
    refine ⟨hup, hindex ▸ h.sorted, ?_, hframed, ?_, hlastOk, ?_, ?_⟩
    · intro id c hc
      rw [hst, lists_rolledState]
      exact Or.inl (h.live id c (hcheck hc))
    · intro id c hc info hi
      rw [hhead]
      rw [hst] at hi
      change Function.update s.state.seals s.activeId _ id = some info at hi
      by_cases hid : id = s.activeId
      · rw [hid, Function.update_self] at hi
        cases hi
        rcases h.last id c (hcheck hc) with ⟨last, hl, hle⟩ | hbefore
        · refine Or.inl ?_
          dsimp only
          rw [hl]
          exact hle
        · exact Or.inr hbefore
      · rw [Function.update_of_ne hid] at hi
        exact h.sealed id c (hcheck hc) info hi
    · intro seg hseg c hc
      rw [hst] at hseg
      rcases List.mem_append.mp hseg with hseg | hseg
      · exact h.own seg hseg c (hcheck hc)
      · rw [List.mem_singleton.mp hseg] at hc
        exact (hfresh hc).elim
    · rw [hst]
      refine List.pairwise_append.mpr ⟨h.behind.imp fun hab c hc => hab c (hcheck hc), by simp, ?_⟩
      intro a _ b hb c hc
      rw [List.mem_singleton.mp hb] at hc
      exact (hfresh hc).elim

theorem Pointing.deleteDeadSegments (h : Pointing s d active) :
    ∃ n s' d', Store.deleteDeadSegments ⟨s, calm d⟩ = .ok n ⟨s', calm d'⟩ ∧
      Pointing s' d' active := by
  obtain ⟨s', d', hrun, hup, _, hsame, hst, hbytes, _⟩ := h.toUpright.deleteDeadSegments
  refine ⟨_, s', d', hrun, h.same hup (by rw [hsame]) (by rw [hsame]) (by rw [hst]) ?_⟩
  intro seg hseg
  rw [body, hbytes seg hseg, body]

theorem Pointing.writeMetadata (h : Pointing s d active) (pairs : Meta) :
    ∃ s' d', Store.writeMetadata pairs ⟨s, calm d⟩ = .ok ⟨⟩ ⟨s', calm d'⟩ ∧
      Pointing s' d' active := by
  have ha : StoreState.apply (ManifestOp.withMeta .metadata pairs) s.state =
      .ok ⟨⟩ { s.state with
        metaPairs := pairs.foldl StoreState.setMeta s.state.metaPairs } := rfl
  have hdiff := d.differs_appended s.manifestCursor.position (ManifestOp.withMeta .metadata pairs)
  refine ⟨_, _, h.appendOp ha d _, h.same (h.recorded_same d rfl (Finset.Subset.refl _) h.present
    (fun _ _ => rfl) ⟨h.filed.known, h.filed.found⟩) rfl rfl rfl fun seg _ => hdiff.body _⟩

end

/-! ### Opening, and runs -/

section
variable {cfg : StoreCfg} {s : Store} {d : Dir} {es : List Entry} {st : StoreState}
  {log : SegmentId → List Entry} {active : SegmentEntry}

end

/-- Commands within a session: the ids of a batch ascend, behind the last entry, and no batch gets
an I/O failure. -/
def Command.Ascends (m : Machine) : Command → Prop
  | .request (.batch xs) => (xs.Pairwise fun a b => a.1 < b.1) ∧
      (∀ last ∈ m.store.lastEntry, ∀ e ∈ xs, last < e.1) ∧ Command.Goes m (.request (.batch xs))
  | .request (.reopen _) => False
  | _ => True

instance (m : Machine) (c : Command) : Decidable (c.Ascends m) :=
  match c with
  | .request (.batch xs) => inferInstanceAs (Decidable ((xs.Pairwise fun a b => a.1 < b.1) ∧
      (∀ last ∈ m.store.lastEntry, ∀ e ∈ xs, last < e.1) ∧ Command.Goes m (.request (.batch xs))))
  | .request (.reopen _) => inferInstanceAs (Decidable False)
  | .request (.truncateStart _ _) | .request .deleteDeadSegments | .request (.writeMetadata _)
  | .truncateEnd _ => inferInstanceAs (Decidable True)

/-- Every command of a session keeps the index pointing at frames. -/
theorem Pointing.perform {s : Store} {d : Dir} {active : SegmentEntry} (h : Pointing s d active)
    (c : Command) (hc : c.Ascends ⟨s, calm d⟩) :
    ∃ s' d' active', (c.perform ⟨s, calm d⟩).2 = ⟨s', calm d'⟩ ∧ Pointing s' d' active' := by
  cases c with
  | truncateEnd lastValid =>
    rcases h.cases_truncateEnd lastValid with hrun | ⟨e, hrun⟩ | ⟨pre, target, post, off, hcut⟩
    · exact ⟨s, d, active, congrArg Prod.snd (outcomeOf_ok hrun), h⟩
    · exact ⟨s, d, active, congrArg Prod.snd (outcomeOf_error hrun), h⟩
    · exact ⟨_, _, target, congrArg Prod.snd (outcomeOf_ok (h.toUpright.cut hcut).1), h.cut hcut⟩
  | request r =>
    cases r with
    | batch xs =>
      obtain ⟨_, habove, hgo⟩ := hc
      obtain ⟨_, s', d', active', hrun, h'⟩ := h.batch habove (h.unblocked hgo)
      exact ⟨s', d', active', congrArg Prod.snd (outcomeOf_ok hrun), h'⟩
    | truncateStart first metaPairs =>
      by_cases hlt : first < s.state.firstEntry
      · have hrun := Store.truncateStart_refused (m := ⟨s, calm d⟩) metaPairs hlt
        exact ⟨s, d, active, congrArg Prod.snd (outcomeOf_error hrun), h⟩
      · have hle := not_lt.mp hlt
        have hrun := (h.toUpright.truncateStart metaPairs hle).1
        exact ⟨_, _, active, congrArg Prod.snd (outcomeOf_ok hrun), h.truncateStart metaPairs hle⟩
    | deleteDeadSegments =>
      obtain ⟨_, s', d', hrun, h'⟩ := h.deleteDeadSegments
      exact ⟨s', d', active, congrArg Prod.snd (outcomeOf_ok hrun), h'⟩
    | writeMetadata pairs =>
      obtain ⟨s', d', hrun, h'⟩ := h.writeMetadata pairs
      exact ⟨s', d', active, congrArg Prod.snd (outcomeOf_ok hrun), h'⟩
    | reopen cfg => exact hc.elim

end

section
attribute [local instance] sample

/-- Both ends of the log are cut, and a segment behind the cut is deleted. -/
def trimmed : List Command :=
  [.request (.batch [(⟨4⟩, [1])]), .request (.batch [(⟨6⟩, [2]), (⟨7⟩, [])]),
    .request (.truncateStart ⟨2⟩ []), .truncateEnd ⟨3⟩, .request .deleteDeadSegments,
    .request (.batch [(⟨9⟩, [])])]

end
end Woodshed
