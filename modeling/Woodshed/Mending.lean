import Woodshed.Reopening

/-! What an open mends without approval of a store that crashed: the removal of a dead file that
was not recorded, and a frame of the active segment that was not written to its end. -/
namespace Woodshed
open Sequencing Framing

section
variable [Crates]

/-- Clean but for what a crash leaves: dead segments whose files are gone already, and a part of a
frame behind the active segment's. -/
structure Nearly (d : Dir) (es : List Entry) (st : StoreState) (log : SegmentId → List Entry)
    (active : SegmentEntry) : Prop where
  present : d.present = true
  recorded : Recorded d es st
  shaped : Shaped st active
  files : ∀ seg ∈ st.segments, HasSegment d seg.id
  sealedBody : ∀ seg ∈ st.segments, seg ≠ active → body d seg.id = frames.encodeAll (log seg.id)
  valid : validPrefix (body d active.id) = frames.encodeAll (log active.id)
  sealsOk : SealsOk st log
  known : ∀ name ∈ d.files, ∀ id, parseSegmentPath name = some id →
    name = segmentPath id ∧ (st.lists id = true ∨ id ∈ st.dead)
  room : ∀ id, st.lists id = true ∨ id ∈ st.dead → id.val.toNat+1 < 2^32
  whole : Whole st log

section
variable {d : Dir} {es : List Entry} {st : StoreState} {log : SegmentId → List Entry}
  {active : SegmentEntry}

theorem Clean.nearly (h : Clean d es st log active) : Nearly d es st log active := by
  refine ⟨h.present, h.recorded, h.shaped, fun seg hseg => (h.holds.hasSegment hseg).1,
    fun seg hseg _ => (h.holds.hasSegment hseg).2, ?_, h.sealsOk, h.filed.known, h.room, h.whole⟩
  rw [(h.holds.hasSegment h.shaped.mem).2, validPrefix_of_clean]
  rw [frames.decode_encodeAll _ (h.whole active h.shaped.mem)]

theorem Nearly.layout (h : Nearly d es st log active) : Layout d es [] st := by
  refine ⟨h.present, by rw [List.append_nil]; exact h.recorded.manifest, h.recorded.fits, by decide,
    h.recorded.replays, h.shaped.nonempty, h.files, ?_⟩
  intro seg hseg info hi
  have hne : seg ≠ active := by
    rintro rfl
    rw [h.shaped.unsealed] at hi
    cases hi
  rw [h.sealedBody seg hseg hne, (h.sealsOk seg hseg info hi).1,
    frames.decode_encodeAll _ (h.whole seg hseg)]
  refine ⟨?_, rfl⟩
  rw [segmentEnd, List.length_append]
  rfl

/-- A dead file that is removed. -/
theorem Nearly.remove (h : Nearly d es st log active) {id : SegmentId} (hid : id ∈ st.dead) :
    Nearly (d.remove (segmentPath id)) es st log active := by
  have hlive {seg : SegmentEntry} (hseg : seg ∈ st.segments) :
      (d.remove (segmentPath id)).bytes (segmentPath seg.id) = d.bytes (segmentPath seg.id) := by
    rw [Dir.bytes_remove, if_neg]
    intro heq
    have hl := h.shaped.dead id hid
    rw [← segmentPath_injective heq, lists_of_mem hseg] at hl
    cases hl
  have hbody {seg : SegmentEntry} (hseg : seg ∈ st.segments) :
      body (d.remove (segmentPath id)) seg.id = body d seg.id := by
    rw [body, body, hlive hseg]
  refine ⟨h.present, ⟨?_, h.recorded.fits, h.recorded.replays⟩, h.shaped, ?_, ?_, ?_, h.sealsOk, ?_,
    h.room, h.whole⟩
  · rw [Dir.bytes_remove, if_neg (segmentPath_ne_manifest id).symm]
    exact h.recorded.manifest
  · intro seg hseg
    rw [HasSegment, hbody hseg, hlive hseg]
    exact h.files seg hseg
  · intro seg hseg hne
    rw [hbody hseg]
    exact h.sealedBody seg hseg hne
  · rw [hbody h.shaped.mem]
    exact h.valid
  · intro name hname
    exact h.known name ((Dir.mem_remove d _ _).mp hname).2

/-- Nothing more is asked of the files that are not those of live segments than canonical names. -/
structure Littered (d : Dir) (es : List Entry) (st : StoreState) (log : SegmentId → List Entry)
    (active : SegmentEntry) : Prop where
  layout : Layout d es [] st
  shaped : Shaped st active
  sealedBody : ∀ seg ∈ st.segments, seg ≠ active → body d seg.id = frames.encodeAll (log seg.id)
  valid : validPrefix (body d active.id) = frames.encodeAll (log active.id)
  sealsOk : SealsOk st log
  canonical : ∀ name ∈ d.files, ∀ id, parseSegmentPath name = some id → name = segmentPath id
  room : ∀ id, st.lists id = true ∨ id ∈ diskIds d → id.val.toNat+1 < 2^32
  whole : Whole st log

theorem Nearly.littered (h : Nearly d es st log active) : Littered d es st log active := by
  refine ⟨h.layout, h.shaped, h.sealedBody, h.valid, h.sealsOk,
    fun name hname id hid => (h.known name hname id hid).1, ?_, h.whole⟩
  intro id hid
  refine h.room id (hid.elim Or.inl fun hdisk => ?_)
  obtain ⟨name, hname, hparse⟩ := (mem_diskIds d id).mp hdisk
  exact (h.known name hname id hparse).2

/-- Opening finishes what was begun: it records the missing dead segments as deleted, and other files
as dead segments. -/
theorem Littered.openStore (h : Littered d es st log active) (cfg : StoreCfg) :
    ∃ s d' es', Store.openStore cfg (calm d) = .ok s (calm d') ∧
      Clean d' es' s.state log active ∧ s.state = { st with dead := s.state.dead } ∧
      (∀ name, name ∈ d'.files ↔ name ∈ d.files) ∧
      ∃ s', Store.openStore cfg (calm d') = .ok s' (calm d') ∧ s' = s := by
  obtain ⟨d', es', st', report, htodo, ht, _, _, hfind, hopen⟩ :=
    h.layout.openStore_ok cfg h.shaped.activeSegment
  have hl := htodo.layout
  have hsegs : st'.segments = st.segments := by rw [ht.state]
  have hseals : st'.seals = st.seals := by rw [ht.state]
  have hdead (id : SegmentId) (hid : id ∈ st'.dead) : id ∈ diskIds d' := by
    by_contra hnot
    obtain ⟨f, hf, _⟩ := htodo.deadDone id hid hnot
    cases hf
  have hshape : Shaped st' active := by
    refine ⟨hsegs ▸ h.shaped.last, hsegs ▸ h.shaped.nodup, ?_, ?_, ?_⟩
    · rw [ht.state]
      exact h.shaped.activeId
    · intro id
      rw [hseals, ht.lists]
      exact h.shaped.seals id
    · intro id hid
      rw [ht.lists, Bool.eq_false_iff]
      intro hlist
      have hold := (ht.dead id ((ht.mem_diskIds id).mp (hdead id hid)) hlist).mp hid
      rw [h.shaped.dead id hold] at hlist
      cases hlist
  -- sealed files stay, and the active one has only whole frames to begin with
  have hholds : Holds d' st' log := by
    intro seg hseg
    rw [hsegs] at hseg
    by_cases heq : seg = active
    · have hvalid := ht.cuts seg hseg
      rw [heq, h.valid, ← heq] at hvalid
      have hclean : (frames.decode (body d' seg.id)).stop = .clean := by
        by_contra hstop
        have htorn : isTorn d' st' seg.id = true := by
          rw [isTorn, hseals, heq, h.shaped.unsealed]
          rw [heq] at hstop
          simpa using hstop
        obtain ⟨f, hf, _⟩ := htodo.cutDone seg (hsegs ▸ hseg) htorn
        cases hf
      rw [validPrefix_of_clean hclean] at hvalid
      have hhas := hl.files seg (hsegs ▸ hseg)
      rw [HasSegment, hvalid] at hhas
      exact hhas
    · rw [ht.files _ (segmentPath_ne_manifest _) ?_]
      · have hfile := h.layout.files seg hseg
        rwa [HasSegment, h.sealedBody seg hseg heq] at hfile
      · intro id hid _
        obtain ⟨info, hi⟩ := h.shaped.seals_of_ne hseg heq
        rw [← segmentPath_injective hid, hi]
        rintro ⟨⟩
  have hclean : Clean d' es' st' log active := by
    refine ⟨⟨hl.present, ⟨?_, hl.fits, hl.replays⟩, hshape, hholds, ?_, ⟨?_, ?_⟩, ?_⟩, ?_⟩
    · rw [hl.manifest, List.append_nil]
    · intro seg hseg info hi
      rw [hsegs] at hseg
      rw [hseals] at hi
      exact h.sealsOk seg hseg info hi
    · intro name hname id hid
      refine ⟨h.canonical name ((ht.mem name).mp hname) id hid, ?_⟩
      by_contra hnot
      obtain ⟨hlist, hnd⟩ := not_or.mp hnot
      obtain ⟨f, hf, _⟩ := htodo.orphanDone id ((mem_diskIds d' id).mpr ⟨name, hname, hid⟩)
        (Bool.eq_false_iff.mpr hlist) hnd
      cases hf
    · intro id hid
      obtain ⟨name, hname, hparse⟩ := (mem_diskIds d' id).mp (hdead id hid)
      rw [← h.canonical name ((ht.mem name).mp hname) id hparse]
      exact hname
    · intro id hid
      rw [ht.lists] at hid
      exact h.room id (hid.imp_right fun hd => (ht.mem_diskIds id).mp (hdead id hd))
    · intro seg hseg
      exact h.whole seg (hsegs ▸ hseg)
  have hstate : (storeOf cfg (survey d') active report).state = st' := by
    rw [storeOf, hl.survey_eq]
  have hissues : (survey d').issues = [] := by
    rw [hl.survey_eq]
    exact hclean.issues
  refine ⟨storeOf cfg (survey d') active report, d', es', hopen, by rw [hstate]; exact hclean, ?_,
    ht.mem, _, ?_, rfl⟩
  · rw [hstate]
    exact ht.state
  · unfold Store.openStore
    rw [bind_ok (onScan_ok (scan_calm d')), if_pos hissues]
    refine fromScanReport_ok cfg hissues ?_ hfind hclean.recorded.manifest
    rw [hl.survey_eq]
    exact hshape.activeSegment

theorem Nearly.openStore (h : Nearly d es st log active) (cfg : StoreCfg) :
    ∃ s d' es', Store.openStore cfg (calm d) = .ok s (calm d') ∧
      Clean d' es' s.state log active ∧ s.state = { st with dead := s.state.dead } ∧
      (∀ name, name ∈ d'.files ↔ name ∈ d.files) ∧
      ∃ s', Store.openStore cfg (calm d') = .ok s' (calm d') ∧ s' = s :=
  h.littered.openStore cfg

end

end
end Woodshed
