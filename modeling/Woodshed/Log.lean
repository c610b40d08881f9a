import Woodshed.Repair

/-! What the files of a store hold, next to the state its manifest records: the frames of every
live segment, what is known of sealed segments, and which files there are. -/
namespace Woodshed
open Sequencing Framing

section
variable [Crates]

/-- The manifest file is the frames `es`, which replay to `st`. -/
structure Recorded (d : Dir) (es : List Entry) (st : StoreState) : Prop where
  manifest : d.bytes manifestFileName = some (manifestMagic ++ frames.encodeAll es)
  fits : ∀ e ∈ es, Fits e
  replays : replayEntries StoreState.empty magicLen es = .ok st

/-- Every live segment file is the frames of `log`. -/
def Holds (d : Dir) (st : StoreState) (log : SegmentId → List Entry) : Prop :=
  ∀ seg ∈ st.segments,
    d.bytes (segmentPath seg.id) = some (segmentMagic ++ frames.encodeAll (log seg.id))

omit [Crates] in
/-- The entries of the live segments, in the order of the segments. -/
def liveLog (st : StoreState) (log : SegmentId → List Entry) : List Entry :=
  st.segments.flatMap fun seg => log seg.id

omit [Crates] in
/-- The live segments behind the first hold no entry before the head. -/
def Headed (st : StoreState) (log : SegmentId → List Entry) : Prop :=
  ∀ seg ∈ st.segments.tail, ∀ e ∈ log seg.id, st.firstEntry ≤ e.1

omit [Crates] in
/-- Every entry of a live segment fits the length field of a frame. -/
def Whole (st : StoreState) (log : SegmentId → List Entry) : Prop :=
  ∀ seg ∈ st.segments, ∀ e ∈ log seg.id, Fits e

/-- Where a segment file ends that holds the frames `es`. -/
def segmentEnd (es : List Entry) : ℕ := magicLen+(frames.encodeAll es).length

theorem segmentEnd_append (es fs : List Entry) :
    segmentEnd (es ++ fs) = segmentEnd es+(frames.encodeAll fs).length := by
  rw [segmentEnd, segmentEnd, Grammar.encodeAll_append, List.length_append, Nat.add_assoc]

omit [Crates] in
/-- The shape of the states that a store goes through: the last segment is the active one, and all
others are sealed. -/
structure Shaped (st : StoreState) (active : SegmentEntry) : Prop where
  last : st.segments.getLast? = some active
  nodup : (st.segments.map (·.id)).Nodup
  activeId : st.activeSegmentId = some active.id
  seals : ∀ id, (st.seals id).isSome = true ↔ st.lists id = true ∧ id ≠ active.id
  dead : ∀ id ∈ st.dead, st.lists id = false

/-- What the manifest records of a sealed segment is true of its frames. -/
def SealsOk (st : StoreState) (log : SegmentId → List Entry) : Prop :=
  ∀ seg ∈ st.segments, ∀ info, st.seals seg.id = some info →
    info.finalSize = UInt64.ofNat (segmentEnd (log seg.id)) ∧
      ∃ e, (log seg.id).getLast? = some e ∧ info.lastEntry = e.1

omit [Crates] in
/-- The segment files of a directory are those of the live and the dead segments. -/
structure Filed (d : Dir) (st : StoreState) : Prop where
  known : ∀ name ∈ d.files, ∀ id, parseSegmentPath name = some id →
    name = segmentPath id ∧ (st.lists id = true ∨ id ∈ st.dead)
  found : ∀ id ∈ st.dead, segmentPath id ∈ d.files

/-- A directory that keeps a store: its manifest records the state, and its files are those of the
state's segments, with `log` in the live ones. An id is left for the next segment. -/
structure Kept (d : Dir) (es : List Entry) (st : StoreState) (log : SegmentId → List Entry)
    (active : SegmentEntry) : Prop where
  present : d.present = true
  recorded : Recorded d es st
  shaped : Shaped st active
  holds : Holds d st log
  sealsOk : SealsOk st log
  filed : Filed d st
  room : ∀ id, st.lists id = true ∨ id ∈ st.dead → id.val.toNat+1 < 2^32

/-- A directory with nothing to recover: the frames in the live files are all valid, too. -/
structure Clean (d : Dir) (es : List Entry) (st : StoreState) (log : SegmentId → List Entry)
    (active : SegmentEntry) : Prop extends Kept d es st log active where
  whole : Whole st log

/-- A directory with nothing to recover, whatever segment ids it uses. -/
structure Sound (d : Dir) (es : List Entry) (st : StoreState) (log : SegmentId → List Entry)
    (active : SegmentEntry) : Prop where
  present : d.present = true
  recorded : Recorded d es st
  shaped : Shaped st active
  holds : Holds d st log
  sealsOk : SealsOk st log
  filed : Filed d st
  whole : Whole st log

theorem Clean.sound {d : Dir} {es : List Entry} {st : StoreState} {log : SegmentId → List Entry}
    {active : SegmentEntry} (h : Clean d es st log active) : Sound d es st log active :=
  ⟨h.present, h.recorded, h.shaped, h.holds, h.sealsOk, h.filed, h.whole⟩

/-! ### Live segments -/

omit [Crates] in
theorem lists_iff (st : StoreState) (id : SegmentId) :
    st.lists id = true ↔ ∃ seg ∈ st.segments, seg.id = id := by
  simp [StoreState.lists]

omit [Crates] in
theorem lists_of_mem {st : StoreState} {seg : SegmentEntry} (h : seg ∈ st.segments) :
    st.lists seg.id = true :=
  (lists_iff st seg.id).mpr ⟨seg, h, rfl⟩

namespace Shaped
variable {st : StoreState} {active : SegmentEntry}

omit [Crates] in
theorem mem (h : Shaped st active) : active ∈ st.segments := List.mem_of_getLast? h.last

omit [Crates] in
theorem nonempty (h : Shaped st active) : st.segments ≠ [] := List.ne_nil_of_mem h.mem

omit [Crates] in
/-- The older segments, and the active one behind them. -/
theorem split (h : Shaped st active) : st.segments = st.segments.dropLast ++ [active] := by
  rw [List.dropLast_append_getLast?]
  exact h.last

omit [Crates] in
/-- A live id names one segment. -/
theorem inj (h : Shaped st active) {a b : SegmentEntry} (ha : a ∈ st.segments)
    (hb : b ∈ st.segments) (heq : a.id = b.id) : a = b :=
  List.inj_on_of_nodup_map h.nodup ha hb heq

omit [Crates] in
theorem find (h : Shaped st active) {seg : SegmentEntry} (hseg : seg ∈ st.segments) :
    st.segments.find? (·.id = seg.id) = some seg := by
  obtain ⟨found, hfound⟩ : ∃ x, st.segments.find? (·.id = seg.id) = some x := by
    rw [← Option.isSome_iff_exists, List.find?_isSome]
    exact ⟨seg, hseg, by simp⟩
  have hid : found.id = seg.id := by simpa using List.find?_some hfound
  rw [hfound, h.inj (List.mem_of_find?_eq_some hfound) hseg hid]

omit [Crates] in
theorem activeSegment (h : Shaped st active) : st.activeSegment = some active := by
  rw [StoreState.activeSegment, h.activeId]
  exact h.find h.mem

omit [Crates] in
theorem unsealed (h : Shaped st active) : st.seals active.id = none := by
  have hnot : ¬ (st.seals active.id).isSome = true := fun hs => ((h.seals active.id).mp hs).2 rfl
  simpa using hnot

omit [Crates] in
theorem seals_of_ne (h : Shaped st active) {seg : SegmentEntry} (hseg : seg ∈ st.segments)
    (hne : seg ≠ active) : ∃ info, st.seals seg.id = some info := by
  rw [← Option.isSome_iff_exists, h.seals]
  exact ⟨lists_of_mem hseg, fun heq => hne (h.inj hseg h.mem heq)⟩

end Shaped

omit [Crates] in
/-- A relation between the segments in order is one between the older ones, and from those to the
active one. -/
theorem Shaped.pairwise_iff {st : StoreState} {active : SegmentEntry} (h : Shaped st active)
    (R : SegmentEntry → SegmentEntry → Prop) :
    st.segments.Pairwise R ↔
      st.segments.dropLast.Pairwise R ∧ ∀ a ∈ st.segments.dropLast, R a active := by
  conv_lhs => rw [h.split]
  simp [List.pairwise_append]

omit [Crates] in
theorem Shaped.dropLast {st : StoreState} {active seg : SegmentEntry} (h : Shaped st active)
    (hseg : seg ∈ st.segments.dropLast) : seg ∈ st.segments ∧ seg ≠ active := by
  have hnd := h.nodup
  rw [h.split, List.map_append, List.nodup_append] at hnd
  refine ⟨List.mem_of_mem_dropLast hseg, ?_⟩
  rintro rfl
  exact hnd.2.2 _ (List.mem_map_of_mem hseg) seg.id (by simp) rfl

omit [Crates] in
theorem liveLog_split {st : StoreState} {log : SegmentId → List Entry} {active : SegmentEntry}
    (h : Shaped st active) :
    liveLog st log = (st.segments.dropLast.flatMap fun seg => log seg.id) ++ log active.id := by
  rw [liveLog]
  conv_lhs => rw [h.split]
  simp

/-! ### Directories -/

theorem Recorded.differs {d d' : Dir} {es : List Entry} {st : StoreState} {name : FileName}
    (h : Recorded d es st) (hd : d.Differs d' name) (hn : manifestFileName ≠ name) :
    Recorded d' es st :=
  ⟨(hd.bytes _ hn).trans h.manifest, h.fits, h.replays⟩

theorem Holds.hasSegment {d : Dir} {st : StoreState} {log : SegmentId → List Entry}
    (h : Holds d st log) {seg : SegmentEntry} (hseg : seg ∈ st.segments) :
    HasSegment d seg.id ∧ body d seg.id = frames.encodeAll (log seg.id) :=
  ⟨hasSegment_of (h seg hseg), body_eq (h seg hseg)⟩

omit [Crates] in
theorem Filed.differs {d d' : Dir} {st : StoreState} {name : FileName} (h : Filed d st)
    (hd : d.Differs d' name) : Filed d' st :=
  ⟨fun other ho => h.known other ((hd.mem other).mp ho),
    fun id hid => (hd.mem _).mpr (h.found id hid)⟩

omit [Crates] in
theorem Filed.mem_diskIds {d : Dir} {st : StoreState} (h : Filed d st) (hfiles : ∀ seg ∈ st.segments, segmentPath seg.id ∈ d.files) (id : SegmentId) :
    id ∈ diskIds d ↔ st.lists id = true ∨ id ∈ st.dead := by
  rw [Woodshed.mem_diskIds]
  constructor
  · rintro ⟨name, hname, hid⟩
    exact (h.known name hname id hid).2
  · rintro (hl | hdead)
    · obtain ⟨seg, hseg, rfl⟩ := (lists_iff st id).mp hl
      exact ⟨segmentPath seg.id, hfiles seg hseg, parseSegmentPath_segmentPath seg.id⟩
    · exact ⟨segmentPath id, h.found id hdead, parseSegmentPath_segmentPath id⟩

namespace Sound
variable {d : Dir} {es : List Entry} {st : StoreState} {log : SegmentId → List Entry}
  {active : SegmentEntry}

theorem layout (h : Sound d es st log active) : Layout d es [] st := by
  refine ⟨h.present, by rw [List.append_nil]; exact h.recorded.manifest, h.recorded.fits, by decide,
    h.recorded.replays, h.shaped.nonempty, fun seg hseg => (h.holds.hasSegment hseg).1, ?_⟩
  intro seg hseg info hi
  rw [(h.holds.hasSegment hseg).2, (h.sealsOk seg hseg info hi).1,
    frames.decode_encodeAll _ (h.whole seg hseg)]
  refine ⟨?_, rfl⟩
  rw [segmentEnd, List.length_append]
  rfl

theorem mem_diskIds (h : Sound d es st log active) (id : SegmentId) :
    id ∈ diskIds d ↔ st.lists id = true ∨ id ∈ st.dead :=
  h.filed.mem_diskIds (fun seg hseg => Dir.mem_of_bytes (h.holds seg hseg)) id

/-- There is nothing to recover. -/
theorem issues (h : Sound d es st log active) : layoutIssues d es [] st = [] := by
  have horphans : findOrphans st (diskIds d) = [] := by
    rw [findOrphans, List.map_eq_nil_iff, List.filter_eq_nil_iff]
    intro id hid hnot
    exact of_decide_eq_true hnot ((h.mem_diskIds id).mp hid)
  have hmissing : findMissingDead st (diskIds d) = [] := by
    rw [findMissingDead, List.map_eq_nil_iff, List.filter_eq_nil_iff]
    intro id hid
    simpa using (h.mem_diskIds id).mpr (Or.inr ((Crates.mem_hashIter _ _).mp hid))
  have htorn : tornIssues d st = [] := by
    rw [tornIssues, List.map_eq_nil_iff, List.filter_eq_nil_iff]
    intro seg hseg
    rw [isTorn, (h.holds.hasSegment hseg).2, frames.decode_encodeAll _ (h.whole seg hseg)]
    simp
  rw [layoutIssues, horphans, hmissing, htorn]
  rfl

end Sound

theorem Clean.layout {d : Dir} {es : List Entry} {st : StoreState} {log : SegmentId → List Entry}
    {active : SegmentEntry} (h : Clean d es st log active) : Layout d es [] st := h.sound.layout

theorem Clean.issues {d : Dir} {es : List Entry} {st : StoreState} {log : SegmentId → List Entry}
    {active : SegmentEntry} (h : Clean d es st log active) : layoutIssues d es [] st = [] :=
  h.sound.issues

/-- Clean directories are known by what a reader sees of the files. -/
theorem Clean.congr {d d' : Dir} {es : List Entry} {st : StoreState} {log : SegmentId → List Entry}
    {active : SegmentEntry} (h : Clean d es st log active) (hp : d'.present = d.present)
    (hbytes : ∀ name, d'.bytes name = d.bytes name)
    (hmem : ∀ name, name ∈ d'.files ↔ name ∈ d.files) : Clean d' es st log active := by
  refine ⟨⟨hp.trans h.present, ⟨?_, h.recorded.fits, h.recorded.replays⟩, h.shaped, ?_, h.sealsOk,
    ⟨?_, ?_⟩, h.room⟩, h.whole⟩
  · rw [hbytes]
    exact h.recorded.manifest
  · intro seg hseg
    rw [hbytes]
    exact h.holds seg hseg
  · intro name hname
    exact h.filed.known name ((hmem name).mp hname)
  · intro id hid
    exact (hmem _).mpr (h.filed.found id hid)

end
end Woodshed
