import Woodshed.Outlasting

/-! What a crash leaves of the batches: every file has what it had at its last sync, and a prefix of
what was written to it since. -/
namespace Woodshed
open Sequencing Framing

/-- What was written by batches, and what was promised. -/
structure Ledger where
  written : List Entry
  /-- Up to the last batch whose commit was synced. -/
  acked : List Entry
  /-- Up to the last batch with entries whose commit was synced. -/
  flushed : List Entry

namespace Ledger

def start : Ledger := ⟨[], [], []⟩

/-- A batch whose commit is synced, or dropped. -/
def after (l : Ledger) (ys : List Entry) (sync : Bool) : Ledger :=
  { written := l.written ++ ys
    acked := if sync then l.written ++ ys else l.acked
    flushed := if sync = true ∧ ys ≠ [] then l.written ++ ys else l.flushed }

end Ledger

/-- What a crash can leave of a directory: the files are there, and those of the store keep what was
synced. -/
structure Crashed (d d' : Dir) : Prop where
  present : d'.present = d.present
  mem : ∀ name, name ∈ d'.files ↔ name ∈ d.files
  keeps : ∀ name, name = manifestFileName ∨ (∃ id, name = segmentPath id) →
    ∀ bytes durable, d.bytes name = some bytes → d.durable name = some durable →
      ∃ kept, d'.bytes name = some kept ∧ durable <+: kept ∧ kept <+: bytes

/-- A file with nothing that a crash can take. -/
def Dir.Settled (d : Dir) (name : FileName) : Prop := d.durable name = d.bytes name

instance (d : Dir) (name : FileName) : Decidable (d.Settled name) :=
  inferInstanceAs (Decidable (d.durable name = d.bytes name))

/-- The file as it is when nothing but the synced part is left. -/
def Dir.lose (d : Dir) (name : FileName) : Dir := d.edit name fun f => { f with bytes := f.durable }

section
variable [Crates]

/-- A batch, and what becomes of its commit. -/
def Store.commit (ys : List Entry) (sync : Bool) : StoreM Unit := do
  let c ← Store.batch ys
  if sync then c.sync else return ()

/-- Runs of batches of larger and larger ids. -/
inductive Commits (m₀ : Machine) : Machine → Ledger → Prop
  | here : Commits m₀ m₀ Ledger.start
  | step {m : Machine} {l : Ledger} (h : Commits m₀ m l) (ys : List Entry) (sync : Bool)
      (hasc : (l.written ++ ys).Pairwise fun a b => a.1 < b.1) (hfit : ∀ e ∈ ys, Fits e)
      (hroom : ys ≠ [] → m.store.Room) :
      Commits m₀ (outcomeOf (Store.commit ys sync) m).2 (l.after ys sync)

/-- A directory opens without approval, and the full scan yields just these entries. -/
def ReadsTo (d : Dir) (xs : List Entry) : Prop :=
  ∀ cfg, ∃ s w, Store.openStore cfg (calm d) = .ok s w ∧ Machine.Holds ⟨s, w⟩ xs ∧
    Machine.Yields ⟨s, w⟩ s.firstEntryId xs

/-- Whatever a crash leaves opens without approval, to the first of the written entries, among them
all that were promised. -/
def KeepsAcked (m : Machine) (l : Ledger) : Prop :=
  ∀ d', Crashed m.world.dir d' → ∃ xs, ReadsTo d' xs ∧ l.acked <+: xs ∧ xs <+: l.written

omit [Crates] in
/-- The manifest and the sealed segments have nothing that a crash can take, and no batch without
entries has promised more than the others. -/
structure Settled (m : Machine) (l : Ledger) : Prop where
  manifest : m.world.dir.Settled manifestFileName
  sealedFiles : ∀ seg ∈ m.store.state.segments, seg.id ≠ m.store.activeId →
    m.world.dir.Settled (segmentPath seg.id)
  acked : l.acked = l.flushed

/-! ### What is read -/

theorem ReadsTo.opensTo {d : Dir} {xs : List Entry} (h : ReadsTo d xs) : OpensTo d xs := by
  intro cfg
  obtain ⟨s, w, hopen, hholds, _⟩ := h cfg
  exact ⟨s, w, hopen, hholds⟩

/-- With no head, the full scan is of all that is stored. -/
theorem Nearly.readsTo {d : Dir} {es : List Entry} {st : StoreState} {log : SegmentId → List Entry}
    {active : SegmentEntry} (h : Nearly d es st log active) (ho : Ordered st log)
    (hhead : st.firstEntry = ⟨0⟩) : ReadsTo d (liveLog st log) := by
  intro cfg
  obtain ⟨s, w, hopen, hfirst, hholds⟩ := h.opened ho cfg
  refine ⟨s, w, hopen, hholds, hholds.yields fun e _ => ?_⟩
  rw [show (Machine.mk s w).store.firstEntryId = s.firstEntryId from rfl, hfirst, hhead]
  exact EntryId.zero_le e.1

/-! ### What is durable -/

section
variable {d : Dir} {name other : FileName}

omit [Crates] in
theorem Dir.durable_edit (d : Dir) (name other : FileName) (g : FileData → FileData) :
    (d.edit name g).durable other =
      if other = name then (d.files.lookup name).map fun f => (g f).durable else d.durable other := by
  rw [Dir.durable, Dir.lookup_edit]
  by_cases h : other = name
  · rw [if_pos h, if_pos h, Option.map_map]
    rfl
  · rw [if_neg h, if_neg h, Dir.durable]

omit [Crates] in
/-- A write is not durable by itself. -/
theorem Dir.durable_writeAt (d : Dir) (name other : FileName) (pos : ℕ) (data : Bytes) :
    (d.writeAt name pos data).durable other = d.durable other := by
  rw [Dir.writeAt, Dir.durable_edit]
  split
  · rename_i heq
    rw [heq]
    rfl
  · rfl

omit [Crates] in
theorem Dir.durable_sync (d : Dir) (name other : FileName) :
    (d.sync name).durable other = if other = name then d.bytes name else d.durable other := by
  rw [Dir.sync, Dir.durable_edit]
  rfl

omit [Crates] in
theorem Dir.durable_create (d : Dir) (name other : FileName) (magic : Bytes) :
    (d.create name magic).durable other = if other = name then some magic else d.durable other := by
  rw [Dir.durable, Dir.lookup_create]
  split <;> rfl

theorem Dir.durable_appended (d : Dir) (pos : ℕ) (op : ManifestOp) (other : FileName) :
    (d.appended pos op).durable other =
      if other = manifestFileName then (d.appended pos op).bytes manifestFileName
      else d.durable other := by
  rw [Dir.appended, Dir.durable_sync, Dir.bytes_sync, Dir.durable_writeAt]

omit [Crates] in
theorem Dir.bytes_lose (d : Dir) (name other : FileName) :
    (d.lose name).bytes other = if other = name then d.durable name else d.bytes other := by
  rw [Dir.bytes, Dir.lose, Dir.lookup_edit]
  by_cases h : other = name
  · rw [if_pos h, if_pos h, Option.map_map]
    rfl
  · rw [if_neg h, if_neg h, Dir.bytes]

end

/-! ### What a run keeps -/

/-- A session that knows what of its files is durable: in the live segments the frames of `front`. -/
structure Tracked (s : Store) (d : Dir) (es : List Entry) (log : SegmentId → List Entry)
    (active : SegmentEntry) (l : Ledger) (front : SegmentId → List Entry) : Prop where
  session : Session s d es log active
  written : liveLog s.state log = l.written
  dead : s.state.dead = ∅
  head : s.state.firstEntry = ⟨0⟩
  durable : ∀ seg ∈ s.state.segments,
    d.durable (segmentPath seg.id) = some (segmentMagic ++ frames.encodeAll (front seg.id))
  le : ∀ seg ∈ s.state.segments, front seg.id <+: log seg.id
  manifest : d.Settled manifestFileName ∨
    es = [opFrame creation] ∧ d.durable manifestFileName = some manifestMagic
  flushed : (∀ seg ∈ s.state.segments, seg ≠ active → front seg.id = log seg.id) →
    l.flushed = liveLog s.state front
  acked : l.flushed <+: l.acked ∧ l.acked <+: l.written

section
variable {s : Store} {d : Dir} {es : List Entry} {log front : SegmentId → List Entry}
  {active : SegmentEntry} {l : Ledger} {ys : List Entry}

/-- A batch without entries promises what is written, and changes nothing. -/
theorem Tracked.commit_nil (h : Tracked s d es log active l front) (sync : Bool) :
    Store.commit [] sync ⟨s, calm d⟩ = .ok ⟨⟩ ⟨s, calm d⟩ ∧
      Tracked s d es log active (l.after [] sync) front := by
  have hsame : (l.after [] sync).flushed = l.flushed := if_neg fun hsync => hsync.2 rfl
  have hwritten : (l.after [] sync).written = l.written := List.append_nil _
  obtain ⟨hflushed, hacked⟩ := h.acked
  refine ⟨?_, h.session, h.written.trans hwritten.symm, h.dead, h.head, h.durable, h.le, h.manifest,
    fun hsealed => hsame.trans (h.flushed hsealed), ?_⟩
  · rw [Store.commit, bind_ok h.session.batch_nil]
    cases sync <;> rfl
  · rw [hsame, hwritten]
    cases sync with
    | true => exact ⟨(hflushed.trans hacked).trans (List.prefix_append _ _), by simp [Ledger.after]⟩
    | false => exact ⟨hflushed, hacked⟩

/-- What is promised behind a batch. -/
theorem Tracked.acked_after (h : Tracked s d es log active l front) (hne : ys ≠ []) (sync : Bool) :
    (l.after ys sync).flushed <+: (l.after ys sync).acked ∧
      (l.after ys sync).acked <+: (l.after ys sync).written := by
  obtain ⟨hflushed, hacked⟩ := h.acked
  rw [Ledger.after]
  cases sync with
  | true => simp [hne]
  | false =>
    simp only [Bool.false_eq_true, false_and, if_false]
    exact ⟨hflushed, hacked.trans (List.prefix_append _ _)⟩

/-- A session is one whatever is synced. -/
theorem Session.synced (h : Session s d es log active) (name : FileName) :
    Session s (d.sync name) es log active := by
  have hclean : Clean (d.sync name) es s.state log active := by
    refine h.clean.congr ?_ ?_ ?_
    · rw [Dir.sync, Dir.present_edit]
    · exact fun other => Dir.bytes_sync d name other
    · exact fun other => Dir.mem_edit d name other _
  exact ⟨⟨hclean.toKept, h.manifestCursor, h.activeId, h.activeFirst, h.position, h.next, h.pending,
    h.last⟩, h.whole, h.ordered, h.index, h.idle, h.start⟩

/-- A sync of the active segment promises all that is written. -/
theorem Tracked.synced (h : Tracked s d es log active l front) :
    Tracked s (d.sync (segmentPath active.id)) es log active ⟨l.written, l.written, l.written⟩
      (Function.update front active.id (log active.id)) := by
  have hmem := h.session.kept.shaped.mem
  have hinj {seg : SegmentEntry} (hseg : seg ∈ s.state.segments) (hne : seg ≠ active) :
      seg.id ≠ active.id := fun hid => hne (h.session.kept.shaped.inj hseg hmem hid)
  refine ⟨h.session.synced _, h.written, h.dead, h.head, ?_, ?_, ?_, ?_, List.prefix_rfl, List.prefix_rfl⟩
  · intro seg hseg
    rw [Dir.durable_sync]
    by_cases heq : seg = active
    · rw [heq, if_pos rfl, Function.update_self, h.session.kept.holds active hmem]
    · rw [if_neg fun hpath => hinj hseg heq (segmentPath_injective hpath),
        Function.update_of_ne (hinj hseg heq), h.durable seg hseg]
  · intro seg hseg
    by_cases heq : seg = active
    · rw [heq, Function.update_self]
    · rw [Function.update_of_ne (hinj hseg heq)]
      exact h.le seg hseg
  · rw [Dir.Settled, Dir.durable_sync, if_neg (segmentPath_ne_manifest _).symm, Dir.bytes_sync]
    exact h.manifest
  · intro hsealed
    rw [← h.written]
    refine liveLog_congr fun seg hseg => ?_
    by_cases heq : seg = active
    · rw [heq, Function.update_self]
    · exact (hsealed seg hseg heq).symm

/-- A rollover syncs the manifest, and leaves what is not durable of the segment it seals. -/
theorem Tracked.batch_rolled (h : Tracked s d es log active l front) (hp : s.rolloverPending = true)
    {first last : Entry} {rest : List Entry} (hcons : ys = first :: rest)
    (hlast : ys.getLast? = some last) (hasc : (l.written ++ ys).Pairwise fun a b => a.1 < b.1)
    (hfit : ∀ e ∈ ys, Fits e) (hroom : s.Room) :
    ∃ es' log' front', Tracked (((s.buffered ys).rolled first.1).flushed last.1 ys.length)
      ((d.rolled (s.buffered ys) first.1).flushed ((s.buffered ys).rolled first.1)) es' log'
      ⟨s.nextSegId, first.1⟩ (l.after ys false) front' := by
  have hne : ys ≠ [] := by simp [hcons]
  rw [← h.written] at hasc
  obtain ⟨_, hys, hnew⟩ := List.pairwise_append.mp hasc
  have hs := h.session.batch_rolled hp hcons hlast hfit hys hnew hroom
  obtain ⟨hnl, _⟩ := (h.session.buffered ys).1.next_unused
  have hunused : s.state.lists s.nextSegId = false := hnl
  have hnext : (s.buffered ys).nextSegId = s.nextSegId := rfl
  have hold {seg : SegmentEntry} (hseg : seg ∈ s.state.segments) : seg.id ≠ s.nextSegId := by
    intro hid
    rw [← hid, lists_of_mem hseg] at hunused
    cases hunused
  have hnewest {seg : SegmentEntry} (hseg : seg ∈ [(⟨s.nextSegId, first.1⟩ : SegmentEntry)]) :
      seg.id = s.nextSegId := congrArg SegmentEntry.id (List.mem_singleton.mp hseg)
  refine ⟨_, _, Function.update front s.nextSegId [], hs, ?_, h.dead, h.head, ?_, ?_, Or.inl ?_, ?_,
    h.acked_after hne false⟩
  · have hgrown := liveLog_update _ (Function.update log s.nextSegId []) _ hs.kept.shaped ys
    have hrolled : liveLog (rolledState (s.buffered ys) first.1)
        (Function.update log s.nextSegId []) = liveLog s.state log :=
      liveLog_rolled (s := s.buffered ys) first.1 hnl
    exact hgrown.trans (congrArg (· ++ ys) (hrolled.trans h.written))
  · intro seg hseg
    rw [Dir.flushed, Dir.durable_writeAt, Dir.rolled, Dir.durable_appended,
      if_neg (segmentPath_ne_manifest _), Dir.durable_create, hnext]
    rcases List.mem_append.mp hseg with hseg | hseg
    · rw [if_neg fun hpath => hold hseg (segmentPath_injective hpath),
        Function.update_of_ne (hold hseg), h.durable seg hseg]
    · rw [hnewest hseg, if_pos rfl, Function.update_self, Grammar.encodeAll_nil, List.append_nil]
  · intro seg hseg
    rcases List.mem_append.mp hseg with hseg | hseg
    · rw [Function.update_of_ne (hold hseg), Function.update_of_ne (hold hseg),
        Function.update_of_ne (hold hseg)]
      exact h.le seg hseg
    · rw [hnewest hseg, Function.update_self]
      exact List.nil_prefix
  · rw [Dir.Settled, Dir.flushed, Dir.durable_writeAt, Dir.bytes_writeAt,
      if_neg (segmentPath_ne_manifest _).symm, Dir.rolled, Dir.durable_appended, if_pos rfl]
  · intro hsealed
    have hfront : liveLog (rolledState (s.buffered ys) first.1)
        (Function.update front s.nextSegId []) = liveLog s.state front :=
      liveLog_rolled (s := s.buffered ys) first.1 hnl
    refine (h.flushed fun seg hseg _ => ?_).trans hfront.symm
    have hsame := hsealed seg (List.mem_append_left _ hseg) fun heq => hold hseg (by rw [heq])
    rwa [Function.update_of_ne (hold hseg), Function.update_of_ne (hold hseg),
      Function.update_of_ne (hold hseg)] at hsame

/-- Without a rollover the active segment has more that is not durable. -/
theorem Tracked.batch_same (h : Tracked s d es log active l front) {last : Entry} (hne : ys ≠ [])
    (hlast : ys.getLast? = some last) (hasc : (l.written ++ ys).Pairwise fun a b => a.1 < b.1)
    (hfit : ∀ e ∈ ys, Fits e) :
    ∃ log', Tracked ((s.buffered ys).flushed last.1 ys.length) (d.flushed (s.buffered ys)) es log' active
      (l.after ys false) front := by
  have hmem := h.session.kept.shaped.mem
  rw [← h.written] at hasc
  obtain ⟨_, hys, hnew⟩ := List.pairwise_append.mp hasc
  have hs := h.session.batch_same hlast hfit hys hnew
  have hinj {seg : SegmentEntry} (hseg : seg ∈ s.state.segments) (hne : seg ≠ active) :
      seg.id ≠ active.id := fun hid => hne (h.session.kept.shaped.inj hseg hmem hid)
  refine ⟨_, hs, ?_, h.dead, h.head, ?_, ?_, ?_, ?_, h.acked_after hne false⟩
  · exact (liveLog_update _ _ _ h.session.kept.shaped ys).trans (congrArg (· ++ ys) h.written)
  · intro seg hseg
    rw [Dir.flushed, Dir.durable_writeAt]
    exact h.durable seg hseg
  · intro seg hseg
    by_cases heq : seg = active
    · rw [heq, Function.update_self]
      exact (h.le active hmem).trans (List.prefix_append _ _)
    · rw [Function.update_of_ne (hinj hseg heq)]
      exact h.le seg hseg
  · rw [Dir.Settled, Dir.flushed, Dir.durable_writeAt, Dir.bytes_writeAt,
      if_neg (segmentPath_ne_manifest _).symm]
    exact h.manifest
  · intro hsealed
    refine h.flushed fun seg hseg heq => ?_
    have hsame := hsealed seg hseg heq
    rwa [Function.update_of_ne (hinj hseg heq)] at hsame

theorem Tracked.batch (h : Tracked s d es log active l front) (hne : ys ≠ [])
    (hasc : (l.written ++ ys).Pairwise fun a b => a.1 < b.1) (hfit : ∀ e ∈ ys, Fits e)
    (hroom : s.Room) :
    ∃ s' d' es' log' active' front', Store.batch ys ⟨s, calm d⟩ = .ok (some active'.id) ⟨s', calm d'⟩ ∧
      Tracked s' d' es' log' active' (l.after ys false) front' := by
  obtain ⟨first, rest, hcons⟩ := List.exists_cons_of_ne_nil hne
  have hlast := List.getLast?_eq_some_getLast hne
  have hrun := h.session.batch_eq hcons hlast hroom
  by_cases hp : s.rolloverPending = true
  · have hs : (s.buffered ys).readyFor first.1 = (s.buffered ys).rolled first.1 := if_pos hp
    have hd : d.readyFor (s.buffered ys) first.1 = d.rolled (s.buffered ys) first.1 := if_pos hp
    rw [hs, hd] at hrun
    obtain ⟨es', log', front', ht⟩ := h.batch_rolled hp hcons hlast hasc hfit hroom
    exact ⟨_, _, es', log', _, front', hrun, ht⟩
  · have hs : (s.buffered ys).readyFor first.1 = s.buffered ys := if_neg hp
    have hd : d.readyFor (s.buffered ys) first.1 = d := if_neg hp
    rw [hs, hd] at hrun
    obtain ⟨log', ht⟩ := h.batch_same hne hlast hasc hfit
    refine ⟨_, _, es, log', active, front, hrun.trans ?_, ht⟩
    rw [show (s.buffered ys).activeId = active.id from h.session.activeId]

/-- What a batch and its commit keep. -/
theorem Tracked.commit (h : Tracked s d es log active l front)
    (hasc : (l.written ++ ys).Pairwise fun a b => a.1 < b.1) (hfit : ∀ e ∈ ys, Fits e)
    (hroom : ys ≠ [] → s.Room) (sync : Bool) :
    ∃ s' d' es' log' active' front', Store.commit ys sync ⟨s, calm d⟩ = .ok ⟨⟩ ⟨s', calm d'⟩ ∧
      Tracked s' d' es' log' active' (l.after ys sync) front' := by
  by_cases hne : ys = []
  · subst hne
    obtain ⟨hrun, ht⟩ := h.commit_nil sync
    exact ⟨s, d, es, log, active, front, hrun, ht⟩
  · obtain ⟨s', d', es', log', active', front', hrun, ht⟩ := h.batch hne hasc hfit (hroom hne)
    cases sync with
    | false => exact ⟨s', d', es', log', active', front', bind_ok hrun, ht⟩
    | true =>
      have hsync : Commit.sync (some active'.id) ⟨s', calm d'⟩ =
          .ok ⟨⟩ ⟨s', calm (d'.sync (segmentPath active'.id))⟩ := fs_ok (File.syncAll_calm _ _ _)
      have hafter : l.after ys true = ⟨l.written ++ ys, l.written ++ ys, l.written ++ ys⟩ := by
        simp [Ledger.after, hne]
      refine ⟨s', d'.sync (segmentPath active'.id), es', log', active',
        Function.update front' active'.id (log' active'.id), (bind_ok hrun).trans hsync, ?_⟩
      rw [hafter]
      exact ht.synced

/-- A new store: its first segment is durable, the op that creates it is not. -/
theorem Fresh.tracked {d : Dir} (hd : Fresh d) (cfg : StoreCfg) :
    ∃ s, Store.openOrCreate cfg (calm d) = .ok s (calm d.formatted) ∧
      Tracked s d.formatted [opFrame creation] (fun _ => []) firstSegment Ledger.start fun _ => [] := by
  obtain ⟨s, hopen, hs, _, hst, _⟩ := hd.session cfg
  refine ⟨s, hopen, hs, ?_, ?_, ?_, ?_, ?_, Or.inr ⟨rfl, ?_⟩, ?_, List.prefix_rfl, List.prefix_rfl⟩
  · rw [hst]
    rfl
  · rw [hst]
    rfl
  · rw [hst]
    rfl
  · intro seg hseg
    rw [hst] at hseg
    have hid : seg.id = ⟨1⟩ := congrArg SegmentEntry.id (List.mem_singleton.mp hseg)
    rw [hid, Dir.formatted, Dir.durable_writeAt, Dir.durable_create, if_pos rfl,
      Grammar.encodeAll_nil, List.append_nil]
  · exact fun _ _ => List.prefix_rfl
  · rw [Dir.formatted, Dir.durable_writeAt, Dir.durable_create,
      if_neg (segmentPath_ne_manifest _).symm, Dir.durable_create, if_pos rfl]
  · intro _
    rw [hst]
    rfl

end

/-- Every run leaves a store that knows what of its files is durable. -/
theorem Commits.tracked {d : Dir} (hd : Fresh d) {cfg : StoreCfg} {s : Store} {w : World}
    (hopen : Store.openOrCreate cfg (calm d) = .ok s w) {m : Machine} {l : Ledger}
    (hr : Commits ⟨s, w⟩ m l) :
    ∃ s d es log active front, m = ⟨s, calm d⟩ ∧ Tracked s d es log active l front := by
  induction hr with
  | here =>
    obtain ⟨s', hopen', ht⟩ := hd.tracked cfg
    rw [hopen] at hopen'
    obtain ⟨rfl, rfl⟩ := EStateM.Result.ok.inj hopen'
    exact ⟨s, _, _, _, _, _, rfl, ht⟩
  | step _ ys sync hasc hfit hroom ih =>
    obtain ⟨s', d', es, log, active, front, rfl, ht⟩ := ih
    obtain ⟨s'', d'', es', log', active', front', hrun, ht'⟩ := ht.commit hasc hfit hroom sync
    rw [outcomeOf_ok hrun]
    exact ⟨s'', d'', es', log', active', front', rfl, ht'⟩

/-! ### What a crash leaves -/

/-- The entries that are whole in what is left of a segment. -/
def foundIn (d : Dir) (id : SegmentId) : List Entry := (frames.decode (body d id)).items

omit [Crates] in
/-- Where one has less in the active segment only, it has less at the end. -/
theorem liveLog_prefix {st : StoreState} {active : SegmentEntry} (hs : Shaped st active)
    {log log' : SegmentId → List Entry}
    (hsame : ∀ seg ∈ st.segments, seg ≠ active → log seg.id = log' seg.id)
    (hle : log active.id <+: log' active.id) : liveLog st log <+: liveLog st log' := by
  have hold : (st.segments.dropLast.flatMap fun seg => log seg.id) =
      st.segments.dropLast.flatMap fun seg => log' seg.id := by
    apply List.flatMap_congr
    intro seg hseg
    obtain ⟨hmem, hne⟩ := hs.dropLast hseg
    exact hsame seg hmem hne
  rw [liveLog_split hs, liveLog_split hs, hold]
  exact (List.prefix_append_right_inj _).mpr hle

omit [Crates] in
/-- What is in front of an entry comes with it. -/
theorem mem_of_prefix {xs all : List Entry} (hp : xs <+: all)
    (hasc : all.Pairwise fun a b => a.1 < b.1) {e f : Entry} (he : e ∈ xs) (hf : f ∈ all)
    (hlt : f.1 < e.1) : f ∈ xs := by
  obtain ⟨ys, rfl⟩ := hp
  rcases List.mem_append.mp hf with hf | hf
  · exact hf
  · exact absurd hlt (lt_asymm ((List.pairwise_append.mp hasc).2.2 e he f hf))

section
variable {s : Store} {d d' : Dir} {es : List Entry} {log front : SegmentId → List Entry}
  {active seg : SegmentEntry} {l : Ledger} {xs : List Entry}

theorem Tracked.fits_front (h : Tracked s d es log active l front) (hseg : seg ∈ s.state.segments) :
    ∀ e ∈ front seg.id, Fits e := fun e he =>
  h.session.whole seg hseg e ((h.le seg hseg).subset he)

/-- What is durable of a file is the first part of it. -/
theorem Tracked.durable_prefix (h : Tracked s d es log active l front) {name : FileName}
    (hname : name = manifestFileName ∨ ∃ id, name = segmentPath id) {bytes durable : Bytes}
    (hbytes : d.bytes name = some bytes) (hdurable : d.durable name = some durable) :
    durable <+: bytes := by
  rcases hname with rfl | ⟨id, rfl⟩
  · rcases h.manifest with hsettled | ⟨_, hmagic⟩
    · rw [hsettled, hbytes] at hdurable
      rw [Option.some.inj hdurable]
    · rw [h.session.kept.recorded.manifest] at hbytes
      rw [hmagic] at hdurable
      rw [← Option.some.inj hbytes, ← Option.some.inj hdurable]
      exact List.prefix_append _ _
  · obtain ⟨_, hlists | hdead⟩ := h.session.kept.filed.known _ (Dir.mem_of_bytes hbytes) id
      (parseSegmentPath_segmentPath id)
    · obtain ⟨seg, hseg, rfl⟩ := (lists_iff _ _).mp hlists
      rw [h.session.kept.holds seg hseg] at hbytes
      rw [h.durable seg hseg] at hdurable
      obtain ⟨rest, hrest⟩ := h.le seg hseg
      rw [← Option.some.inj hbytes, ← Option.some.inj hdurable, ← hrest, Grammar.encodeAll_append]
      exact (List.prefix_append_right_inj _).mpr (List.prefix_append _ _)
    · rw [h.dead] at hdead
      exact absurd hdead (Finset.notMem_empty _)

/-- It can happen that only one file loses something. -/
theorem Tracked.crashed_lose (h : Tracked s d es log active l front) (name : FileName) :
    Crashed d (d.lose name) := by
  refine ⟨Dir.present_edit d name _, fun other => Dir.mem_edit d name other _, ?_⟩
  intro other hstore bytes durable hbytes hdurable
  have hle := h.durable_prefix hstore hbytes hdurable
  by_cases heq : other = name
  · refine ⟨durable, ?_, List.prefix_rfl, hle⟩
    rw [Dir.bytes_lose, if_pos heq, ← heq, hdurable]
  · refine ⟨bytes, ?_, hle, List.prefix_rfl⟩
    rw [Dir.bytes_lose, if_neg heq, hbytes]

/-- In a live segment are found the durable entries, and the first ones behind these. -/
theorem Tracked.found (h : Tracked s d es log active l front) (hc : Crashed d d')
    (hseg : seg ∈ s.state.segments) : HasSegment d' seg.id ∧ front seg.id <+: foundIn d' seg.id ∧
      foundIn d' seg.id <+: log seg.id := by
  obtain ⟨kept, hkept, ⟨zs, rfl⟩, hle⟩ := hc.keeps _ (Or.inr ⟨seg.id, rfl⟩) _ _
    (h.session.kept.holds seg hseg) (h.durable seg hseg)
  rw [List.append_assoc] at hkept hle
  have hle := (List.prefix_append_right_inj _).mp hle
  have hbody := body_eq hkept
  refine ⟨hasSegment_of hkept, ?_, ?_⟩
  · rw [foundIn, hbody]
    exact frames.prefix_decode _ _ (h.fits_front hseg) (List.prefix_append _ _)
  · obtain ⟨k, _, hitems, _⟩ := frames.decode_prefix _ _ (h.session.whole seg hseg) hle
    rw [foundIn, hbody, hitems]
    exact List.take_prefix _ _

/-- A sealed segment with nothing to lose. -/
theorem Tracked.front_eq (h : Tracked s d es log active l front) (hseg : seg ∈ s.state.segments)
    (hsettled : d.Settled (segmentPath seg.id)) : front seg.id = log seg.id := by
  rw [Dir.Settled, h.durable seg hseg, h.session.kept.holds seg hseg] at hsettled
  have heq := List.append_cancel_left (Option.some.inj hsettled)
  have hdec := congrArg (fun bytes => (frames.decode bytes).items) heq
  rwa [frames.decode_encodeAll _ (h.session.whole seg hseg),
    frames.decode_encodeAll _ (h.fits_front hseg)] at hdec

theorem Tracked.recorded_crashed (h : Tracked s d es log active l front) (hc : Crashed d d')
    (hsettled : d.Settled manifestFileName) : Recorded d' es s.state := by
  have hbytes := h.session.kept.recorded.manifest
  obtain ⟨kept, hkept, hfront, hle⟩ := hc.keeps _ (Or.inl rfl) _ _ hbytes (hsettled.trans hbytes)
  refine ⟨?_, h.session.kept.recorded.fits, h.session.kept.recorded.replays⟩
  rw [hkept, hle.eq_of_length_le hfront.length_le]

/-- With the manifest and the sealed segments as they were, an open mends the rest. -/
theorem Tracked.nearly_crashed (h : Tracked s d es log active l front) (hc : Crashed d d')
    (hsettled : d.Settled manifestFileName)
    (hsealed : ∀ seg ∈ s.state.segments, seg ≠ active → d.Settled (segmentPath seg.id)) :
    Nearly d' es s.state (foundIn d') active ∧
      ∀ seg ∈ s.state.segments, seg ≠ active → foundIn d' seg.id = log seg.id := by
  have hsame : ∀ seg ∈ s.state.segments, seg ≠ active → foundIn d' seg.id = log seg.id := by
    intro seg hseg hne
    obtain ⟨_, hfront, hle⟩ := h.found hc hseg
    rw [h.front_eq hseg (hsealed seg hseg hne)] at hfront
    exact hle.eq_of_length_le hfront.length_le
  refine ⟨⟨hc.present.trans h.session.kept.present, h.recorded_crashed hc hsettled,
    h.session.kept.shaped, fun seg hseg => (h.found hc hseg).1, ?_, rfl, ?_,
    fun name hname => h.session.kept.filed.known name ((hc.mem name).mp hname),
    h.session.kept.room, fun seg _ => (frames.decode_sound _).2.1⟩, hsame⟩
  · intro seg hseg hne
    have hbytes := h.session.kept.holds seg hseg
    obtain ⟨kept, hkept, hfront, hle⟩ := hc.keeps _ (Or.inr ⟨seg.id, rfl⟩) _ _ hbytes
      ((hsealed seg hseg hne).trans hbytes)
    rw [hle.eq_of_length_le hfront.length_le] at hkept
    rw [body_eq hkept, hsame seg hseg hne]
  · intro seg hseg info hi
    have hne : seg ≠ active := by
      rintro rfl
      rw [h.session.kept.shaped.unsealed] at hi
      cases hi
    rw [hsame seg hseg hne]
    exact h.session.kept.sealsOk seg hseg info hi

/-- What is promised is found, in front of what else is found of the written. -/
theorem Tracked.keepsAcked (h : Tracked s d es log active l front) (hs : Settled ⟨s, calm d⟩ l) :
    KeepsAcked ⟨s, calm d⟩ l := by
  intro d' hc
  have hsealed : ∀ seg ∈ s.state.segments, seg ≠ active → d.Settled (segmentPath seg.id) := by
    intro seg hseg hne
    refine hs.sealedFiles seg hseg fun hid => hne ?_
    exact h.session.kept.shaped.inj hseg h.session.kept.shaped.mem (hid.trans h.session.activeId)
  have hmem := h.session.kept.shaped.mem
  obtain ⟨hnearly, hsame⟩ := h.nearly_crashed hc hs.manifest hsealed
  obtain ⟨_, hfront, hle⟩ := h.found hc hmem
  have hall : ∀ seg ∈ s.state.segments, seg ≠ active → front seg.id = log seg.id :=
    fun seg hseg hne => h.front_eq hseg (hsealed seg hseg hne)
  refine ⟨liveLog s.state (foundIn d'), ?_, ?_, ?_⟩
  · refine hnearly.readsTo (h.session.ordered.sublist (List.Sublist.refl _) fun seg hseg => ?_) h.head
    exact (h.found hc hseg).2.2.sublist
  · rw [hs.acked, h.flushed hall]
    exact liveLog_prefix h.session.kept.shaped
      (fun seg hseg hne => (hall seg hseg hne).trans (hsame seg hseg hne).symm) hfront
  · rw [← h.written]
    exact liveLog_prefix h.session.kept.shaped hsame hle

/-! ### What a crash may not take -/

/-- A new manifest that loses the op behind its magic number does not open. -/
theorem Tracked.settled_manifest (h : Tracked s d es log active l front)
    (hopens : OpensTo (d.lose manifestFileName) xs) : d.Settled manifestFileName := by
  rcases h.manifest with hsettled | ⟨_, hmagic⟩
  · exact hsettled
  · have hbroken : Broken (d.lose manifestFileName) := by
      refine broken_of_magic ((Dir.present_edit d _ _).trans h.session.kept.present) ?_
      rw [Dir.bytes_lose, if_pos rfl, hmagic]
    obtain ⟨e, herr⟩ := Broken.openOrCreate (w := calm (d.lose manifestFileName)) hbroken
      (legible_calm _) ⟨0⟩
    obtain ⟨s', w', hopen, _⟩ := hopens ⟨0⟩
    have hsame := openOrCreate_of_mem (w := calm (d.lose manifestFileName)) hbroken.present hbroken.mem
      ⟨0⟩
    rw [← hsame, herr] at hopen
    cases hopen

/-- What is read when one segment has lost what it can. -/
theorem Tracked.eq_of_lose (h : Tracked s d es log active l front) (hseg : seg ∈ s.state.segments)
    (hsettled : d.Settled manifestFileName) (hopens : OpensTo (d.lose (segmentPath seg.id)) xs) :
    xs = liveLog s.state (Function.update log seg.id (front seg.id)) := by
  have hc := h.crashed_lose (segmentPath seg.id)
  have hfound : ∀ other ∈ s.state.segments, foundIn (d.lose (segmentPath seg.id)) other.id =
      Function.update log seg.id (front seg.id) other.id := by
    intro other hother
    have hbytes := Dir.bytes_lose d (segmentPath seg.id) (segmentPath other.id)
    by_cases hid : other.id = seg.id
    · rw [hid, if_pos rfl, h.durable seg hseg] at hbytes
      rw [hid, Function.update_self, foundIn, body_eq hbytes,
        frames.decode_encodeAll _ (h.fits_front hseg)]
    · rw [if_neg fun hpath => hid (segmentPath_injective hpath), h.session.kept.holds other hother]
        at hbytes
      rw [Function.update_of_ne hid, foundIn, body_eq hbytes,
        frames.decode_encodeAll _ (h.session.whole other hother)]
  rw [← liveLog_congr hfound]
  exact ((h.recorded_crashed hc hsettled).eq_of_opensTo h.session.kept.shaped (fun _ _ => rfl)
    (fun _ _ => (frames.decode_sound _).2.1) hopens).2

/-- An entry is in one live segment only. -/
theorem Session.segment_unique (h : Session s d es log active) {other : SegmentEntry} {e : Entry}
    (hseg : seg ∈ s.state.segments) (hother : other ∈ s.state.segments) (he : e ∈ log seg.id)
    (he' : e ∈ log other.id) : other = seg := by
  obtain ⟨_, target, _, _, _, hcut⟩ := h.cutting (List.mem_flatMap.mpr ⟨seg, hseg, he⟩)
  rw [h.eq_target hcut hother he', h.eq_target hcut hseg he]

/-- The entries of a sealed segment are in front of those of the active one. -/
theorem Session.sealed_lt (h : Session s d es log active) (hseg : seg ∈ s.state.segments)
    (hne : seg ≠ active) {e f : Entry} (hf : f ∈ log seg.id) (he : e ∈ log active.id) : f.1 < e.1 := by
  have hacross := h.ordered.across_ids
  rw [h.kept.shaped.split] at hacross hseg
  rcases List.mem_append.mp hseg with hold | hlast
  · exact (List.pairwise_append.mp hacross).2.2 seg hold active (by simp) f hf e he
  · exact absurd (List.mem_singleton.mp hlast) hne

/-- A sealed segment that loses an entry keeps none of the later ones from being read. -/
theorem Tracked.settled_sealed (h : Tracked s d es log active l front) (hseg : seg ∈ s.state.segments)
    (hne : seg ≠ active) (hsettled : d.Settled manifestFileName)
    (hopens : OpensTo (d.lose (segmentPath seg.id)) xs) (hle : xs <+: l.written) :
    d.Settled (segmentPath seg.id) := by
  have hxs := h.eq_of_lose hseg hsettled hopens
  obtain ⟨rest, hrest⟩ := h.le seg hseg
  cases rest with
  | nil =>
    rw [List.append_nil] at hrest
    rw [Dir.Settled, h.durable seg hseg, h.session.kept.holds seg hseg, hrest]
  | cons f rest =>
    exfalso
    have hmem := h.session.kept.shaped.mem
    have hnil : log active.id ≠ [] := by
      intro hnil
      rw [(h.session.start hnil).1] at hseg
      exact hne (List.mem_singleton.mp hseg)
    obtain ⟨e, he⟩ := List.exists_mem_of_ne_nil _ hnil
    have hf : f ∈ log seg.id := by
      rw [← hrest]
      simp
    have hactive : active.id ≠ seg.id := fun hid => hne (h.session.kept.shaped.inj hseg hmem hid.symm)
    have hein : e ∈ xs := by
      rw [hxs]
      refine List.mem_flatMap.mpr ⟨active, hmem, ?_⟩
      rwa [Function.update_of_ne hactive]
    -- what is read is a first part of what was written, so the lost entry comes with the later one
    have hfin : f ∈ liveLog s.state log := List.mem_flatMap.mpr ⟨seg, hseg, hf⟩
    rw [← h.written] at hle
    have hkept := mem_of_prefix hle h.session.ordered.liveLog hein hfin
      (h.session.sealed_lt hseg hne hf he)
    rw [hxs] at hkept
    obtain ⟨other, hother, hin⟩ := List.mem_flatMap.mp hkept
    by_cases hid : other.id = seg.id
    · -- the durable entries of the segment are all in front of it
      rw [hid, Function.update_self] at hin
      have hasc := h.session.ordered.inside seg hseg
      rw [← hrest] at hasc
      exact lt_irrefl _ ((List.pairwise_append.mp hasc).2.2 f hin f (by simp))
    · rw [Function.update_of_ne hid] at hin
      exact hid (congrArg SegmentEntry.id (h.session.segment_unique hseg hother hf hin))

/-- With the sealed segments as they were, nothing more is promised than is durable. -/
theorem Tracked.acked_flushed (h : Tracked s d es log active l front)
    (hsettled : d.Settled manifestFileName)
    (hsealed : ∀ seg ∈ s.state.segments, seg ≠ active → d.Settled (segmentPath seg.id))
    (hopens : OpensTo (d.lose (segmentPath active.id)) xs) (hle : l.acked <+: xs) :
    l.acked = l.flushed := by
  have hall : ∀ seg ∈ s.state.segments, seg ≠ active → front seg.id = log seg.id :=
    fun seg hseg hne => h.front_eq hseg (hsealed seg hseg hne)
  have hmem := h.session.kept.shaped.mem
  have hxs : xs = l.flushed := by
    rw [h.eq_of_lose hmem hsettled hopens, h.flushed hall]
    refine liveLog_congr fun seg hseg => ?_
    by_cases heq : seg = active
    · rw [heq, Function.update_self]
    · rw [Function.update_of_ne fun hid => heq (h.session.kept.shaped.inj hseg hmem hid),
        hall seg hseg heq]
  rw [hxs] at hle
  exact hle.eq_of_length_le h.acked.1.length_le

theorem Tracked.settled (h : Tracked s d es log active l front) (hk : KeepsAcked ⟨s, calm d⟩ l) :
    Settled ⟨s, calm d⟩ l := by
  have hloses (name : FileName) : ∃ xs, OpensTo (d.lose name) xs ∧ l.acked <+: xs ∧ xs <+: l.written := by
    obtain ⟨xs, hreads, hacked, hle⟩ := hk _ (h.crashed_lose name)
    exact ⟨xs, hreads.opensTo, hacked, hle⟩
  obtain ⟨_, hopens, _, _⟩ := hloses manifestFileName
  have hmanifest := h.settled_manifest hopens
  have hsealed : ∀ seg ∈ s.state.segments, seg ≠ active → d.Settled (segmentPath seg.id) := by
    intro seg hseg hne
    obtain ⟨_, hopens, _, hle⟩ := hloses (segmentPath seg.id)
    exact h.settled_sealed hseg hne hmanifest hopens hle
  obtain ⟨_, hopens, hacked, _⟩ := hloses (segmentPath active.id)
  refine ⟨hmanifest, fun seg hseg hne => hsealed seg hseg ?_,
    h.acked_flushed hmanifest hsealed hopens hacked⟩
  rintro rfl
  exact hne h.session.activeId.symm

end

/-- In every run of batches, each with its commit synced or dropped, a crash leaves what was promised,
just if nothing can be taken of the manifest and of the sealed segments, and no batch without entries
has promised what others have not. The op that creates the first segment is not synced, nor is the
segment that a rollover seals. -/
theorem Commits.keepsAcked_iff {d : Dir} (hd : Fresh d) {cfg : StoreCfg} {s : Store} {w : World}
    (hopen : Store.openOrCreate cfg (calm d) = .ok s w) {m : Machine} {l : Ledger}
    (hr : Commits ⟨s, w⟩ m l) : KeepsAcked m l ↔ Settled m l := by
  obtain ⟨s, d, es, log, active, front, rfl, h⟩ := hr.tracked hd hopen
  exact ⟨h.settled, h.keepsAcked⟩

end

section
attribute [local instance] sample

/-- Two batches with a rollover in between. The commit of the first one is synced, or dropped. -/
def twoCommits (sync : Bool) (m : Machine) : Machine :=
  (outcomeOf (Store.commit [(⟨2⟩, [])] true) (outcomeOf (Store.commit [(⟨1⟩, [])] sync) m).2).2

def twoLedger (sync : Bool) : Ledger :=
  (Ledger.start.after [(⟨1⟩, [])] sync).after [(⟨2⟩, [])] true

/-- It is a run from a new store. -/
theorem commits_two (sync : Bool) : ∃ m s w, openedBlank ⟨0⟩ = some m ∧
    Store.openOrCreate ⟨0⟩ (calm blank) = .ok s w ∧
    Commits ⟨s, w⟩ (twoCommits sync m) (twoLedger sync) := by
  obtain ⟨s, hopen, _⟩ := fresh_blank.session ⟨0⟩
  have hm : openedBlank ⟨0⟩ = some ⟨s, calm blank.formatted⟩ := by rw [openedBlank, hopen]
  have hroom : ∀ sync, (openedBlank ⟨0⟩).all (fun m => decide (m.store.Room ∧
      (outcomeOf (Store.commit [(⟨1⟩, [])] sync) m).2.store.Room)) = true := by decide +kernel
  have hrooms := hroom sync
  rw [hm] at hrooms
  obtain ⟨hfirst, hsecond⟩ := of_decide_eq_true hrooms
  refine ⟨_, s, _, hm, hopen, Commits.step (Commits.step Commits.here [(⟨1⟩, [])] sync ?_ ?_
    fun _ => hfirst) [(⟨2⟩, [])] true ?_ ?_ fun _ => hsecond⟩
  · decide
  · simp [Fits]
  · cases sync <;> decide
  · simp [Fits]

/-- What is true of the machine behind the two batches. -/
theorem run_two (sync : Bool) {m : Machine} (hm : openedBlank ⟨0⟩ = some m) (p : Machine → Prop)
    [DecidablePred p]
    (h : (openedBlank ⟨0⟩).all (fun m => decide (p (twoCommits sync m))) = true) :
    p (twoCommits sync m) := by
  rw [hm] at h
  exact of_decide_eq_true h

/-- With both commits synced the two entries survive every crash. -/
theorem Commits.keepsAcked_iff_synced : ∃ m, openedBlank ⟨0⟩ = some m ∧
    KeepsAcked (twoCommits true m) (twoLedger true) := by
  obtain ⟨m, s, w, hm, hopen, hr⟩ := commits_two true
  refine ⟨m, hm, (Commits.keepsAcked_iff fresh_blank hopen hr).mpr ⟨?_, ?_, by decide⟩⟩
  · exact run_two true hm (fun m => m.world.dir.Settled manifestFileName) (by decide +kernel)
  · exact run_two true hm (fun m => ∀ seg ∈ m.store.state.segments, seg.id ≠ m.store.activeId →
      m.world.dir.Settled (segmentPath seg.id)) (by decide +kernel)

/-- Where the first commit is dropped, the segment that the second batch seals can lose its entry, and
does not open then, for all that the second commit is synced. -/
theorem Commits.not_keepsAcked : ¬ ∀ d cfg s w, Fresh d → Store.openOrCreate cfg (calm d) = .ok s w →
    ∀ m l, Commits ⟨s, w⟩ m l → KeepsAcked m l := by
  intro hall
  obtain ⟨m, s, w, hm, hopen, hr⟩ := commits_two false
  have hkeeps := hall blank ⟨0⟩ s w fresh_blank hopen _ _ hr
  have hlost := run_two false hm (fun m => ¬ ∀ seg ∈ m.store.state.segments,
    seg.id ≠ m.store.activeId → m.world.dir.Settled (segmentPath seg.id)) (by decide +kernel)
  obtain ⟨s', d', _, _, _, _, hmachine, h⟩ := hr.tracked fresh_blank hopen
  rw [hmachine] at hkeeps hlost
  exact hlost (h.settled hkeeps).sealedFiles

end
end Woodshed
