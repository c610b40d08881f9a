import Woodshed.Consuming
import Woodshed.Failing
import Woodshed.Revising

/-! Iterating a scan while opens and reads fail: whether the end of the iteration can come before an
entry that is stored. -/
namespace Woodshed
open Sequencing Framing FrameScanner

/-- What an iteration came to, up to its end or its first error. -/
structure Exhausted where
  ids : List EntryId
  /-- The error that ended the iteration. -/
  error : Option IoError
  /-- No skip of a dropped reader failed. -/
  skipped : Bool

/-- The drop of the reader gets no read failure. -/
def FrameReader.skips (r : FrameReader) (s : FrameScanner) : Bool :=
  decide (r.remaining = 0) || succeeds (Stream.skip r.remaining s.reader)

/-- Iterate to the end or to the first error. Of each entry the payload is read into buffers of the
sizes that the pattern has for it; then its reader is dropped. -/
def StoreReader.exhaust : ℕ → (ℕ → List ℕ) → StoreReader → StoreM Exhausted
  | 0, _, _ => throw .diverges
  | steps+1, pattern, r => do
    match ← r.next with
    | (some (.ok reader), ⟨some (seg, s)⟩) =>
      let (_, reader', s') := reader.consume (pattern 0) s
      let rest ← StoreReader.exhaust steps (fun i => pattern (i+1)) ⟨some (seg, reader'.drop s')⟩
      return ⟨reader.id :: rest.ids, rest.error, reader'.skips s' && rest.skipped⟩
    | (some (.error e), _) => return ⟨[], some e, true⟩
    | _ => return ⟨[], none, true⟩

/-- `scan(from)`, iterated in this way. -/
def Store.scanToEnd (steps : ℕ) (pattern : ℕ → List ℕ) (fromId : EntryId) : StoreM Exhausted := do
  let r ← Store.scan fromId
  r.exhaust steps pattern

/-- The scan's own open of the segment it starts at, and the seek in it, get no read failure. -/
def Machine.Starts (m : Machine) (fromId : EntryId) : Prop :=
  ∃ segId offset file n w, m.store.scanStart (max fromId m.store.state.firstEntry) =
      some (segId, offset) ∧ openSegment segId m.world = .ok (file, n) w ∧
    succeeds (FrameScanner.seekToId (max fromId m.store.state.firstEntry)
      (FrameScanner.new file offset)) = true

/-! ### Streams of which some reads fail -/

/-- The reader stands in the payload of a frame: behind what is left of it the stream goes on with
`rest`. -/
structure Inside (r : FrameReader) (s : FrameScanner) (rest : Bytes) : Prop where
  enough : r.remaining ≤ s.reader.rest.length
  behind : s.reader.rest.drop r.remaining = rest
  peeked : s.peeked = none

theorem Inside.took {r r' : FrameReader} {s s' : FrameScanner} {rest bs : Bytes}
    (h : Inside r s rest) (ht : r.Took s bs r' s') : Inside r' s' rest := by
  have hwithin := ht.within
  have hbytes := ht.bytes
  have henough := h.enough
  have hleft := ht.left
  subst hleft
  refine ⟨?_, ?_, ht.peeked.trans h.peeked⟩
  · rw [hbytes, List.length_append] at henough
    dsimp only
    omega
  · rw [← h.behind, hbytes, List.drop_append, List.drop_eq_nil_of_le hwithin, List.nil_append]

/-- Reads stay inside the payload, whether they fail or not. -/
theorem Inside.consume {r : FrameReader} {s : FrameScanner} {rest : Bytes} (h : Inside r s rest)
    (ns : List ℕ) : ∃ bs r' s', r.consume ns s = (bs, r', s') ∧ Inside r' s' rest := by
  obtain ⟨bs, r', s', hrun, htook⟩ := r.consume_took ns s
  exact ⟨bs, r', s', hrun, h.took htook⟩

/-- A drop without a read failure leaves the stream behind the payload. -/
theorem Inside.drop {r : FrameReader} {s : FrameScanner} {rest : Bytes} (h : Inside r s rest)
    (hskip : r.skips s = true) : (r.drop s).reader.rest = rest ∧ (r.drop s).peeked = none := by
  unfold FrameReader.drop
  by_cases h0 : r.remaining = 0
  · rw [if_neg (by omega), ← h.behind, h0, List.drop_zero]
    exact ⟨rfl, h.peeked⟩
  · rw [if_pos (by omega)]
    rw [FrameReader.skips, decide_eq_false h0, Bool.false_or] at hskip
    obtain ⟨n, t, hrun⟩ := exists_of_succeeds hskip
    refine ⟨?_, h.peeked⟩
    dsimp only
    rw [Stream.behindSkip, hrun]
    exact (Stream.skip_ok hrun).trans h.behind

/-! ### Opening segments while opens and reads fail -/

theorem open_triple (name : FileName) (d : Dir) :
    Triple (fun w => w.dir = d) (File.open name)
      (fun f w => w.dir = d ∧ d.bytes name = some f.stream.rest) (fun w => w.dir = d) := by
  unfold File.open
  refine Triple.get fun w hw => ?_
  subst hw
  cases hb : w.dir.bytes name with
  | none =>
    rcases hopens : w.faults.opens with _ | ⟨_ | reads, rest⟩
    all_goals
      rintro _ rfl
      rfl
  | some bytes =>
    rcases hopens : w.faults.opens with _ | ⟨_ | reads, rest⟩
    · rintro _ rfl
      exact ⟨rfl, rfl⟩
    · rintro _ rfl
      rfl
    · rintro _ rfl
      exact ⟨rfl, rfl⟩

theorem openSegment_triple {d : Dir} {id : SegmentId} (h : HasSegment d id) :
    Triple (fun w => w.dir = d) (openSegment id)
      (fun x w => w.dir = d ∧ x.1.stream.rest = body d id) (fun w => w.dir = d) := by
  unfold openSegment
  refine Triple.bind (open_triple (segmentPath id) d) fun f => ?_
  rintro w ⟨hw, hbytes⟩
  unfold checkMagic
  cases hread : Stream.readExact magicLen f.stream with
  | error e t => exact hw
  | ok magic t =>
    dsimp only
    by_cases hmagic : magic ≠ segmentMagic
    · rw [if_pos hmagic]
      exact hw
    · rw [if_neg hmagic]
      refine ⟨hw, ?_⟩
      have hfile := Option.some.inj (hbytes.symm.trans h)
      rw [(Stream.readExact_ok hread).2.1, hfile]
      exact List.drop_left' rfl

/-! ### The scanner in front of frames -/

section
variable [Crates]

/-- A scanner in front of the frames `es`, with or without the first header peeked, some of whose
reads may fail. -/
def Fronts (s : FrameScanner) (es : List Entry) : Prop :=
  s.peeked = none ∧ s.reader.rest = frames.encodeAll es ∨
    ∃ e rest p, es = e :: rest ∧ s.reader.rest = e.2 ++ frames.encodeAll rest ∧
      s.peeked = some (frameHeader e, p)

theorem Fronts.peekHeader {s s' : FrameScanner} {es : List Entry} (h : Fronts s es)
    {p : Option (Bytes × ℕ)} (hrun : s.peekHeader = .ok p s') :
    es = [] ∧ p = none ∧ Fronts s' [] ∨
      ∃ e rest start, es = e :: rest ∧ p = some (frameHeader e, start) ∧
        s'.reader.rest = e.2 ++ frames.encodeAll rest ∧ s'.peeked = some (frameHeader e, start) := by
  unfold FrameScanner.peekHeader at hrun
  rw [get_bind] at hrun
  rcases h with ⟨hpeeked, hrest⟩ | ⟨e, rest, start, rfl, hrest, hpeeked⟩
  · simp only [hpeeked] at hrun
    obtain ⟨first, t, hfirst, hrun⟩ := bind_eq_ok hrun
    obtain ⟨r, hread, rfl⟩ := onReader_eq_ok hfirst
    obtain ⟨rfl, hdrop⟩ := Stream.read_one hread
    cases es with
    | nil =>
      left
      rw [hrest, Grammar.encodeAll_nil, List.take_nil, if_pos rfl] at hrun
      cases hrun
      refine ⟨rfl, rfl, Or.inl ⟨hpeeked, ?_⟩⟩
      rw [hdrop, hrest, Grammar.encodeAll_nil, List.drop_nil]
    | cons e es =>
      right
      have hlen : headerLen ≤ s.reader.rest.length := by
        rw [hrest, Grammar.encodeAll_cons, frames_encode, List.length_append, length_frame]
        omega
      have hne : s.reader.rest.take 1 ≠ [] := by
        intro hnil
        rcases List.take_eq_nil_iff.mp hnil with h1 | h1
        · omega
        · rw [h1] at hlen
          exact absurd hlen (by decide)
      rw [if_neg hne] at hrun
      obtain ⟨more, t', hmore, hrun⟩ := bind_eq_ok hrun
      obtain ⟨r', hread', rfl⟩ := onReader_eq_ok hmore
      obtain ⟨rfl, hdrop', _⟩ := Stream.readExact_ok hread'
      rw [modify_bind, pure_apply] at hrun
      have hjoin : s.reader.rest.take 1 ++ r.rest.take (headerLen-1) = frameHeader e := by
        rw [hdrop, ← List.take_add, hrest, Grammar.encodeAll_cons, frames_encode, frame,
          List.append_assoc]
        exact List.take_left' (length_frameHeader e)
      cases hrun
      refine ⟨e, es, s.position, rfl, ?_, ?_, ?_⟩
      · exact congrArg (fun b => some (b, s.position)) hjoin
      · dsimp only at hdrop' ⊢
        rw [hdrop', hdrop, List.drop_drop, hrest, Grammar.encodeAll_cons, frames_encode, frame,
          List.append_assoc]
        exact List.drop_left' (length_frameHeader e)
      · exact congrArg (fun b => some (b, s.position)) hjoin
  · simp only [hpeeked, pure_apply] at hrun
    cases hrun
    exact Or.inr ⟨e, rest, start, rfl, rfl, hrest, hpeeked⟩

theorem Fronts.read {s s' : FrameScanner} {es : List Entry} (h : Fronts s es)
    (hf : ∀ e ∈ es, Fits e) {x : Option FrameReader} (hrun : s.read = .ok x s') :
    es = [] ∧ x = none ∨ ∃ e rest start, es = e :: rest ∧
      x = some ⟨e.1, e.2.length, e.2.length, start⟩ ∧
      Inside ⟨e.1, e.2.length, e.2.length, start⟩ s' (frames.encodeAll rest) := by
  obtain ⟨p, t, hpeek, hrun⟩ := bind_eq_ok hrun
  rcases h.peekHeader hpeek with ⟨rfl, rfl, _⟩ | ⟨e, rest, start, rfl, rfl, hrest, _⟩
  · cases hrun
    exact Or.inl ⟨rfl, rfl⟩
  · right
    dsimp only at hrun
    rw [headerId_frameHeader, headerPayloadLen_frameHeader e (hf e (by simp))] at hrun
    cases hrun
    refine ⟨e, rest, start, rfl, rfl, ?_, ?_, rfl⟩
    · dsimp only
      rw [hrest, List.length_append]
      omega
    · dsimp only
      rw [hrest, List.drop_left]

theorem Fronts.seekToId {target : EntryId} {s s' : FrameScanner} {es : List Entry} (h : Fronts s es)
    (hf : ∀ e ∈ es, Fits e) (hrun : FrameScanner.seekToId target s = .ok () s') :
    Fronts s' (es.dropWhile fun e => decide (e.1 < target)) := by
  induction s using FrameScanner.seekToId.induct target generalizing es with
  | case1 s e u hp =>
    rw [FrameScanner.seekToId] at hrun
    split at hrun <;> rename_i hc <;> rw [hp] at hc <;> cases hc
    cases hrun
  | case2 s u hp =>
    rw [FrameScanner.seekToId] at hrun
    split at hrun <;> rename_i hc <;> rw [hp] at hc <;> cases hc
    cases hrun
    rcases h.peekHeader hp with ⟨rfl, _, hfronts⟩ | ⟨_, _, _, _, hsome, _⟩
    · exact hfronts
    · cases hsome
  | case3 s header start u hp hge =>
    rw [FrameScanner.seekToId] at hrun
    split at hrun <;> rename_i hc <;> rw [hp] at hc <;> cases hc
    rw [if_pos hge] at hrun
    cases hrun
    rcases h.peekHeader hp with ⟨_, hnone, _⟩ | ⟨e, rest, _, rfl, hsome, hrest, hpeeked⟩
    · cases hnone
    · cases hsome
      rw [headerId_frameHeader] at hge
      rw [List.dropWhile_cons_of_neg (by simpa using hge)]
      exact Or.inr ⟨e, rest, start, rfl, hrest, hpeeked⟩
  | case4 s header start u hp hge e u' hc =>
    rw [FrameScanner.seekToId] at hrun
    split at hrun <;> rename_i hq <;> rw [hp] at hq <;> cases hq
    rw [if_neg hge] at hrun
    split at hrun <;> rename_i hq <;> rw [hc] at hq <;> cases hq
    cases hrun
  | case5 s header start u hp hge u' hc ih =>
    rw [FrameScanner.seekToId] at hrun
    split at hrun <;> rename_i hq <;> rw [hp] at hq <;> cases hq
    rw [if_neg hge] at hrun
    split at hrun <;> rename_i hq <;> rw [hc] at hq <;> cases hq
    rcases h.peekHeader hp with ⟨_, hnone, _⟩ | ⟨e, rest, _, rfl, hsome, hrest, _⟩
    · cases hnone
    · cases hsome
      rw [headerId_frameHeader] at hge
      rw [List.dropWhile_cons_of_pos (by simpa using hge)]
      refine ih (Or.inl ⟨(consumePeekedPayload_position hc).2, ?_⟩) (fun x hx => hf x (by simp [hx])) hrun
      -- the skip took the payload off the stream
      obtain ⟨k, v, hskip, hc⟩ := bind_eq_ok hc
      obtain ⟨r, hr, rfl⟩ := onReader_eq_ok hskip
      have hdrop := Stream.skip_ok hr
      rw [headerPayloadLen_frameHeader e (hf e (by simp))] at hdrop
      split at hc
      · cases hc
      · cases hc
        dsimp only at hdrop ⊢
        rw [hdrop, hrest, List.drop_left]

/-! ### The reader on live segments -/

section
variable {s : Store} {d : Dir} {log : SegmentId → List Entry}

/-- A call of `next` in front of `xs` and of the segments `newer`: an error, the end with nothing
ahead, or the next entry. -/
inductive Next (s : Store) (d : Dir) (log : SegmentId → List Entry) (all : List Entry)
    (res : Option (Except IoError FrameReader) × StoreReader) (m : Machine) : Prop
  | refused (e : IoError) (r : StoreReader) (hres : res = (some (.error e), r))
  | done (r : StoreReader) (hall : all = []) (hres : res = (none, r))
  | entry (e : Entry) (ys : List Entry) (older newer : List SegmentEntry) (seg : SegmentEntry)
      (start : ℕ) (sc : FrameScanner)
      (hall : all = e :: (ys ++ newer.flatMap fun seg => log seg.id))
      (hres : res = (some (.ok ⟨e.1, e.2.length, e.2.length, start⟩), ⟨some (seg.id, sc)⟩))
      (hsplit : s.state.segments = older ++ seg :: newer) (hf : ∀ e ∈ ys, Fits e)
      (hinside : Inside ⟨e.1, e.2.length, e.2.length, start⟩ sc (frames.encodeAll ys))
      (hstore : m.store = s) (hdir : m.world.dir = d)

theorem nextLoop_fronts (hnd : (s.state.segments.map (·.id)).Nodup) (hh : Holds d s.state log)
    (hw : Whole s.state log) (newer : List SegmentEntry) :
    ∀ (older : List SegmentEntry) (seg : SegmentEntry) (sc : FrameScanner) (xs : List Entry)
      (rounds : ℕ) (w : World) (res) (m : Machine), s.state.segments = older ++ seg :: newer →
      w.dir = d → Fronts sc xs → (∀ e ∈ xs, Fits e) →
      StoreReader.nextLoop rounds ⟨some (seg.id, sc)⟩ ⟨s, w⟩ = .ok res m →
      Next s d log (xs ++ newer.flatMap fun seg => log seg.id) res m := by
  induction newer with
  | nil =>
    intro older seg sc xs rounds w res m hsplit hdir hp hf hrun
    cases rounds with
    | zero => cases hrun
    | succ rounds =>
      rw [StoreReader.nextLoop] at hrun
      dsimp only at hrun
      cases hread : sc.read with
      | error e sc' =>
        rw [hread] at hrun
        cases hrun
        exact .refused _ _ rfl
      | ok x sc' =>
        rw [hread] at hrun
        rcases hp.read hf hread with ⟨rfl, rfl⟩ | ⟨e, rest, start, rfl, rfl, hinside⟩
        · dsimp only at hrun
          rw [get_bind] at hrun
          dsimp only at hrun
          rw [nextSegment_eq hnd hsplit] at hrun
          cases hrun
          exact .done _ rfl rfl
        · cases hrun
          exact .entry e rest older [] seg start sc' rfl rfl hsplit (fun y hy => hf y (by simp [hy]))
            hinside rfl hdir
  | cons next newer ih =>
    intro older seg sc xs rounds w res m hsplit hdir hp hf hrun
    cases rounds with
    | zero => cases hrun
    | succ rounds =>
      rw [StoreReader.nextLoop] at hrun
      dsimp only at hrun
      cases hread : sc.read with
      | error e sc' =>
        rw [hread] at hrun
        cases hrun
        exact .refused _ _ rfl
      | ok x sc' =>
        rw [hread] at hrun
        rcases hp.read hf hread with ⟨rfl, rfl⟩ | ⟨e, rest, start, rfl, rfl, hinside⟩
        · -- the segment is at its end: open the next one
          dsimp only at hrun
          rw [get_bind] at hrun
          dsimp only at hrun
          rw [nextSegment_eq hnd hsplit] at hrun
          dsimp only [List.head?_cons, Option.map_some] at hrun
          have hmem : next ∈ s.state.segments := by simp [hsplit]
          obtain ⟨hfile, hbody⟩ := hh.hasSegment hmem
          cases hopen : openSegment next.id w with
          | error e w' =>
            rw [bind_ok (fs_ok (attempt_error hopen))] at hrun
            cases hrun
            exact .refused _ _ rfl
          | ok x w' =>
            obtain ⟨hdir', hrest⟩ := Triple.ok (openSegment_triple hfile) hdir hopen
            obtain ⟨file, offset⟩ := x
            rw [bind_ok (fs_ok (attempt_ok hopen))] at hrun
            have hsplit' : s.state.segments = (older ++ [seg]) ++ next :: newer := by simp [hsplit]
            rw [List.nil_append, List.flatMap_cons]
            exact ih (older ++ [seg]) next (FrameScanner.new file magicLen) (log next.id) rounds w' res m
              hsplit' hdir' (Or.inl ⟨rfl, hrest.trans hbody⟩) (hw next hmem) hrun
        · cases hrun
          exact .entry e rest older (next :: newer) seg start sc' rfl rfl hsplit
            (fun y hy => hf y (by simp [hy])) hinside rfl hdir

/-- An iteration that comes to its end, with no error and no skip that failed, went through all
entries ahead. -/
theorem exhaust_fronts (hnd : (s.state.segments.map (·.id)).Nodup) (hh : Holds d s.state log)
    (hw : Whole s.state log) (steps : ℕ) :
    ∀ (pattern : ℕ → List ℕ) (older newer : List SegmentEntry) (seg : SegmentEntry)
      (sc : FrameScanner) (xs : List Entry) (w : World) (x : Exhausted) (m : Machine),
      s.state.segments = older ++ seg :: newer → w.dir = d → Fronts sc xs → (∀ e ∈ xs, Fits e) →
      StoreReader.exhaust steps pattern ⟨some (seg.id, sc)⟩ ⟨s, w⟩ = .ok x m →
      x.error = none → x.skipped = true →
      x.ids = (xs ++ newer.flatMap fun seg => log seg.id).map (·.1) := by
  induction steps with
  | zero =>
    intro pattern older newer seg sc xs w x m _ _ _ _ hrun
    cases hrun
  | succ steps ih =>
    intro pattern older newer seg sc xs w x m hsplit hdir hp hf hrun herror hskipped
    rw [StoreReader.exhaust] at hrun
    obtain ⟨res, m', hnext, hrun⟩ := bind_eq_ok hrun
    have hcase : Next s d log (xs ++ newer.flatMap fun seg => log seg.id) res m' :=
      nextLoop_fronts hnd hh hw newer older seg sc xs _ w res m' hsplit hdir hp hf hnext
    cases hcase with
    | refused e r hres =>
      rw [hres] at hrun
      cases hrun
      cases herror
    | done r hall hres =>
      rw [hres] at hrun
      cases hrun
      rw [hall]
      rfl
    | entry e ys older' newer' seg' start sc' hall hres hsplit' hf' hinside hstore hdir' =>
      obtain ⟨bs, reader', sc'', hconsume, hinside'⟩ := hinside.consume (pattern 0)
      rw [hres] at hrun
      dsimp only at hrun
      rw [hconsume] at hrun
      obtain ⟨rest, m'', hrest, hrun⟩ := bind_eq_ok hrun
      cases hrun
      obtain ⟨hskip, hskipped'⟩ := (Bool.and_eq_true _ _).mp hskipped
      obtain ⟨hstream, hpeeked⟩ := hinside'.drop hskip
      obtain ⟨s', w'⟩ := m'
      obtain rfl : s' = s := hstore
      have hids := ih (fun i => pattern (i+1)) older' newer' seg' (reader'.drop sc'') ys w' rest m
        hsplit' hdir' (Or.inl ⟨hpeeked, hstream⟩) hf' hrest herror hskipped'
      rw [hall, List.map_cons, ← hids]

/-- A scan whose start gets no failure does not end silently early. -/
theorem scanToEnd_fronts (hnd : (s.state.segments.map (·.id)).Nodup) (hh : Holds d s.state log)
    (hw : Whole s.state log) {w : World} (hdir : w.dir = d) {fromId : EntryId}
    {older newer : List SegmentEntry} {seg : SegmentEntry} {offset : ℕ}
    (hstart : s.scanStart (max fromId s.state.firstEntry) = some (seg.id, offset))
    (hsplit : s.state.segments = older ++ seg :: newer)
    (hlast : ¬ s.lastEntry.all (fun last => decide (last < max fromId s.state.firstEntry)) = true)
    (hgo : Machine.Starts ⟨s, w⟩ fromId) {steps : ℕ} {pattern : ℕ → List ℕ} {x : Exhausted}
    {m : Machine} (hrun : Store.scanToEnd steps pattern fromId ⟨s, w⟩ = .ok x m)
    (herror : x.error = none) (hskipped : x.skipped = true) :
    x.ids = ((log seg.id).dropWhile (fun e => decide (e.1 < max fromId s.state.firstEntry)) ++
      newer.flatMap fun seg => log seg.id).map (·.1) := by
  have hseg : seg ∈ s.state.segments := by simp [hsplit]
  obtain ⟨hfile, hbody⟩ := hh.hasSegment hseg
  obtain ⟨segId, offset', file, n, w', hstart', hopen, hseek⟩ := hgo
  have hsame := hstart.symm.trans hstart'
  cases hsame
  obtain ⟨⟨⟩, sc, hsought⟩ := exists_of_succeeds hseek
  obtain ⟨hdir', hrest⟩ := Triple.ok (openSegment_triple hfile) hdir hopen
  have hfronts : Fronts (FrameScanner.new file offset) (log seg.id) := Or.inl ⟨rfl, hrest.trans hbody⟩
  have hopened : openAt seg.id offset (max fromId s.state.firstEntry) w =
      .ok ⟨some (seg.id, sc)⟩ w' := by
    unfold openAt
    rw [bind_ok (attempt_ok hopen)]
    dsimp only
    rw [hsought]
    rfl
  rw [Store.scanToEnd, bind_ok (Store.scan_start hlast hstart hopened)] at hrun
  exact exhaust_fronts hnd hh hw steps pattern older newer seg sc _ w' x m hsplit hdir'
    (hfronts.seekToId (hw seg hseg) hsought)
    (fun e he => hw seg hseg e ((List.dropWhile_sublist _).mem he)) hrun herror hskipped

omit [Crates] in
/-- A start that gets a failure ends the iteration at once, without an error. -/
theorem scanToEnd_silent {w : World} {fromId : EntryId} {segId : SegmentId} {offset : ℕ}
    (hstart : s.scanStart (max fromId s.state.firstEntry) = some (segId, offset))
    (hlast : ¬ s.lastEntry.all (fun last => decide (last < max fromId s.state.firstEntry)) = true)
    (hgo : ¬ Machine.Starts ⟨s, w⟩ fromId) (steps : ℕ) (pattern : ℕ → List ℕ) :
    ∃ m, Store.scanToEnd (steps+1) pattern fromId ⟨s, w⟩ = .ok ⟨[], none, true⟩ m := by
  have hopened : ∃ w', openAt segId offset (max fromId s.state.firstEntry) w = .ok ⟨none⟩ w' := by
    unfold openAt
    cases hopen : openSegment segId w with
    | error e w' =>
      rw [bind_ok (attempt_error hopen)]
      exact ⟨w', rfl⟩
    | ok x w' =>
      obtain ⟨file, n⟩ := x
      rw [bind_ok (attempt_ok hopen)]
      dsimp only
      cases hseek : FrameScanner.seekToId (max fromId s.state.firstEntry)
          (FrameScanner.new file offset) with
      | error e sc => exact ⟨w', rfl⟩
      | ok u sc => exact absurd ⟨segId, offset, file, n, w', hstart, hopen, by rw [hseek]; rfl⟩ hgo
  obtain ⟨w', hopened⟩ := hopened
  refine ⟨⟨s, w'⟩, ?_⟩
  rw [Store.scanToEnd, bind_ok (Store.scan_start hlast hstart hopened)]
  rfl

end

/-! ### Reachable stores -/

/-- No iteration over the entries from `fromId` on comes to its end before one that is stored, as far
as no skip of a dropped reader fails. -/
def Machine.NotSilent (m : Machine) (fromId : EntryId) (stored : List Entry) : Prop :=
  ∀ steps pattern x m', Store.scanToEnd steps pattern fromId m = .ok x m' → x.error = none →
    x.skipped = true → ∀ e ∈ entriesFrom (max fromId m.store.state.firstEntry) stored, e.1 ∈ x.ids

theorem Session.notSilent_iff {s : Store} {d : Dir} {es : List Entry} {log : SegmentId → List Entry}
    {active : SegmentEntry} (h : Session s d es log active) {w : World} (hdir : w.dir = d)
    (fromId : EntryId) :
    Machine.NotSilent ⟨s, w⟩ fromId (liveLog s.state log) ↔
      entriesFrom (max fromId s.state.firstEntry) (liveLog s.state log) = [] ∨
        Machine.Starts ⟨s, w⟩ fromId := by
  set target := max fromId s.state.firstEntry with htarget
  have hge : s.state.firstEntry ≤ target := le_max_right _ _
  have hall := (h.lastEntry_all hge).trans (last_lt_iff h.ordered.liveLog target)
  obtain ⟨older, seg, newer, offset, hstart, hsplit, hreach, _⟩ := h.readable.scanStart target
  have hseg : seg ∈ s.state.segments := by simp [hsplit]
  constructor
  · intro hns
    by_contra hnot
    obtain ⟨hsome, hgo⟩ := not_or.mp hnot
    have hlast : ¬ s.lastEntry.all (fun last => decide (last < target)) = true := fun hlt =>
      hsome ((entriesFrom_eq_nil _ _).mpr (hall.mp hlt))
    obtain ⟨m, hrun⟩ := scanToEnd_silent hstart hlast hgo 0 fun _ => []
    obtain ⟨e, he⟩ := List.exists_mem_of_ne_nil _ hsome
    exact List.not_mem_nil (hns _ _ _ _ hrun rfl rfl e he)
  · rintro (hnil | hgo) steps pattern x m hrun herror hskipped e he
    · rw [hnil] at he
      cases he
    · by_cases hlast : s.lastEntry.all (fun last => decide (last < target)) = true
      · rw [(entriesFrom_eq_nil _ _).mpr (hall.mp hlast)] at he
        cases he
      · rw [scanToEnd_fronts h.kept.shaped.nodup h.kept.holds h.whole hdir hstart hsplit hlast hgo hrun
          herror hskipped, ← htarget, dropWhile_entriesFrom target (h.ordered.inside seg hseg)]
        rw [h.ordered.entriesFrom_split hsplit (hreach.imp_right h.index.reaches)] at he
        refine List.mem_map_of_mem ((List.mem_append.mp he).elim (List.mem_append_left _) fun he => ?_)
        exact List.mem_append_right _ (List.mem_of_mem_filter he)

omit [Crates] in
theorem Journal.entriesFrom_visible {j : Journal} {xs : List Entry} (h : entriesFrom j.head xs = j.visible)
    {target : EntryId} (hle : j.head ≤ target) : entriesFrom target xs = entriesFrom target j.written := by
  rw [← entriesFrom_entriesFrom hle xs, h, Journal.visible, entriesFrom_entriesFrom hle]

/-- Whatever opens and reads fail, no iteration ends silently before a stored entry, just if nothing
is to be yielded or the open and the seek of the scan itself get no failure. -/
theorem Ran.notSilent_start_iff {m : Machine} {j : Journal} (h : Ran m j) (fromId : EntryId) (f : Faults) :
    (m.facing f).NotSilent fromId j.written ↔
      entriesFrom (max fromId j.head) j.written = [] ∨ (m.facing f).Starts fromId := by
  obtain ⟨d, es, log, active, ha⟩ := h.agrees
  obtain ⟨s, w⟩ := m
  obtain rfl : w = calm d := ha.world
  have hhead : s.state.firstEntry = j.head := ha.head
  have hsame : entriesFrom (max fromId j.head) (liveLog s.state log) =
      entriesFrom (max fromId j.head) j.written :=
    Journal.entriesFrom_visible ha.visible (le_max_right _ _)
  have hiff := Session.notSilent_iff ha.session (w := ⟨d, f⟩) rfl fromId
  unfold Machine.NotSilent at hiff ⊢
  rw [hhead, hsame] at hiff
  dsimp only [Machine.facing, calm]
  rw [hhead]
  exact hiff

end

section
attribute [local instance] sample

/-- A new store with one entry. -/
theorem ran_one : ∃ m, Ran m ⟨⟨0⟩, [(⟨5⟩, [1, 2])], []⟩ := by
  obtain ⟨s, hopen, _, _, _, hpend⟩ := fresh_blank.session ⟨0⟩
  have hproper : (Request.batch [(⟨5⟩, [1, 2])]).Proper ⟨s, calm blank.formatted⟩ Journal.start := by
    refine ⟨by simp, by simp [Fits], fun _ _ => EntryId.zero_le _, by simp [Journal.start], ?_⟩
    intro _ hp
    rw [hpend] at hp
    cases hp
  exact ⟨_, (Ran.opened fresh_blank hopen).command (.request (.batch [(⟨5⟩, [1, 2])])) hproper
    (fun op hop => by cases hop)⟩

theorem Ran.notSilent_start_iff_one : ∃ m : Machine, ∀ f,
    (m.facing f).NotSilent ⟨3⟩ [(⟨5⟩, [1, 2])] ↔ (m.facing f).Starts ⟨3⟩ := by
  obtain ⟨m, hran⟩ := ran_one
  refine ⟨m, fun f => (Ran.notSilent_start_iff hran ⟨3⟩ f).trans ?_⟩
  rw [or_iff_right]
  decide

/-- No open of the scan succeeds. -/
def noOpen : Faults := ⟨fun _ => [], [none]⟩

theorem not_starts_noOpen (m : Machine) (fromId : EntryId) : ¬ (m.facing noOpen).Starts fromId := by
  rintro ⟨segId, offset, file, n, w, _, hopen, _⟩
  obtain ⟨f, w', hfile, _⟩ := bind_eq_ok hopen
  unfold File.open at hfile
  rw [get_bind] at hfile
  cases hb : m.world.dir.bytes (segmentPath segId) with
  | none => simp [Machine.facing, noOpen, hb] at hfile
  | some bytes => simp [Machine.facing, noOpen, hb] at hfile

/-- With a failing open the iteration ends before the entry, without an error. -/
theorem Ran.not_notSilent : ¬ ∀ (m : Machine) (j : Journal) (fromId : EntryId) (f : Faults)
    (steps : ℕ) (pattern : ℕ → List ℕ) (x : Exhausted) (m' : Machine),
      Ran m j → Store.scanToEnd steps pattern fromId (m.facing f) = .ok x m' →
      x.error = none →
      ∀ e ∈ entriesFrom (max fromId j.head) j.written, e.1 ∈ x.ids := by
  intro hall
  obtain ⟨m, hran⟩ := ran_one
  obtain ⟨d, es, log, active, ha⟩ := hran.agrees
  have hhead : m.store.state.firstEntry = ⟨0⟩ := ha.head
  have hsame : entriesFrom (max ⟨3⟩ ⟨0⟩) (liveLog m.store.state log) =
      entriesFrom (max ⟨3⟩ ⟨0⟩) [(⟨5⟩, [1, 2])] :=
    Journal.entriesFrom_visible ha.visible (le_max_right _ _)
  have hdir : (m.facing noOpen).world.dir = d := congrArg World.dir ha.world
  have hiff := Session.notSilent_iff ha.session hdir ⟨3⟩
  unfold Machine.NotSilent at hiff
  rw [hhead, hsame] at hiff
  rcases hiff.mp fun steps pattern x m' hrun herror _ =>
    hall m _ ⟨3⟩ noOpen steps pattern x m' hran hrun herror with hnil | hgo
  · exact absurd hnil (by decide)
  · exact not_starts_noOpen m ⟨3⟩ hgo

end
end Woodshed
