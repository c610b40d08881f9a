import Woodshed.Trimming

/-! Reading a store: what the scanner's methods and the reader's loop return on live segments, and
which entries a scan yields. -/
namespace Woodshed
open Sequencing Framing PartitionPoint

section
variable [Crates]

/-! ### The scanner on frames -/

namespace FrameScanner

theorem peekHeader_frame (e : Entry) (rest : Bytes) (p : ℕ) :
    peekHeader (facing (frame e ++ rest) p) =
      .ok (some (frameHeader e, p)) ⟨⟨e.2 ++ rest, []⟩, p, some (frameHeader e, p)⟩ := by
  have hlen : headerLen ≤ (frame e ++ rest).length := by
    rw [List.length_append, length_frame]
    omega
  have htake : (frame e ++ rest).take headerLen = frameHeader e := by
    rw [frame, List.append_assoc, List.take_left' (length_frameHeader e)]
  have hdrop : (frame e ++ rest).drop headerLen = e.2 ++ rest := by
    rw [frame, List.append_assoc, List.drop_left' (length_frameHeader e)]
  rw [peekHeader_facing _ p hlen, htake, hdrop]

omit [Crates] in
theorem consumePeekedPayload_ok (payload rest : Bytes) (frameStart q : ℕ)
    (k : Option (Bytes × ℕ)) :
    consumePeekedPayload payload.length frameStart ⟨⟨payload ++ rest, []⟩, q, k⟩ =
      .ok () (facing rest (frameStart+headerLen+payload.length)) := by
  have hmin : min payload.length (payload ++ rest).length = payload.length := by
    rw [List.length_append]
    omega
  have hskip : onReader .io (Stream.skip payload.length) ⟨⟨payload ++ rest, []⟩, q, k⟩ = _ :=
    onReader_facing (Stream.skip_quiet payload.length (payload ++ rest))
  rw [hmin, List.drop_left] at hskip
  unfold consumePeekedPayload
  rw [bind_ok hskip, if_neg (lt_irrefl _)]
  rfl

/-- A scanner in front of the frames `es`, with or without the first header peeked. -/
def Presents (s : FrameScanner) (es : List Entry) : Prop :=
  (∃ p, s = facing (frames.encodeAll es) p) ∨
    ∃ e rest p q, es = e :: rest ∧
      s = ⟨⟨e.2 ++ frames.encodeAll rest, []⟩, q, some (frameHeader e, p)⟩

/-- A scanner that believes to be at `p`, in front of the frames `es`, with or without the first
header peeked. -/
def Stands (s : FrameScanner) (p : ℕ) (es : List Entry) : Prop :=
  s = facing (frames.encodeAll es) p ∨
    ∃ e rest, es = e :: rest ∧
      s = ⟨⟨e.2 ++ frames.encodeAll rest, []⟩, p, some (frameHeader e, p)⟩

theorem Stands.presents {s : FrameScanner} {p : ℕ} {es : List Entry} (h : Stands s p es) :
    Presents s es := by
  rcases h with h | ⟨e, rest, hes, h⟩
  · exact Or.inl ⟨p, h⟩
  · exact Or.inr ⟨e, rest, p, p, hes, h⟩

theorem Stands.position {s : FrameScanner} {p : ℕ} {es : List Entry} (h : Stands s p es) :
    s.position = p := by
  rcases h with rfl | ⟨e, rest, _, rfl⟩
  · rfl
  · rfl

/-- A peek does not show whether the header was peeked before. -/
theorem Stands.peekHeader {s : FrameScanner} {p : ℕ} {es : List Entry} (h : Stands s p es) :
    s.peekHeader = (facing (frames.encodeAll es) p).peekHeader := by
  rcases h with rfl | ⟨e, rest, rfl, rfl⟩
  · rfl
  · rw [Grammar.encodeAll_cons, frames_encode, peekHeader_frame]
    rfl

/-- Seeking drops the frames with smaller ids. -/
theorem seekToId_stands (target : EntryId) (es : List Entry) (p : ℕ) (hf : ∀ e ∈ es, Fits e) :
    ∃ s, seekToId target (facing (frames.encodeAll es) p) = .ok () s ∧
      Stands s (p+(frames.encodeAll (es.takeWhile fun e => decide (e.1 < target))).length)
        (es.dropWhile fun e => decide (e.1 < target)) := by
  induction es generalizing p with
  | nil =>
    refine ⟨facing [] p, ?_, Or.inl rfl⟩
    rw [Grammar.encodeAll_nil, seekToId]
    split <;> rename_i hc <;> rw [peekHeader_nil] at hc <;> cases hc
    rfl
  | cons e es ih =>
    have hpeek := peekHeader_frame e (frames.encodeAll es) p
    have hskip := consumePeekedPayload_ok e.2 (frames.encodeAll es) p p none
    rw [Grammar.encodeAll_cons, frames_encode, seekToId]
    split <;> rename_i hc <;> rw [hpeek] at hc <;> cases hc
    by_cases hge : e.1 ≥ target
    · -- this is the frame to stop in front of
      rw [if_pos (by rw [headerId_frameHeader]; exact hge),
        List.dropWhile_cons_of_neg (by simpa using hge),
        List.takeWhile_cons_of_neg (by simpa using hge)]
      exact ⟨_, rfl, Or.inr ⟨e, es, rfl, rfl⟩⟩
    · rw [if_neg (by rw [headerId_frameHeader]; exact hge),
        List.dropWhile_cons_of_pos (by simpa using hge),
        List.takeWhile_cons_of_pos (by simpa using hge)]
      split <;> rename_i hc <;>
        rw [headerPayloadLen_frameHeader e (hf e (by simp)), hskip] at hc <;> cases hc
      rw [Grammar.encodeAll_cons, frames_encode, List.length_append, length_frame, ← Nat.add_assoc,
        ← Nat.add_assoc]
      exact ih _ fun x hx => hf x (by simp [hx])

theorem seekToId_facing (target : EntryId) (es : List Entry) (p : ℕ) (hf : ∀ e ∈ es, Fits e) :
    ∃ s, seekToId target (facing (frames.encodeAll es) p) = .ok () s ∧
      Presents s (es.dropWhile fun e => decide (e.1 < target)) := by
  obtain ⟨s, hseek, hs⟩ := seekToId_stands target es p hf
  exact ⟨s, hseek, hs.presents⟩

/-- Scanning to an entry returns where its frame ends, counted from where the scanner believes
to be. -/
theorem scanToAfter_facing (before : List Entry) (e : Entry) (rest : Bytes) (p : ℕ)
    (hf : ∀ x ∈ before, Fits x) (he : Fits e) (hne : ∀ x ∈ before, x.1 ≠ e.1) :
    scanToAfter e.1 (facing (frames.encodeAll before ++ (frame e ++ rest)) p) =
      .ok (p+(frames.encodeAll (before ++ [e])).length)
        (facing rest (p+(frames.encodeAll (before ++ [e])).length)) := by
  induction before generalizing p with
  | nil =>
    have hpeek := peekHeader_frame e rest p
    have hskip := consumePeekedPayload_ok e.2 rest p p none
    rw [Grammar.encodeAll_nil, List.nil_append, List.nil_append, scanToAfter]
    split <;> rename_i hc <;> rw [hpeek] at hc <;> cases hc
    split <;> rename_i hc <;> rw [headerPayloadLen_frameHeader e he, hskip] at hc <;> cases hc
    rw [if_pos (headerId_frameHeader e)]
    simp [facing, Nat.add_assoc]
  | cons x before ih =>
    have hpeek := peekHeader_frame x (frames.encodeAll before ++ (frame e ++ rest)) p
    have hskip := consumePeekedPayload_ok x.2 (frames.encodeAll before ++ (frame e ++ rest)) p p none
    have hs := ih (p+headerLen+x.2.length) (fun y hy => hf y (by simp [hy]))
      (fun y hy => hne y (by simp [hy]))
    have hend : p+headerLen+x.2.length+(frames.encodeAll (before ++ [e])).length =
        p+(frames.encodeAll (x :: before ++ [e])).length := by
      rw [List.cons_append, Grammar.encodeAll_cons, frames_encode, List.length_append, length_frame]
      omega
    rw [Grammar.encodeAll_cons, frames_encode, List.append_assoc, scanToAfter]
    split <;> rename_i hc <;> rw [hpeek] at hc <;> cases hc
    split <;> rename_i hc <;>
      rw [headerPayloadLen_frameHeader x (hf x (by simp)), hskip] at hc <;> cases hc
    rw [if_neg (by rw [headerId_frameHeader]; exact hne x (by simp)), hs, hend]

/-- Scanning to an id that no frame has ends in an error. -/
theorem scanToAfter_missing (target : EntryId) (es : List Entry) (p : ℕ)
    (hf : ∀ e ∈ es, Fits e) (hne : ∀ e ∈ es, e.1 ≠ target) :
    ∃ s, scanToAfter target (facing (frames.encodeAll es) p) =
      .error (.truncated (p+(frames.encodeAll es).length)) s := by
  induction es generalizing p with
  | nil =>
    refine ⟨facing [] p, ?_⟩
    rw [Grammar.encodeAll_nil, scanToAfter]
    split <;> rename_i hc <;> rw [peekHeader_nil] at hc <;> cases hc
    rfl
  | cons e es ih =>
    have hpeek := peekHeader_frame e (frames.encodeAll es) p
    have hskip := consumePeekedPayload_ok e.2 (frames.encodeAll es) p p none
    obtain ⟨s, hs⟩ := ih (p+headerLen+e.2.length) (fun x hx => hf x (by simp [hx]))
      (fun x hx => hne x (by simp [hx]))
    refine ⟨s, ?_⟩
    rw [Grammar.encodeAll_cons, frames_encode, scanToAfter]
    split <;> rename_i hc <;> rw [hpeek] at hc <;> cases hc
    split <;> rename_i hc <;>
      rw [headerPayloadLen_frameHeader e (hf e (by simp)), hskip] at hc <;> cases hc
    rw [if_neg (by rw [headerId_frameHeader]; exact hne e (by simp)), hs, List.length_append,
      length_frame, Nat.add_assoc, Nat.add_assoc, Nat.add_assoc]

theorem read_presents_nil {s : FrameScanner} (h : Presents s []) :
    ∃ s', read s = .ok none s' := by
  rcases h with ⟨p, rfl⟩ | ⟨e, rest, p, q, hc, _⟩
  · exact ⟨facing [] p, read_nil p⟩
  · cases hc

theorem read_presents_cons {s : FrameScanner} {e : Entry} {es : List Entry}
    (h : Presents s (e :: es)) (hf : Fits e) :
    ∃ p q, read s = .ok (some ⟨e.1, e.2.length, e.2.length, p⟩)
      ⟨⟨e.2 ++ frames.encodeAll es, []⟩, q, none⟩ := by
  rcases h with ⟨p, rfl⟩ | ⟨e', rest, p, q, hc, rfl⟩
  · refine ⟨p, p, ?_⟩
    rw [Grammar.encodeAll_cons, frames_encode, read_frame e _ p hf]
    rfl
  · obtain ⟨rfl, rfl⟩ := List.cons.inj hc
    refine ⟨p, q, ?_⟩
    have hpeek : peekHeader ⟨⟨e.2 ++ frames.encodeAll es, []⟩, q, some (frameHeader e, p)⟩ =
        .ok (some (frameHeader e, p))
          ⟨⟨e.2 ++ frames.encodeAll es, []⟩, q, some (frameHeader e, p)⟩ := rfl
    unfold read
    rw [bind_ok hpeek]
    dsimp only
    rw [headerId_frameHeader, headerPayloadLen_frameHeader e hf]
    rfl

end FrameScanner

open FrameScanner

/-- Reading the payload of a frame to its end leaves the scanner in front of the next frame. -/
theorem readPayload (e : Entry) (es : List Entry) (p q : ℕ) :
    ∃ reader' q', FrameReader.readToEnd ⟨e.1, e.2.length, e.2.length, p⟩
        ⟨⟨e.2 ++ frames.encodeAll es, []⟩, q, none⟩ [] =
          .ok (e.2, reader') (facing (frames.encodeAll es) q') ∧
      reader'.drop (facing (frames.encodeAll es) q') = facing (frames.encodeAll es) q' := by
  have hpay := FrameReader.readToEnd_quiet ⟨e.1, e.2.length, e.2.length, p⟩
    (e.2 ++ frames.encodeAll es) [] q none (by rw [List.length_append]; dsimp only; omega)
  dsimp only at hpay
  rw [List.take_left, List.drop_left, List.nil_append] at hpay
  refine ⟨_, _, hpay, ?_⟩
  rw [FrameReader.drop, if_neg (lt_irrefl 0)]

/-! ### The reader on live segments -/

/-- What is still to be read: the rest of a live segment, and all segments behind it. -/
def Ahead (st : StoreState) (log : SegmentId → List Entry) (r : StoreReader) (es : List Entry) :
    Prop :=
  r.scanner = none ∧ es = [] ∨
    ∃ older seg newer sc xs, r.scanner = some (seg.id, sc) ∧
      st.segments = older ++ seg :: newer ∧ Presents sc xs ∧ (∀ e ∈ xs, Fits e) ∧
      es = xs ++ newer.flatMap fun seg => log seg.id

omit [Crates] in
/-- The segment behind a live one. -/
theorem nextSegment_eq {segs older newer : List SegmentEntry} {seg : SegmentEntry}
    (hnd : (segs.map (·.id)).Nodup) (h : segs = older ++ seg :: newer) :
    nextSegment segs seg.id = newer.head?.map (·.id) := by
  have hpos : segs.findIdx? (fun s => decide (s.id = seg.id)) = some older.length := by
    rw [h, List.findIdx?_eq_some_iff_getElem]
    refine ⟨by simp, by simp, ?_⟩
    intro j hj
    rw [List.getElem_append_left hj]
    rw [h, List.map_append, List.nodup_append] at hnd
    have hne := hnd.2.2 _ (List.mem_map_of_mem (List.getElem_mem hj)) seg.id (by simp)
    simpa using hne
  have hget : (older ++ seg :: newer)[older.length+1]? = newer.head? := by
    rw [List.getElem?_append_right (by omega)]
    cases newer <;> simp
  unfold nextSegment
  rw [hpos]
  change (segs[older.length+1]?).bind _ = _
  rw [h, hget]
  cases newer <;> rfl

section
variable {s : Store} {d : Dir} {log : SegmentId → List Entry}

/-- One call of `next`: the next entry, or the end. It goes past segments without entries. -/
theorem nextLoop_ahead (hnd : (s.state.segments.map (·.id)).Nodup) (hh : Holds d s.state log)
    (hw : Whole s.state log) (newer : List SegmentEntry) :
    ∀ (older : List SegmentEntry) (seg : SegmentEntry) (sc : FrameScanner) (xs : List Entry)
      (rounds : ℕ), s.state.segments = older ++ seg :: newer → Presents sc xs →
      (∀ e ∈ xs, Fits e) → newer.length < rounds →
      (xs ++ newer.flatMap (fun seg => log seg.id) = [] ∧
        ∃ r, StoreReader.nextLoop rounds ⟨some (seg.id, sc)⟩ ⟨s, calm d⟩ =
          .ok (none, r) ⟨s, calm d⟩) ∨
      ∃ e rest older' seg' newer' ys p q,
        xs ++ newer.flatMap (fun seg => log seg.id) = e :: rest ∧
        StoreReader.nextLoop rounds ⟨some (seg.id, sc)⟩ ⟨s, calm d⟩ =
          .ok (some (.ok ⟨e.1, e.2.length, e.2.length, p⟩),
            ⟨some (seg'.id, ⟨⟨e.2 ++ frames.encodeAll ys, []⟩, q, none⟩)⟩) ⟨s, calm d⟩ ∧
        s.state.segments = older' ++ seg' :: newer' ∧ (∀ e ∈ ys, Fits e) ∧
        rest = ys ++ newer'.flatMap (fun seg => log seg.id) := by
  induction newer with
  | nil =>
    intro older seg sc xs rounds hsplit hp hf hr
    obtain ⟨rounds, rfl⟩ : ∃ n, rounds = n+1 := ⟨rounds-1, by simp at hr; omega⟩
    cases xs with
    | nil =>
      left
      obtain ⟨s', hread⟩ := read_presents_nil hp
      refine ⟨rfl, ⟨none⟩, ?_⟩
      have hnext := nextSegment_eq hnd hsplit
      rw [StoreReader.nextLoop]
      dsimp only
      rw [hread]
      dsimp only
      rw [get_bind]
      dsimp only
      rw [hnext]
      rfl
    | cons e xs =>
      right
      obtain ⟨p, q, hread⟩ := read_presents_cons hp (hf e (by simp))
      refine ⟨e, xs ++ [].flatMap (fun seg : SegmentEntry => log seg.id), older, seg, [], xs, p, q,
        rfl, ?_, hsplit, fun y hy => hf y (by simp [hy]), rfl⟩
      rw [StoreReader.nextLoop]
      dsimp only
      rw [hread]
      rfl
  | cons next newer ih =>
    intro older seg sc xs rounds hsplit hp hf hr
    obtain ⟨rounds, rfl⟩ : ∃ n, rounds = n+1 := ⟨rounds-1, by simp at hr; omega⟩
    cases xs with
    | nil =>
      -- the segment is at its end: open the next one
      obtain ⟨s', hread⟩ := read_presents_nil hp
      have hmem : next ∈ s.state.segments := by
        rw [hsplit]
        simp
      obtain ⟨hfile, hbody⟩ := hh.hasSegment hmem
      have hopen := openSegment_ok hfile
      rw [hbody] at hopen
      have hsplit' : s.state.segments = (older ++ [seg]) ++ next :: newer := by
        rw [hsplit]
        simp
      have hih := ih (older ++ [seg]) next (facing (frames.encodeAll (log next.id)) magicLen)
        (log next.id) rounds hsplit' (Or.inl ⟨magicLen, rfl⟩) (hw next hmem)
        (by simp at hr; omega)
      have hstep : StoreReader.nextLoop (rounds+1) ⟨some (seg.id, sc)⟩ ⟨s, calm d⟩ =
          StoreReader.nextLoop rounds
            ⟨some (next.id, facing (frames.encodeAll (log next.id)) magicLen)⟩ ⟨s, calm d⟩ := by
        have hnext := nextSegment_eq hnd hsplit
        rw [StoreReader.nextLoop]
        dsimp only
        rw [hread]
        dsimp only
        rw [get_bind]
        dsimp only
        rw [hnext]
        dsimp only [List.head?_cons, Option.map_some]
        rw [bind_ok (fs_ok (attempt_ok hopen))]
        rfl
      rw [hstep, List.nil_append, List.flatMap_cons]
      exact hih
    | cons e xs =>
      right
      obtain ⟨p, q, hread⟩ := read_presents_cons hp (hf e (by simp))
      refine ⟨e, xs ++ (next :: newer).flatMap (fun seg => log seg.id), older, seg, next :: newer,
        xs, p, q, rfl, ?_, hsplit, fun y hy => hf y (by simp [hy]), rfl⟩
      rw [StoreReader.nextLoop]
      dsimp only
      rw [hread]
      rfl

/-- Draining a reader returns what is ahead of it, and changes nothing. -/
theorem collect_ahead (hnd : (s.state.segments.map (·.id)).Nodup) (hh : Holds d s.state log)
    (hw : Whole s.state log) (steps : ℕ) :
    ∀ (r : StoreReader) (es : List Entry), Ahead s.state log r es → es.length < steps →
      r.collect steps ⟨s, calm d⟩ = .ok es ⟨s, calm d⟩ := by
  induction steps with
  | zero =>
    intro r es _ hlt
    omega
  | succ steps ih =>
    rintro ⟨scanner⟩ es (⟨hnone, rfl⟩ | ⟨older, seg, newer, sc, xs, hsome, hsplit, hp, hf, rfl⟩) hlt
    · obtain rfl : scanner = none := hnone
      rfl
    · obtain rfl : scanner = some (seg.id, sc) := hsome
      have hrounds : newer.length < s.state.segments.length+1 := by
        rw [hsplit, List.length_append, List.length_cons]
        omega
      have hnext (x) (h : StoreReader.nextLoop (s.state.segments.length+1)
          ⟨some (seg.id, sc)⟩ ⟨s, calm d⟩ = .ok x ⟨s, calm d⟩) :
          StoreReader.next ⟨some (seg.id, sc)⟩ ⟨s, calm d⟩ = .ok x ⟨s, calm d⟩ := h
      rcases nextLoop_ahead hnd hh hw newer older seg sc xs _ hsplit hp hf hrounds with
        ⟨hnil, r, hloop⟩ | ⟨e, rest, older', seg', newer', ys, p, q, hcons, hloop, hsplit', hf', hrest⟩
      · rw [hnil, StoreReader.collect, bind_ok (hnext _ hloop)]
        rfl
      · obtain ⟨reader', q', hread, hdrop⟩ := readPayload e ys p q
        have hcollect := ih ⟨some (seg'.id, facing (frames.encodeAll ys) q')⟩ rest
          (Or.inr ⟨older', seg', newer', _, ys, rfl, hsplit', Or.inl ⟨q', rfl⟩, hf', hrest⟩)
          (by rw [hcons, List.length_cons] at hlt; omega)
        rw [hcons, StoreReader.collect, bind_ok (hnext _ hloop)]
        dsimp only
        rw [hread]
        dsimp only
        rw [hdrop, bind_ok hcollect]
        rfl

/-! ### Scans -/

/-- Draining `scan(from)` yields `xs`, and changes nothing. -/
def Machine.Yields (m : Machine) (fromId : EntryId) (xs : List Entry) : Prop :=
  ∀ steps, xs.length < steps → Store.scanAll steps fromId m = .ok xs m

omit [Crates] in
theorem Machine.Yields.unique {m : Machine} {fromId : EntryId} {xs ys : List Entry}
    (hx : m.Yields fromId xs) (hy : m.Yields fromId ys) : xs = ys := by
  have hsame := (hx (xs.length+ys.length+1) (by omega)).symm.trans
    (hy (xs.length+ys.length+1) (by omega))
  cases hsame
  rfl

omit [Crates] in
/-- A scan starts at the head at the earliest. -/
theorem Machine.yields_max (m : Machine) (fromId : EntryId) (xs : List Entry) :
    m.Yields (max fromId m.store.state.firstEntry) xs ↔ m.Yields fromId xs := by
  have hscan : Store.scan (max fromId m.store.state.firstEntry) m = Store.scan fromId m := by
    unfold Store.scan
    rw [get_bind, get_bind, max_assoc, max_self]
  have hall (steps : ℕ) : Store.scanAll steps (max fromId m.store.state.firstEntry) m =
      Store.scanAll steps fromId m := by
    unfold Store.scanAll
    change EStateM.bind _ _ m = EStateM.bind _ _ m
    rw [EStateM.bind, EStateM.bind, hscan]
  unfold Machine.Yields
  simp only [hall]

omit [Crates] in
/-- From behind the last entry no segment is opened. -/
theorem Store.scan_behind {m : Machine} {fromId : EntryId}
    (h : m.store.lastEntry.all (fun last =>
      decide (last < max fromId m.store.state.firstEntry)) = true) :
    Store.scan fromId m = .ok ⟨none⟩ m := by
  unfold Store.scan
  rw [get_bind]
  exact congrFun (if_pos h) _

omit [Crates] in
/-- Else a scan is the reader of the segment it starts at. -/
theorem Store.scan_start {w w' : World} {fromId : EntryId} {segId : SegmentId} {offset : ℕ}
    {r : StoreReader}
    (hlast : ¬ s.lastEntry.all (fun last => decide (last < max fromId s.state.firstEntry)) = true)
    (hstart : s.scanStart (max fromId s.state.firstEntry) = some (segId, offset))
    (hopen : openAt segId offset (max fromId s.state.firstEntry) w = .ok r w') :
    Store.scan fromId ⟨s, w⟩ = .ok r ⟨s, w'⟩ := by
  unfold Store.scan
  rw [get_bind]
  refine (congrFun (if_neg hlast) _).trans ?_
  dsimp only
  rw [hstart]
  exact fs_ok hopen

omit [Crates] in
/-- A scan from behind the last entry yields nothing. -/
theorem Machine.yields_nil {m : Machine} {fromId : EntryId}
    (h : m.store.lastEntry.all (fun last =>
      decide (last < max fromId m.store.state.firstEntry)) = true) : m.Yields fromId [] := by
  intro steps hsteps
  obtain ⟨steps, rfl⟩ : ∃ n, steps = n+1 := ⟨steps-1, by simp at hsteps; omega⟩
  rw [Store.scanAll, bind_ok (Store.scan_behind h)]
  rfl

/-- Opened at a live segment, a reader is in front of its entries from `target` on and of those of
all later segments: the file is read from its first frame, whatever the offset. -/
theorem openAt_live {st : StoreState} (hh : Holds d st log) (hw : Whole st log)
    {older newer : List SegmentEntry} {seg : SegmentEntry} (h : st.segments = older ++ seg :: newer)
    (offset : ℕ) (target : EntryId) :
    ∃ r, openAt seg.id offset target (calm d) = .ok r (calm d) ∧
      Ahead st log r ((log seg.id).dropWhile (fun e => decide (e.1 < target)) ++
        newer.flatMap fun seg => log seg.id) := by
  have hseg : seg ∈ st.segments := by
    rw [h]
    simp
  obtain ⟨hfile, hbody⟩ := hh.hasSegment hseg
  have hopen := openSegment_ok hfile
  rw [hbody] at hopen
  obtain ⟨sc, hseek, hp⟩ := seekToId_facing target (log seg.id) offset (hw seg hseg)
  refine ⟨⟨some (seg.id, sc)⟩, ?_, Or.inr ⟨older, seg, newer, sc, _, rfl, h, hp, ?_, rfl⟩⟩
  · unfold openAt
    have hnew : FrameScanner.seekToId target (FrameScanner.new
        ⟨segmentPath seg.id, ⟨frames.encodeAll (log seg.id), []⟩⟩ offset) = .ok ⟨⟩ sc := hseek
    rw [bind_ok (attempt_ok hopen)]
    dsimp only
    rw [hnew]
    rfl
  · exact fun e he => hw seg hseg e ((List.dropWhile_sublist _).mem he)

/-- What a scan yields that starts at the live segment `seg`. -/
theorem yields_from (fromId : EntryId) (hnd : (s.state.segments.map (·.id)).Nodup)
    (hh : Holds d s.state log) (hw : Whole s.state log)
    (hlast : ¬ s.lastEntry.all (fun last => decide (last < max fromId s.state.firstEntry)) = true)
    {older newer : List SegmentEntry} {seg : SegmentEntry} {offset : ℕ}
    (hstart : s.scanStart (max fromId s.state.firstEntry) = some (seg.id, offset))
    (h : s.state.segments = older ++ seg :: newer) :
    Machine.Yields ⟨s, calm d⟩ fromId
      ((log seg.id).dropWhile (fun e => decide (e.1 < max fromId s.state.firstEntry)) ++
        newer.flatMap fun seg => log seg.id) := by
  intro steps hsteps
  obtain ⟨r, hopen, hahead⟩ := openAt_live hh hw h offset (max fromId s.state.firstEntry)
  rw [Store.scanAll, bind_ok (Store.scan_start hlast hstart hopen)]
  exact collect_ahead hnd hh hw steps r _ hahead hsteps

omit [Crates] in
/-- The entries from an id on. -/
def entriesFrom (target : EntryId) (es : List Entry) : List Entry :=
  es.filter fun e => decide (target ≤ e.1)

omit [Crates] in
theorem dropWhile_entriesFrom (target : EntryId) {es : List Entry}
    (h : es.Pairwise fun a b => a.1 < b.1) :
    es.dropWhile (fun e => decide (e.1 < target)) = entriesFrom target es := by
  induction es with
  | nil => rfl
  | cons e es ih =>
    obtain ⟨hlt, hasc⟩ := List.pairwise_cons.mp h
    by_cases he : e.1 < target
    · rw [List.dropWhile_cons_of_pos (by simpa using he), ih hasc, entriesFrom, entriesFrom,
        List.filter_cons_of_neg (by simpa using he)]
    · rw [List.dropWhile_cons_of_neg (by simpa using he), entriesFrom, List.filter_eq_self.mpr]
      intro x hx
      rcases List.mem_cons.mp hx with rfl | hx
      · simpa using he
      · simpa using (not_lt.mp he).trans (hlt x hx).le

/-- Whether a scan from `target` is behind the last entry. -/
theorem Running.lastEntry_all {es : List Entry} {active : SegmentEntry}
    (h : Running s d es log active) {target : EntryId} (hge : s.state.firstEntry ≤ target) :
    s.lastEntry.all (fun last => decide (last < target)) = true ↔
      ∀ e, (liveLog s.state log).getLast? = some e → e.1 < target := by
  unfold Store.lastEntry
  rcases h.last with hl | ⟨hnil, hl⟩
  · rw [hl]
    cases hlast : (liveLog s.state log).getLast? with
    | none => simp
    | some e =>
      by_cases hlt : e.1 < s.state.firstEntry
      · simp [hlt, hlt.trans_le hge]
      · simp [hlt]
  · rw [hnil]
    cases hid : s.lastEntryId with
    | none => simp
    | some x => simp [hl x hid]

end

end
end Woodshed
