import Woodshed.Calming
import Woodshed.Runs

/-! Draining a scan of which only a part of each payload is read: what is read of one entry has no
bearing on the entries behind it. -/
namespace Woodshed
open Sequencing Framing FrameScanner

/-- What is seen of an entry before its reader is dropped. -/
structure Glimpse where
  id : EntryId
  /-- What the reads returned. -/
  bytes : Bytes
  /-- Nothing of the payload was left to be read. -/
  whole : Bool

/-- Drain a reader. Of each entry the payload is read into buffers of the sizes that the pattern has
for it; then its reader is dropped. -/
def StoreReader.drain : ℕ → (ℕ → List ℕ) → StoreReader → StoreM (List Glimpse)
  | 0, _, _ => throw .diverges
  | steps+1, pattern, r => do
    match ← r.next with
    | (some (.ok reader), ⟨some (seg, s)⟩) =>
      let (payload, reader', s') := reader.consume (pattern 0) s
      let rest ← StoreReader.drain steps (fun i => pattern (i+1)) ⟨some (seg, reader'.drop s')⟩
      return ⟨reader.id, payload, decide (reader'.remaining = 0)⟩ :: rest
    | (some (.error e), _) => throw (.err e)
    | _ => return []

/-- `scan(from)`, drained in this way. -/
def Store.scanSome (steps : ℕ) (pattern : ℕ → List ℕ) (fromId : EntryId) : StoreM (List Glimpse) := do
  let r ← Store.scan fromId
  r.drain steps pattern

/-- A glimpse of this entry: a first part of its own payload, and all of it where it was read to its
end. -/
structure Glimpse.Of (g : Glimpse) (e : Entry) : Prop where
  id : g.id = e.1
  bytes : g.bytes <+: e.2
  whole : g.whole = true → g.bytes = e.2

/-- What there is to be seen, or the failure that ends the draining. -/
abbrev Drained := Except (Failure IoError) (List Entry)

def ShownBy (x : Drained) : EStateM.Result (Failure IoError) Machine (List Glimpse) → Prop
  | .ok gs _ => ∃ es, x = .ok es ∧ List.Forall₂ Glimpse.Of gs es
  | .error e _ => x = .error e

/-- Two results of a drained scan show the same ids, or are the same failure. -/
theorem ShownBy.ids {x : Drained} {m m' : Machine} {gs gs' : List Glimpse}
    {a b : EStateM.Result (Failure IoError) Machine (List Glimpse)} (ha : ShownBy x a)
    (hb : ShownBy x b) (hgs : a = .ok gs m) (hgs' : b = .ok gs' m') :
    gs.map (·.id) = gs'.map (·.id) := by
  subst hgs hgs'
  obtain ⟨es, rfl, hall⟩ := ha
  obtain ⟨es', hes, hall'⟩ := hb
  obtain rfl := Except.ok.inj hes
  have hids {gs : List Glimpse} {es : List Entry} (h : List.Forall₂ Glimpse.Of gs es) :
      gs.map (·.id) = es.map (·.1) := by
    induction h with
    | nil => rfl
    | cons hg _ ih => rw [List.map_cons, List.map_cons, hg.id, ih]
  rw [hids hall, hids hall']

/-! ### Opens and reads that do not fail -/

/-- No open of a file fails, and no read of one. Reads may come back short. -/
def World.Reads (w : World) : Prop :=
  ∀ o ∈ w.faults.opens, ∃ reads, o = some reads ∧ ReadStep.fails ∉ reads

theorem reads_calm (d : Dir) : (calm d).Reads := fun _ ho => (List.not_mem_nil ho).elim

theorem World.Reads.open {w : World} (h : w.Reads) (name : FileName) :
    (∃ f w', File.open name w = .ok f w' ∧ w'.dir = w.dir ∧ w'.Reads ∧ f.stream.Quiet ∧
      File.open name (calm w.dir) = .ok f.calmed (calm w.dir)) ∨
    ∃ e w', File.open name w = .error e w' ∧ w'.dir = w.dir ∧ w'.Reads ∧
      File.open name (calm w.dir) = .error e (calm w.dir) := by
  rw [File.open_legible (legible_calm w.dir)]
  unfold File.open
  rw [get_bind, show (calm w.dir).dir = w.dir from rfl]
  cases hb : w.dir.bytes name with
  | none =>
    right
    rcases hopens : w.faults.opens with _ | ⟨_ | reads, rest⟩
    · exact ⟨_, w, rfl, rfl, h, rfl⟩
    · obtain ⟨reads, hnone, _⟩ := h none (by rw [hopens]; exact List.mem_cons_self ..)
      cases hnone
    · exact ⟨_, w, rfl, rfl, h, rfl⟩
  | some bytes =>
    left
    rcases hopens : w.faults.opens with _ | ⟨_ | reads, rest⟩
    · exact ⟨_, w, rfl, rfl, h, List.not_mem_nil, rfl⟩
    · obtain ⟨reads, hnone, _⟩ := h none (by rw [hopens]; exact List.mem_cons_self ..)
      cases hnone
    · obtain ⟨reads', hsome, hquiet⟩ := h (some reads) (by rw [hopens]; exact List.mem_cons_self ..)
      obtain rfl := Option.some.inj hsome
      refine ⟨_, _, rfl, rfl, fun o ho => h o ?_, hquiet, rfl⟩
      rw [hopens]
      exact List.mem_cons_of_mem _ ho

theorem checkMagic_alike {f : File} (hq : f.stream.Quiet) (expected : Bytes) (w v : World) :
    (∃ f', checkMagic f expected w = .ok f' w ∧ f'.stream.Quiet ∧
      checkMagic f.calmed expected v = .ok f'.calmed v) ∨
    ∃ e, checkMagic f expected w = .error e w ∧ checkMagic f.calmed expected v = .error e v := by
  unfold checkMagic
  cases hread : Stream.readExact magicLen f.stream with
  | error e rest =>
    obtain ⟨t, ht⟩ := (Stream.mirrors_readExact magicLen).error hq hread
    right
    rw [show f.calmed.stream = f.stream.calmed from rfl, ht]
    exact ⟨_, rfl, rfl⟩
  | ok magic rest =>
    obtain ⟨hrest, ht⟩ := (Stream.mirrors_readExact magicLen).ok hq hread
    rw [show f.calmed.stream = f.stream.calmed from rfl, ht]
    dsimp only
    by_cases hmagic : magic ≠ expected
    · right
      rw [if_pos hmagic, if_pos hmagic]
      exact ⟨_, rfl, rfl⟩
    · left
      rw [if_neg hmagic, if_neg hmagic]
      exact ⟨_, rfl, hrest, rfl⟩

theorem World.Reads.openSegment {w : World} (h : w.Reads) (id : SegmentId) :
    (∃ f n w', Woodshed.openSegment id w = .ok (f, n) w' ∧ w'.dir = w.dir ∧ w'.Reads ∧
      f.stream.Quiet ∧ Woodshed.openSegment id (calm w.dir) = .ok (f.calmed, n) (calm w.dir)) ∨
    ∃ e w', Woodshed.openSegment id w = .error e w' ∧ w'.dir = w.dir ∧ w'.Reads ∧
      Woodshed.openSegment id (calm w.dir) = .error e (calm w.dir) := by
  unfold Woodshed.openSegment
  rcases h.open (segmentPath id) with ⟨f, w', hopen, hdir, hw', hf, hcalm⟩ |
    ⟨e, w', hopen, hdir, hw', hcalm⟩
  · rcases checkMagic_alike hf segmentMagic w' (calm w.dir) with ⟨f', hcheck, hf', hcheck'⟩ |
      ⟨e, hcheck, hcheck'⟩
    · left
      rw [bind_ok hopen, bind_ok hcheck, bind_ok hcalm, bind_ok hcheck']
      exact ⟨f', _, w', rfl, hdir, hw', hf', rfl⟩
    · right
      rw [bind_ok hopen, bind_error hcheck, bind_ok hcalm, bind_error hcheck']
      exact ⟨e, w', rfl, hdir, hw', rfl⟩
  · right
    rw [bind_error hopen, bind_error hcalm]
    exact ⟨e, w', rfl, hdir, hw', rfl⟩

/-! ### Readers -/

/-- No read of the reader's scanner fails. -/
def StoreReader.Quiet (r : StoreReader) : Prop := ∀ x ∈ r.scanner, x.2.Quiet

theorem quiet_none : StoreReader.Quiet ⟨none⟩ := fun _ hx => (Option.not_mem_none _ hx).elim

theorem quiet_some {seg : SegmentId} {sc : FrameScanner} (h : sc.Quiet) :
    StoreReader.Quiet ⟨some (seg, sc)⟩ := by
  intro x hx
  obtain rfl := Option.some.inj hx
  exact h

/-- What a call of `next` hands out, next to what it hands out where every read gives all it has room
for. -/
inductive Alike (s : Store) (d : Dir) (x y : EStateM.Result (Failure IoError) Machine
    (Option (Except IoError FrameReader) × StoreReader)) : Prop
  | entry (reader : FrameReader) (r : StoreReader) (w : World) (hr : r.Quiet) (hw : w.Reads)
      (hdir : w.dir = d) (hx : x = .ok (some (.ok reader), r) ⟨s, w⟩)
      (hy : y = .ok (some (.ok reader), r.calmed) ⟨s, calm d⟩)
  | refused (e : IoError) (r r' : StoreReader) (m m' : Machine)
      (hx : x = .ok (some (.error e), r) m) (hy : y = .ok (some (.error e), r') m')
  | done (r r' : StoreReader) (m m' : Machine) (hx : x = .ok (none, r) m) (hy : y = .ok (none, r') m')
  | failed (e : Failure IoError) (m m' : Machine) (hx : x = .error e m) (hy : y = .error e m')

section
variable {s : Store} {d : Dir}

theorem nextLoop_alike (rounds : ℕ) {r : StoreReader} {w : World} (hr : r.Quiet) (hw : w.Reads)
    (hdir : w.dir = d) :
    Alike s d (r.nextLoop rounds ⟨s, w⟩) (r.calmed.nextLoop rounds ⟨s, calm d⟩) := by
  induction rounds generalizing r w with
  | zero => exact .failed .diverges _ _ rfl rfl
  | succ rounds ih =>
    obtain ⟨_ | ⟨current, sc⟩⟩ := r
    · exact .done _ _ _ _ rfl rfl
    · change Alike s d _ (StoreReader.nextLoop (rounds+1) ⟨some (current, sc.calmed)⟩ _)
      rw [StoreReader.nextLoop, StoreReader.nextLoop]
      dsimp only
      cases hread : sc.read with
      | error e sc' =>
        obtain ⟨t, ht⟩ := mirrors_read.error (hr _ rfl) hread
        rw [ht]
        exact .refused _ _ _ _ _ rfl rfl
      | ok x sc' =>
        obtain ⟨hquiet, ht⟩ := mirrors_read.ok (hr _ rfl) hread
        rw [ht]
        cases x with
        | some reader => exact .entry reader _ w (quiet_some hquiet) hw hdir rfl rfl
        | none =>
          -- the segment is at its end
          dsimp only
          rw [get_bind, get_bind]
          dsimp only
          cases nextSegment s.state.segments current with
          | none => exact .done _ _ _ _ rfl rfl
          | some nextId =>
            dsimp only
            subst hdir
            rcases hw.openSegment nextId with ⟨f, n, w', hopen, hdir', hw', hf, hcalm⟩ |
              ⟨e, w', hopen, _, _, hcalm⟩
            · rw [bind_ok (fs_ok (attempt_ok hopen)), bind_ok (fs_ok (attempt_ok hcalm))]
              exact ih (r := ⟨some (nextId, FrameScanner.new f magicLen)⟩) (quiet_some hf) hw' hdir'
            · rw [bind_ok (fs_ok (attempt_error hopen)), bind_ok (fs_ok (attempt_error hcalm))]
              exact .refused _ _ _ _ _ rfl rfl

theorem next_alike {r : StoreReader} {w : World} (hr : r.Quiet) (hw : w.Reads) (hdir : w.dir = d) :
    Alike s d (r.next ⟨s, w⟩) (r.calmed.next ⟨s, calm d⟩) :=
  nextLoop_alike (s.state.segments.length+1) hr hw hdir

/-- What is shown by draining a reader on this directory, or one that only differs in how short its
reads come back, in any pattern. -/
def Drains (s : Store) (d : Dir) (steps : ℕ) (r : StoreReader) (x : Drained) : Prop :=
  ∀ (pattern : ℕ → List ℕ) (r' : StoreReader) (w : World), r'.Quiet → r'.calmed = r → w.Reads →
    w.dir = d → ShownBy x (r'.drain steps pattern ⟨s, w⟩)

theorem Drains.done {r r' : StoreReader} {m : Machine} (steps : ℕ)
    (h : r.next ⟨s, calm d⟩ = .ok (none, r') m) : Drains s d (steps+1) r (.ok []) := by
  rintro pattern r₁ w hr rfl hw hdir
  have halike := next_alike (s := s) hr hw hdir
  rw [h] at halike
  cases halike with
  | entry _ _ _ _ _ _ _ hy => cases hy
  | refused _ _ _ _ _ _ hy => cases hy
  | failed _ _ _ _ hy => cases hy
  | done _ _ _ _ hx hy =>
    rw [StoreReader.drain, bind_ok hx]
    exact ⟨[], rfl, .nil⟩

theorem Drains.nothing (steps : ℕ) : Drains s d (steps+1) ⟨none⟩ (.ok []) := by
  have hnext : StoreReader.next ⟨none⟩ ⟨s, calm d⟩ = .ok (none, ⟨none⟩) ⟨s, calm d⟩ := rfl
  exact Drains.done steps hnext

theorem Drains.refused {r r' : StoreReader} {m : Machine} {e : IoError} (steps : ℕ)
    (h : r.next ⟨s, calm d⟩ = .ok (some (.error e), r') m) :
    Drains s d (steps+1) r (.error (.err e)) := by
  rintro pattern r₁ w hr rfl hw hdir
  have halike := next_alike (s := s) hr hw hdir
  rw [h] at halike
  cases halike with
  | entry _ _ _ _ _ _ _ hy => cases hy
  | done _ _ _ _ _ hy => cases hy
  | failed _ _ _ _ hy => cases hy
  | refused _ _ _ _ _ hx hy =>
    cases hy
    rw [StoreReader.drain, bind_ok hx]
    exact rfl

theorem Drains.failed {r : StoreReader} {m : Machine} {e : Failure IoError} (steps : ℕ)
    (h : r.next ⟨s, calm d⟩ = .error e m) : Drains s d (steps+1) r (.error e) := by
  rintro pattern r₁ w hr rfl hw hdir
  have halike := next_alike (s := s) hr hw hdir
  rw [h] at halike
  cases halike with
  | entry _ _ _ _ _ _ _ hy => cases hy
  | done _ _ _ _ _ hy => cases hy
  | refused _ _ _ _ _ _ hy => cases hy
  | failed _ _ _ hx hy =>
    cases hy
    rw [StoreReader.drain, bind_error hx]
    exact rfl

/-- The scanner behind the drop of a reader, whatever was read before. -/
def behindDrop (reader : FrameReader) (sc : FrameScanner) : FrameScanner :=
  ⟨⟨sc.reader.rest.drop reader.remaining, []⟩,
    if reader.remaining = 0 then sc.position else reader.frameStart+headerLen+reader.payloadLen,
    sc.peeked⟩

theorem Drains.entry {r : StoreReader} {m : Machine} {reader : FrameReader} {seg : SegmentId}
    {sc : FrameScanner} {steps : ℕ} {x : Drained}
    (h : r.next ⟨s, calm d⟩ = .ok (some (.ok reader), ⟨some (seg, sc)⟩) m)
    (hrest : Drains s d steps ⟨some (seg, behindDrop reader sc)⟩ x) :
    Drains s d (steps+1) r (x.map fun es => (reader.id, sc.reader.rest.take reader.remaining) :: es) := by
  rintro pattern r₁ w hr rfl hw hdir
  have halike := next_alike (s := s) hr hw hdir
  rw [h] at halike
  cases halike with
  | done _ _ _ _ _ hy => cases hy
  | refused _ _ _ _ _ _ hy => cases hy
  | failed _ _ _ _ hy => cases hy
  | entry reader' r₂ w' hr₂ hw' hdir' hx hy =>
    obtain ⟨_ | ⟨seg', sc'⟩⟩ := r₂
    · cases hy
    cases hy
    have hquiet : sc'.reader.Quiet := hr₂ _ rfl
    obtain ⟨bs, reader₁, sc₁, hconsume, htook⟩ := reader.consume_took (pattern 0) sc'
    obtain ⟨t, hdrop, ht, htq⟩ := htook.drop hquiet
    have hcalmed : StoreReader.calmed ⟨some (seg', reader₁.drop sc₁)⟩ =
        ⟨some (seg', behindDrop reader sc'.calmed)⟩ := by
      rw [hdrop, StoreReader.calmed, behindDrop]
      dsimp only [Option.map_some, FrameScanner.calmed, Stream.calmed]
      rw [ht]
    have hdrain := hrest (fun i => pattern (i+1)) ⟨some (seg', reader₁.drop sc₁)⟩ w'
      (quiet_some (by rw [hdrop]; exact htq)) hcalmed hw' hdir'
    have hbytes := htook.bytes
    have hwithin := htook.within
    rw [StoreReader.drain, bind_ok hx]
    dsimp only
    rw [hconsume]
    dsimp only
    cases hrun : StoreReader.drain steps (fun i => pattern (i+1)) ⟨some (seg', reader₁.drop sc₁)⟩
        ⟨s, w'⟩ with
    | error e m' =>
      rw [hrun] at hdrain
      obtain rfl : x = .error e := hdrain
      rw [bind_error hrun]
      exact rfl
    | ok gs m' =>
      rw [hrun] at hdrain
      obtain ⟨es, rfl, hall⟩ := hdrain
      rw [bind_ok hrun]
      refine ⟨_, rfl, .cons ⟨rfl, ?_, fun hwhole => ?_⟩ hall⟩
      · change bs <+: sc'.reader.rest.take reader.remaining
        rw [hbytes, List.take_append, List.take_of_length_le hwithin]
        exact List.prefix_append _ _
      · -- all of the payload was read
        have hzero : reader₁.remaining = 0 := of_decide_eq_true hwhole
        rw [htook.left] at hzero
        dsimp only at hzero
        change bs = sc'.reader.rest.take reader.remaining
        rw [hbytes, show reader.remaining = bs.length by omega, List.take_left]

/-- Whatever lies in the directory, there is one list of entries, or one failure, that is shown in every
pattern. -/
theorem exists_drains (steps : ℕ) (r : StoreReader) : ∃ x, Drains s d steps r x := by
  induction steps generalizing r with
  | zero => exact ⟨.error .diverges, fun _ _ _ _ _ _ _ => rfl⟩
  | succ steps ih =>
    cases hnext : r.next ⟨s, calm d⟩ with
    | error e m => exact ⟨_, .failed steps hnext⟩
    | ok out m =>
      obtain ⟨_ | ⟨e | reader⟩, r'⟩ := out
      · exact ⟨_, .done steps hnext⟩
      · exact ⟨_, .refused steps hnext⟩
      · obtain ⟨_ | ⟨seg, sc⟩⟩ := r'
        · -- no reader is handed out without a scanner behind it
          refine ⟨.ok [], ?_⟩
          rintro pattern r₁ w hr rfl hw hdir
          have halike := next_alike (s := s) hr hw hdir
          rw [hnext] at halike
          cases halike with
          | done _ _ _ _ _ hy => cases hy
          | refused _ _ _ _ _ _ hy => cases hy
          | failed _ _ _ _ hy => cases hy
          | entry reader' r₂ w' hr₂ hw' hdir' hx hy =>
            obtain ⟨_ | ⟨seg', sc'⟩⟩ := r₂
            · rw [StoreReader.drain, bind_ok hx]
              exact ⟨[], rfl, .nil⟩
            · cases hy
        · obtain ⟨x, hx⟩ := ih ⟨some (seg, behindDrop reader sc)⟩
          exact ⟨_, .entry hnext hx⟩

theorem openAt_alike (segId : SegmentId) (byteOffset : ℕ) (fromId : EntryId) {w : World}
    (hw : w.Reads) :
    ∃ r w', openAt segId byteOffset fromId w = .ok r w' ∧ r.Quiet ∧ w'.Reads ∧ w'.dir = w.dir ∧
      openAt segId byteOffset fromId (calm w.dir) = .ok r.calmed (calm w.dir) := by
  unfold openAt
  rcases hw.openSegment segId with ⟨f, n, w', hopen, hdir, hw', hf, hcalm⟩ |
    ⟨e, w', hopen, hdir, hw', hcalm⟩
  · rw [bind_ok (attempt_ok hopen), bind_ok (attempt_ok hcalm)]
    dsimp only
    have hnew : FrameScanner.new f.calmed byteOffset = (FrameScanner.new f byteOffset).calmed := rfl
    rw [hnew]
    cases hseek : FrameScanner.seekToId fromId (FrameScanner.new f byteOffset) with
    | ok u sc =>
      obtain ⟨hquiet, ht⟩ := (mirrors_seekToId fromId).ok (s := FrameScanner.new f byteOffset) hf hseek
      rw [ht]
      exact ⟨_, w', rfl, quiet_some hquiet, hw', hdir, rfl⟩
    | error e sc =>
      obtain ⟨t, ht⟩ := (mirrors_seekToId fromId).error (s := FrameScanner.new f byteOffset) hf hseek
      rw [ht]
      exact ⟨_, w', rfl, quiet_none, hw', hdir, rfl⟩
  · rw [bind_ok (attempt_error hopen), bind_ok (attempt_error hcalm)]
    exact ⟨_, w', rfl, quiet_none, hw', hdir, rfl⟩

/-- A scan starts with a reader that only differs in how short its reads come back. -/
theorem scan_alike (fromId : EntryId) :
    (∃ r₀ : StoreReader, ∀ w : World, w.Reads → w.dir = d →
      ∃ r w', Store.scan fromId ⟨s, w⟩ = .ok r ⟨s, w'⟩ ∧ r.Quiet ∧ r.calmed = r₀ ∧ w'.Reads ∧
        w'.dir = d) ∨
    ∃ e, ∀ w : World, Store.scan fromId ⟨s, w⟩ = .error e ⟨s, w⟩ := by
  by_cases hall : s.lastEntry.all (fun last => decide (last < max fromId s.state.firstEntry)) = true
  · left
    exact ⟨⟨none⟩, fun w hw hdir => ⟨⟨none⟩, w, Store.scan_behind hall, quiet_none, rfl, hw, hdir⟩⟩
  · cases hstart : s.scanStart (max fromId s.state.firstEntry) with
    | none =>
      refine Or.inr ⟨.panic "called `Option::unwrap()` on a `None` value", fun w => ?_⟩
      unfold Store.scan
      rw [get_bind]
      dsimp only
      rw [if_neg hall, hstart]
      rfl
    | some start =>
      obtain ⟨segId, byteOffset⟩ := start
      obtain ⟨r₀, _, _, _, _, _, hcalm⟩ := openAt_alike segId byteOffset
        (max fromId s.state.firstEntry) (reads_calm d)
      left
      refine ⟨r₀.calmed, fun w hw hdir => ?_⟩
      subst hdir
      obtain ⟨r, w', hopen, hr, hw', hdir, hcalm'⟩ := openAt_alike segId byteOffset
        (max fromId s.state.firstEntry) hw
      have hsame := hcalm'.symm.trans hcalm
      exact ⟨r, w', Store.scan_start hall hstart hopen, hr, (EStateM.Result.ok.inj hsame).1, hw', hdir⟩

/-- What draining shows behind a calm scan is shown behind every scan. -/
theorem Drains.scanSome {fromId : EntryId} {steps : ℕ} {r : StoreReader} {es : List Entry}
    (hdrains : Drains s d steps r.calmed (.ok es))
    (hscan : Store.scan fromId ⟨s, calm d⟩ = .ok r ⟨s, calm d⟩) (pattern : ℕ → List ℕ) {w : World}
    (hw : w.Reads) (hdir : w.dir = d) : ∃ gs m,
    Store.scanSome steps pattern fromId ⟨s, w⟩ = .ok gs m ∧ List.Forall₂ Glimpse.Of gs es := by
  rcases scan_alike (s := s) (d := d) fromId with ⟨r₀, hrun⟩ | ⟨e, hrun⟩
  · obtain ⟨r', w', hcalm, _, hsame, _, _⟩ := hrun (calm d) (reads_calm d) rfl
    obtain ⟨rfl, _⟩ := EStateM.Result.ok.inj (hcalm.symm.trans hscan)
    subst hsame
    obtain ⟨r'', w'', hscan', hr, hcalmed, hw', hdir'⟩ := hrun w hw hdir
    have hdrain := hdrains pattern r'' w'' hr hcalmed hw' hdir'
    rw [Store.scanSome, bind_ok hscan']
    cases hd : r''.drain steps pattern ⟨s, w''⟩ with
    | error e m =>
      rw [hd] at hdrain
      cases hdrain
    | ok gs m =>
      rw [hd] at hdrain
      obtain ⟨es', hes, hall⟩ := hdrain
      obtain rfl := Except.ok.inj hes
      exact ⟨gs, m, rfl, hall⟩
  · exact absurd ((hrun (calm d)).symm.trans hscan) (by simp)

/-! ### Live segments of whole frames -/

section
variable [Crates] {log : SegmentId → List Entry}

/-- Draining a reader shows the entries ahead of it. -/
theorem drain_ahead (hnd : (s.state.segments.map (·.id)).Nodup) (hh : Holds d s.state log)
    (hw : Whole s.state log) (steps : ℕ) :
    ∀ (r : StoreReader) (es : List Entry), Ahead s.state log r es → es.length < steps →
      Drains s d steps r (.ok es) := by
  induction steps with
  | zero =>
    intro r es _ hlt
    omega
  | succ steps ih =>
    rintro ⟨scanner⟩ es
      (⟨hnone, rfl⟩ | ⟨older, seg, newer, sc, xs, hsome, hsplit, hp, hf, rfl⟩) hlt
    · obtain rfl : scanner = none := hnone
      exact Drains.nothing steps
    · obtain rfl : scanner = some (seg.id, sc) := hsome
      have hrounds : newer.length < s.state.segments.length+1 := by
        rw [hsplit, List.length_append, List.length_cons]
        omega
      have hnext (x) (h : StoreReader.nextLoop (s.state.segments.length+1)
          ⟨some (seg.id, sc)⟩ ⟨s, calm d⟩ = .ok x ⟨s, calm d⟩) :
          StoreReader.next ⟨some (seg.id, sc)⟩ ⟨s, calm d⟩ = .ok x ⟨s, calm d⟩ := h
      rcases nextLoop_ahead hnd hh hw newer older seg sc xs _ hsplit hp hf hrounds with
        ⟨hnil, r, hloop⟩ | ⟨e, rest, older', seg', newer', ys, p, q, hcons, hloop, hsplit', hf', hrest⟩
      · rw [hnil]
        exact .done steps (hnext _ hloop)
      · -- the drop leaves the scanner in front of the next frame
        set reader : FrameReader := ⟨e.1, e.2.length, e.2.length, p⟩ with hreader
        have hbehind : behindDrop reader ⟨⟨e.2 ++ frames.encodeAll ys, []⟩, q, none⟩ =
            facing (frames.encodeAll ys)
              (if e.2.length = 0 then q else p+headerLen+e.2.length) := by
          rw [behindDrop, hreader, facing]
          dsimp only
          rw [List.drop_left]
        have htail := ih ⟨some (seg'.id, behindDrop reader ⟨⟨e.2 ++ frames.encodeAll ys, []⟩, q, none⟩)⟩
          rest (Or.inr ⟨older', seg', newer', _, ys, rfl, hsplit', Or.inl ⟨_, hbehind⟩, hf', hrest⟩)
          (by rw [hcons, List.length_cons] at hlt; omega)
        have hdrains := Drains.entry (hnext _ hloop) htail
        rw [hcons]
        change Drains s d (steps+1) _ (.ok ((e.1, (e.2 ++ frames.encodeAll ys).take e.2.length) :: rest))
          at hdrains
        rwa [List.take_left] at hdrains

/-- What is read of an entry has no bearing on the entries behind it: whatever lies in the directory,
there is one list of entries, or one failure, that a drained scan shows in every pattern, however short
the reads come back. Where it starts in a live segment, and the live segments are whole frames, these are
the last of the live entries. -/
theorem Store.scanSome_seen (s : Store) (d : Dir) (fromId : EntryId) :
    (∀ steps, ∃ x : Drained, ∀ (pattern : ℕ → List ℕ) (w : World), w.Reads → w.dir = d →
      ShownBy x (Store.scanSome steps pattern fromId ⟨s, w⟩)) ∧
    ∀ log : SegmentId → List Entry, (s.state.segments.map (·.id)).Nodup → Holds d s.state log →
      Whole s.state log →
      (∃ seg ∈ s.state.segments, ∃ offset,
        s.scanStart (max fromId s.state.firstEntry) = some (seg.id, offset)) →
      ∃ es, es <:+ liveLog s.state log ∧ ∀ (pattern : ℕ → List ℕ) (w : World) steps, w.Reads →
        w.dir = d → es.length < steps →
        ∃ gs m, Store.scanSome steps pattern fromId ⟨s, w⟩ = .ok gs m ∧
          List.Forall₂ Glimpse.Of gs es := by
  constructor
  · intro steps
    rcases scan_alike (s := s) (d := d) fromId with ⟨r₀, hscan⟩ | ⟨e, hscan⟩
    · obtain ⟨x, hx⟩ := exists_drains (s := s) (d := d) steps r₀
      refine ⟨x, fun pattern w hw hdir => ?_⟩
      obtain ⟨r, w', hrun, hr, hcalmed, hw', hdir'⟩ := hscan w hw hdir
      rw [Store.scanSome, bind_ok hrun]
      exact hx pattern r w' hr hcalmed hw' hdir'
    · refine ⟨.error e, fun pattern w _ _ => ?_⟩
      rw [Store.scanSome, bind_error (hscan w)]
      exact rfl
  · rintro log hnd hh hwhole ⟨seg, hseg, offset, hstart⟩
    by_cases hall : s.lastEntry.all (fun last => decide (last < max fromId s.state.firstEntry)) = true
    · refine ⟨[], List.nil_suffix, fun pattern w steps hw hdir hsteps => ?_⟩
      obtain ⟨steps, rfl⟩ : ∃ n, steps = n+1 := ⟨steps-1, by simp at hsteps; omega⟩
      exact (Drains.nothing steps).scanSome (Store.scan_behind hall) pattern hw hdir
    · obtain ⟨older, newer, hsplit⟩ := List.append_of_mem hseg
      obtain ⟨r, hopen, hahead⟩ := openAt_live hh hwhole hsplit offset (max fromId s.state.firstEntry)
      have hcalmed : r.calmed = r := by
        obtain ⟨r', _, hrun, _, _, _, hcalm⟩ := openAt_alike seg.id offset
          (max fromId s.state.firstEntry) (reads_calm d)
        obtain ⟨rfl, _⟩ := EStateM.Result.ok.inj (hrun.symm.trans hopen)
        exact (EStateM.Result.ok.inj (hcalm.symm.trans hopen)).1
      refine ⟨(log seg.id).dropWhile (fun e => decide (e.1 < max fromId s.state.firstEntry)) ++
        newer.flatMap fun seg => log seg.id, ?_, fun pattern w steps hw hdir hsteps => ?_⟩
      · rw [liveLog, hsplit, List.flatMap_append, List.flatMap_cons]
        refine List.IsSuffix.trans ?_ (List.suffix_append _ _)
        obtain ⟨dropped, hdropped⟩ :=
          List.dropWhile_suffix (l := log seg.id) fun e => decide (e.1 < max fromId s.state.firstEntry)
        exact ⟨dropped, by rw [← List.append_assoc, hdropped]⟩
      · have hdrains := drain_ahead hnd hh hwhole steps r _ hahead hsteps
        rw [← hcalmed] at hdrains
        exact hdrains.scanSome (Store.scan_start hall hstart hopen) pattern hw hdir

end
end

section
attribute [local instance] sample

/-- A store with two entries, drained in any pattern. -/
theorem Store.scanSome_seen_two : ∃ s d log es,
    liveLog s.state log = [(⟨5⟩, [1, 2]), (⟨6⟩, [])] ∧ es <:+ liveLog s.state log ∧
      ∀ (pattern : ℕ → List ℕ) (w : World) steps, w.Reads → w.dir = d → es.length < steps →
        ∃ gs m, Store.scanSome steps pattern ⟨6⟩ ⟨s, w⟩ = .ok gs m ∧
          List.Forall₂ Glimpse.Of gs es := by
  obtain ⟨s, hopen, hs, _, hst, hpend⟩ := fresh_blank.session ⟨0⟩
  obtain ⟨s', d', es', log', active', hrun, hs', hlog, _⟩ := hs.batch
    (show ([(⟨5⟩, [1, 2]), (⟨6⟩, [])] : List Entry) ≠ [] by simp) (by simp [Fits]) (by simp; decide)
    (by rw [hst]; simp [liveLog]) (by intro hp; rw [hpend] at hp; cases hp)
  obtain ⟨older, seg, newer, offset, hstart, hsplit, _⟩ :=
    hs'.readable.scanStart (max ⟨6⟩ s'.state.firstEntry)
  obtain ⟨es, hsuffix, hes⟩ := (Store.scanSome_seen s' d' ⟨6⟩).2 log' hs'.kept.shaped.nodup hs'.kept.holds
    hs'.whole ⟨seg, by simp [hsplit], offset, hstart⟩
  refine ⟨s', d', log', es, ?_, hsuffix, hes⟩
  rw [hlog, hst]
  rfl

end
end Woodshed
