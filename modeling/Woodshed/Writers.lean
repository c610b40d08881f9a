import Woodshed.Tallying

/-! Writers one after the other: each pushes entries and is then written or dropped. What it pushed
stays in the buffer of the store unless its write flushes it. -/
namespace Woodshed
open Sequencing Framing

section
variable [Crates]

/-- A writer: the entries that are pushed, and whether `write` is called then. -/
structure Use where
  pushes : List Entry
  written : Bool

def Use.run (u : Use) : StoreM Commit := do
  let w ← Store.pushAll u.pushes
  if u.written then w.write else return none

/-- The pushes of the writers whose `write` returned Ok, and the machine behind all of them. -/
def useAll : List Use → Machine → List Entry × Machine
  | [], m => ([], m)
  | u :: us, m =>
    match u.run m with
    | .ok _ m' => ((if u.written then u.pushes else []) ++ (useAll us m').1, (useAll us m').2)
    | .error _ m' => useAll us m'

/-! ### What becomes of the pushes -/

/-- The pushes of a writer, and whether its `write` returns Ok. -/
abbrev Fate := List Entry × Bool

/-- The fates of writers, given which flushes of segment files fail. -/
def fatesOf : List Bool → List Use → List Fate
  | _, [] => []
  | fails, ⟨xs, written⟩ :: us =>
    if written = true ∧ xs ≠ [] then (xs, !fails.headD false) :: fatesOf fails.tail us
    else (xs, written) :: fatesOf fails us

/-- The write flushes something. -/
def Flushes (f : Fate) : Prop := f.2 = true ∧ f.1 ≠ []

instance (f : Fate) : Decidable (Flushes f) := inferInstanceAs (Decidable (_ ∧ _))

/-- What a writer leaves in the buffer. -/
def leftBy (dirty : List Entry) (f : Fate) : List Entry := if Flushes f then [] else dirty ++ f.1

/-- What is flushed over all writers. -/
def flushedBy : List Entry → List Fate → List Entry
  | _, [] => []
  | dirty, f :: fs => (if Flushes f then dirty ++ f.1 else []) ++ flushedBy (leftBy dirty f) fs

/-- The pushes of the writers whose `write` returns Ok. -/
def committed (fs : List Fate) : List Entry := fs.flatMap fun f => if f.2 then f.1 else []

/-- Every flush finds an empty buffer. -/
def Tidy : List Entry → List Fate → Prop
  | _, [] => True
  | dirty, f :: fs => (Flushes f → dirty = []) ∧ Tidy (leftBy dirty f) fs

/-- No writer with pushes whose `write` does not return Ok stands before one whose `write` does. -/
def Undisturbed (fs : List Fate) : Prop :=
  fs.Pairwise fun f g => f.2 = false → g.2 = true → f.1 = [] ∨ g.1 = []

omit [Crates] in
theorem undisturbed_cons (f : Fate) (fs : List Fate) : Undisturbed (f :: fs) ↔
    (∀ g ∈ fs, f.2 = false → g.2 = true → f.1 = [] ∨ g.1 = []) ∧ Undisturbed fs :=
  List.pairwise_cons

omit [Crates] in
theorem tidy_iff (dirty : List Entry) (fs : List Fate) :
    Tidy dirty fs ↔ (dirty ≠ [] → ∀ f ∈ fs, ¬ Flushes f) ∧ Undisturbed fs := by
  induction fs generalizing dirty with
  | nil => simp [Tidy, Undisturbed]
  | cons f fs ih =>
    rw [Tidy, ih, undisturbed_cons, leftBy]
    by_cases hf : Flushes f
    · -- the buffer is empty behind the flush
      rw [if_pos hf]
      constructor
      · rintro ⟨hd, _, hpair⟩
        exact ⟨fun hne => absurd (hd hf) hne,
          fun g _ hnot => absurd (hf.1.symm.trans hnot) (by decide), hpair⟩
      · rintro ⟨hd, _, hpair⟩
        refine ⟨fun _ => ?_, fun hne => absurd rfl hne, hpair⟩
        by_contra hne
        exact hd hne f (by simp) hf
    · rw [if_neg hf]
      constructor
      · rintro ⟨_, hleft, hpair⟩
        refine ⟨?_, ?_, hpair⟩
        · intro hne g hg
          rcases List.mem_cons.mp hg with rfl | hg
          · exact hf
          · exact hleft (by simp [hne]) g hg
        · intro g hg _ hgo
          by_contra hnot
          rw [not_or] at hnot
          exact hleft (by simp [hnot.1]) g hg ⟨hgo, hnot.2⟩
      · rintro ⟨hd, hhead, hpair⟩
        refine ⟨fun h => absurd h hf, ?_, hpair⟩
        intro hne g hg hflush
        by_cases hdirty : dirty = []
        · have hpush : f.1 ≠ [] := by simpa [hdirty] using hne
          have hfail : f.2 = false := by
            by_contra hok
            exact hf ⟨by simpa using hok, hpush⟩
          rcases hhead g hg hfail hflush.1 with hnil | hnil
          · exact hpush hnil
          · exact hflush.2 hnil
        · exact hd hdirty g (by simp [hg]) hflush

omit [Crates] in
theorem committed_cons (f : Fate) (fs : List Fate) :
    committed (f :: fs) = (if Flushes f then f.1 else []) ++ committed fs := by
  have hsplit : committed (f :: fs) = (if f.2 then f.1 else []) ++ committed fs := List.flatMap_cons
  rw [hsplit]
  by_cases hf : Flushes f
  · rw [if_pos hf, if_pos hf.1]
  · rw [if_neg hf]
    by_cases hok : f.2 = true
    · rw [if_pos hok, not_not.mp fun hne => hf ⟨hok, hne⟩]
    · rw [if_neg hok]

omit [Crates] in
/-- With empty buffers, exactly the pushes of the writers that return Ok are flushed. -/
theorem flushedBy_of_tidy {dirty : List Entry} {fs : List Fate} (h : Tidy dirty fs) :
    flushedBy dirty fs = committed fs := by
  induction fs generalizing dirty with
  | nil => rfl
  | cons f fs ih =>
    obtain ⟨hd, hrest⟩ := h
    rw [flushedBy, committed_cons, ih hrest]
    by_cases hf : Flushes f
    · rw [if_pos hf, if_pos hf, hd hf, List.nil_append]
    · rw [if_neg hf, if_neg hf]

/-- What is flushed is never shorter than the pushes of the writers that return Ok, and longer if
a flush finds something in the buffer. -/
theorem length_committed (dirty : List Entry) (fs : List Fate) :
    (frames.encodeAll (committed fs)).length ≤ (frames.encodeAll (flushedBy dirty fs)).length ∧
      (¬ Tidy dirty fs →
        (frames.encodeAll (committed fs)).length < (frames.encodeAll (flushedBy dirty fs)).length) := by
  induction fs generalizing dirty with
  | nil => exact ⟨le_rfl, fun h => absurd trivial h⟩
  | cons f fs ih =>
    obtain ⟨hle, hlt⟩ := ih (leftBy dirty f)
    rw [committed_cons, flushedBy, Tidy]
    by_cases hf : Flushes f
    · rw [if_pos hf, if_pos hf]
      simp only [Grammar.encodeAll_append, List.length_append]
      refine ⟨by omega, fun hnot => ?_⟩
      by_cases hd : dirty = []
      · have := hlt (fun h => hnot ⟨fun _ => hd, h⟩)
        omega
      · obtain ⟨e, rest, rfl⟩ := List.exists_cons_of_ne_nil hd
        have hpos := frames.encode_length_pos e
        rw [Grammar.encodeAll_cons, List.length_append]
        omega
    · rw [if_neg hf, if_neg hf, List.nil_append, List.nil_append]
      exact ⟨hle, fun hnot => hlt (fun h => hnot ⟨fun h' => absurd h' hf, h⟩)⟩

/-! ### The accounts of a store -/

/-- What has become of a store `s₀` with the entries `log₀`: `all` was flushed since then, `mine` was
pushed by the writers whose `write` returned Ok, and `dirty` is in the buffer. The counters are
right as long as every flush found an empty buffer, which is what `tidy` says. -/
structure Account (s₀ : Store) (log₀ : SegmentId → List Entry) (s : Store) (d : Dir)
    (es : List Entry) (log : SegmentId → List Entry) (active : SegmentEntry)
    (dirty all mine : List Entry) (tidy : Prop) : Prop extends Running s d es log active where
  buffer : s.activeCursor.buf.buf = frames.encodeAll dirty
  live : liveLog s.state log = liveLog s₀.state log₀ ++ all
  lastId : s.lastEntryId = (mine.getLast?.map (·.1)).or s₀.lastEntryId
  count : tidy → s₀.activeEntryCount = (log₀ s₀.activeId).length →
    s.activeEntryCount = (log active.id).length
  first : tidy → ∀ seg ∈ s.state.segments, seg ∉ s₀.state.segments →
    ∀ e, (log seg.id).head? = some e → seg.firstEntry = e.1
  /-- The entries from before are still there, in front. -/
  grows : ∀ id, s₀.state.lists id = true → s.state.lists id = true ∧ log₀ id <+: log id
  /-- Only a write that failed leaves a new segment without entries. -/
  fresh : tidy → dirty = [] → active ∉ s₀.state.segments → log active.id ≠ []

section
variable {s₀ s : Store} {log₀ log : SegmentId → List Entry} {d : Dir} {es : List Entry}
  {active : SegmentEntry} {dirty all mine : List Entry} {tidy : Prop}

theorem Running.account (h : Running s d es log active) (hbuf : s.activeCursor.buf = ⟨[]⟩) :
    Account s log s d es log active [] [] [] True := by
  refine ⟨h, by rw [hbuf]; rfl, by rw [List.append_nil], ?_, fun _ hc => ?_,
    fun _ _ hseg hnot => absurd hseg hnot, fun _ hid => ⟨hid, List.prefix_rfl⟩,
    fun _ _ hnot => absurd h.kept.shaped.mem hnot⟩
  · rfl
  · rw [hc, h.activeId]

/-- Pushes go to the buffer. -/
theorem Account.push (h : Account s₀ log₀ s d es log active dirty all mine tidy) (xs : List Entry) :
    Account s₀ log₀ (s.buffered xs) d es log active (dirty ++ xs) all mine tidy := by
  have hrun : Running (s.buffered xs) d es log active :=
    ⟨h.kept, h.manifestCursor, h.activeId, h.activeFirst, h.position, h.next, h.pending, h.last⟩
  refine ⟨hrun, ?_, h.live, h.lastId, h.count, h.first, h.grows, ?_⟩
  · rw [Grammar.encodeAll_append, ← h.buffer]
    rfl
  · intro ht hnil
    exact h.fresh ht (List.append_eq_nil_iff.mp hnil).1

/-- A rollover that was put off is made, and what is in the buffer stays there. -/
theorem Account.ready (h : Account s₀ log₀ s d es log active dirty all mine tidy) (hne : dirty ≠ [])
    (first : EntryId) (hroom : s.Room) :
    ∃ es' log' active', Account s₀ log₀ (s.readyFor first) (d.readyFor s first) es' log' active'
        dirty all mine tidy ∧
      (s.rolloverPending = true → active'.firstEntry = first) ∧
      (s.rolloverPending = false → log' = log ∧ active' = active) := by
  obtain ⟨es', log', active', hrun, hlive, hold, hnew, hsame⟩ := h.toRunning.readyFor first hroom
  refine ⟨es', log', active', ?_, fun hp => by rw [(hnew hp).1], fun hp => (hsame hp).2⟩
  by_cases hp : s.rolloverPending = true
  · obtain ⟨rfl, hnil⟩ := hnew hp
    have hs : s.readyFor first = s.rolled first := if_pos hp
    rw [hs] at hrun hlive ⊢
    refine ⟨hrun, h.buffer, hlive.trans h.live, h.lastId, fun _ _ => ?_, ?_, fun id hid => ?_,
      fun _ hnil => absurd hnil hne⟩
    · rw [hnil]
      rfl
    · intro ht seg hseg hnot e he
      rcases List.mem_append.mp hseg with hseg | hseg
      · rw [hold seg.id (lists_of_mem hseg)] at he
        exact h.first ht seg hseg hnot e he
      · -- the new segment has no entry yet
        rw [List.mem_singleton.mp hseg, hnil] at he
        cases he
    · obtain ⟨hl, hpre⟩ := h.grows id hid
      rw [hold id hl]
      exact ⟨(lists_rolledState _ _ _).mpr (Or.inl hl), hpre⟩
  · obtain ⟨rfl, rfl, rfl⟩ := hsame (by simpa using hp)
    have hs : s.readyFor first = s := if_neg hp
    rw [hs] at hrun ⊢
    exact ⟨hrun, h.buffer, h.live, h.lastId, h.count, h.first, h.grows,
      fun _ hnil => absurd hnil hne⟩

/-- A flush writes what was in the buffer before the writer as well. -/
theorem Account.flush {xs : List Entry}
    (h : Account s₀ log₀ s d es log active (dirty ++ xs) all mine tidy) {last : Entry}
    (hlast : xs.getLast? = some last)
    (hfirst : tidy → dirty = [] → active ∉ s₀.state.segments → log active.id = [] →
      ∀ e, xs.head? = some e → active.firstEntry = e.1) :
    Account s₀ log₀ (s.flushed last.1 xs.length) (d.flushed s) es
      (Function.update log active.id (log active.id ++ (dirty ++ xs))) active []
      (all ++ (dirty ++ xs)) (mine ++ xs) (tidy ∧ dirty = []) := by
  have hend : (dirty ++ xs).getLast? = some last := by
    rw [List.getLast?_append, hlast]
    rfl
  have hshape := h.kept.shaped
  refine ⟨h.toRunning.flushed h.buffer hend xs.length, rfl, ?_, ?_, ?_, ?_, ?_, ?_⟩
  · change liveLog s.state _ = _
    rw [liveLog_update s.state log active hshape, h.live, List.append_assoc]
  · change some last.1 = _
    rw [List.getLast?_append, hlast]
    rfl
  · rintro ⟨ht, rfl⟩ hstart
    change s.activeEntryCount+xs.length = _
    rw [Function.update_self, List.nil_append, List.length_append, h.count ht hstart]
  · rintro ⟨ht, rfl⟩ seg hseg hnot e he
    by_cases hid : seg.id = active.id
    · obtain rfl := hshape.inj hseg hshape.mem hid
      rw [Function.update_self, List.nil_append, List.head?_append] at he
      by_cases hnil : log seg.id = []
      · rw [hnil, List.head?_nil, Option.none_or] at he
        exact hfirst ht rfl hnot hnil e he
      · obtain ⟨f, rest, hcons⟩ := List.exists_cons_of_ne_nil hnil
        rw [hcons, List.head?_cons, Option.some_or] at he
        exact h.first ht seg hseg hnot e (by rw [hcons, List.head?_cons, he])
    · rw [Function.update_of_ne hid] at he
      exact h.first ht seg hseg hnot e he
  · intro id hid
    obtain ⟨hl, hpre⟩ := h.grows id hid
    refine ⟨hl, ?_⟩
    by_cases heq : id = active.id
    · rw [heq] at hpre ⊢
      rw [Function.update_self]
      exact hpre.trans (List.prefix_append _ _)
    · rwa [Function.update_of_ne heq]
  · intro _ _ _ hnil
    rw [Function.update_self] at hnil
    have hxs := (List.append_eq_nil_iff.mp (List.append_eq_nil_iff.mp hnil).2).2
    rw [hxs] at hlast
    cases hlast

/-- Which segments are open does not matter. -/
theorem Account.handles (h : Account s₀ log₀ s d es log active dirty all mine tidy)
    (segments : Finset SegmentId) :
    Account s₀ log₀ { s with segments := segments } d es log active dirty all mine tidy :=
  ⟨⟨h.kept, h.manifestCursor, h.activeId, h.activeFirst, h.position, h.next, h.pending, h.last⟩,
    h.buffer, h.live, h.lastId, h.count, h.first, h.grows, h.fresh⟩

theorem Account.mono (h : Account s₀ log₀ s d es log active dirty all mine tidy) {tidy' : Prop}
    (ht : tidy' → tidy) : Account s₀ log₀ s d es log active dirty all mine tidy' :=
  ⟨h.toRunning, h.buffer, h.live, h.lastId, fun h' => h.count (ht h'), fun h' => h.first (ht h'),
    h.grows, fun h' => h.fresh (ht h')⟩

end

/-! ### Writers in turn -/

omit [Crates] in
theorem steady_popped {w : World} (h : Steady w) (d : Dir) : Steady { w.popped with dir := d } := by
  refine ⟨fun c hc => ?_, h.opens⟩
  have hpop : w.popped.faults.calls c = w.faults.calls c := Function.update_of_ne hc _ _
  exact hpop.trans (h.calls c hc)

omit [Crates] in
theorem calls_popped (w : World) :
    w.popped.faults.calls (.flush .segment) = (w.faults.calls (.flush .segment)).tail := by
  simp [World.popped]

theorem toNat_readyFor (s : Store) (first : EntryId) (h : s.nextSegId.val.toNat+1 < 2^32) :
    (s.readyFor first).nextSegId.val.toNat ≤ s.nextSegId.val.toNat+1 := by
  by_cases hp : s.rolloverPending = true
  · have hs : s.readyFor first = s.rolled first := if_pos hp
    rw [hs]
    exact (SegmentId.succ_toNat h).le
  · have hs : s.readyFor first = s := if_neg hp
    rw [hs]
    exact Nat.le_succ _

/-- The fates of the writers that are left when the buffer is `dirty`. -/
theorem Account.useAll {s₀ : Store} {log₀ : SegmentId → List Entry} (us : List Use) {s : Store}
    {log : SegmentId → List Entry} {w : World} {es : List Entry} {active : SegmentEntry}
    {dirty all mine : List Entry} {tidy : Prop}
    (h : Account s₀ log₀ s w.dir es log active dirty all mine tidy) (hw : Steady w)
    (hroom : s.nextSegId.val.toNat+us.length < 2^32) :
    ∃ s' w' es' log' active' dirty',
      useAll us ⟨s, w⟩ =
        (committed (fatesOf (w.faults.calls (.flush .segment)) us), ⟨s', w'⟩) ∧
      Account s₀ log₀ s' w'.dir es' log' active' dirty'
        (all ++ flushedBy dirty (fatesOf (w.faults.calls (.flush .segment)) us))
        (mine ++ committed (fatesOf (w.faults.calls (.flush .segment)) us))
        (tidy ∧ Tidy dirty (fatesOf (w.faults.calls (.flush .segment)) us)) := by
  induction us generalizing s log w es active dirty all mine tidy with
  | nil =>
    refine ⟨s, w, es, log, active, dirty, rfl, ?_⟩
    have hsame := h.mono (fun ht : tidy ∧ True => ht.1)
    simpa [fatesOf, flushedBy, committed, Tidy] using hsame
  | cons u us ih =>
    obtain ⟨xs, written⟩ := u
    have hpush := h.push xs
    rw [List.length_cons] at hroom
    by_cases hwrites : written = true ∧ xs ≠ []
    · obtain ⟨rfl, hne⟩ := hwrites
      have hfates : fatesOf (w.faults.calls (.flush .segment)) (⟨xs, true⟩ :: us) =
          (xs, !w.flushFails) :: fatesOf (w.faults.calls (.flush .segment)).tail us :=
        if_pos ⟨rfl, hne⟩
      obtain ⟨first, rest, hcons⟩ := List.exists_cons_of_ne_nil hne
      have hlast := List.getLast?_eq_some_getLast hne
      set last := xs.getLast hne with hlastdef
      have hwriter : writerOf xs = ⟨some first.1, some last.1, xs.length⟩ :=
        writerOf_eq hcons hlast
      have hroom' : (s.buffered xs).Room := fun _ => by
        change s.nextSegId.val.toNat+1 < 2^32
        omega
      have hfull : dirty ++ xs ≠ [] := fun hnil => hne (List.append_eq_nil_iff.mp hnil).2
      obtain ⟨es₁, log₁, active₁, hready, hrolled, hsame⟩ := hpush.ready hfull first.1 hroom'
      have hwrite := hpush.toRunning.write_eq hw rfl first.1 last.1 xs.length hroom'
      have hnext := toNat_readyFor (s.buffered xs) first.1 (by change s.nextSegId.val.toNat+1 < _; omega)
      set s₁ := (s.buffered xs).readyFor first.1 with hs₁
      set d₁ := w.dir.readyFor (s.buffered xs) first.1 with hd₁
      change s₁.nextSegId.val.toNat ≤ s.nextSegId.val.toNat+1 at hnext
      have hrun : Use.run ⟨xs, true⟩ ⟨s, w⟩ = StoreWriter.write ⟨some first.1, some last.1, xs.length⟩
          ⟨s.buffered xs, w⟩ := by
        rw [Use.run, bind_ok (Store.pushAll_eq xs s w), hwriter]
        rfl
      rw [hwrite] at hrun
      dsimp only at hrun
      rw [hfates]
      cases hfail : w.flushFails with
      | true =>
        -- the flush writes nothing, and the pushes stay in the buffer
        have hno : ¬ Flushes (xs, !true) := fun hf => Bool.false_ne_true hf.1
        rw [hfail, if_pos rfl] at hrun
        obtain ⟨s', w', es', log', active', dirty', hall, hacc⟩ :=
          ih (w := { w.popped with dir := d₁ }) (hready.handles (insert s₁.activeId s₁.segments))
            (steady_popped hw d₁) (by change s₁.nextSegId.val.toNat+us.length < 2^32; omega)
        rw [show World.faults { w.popped with dir := d₁ } = w.popped.faults from rfl,
          calls_popped] at hall hacc
        refine ⟨s', w', es', log', active', dirty', ?_, ?_⟩
        · rw [Woodshed.useAll, hrun, committed_cons, if_neg hno]
          exact hall
        · rw [flushedBy, committed_cons, if_neg hno, if_neg hno, Tidy, leftBy, if_neg hno]
          exact hacc.mono fun ht => ⟨ht.1, ht.2.2⟩
      | false =>
        have hyes : Flushes (xs, !false) := ⟨rfl, hne⟩
        rw [hfail, if_neg Bool.false_ne_true] at hrun
        have hflush := hready.flush hlast (by
          intro ht hd hnot hnil e he
          by_cases hp : (s.buffered xs).rolloverPending = true
          · rw [hcons, List.head?_cons] at he
            rw [hrolled hp, Option.some.inj he]
          · obtain ⟨rfl, rfl⟩ := hsame (by simpa using hp)
            exact absurd hnil (h.fresh ht hd hnot))
        obtain ⟨s', w', es', log', active', dirty', hall, hacc⟩ :=
          ih (w := { w.popped with dir := d₁.flushed s₁ }) hflush (steady_popped hw _)
            (by change s₁.nextSegId.val.toNat+us.length < 2^32; omega)
        rw [show World.faults { w.popped with dir := d₁.flushed s₁ } = w.popped.faults from rfl,
          calls_popped] at hall hacc
        refine ⟨s', w', es', log', active', dirty', ?_, ?_⟩
        · rw [Woodshed.useAll, hrun, committed_cons, if_pos hyes]
          dsimp only
          rw [hall]
          rfl
        · rw [flushedBy, committed_cons, if_pos hyes, if_pos hyes, Tidy, leftBy, if_pos hyes,
            ← List.append_assoc all, ← List.append_assoc mine]
          exact hacc.mono fun ht => ⟨⟨ht.1, ht.2.1 hyes⟩, ht.2.2⟩
    · -- nothing is flushed: the writer is dropped, or pushed nothing
      have hfates : fatesOf (w.faults.calls (.flush .segment)) (⟨xs, written⟩ :: us) =
          (xs, written) :: fatesOf (w.faults.calls (.flush .segment)) us := if_neg hwrites
      have hno : ¬ Flushes (xs, written) := hwrites
      have hrun : Use.run ⟨xs, written⟩ ⟨s, w⟩ = .ok none ⟨s.buffered xs, w⟩ := by
        rw [Use.run, bind_ok (Store.pushAll_eq xs s w)]
        cases written with
        | false => rfl
        | true =>
          rw [not_not.mp fun hne => hwrites ⟨rfl, hne⟩]
          exact StoreWriter.write_nil _
      have hmine : (if written then xs else []) = [] := by
        split
        · exact not_not.mp fun hne => hwrites ⟨‹_›, hne⟩
        · rfl
      obtain ⟨s', w', es', log', active', dirty', hall, hacc⟩ :=
        ih hpush hw (by change s.nextSegId.val.toNat+us.length < 2^32; omega)
      rw [hfates]
      refine ⟨s', w', es', log', active', dirty', ?_, ?_⟩
      · rw [Woodshed.useAll, hrun, committed_cons, if_neg hno]
        dsimp only
        rw [hall, hmine]
      · rw [flushedBy, committed_cons, if_neg hno, if_neg hno, Tidy, leftBy, if_neg hno]
        exact hacc.mono fun ht => ⟨ht.1, ht.2.2⟩

/-! ### Only written batches -/

/-- `m'` holds the entries of `m` and `xs` behind them, and its counters are those of its files. -/
structure OnlyWritten (m : Machine) (log : SegmentId → List Entry) (xs : List Entry) (m' : Machine)
    (log' : SegmentId → List Entry) : Prop where
  holds : ∀ seg ∈ m'.store.state.segments, m'.world.dir.bytes (segmentPath seg.id) =
    some (segmentMagic ++ frames.encodeAll (log' seg.id))
  entries : liveLog m'.store.state log' = liveLog m.store.state log ++ xs
  grows : ∀ seg ∈ m.store.state.segments, log seg.id <+: log' seg.id
  lastId : m'.store.lastEntryId = (xs.getLast?.map (·.1)).or m.store.lastEntryId
  count : m'.store.activeEntryCount = (log' m'.store.activeId).length
  first : ∀ seg ∈ m'.store.state.segments, seg ∉ m.store.state.segments →
    ∀ e, (log' seg.id).head? = some e → seg.firstEntry = e.1

/-- Where nothing was written, the count is that of the entries from before. -/
theorem OnlyWritten.count_same {m : Machine} {log log' : SegmentId → List Entry} {xs : List Entry}
    {w : World} (h : OnlyWritten m log xs ⟨m.store, w⟩ log')
    (hholds : ∀ seg ∈ m.store.state.segments,
      w.dir.bytes (segmentPath seg.id) = some (segmentMagic ++ frames.encodeAll (log seg.id)))
    (hactive : ∃ seg ∈ m.store.state.segments, seg.id = m.store.activeId) :
    m.store.activeEntryCount = (log m.store.activeId).length := by
  obtain ⟨active, hmem, hid⟩ := hactive
  obtain ⟨extra, hextra⟩ := h.grows active hmem
  have hbytes : w.dir.bytes (segmentPath active.id) = _ := h.holds active hmem
  rw [hholds active hmem, ← hextra, Grammar.encodeAll_append] at hbytes
  have hnil := List.self_eq_append_right.mp (List.append_cancel_left (Option.some.inj hbytes))
  cases extra with
  | nil =>
    rw [List.append_nil, hid] at hextra
    rw [hextra]
    exact h.count
  | cons e rest =>
    rw [Grammar.encodeAll_cons] at hnil
    exact absurd (List.append_eq_nil_iff.mp hnil).1 (frames.encode_ne_nil e)

theorem encodeAll_liveLog (st : StoreState) (log : SegmentId → List Entry) :
    frames.encodeAll (liveLog st log) = st.segments.flatMap fun seg => frames.encodeAll (log seg.id) := by
  rw [Grammar.encodeAll, liveLog, List.flatMap_assoc]
  rfl

section
variable {s₀ s : Store} {log₀ log : SegmentId → List Entry} {d : Dir} {es : List Entry}
  {active : SegmentEntry} {dirty : List Entry} {fs : List Fate}

/-- The files hold more than the pushes of the writers that returned Ok when one of them found
something in the buffer. -/
theorem Account.tidy_of_holds
    (h : Account s₀ log₀ s d es log active dirty (flushedBy [] fs) (committed fs) (Tidy [] fs))
    {log' : SegmentId → List Entry} (hholds : ∀ seg ∈ s.state.segments,
      d.bytes (segmentPath seg.id) = some (segmentMagic ++ frames.encodeAll (log' seg.id)))
    (hlive : liveLog s.state log' = liveLog s₀.state log₀ ++ committed fs) : Tidy [] fs := by
  by_contra hnot
  have hsame : frames.encodeAll (liveLog s.state log') = frames.encodeAll (liveLog s.state log) := by
    rw [encodeAll_liveLog, encodeAll_liveLog]
    refine List.flatMap_congr fun seg hseg => ?_
    have hbytes := hholds seg hseg
    rw [h.kept.holds seg hseg] at hbytes
    exact (List.append_cancel_left (Option.some.inj hbytes)).symm
  rw [hlive, h.live, Grammar.encodeAll_append, Grammar.encodeAll_append] at hsame
  have hlt := (length_committed [] fs).2 hnot
  rw [List.append_cancel_left hsame] at hlt
  exact absurd hlt (lt_irrefl _)

/-- With empty buffers all is as it should be, if the count was right before. -/
theorem Account.onlyWritten {w w' : World}
    (h : Account s₀ log₀ s w'.dir es log active dirty (flushedBy [] fs) (committed fs) (Tidy [] fs))
    (ht : Tidy [] fs) (hcount : s₀.activeEntryCount = (log₀ s₀.activeId).length) :
    OnlyWritten ⟨s₀, w⟩ log₀ (committed fs) ⟨s, w'⟩ log := by
  refine ⟨h.kept.holds, ?_, fun seg hseg => (h.grows seg.id (lists_of_mem hseg)).2, h.lastId, ?_,
    h.first ht⟩
  · rw [← flushedBy_of_tidy ht]
    exact h.live
  · rw [h.count ht hcount, ← h.activeId]

end

omit [Crates] in
theorem fatesOf_take (n : ℕ) (fails : List Bool) (us : List Use) :
    fatesOf fails (us.take n) = (fatesOf fails us).take n := by
  induction us generalizing n fails with
  | nil => rw [List.take_nil, fatesOf, List.take_nil]
  | cons u us ih =>
    obtain ⟨xs, written⟩ := u
    cases n with
    | zero => rfl
    | succ n =>
      rw [List.take_succ_cons, fatesOf, fatesOf]
      split
      · rw [ih, List.take_succ_cons]
      · rw [ih, List.take_succ_cons]

/-- At the start the count is right just if the run has not put it off. -/
theorem Tallied.counted_iff {m : Machine} {j : Journal} {off : Bool} (h : Tallied m j off) {d : Dir}
    {es : List Entry} {log : SegmentId → List Entry} {active : SegmentEntry}
    (ha : Agrees m j d es log active) :
    m.store.activeEntryCount = (log m.store.activeId).length ↔ off = false := by
  obtain ⟨s, w⟩ := m
  obtain rfl : w = calm d := ha.world
  have hs : Session s d es log active := ha.session
  have ht := h.tallies
  unfold Machine.Tallies at ht
  rw [hs.inActive, ← hs.activeId] at ht
  constructor
  · intro hcount
    by_contra hoff
    rw [if_pos (by simpa using hoff)] at ht
    exact ht.ne hcount
  · rintro rfl
    rwa [if_neg Bool.false_ne_true] at ht

/-- At every point of a sequence of writers exactly the batches that were written have reached the
log, and the counters are those of the files, if and only if the run before has not put the count
off and no writer that pushed something and was dropped, or failed, stands before one that is
written. -/
theorem Tallied.onlyWritten_iff {m : Machine} {j : Journal} {off : Bool} (h : Tallied m j off)
    {w : World} (hw : Steady w) (hd : w.dir = m.world.dir) (us : List Use)
    (hroom : m.store.nextSegId.val.toNat+us.length < 2^32) :
    ∃ log, m.Logs log ∧
      ((∀ n, ∃ log', OnlyWritten m log (useAll (us.take n) ⟨m.store, w⟩).1
          (useAll (us.take n) ⟨m.store, w⟩).2 log') ↔
        off = false ∧ Undisturbed (fatesOf (w.faults.calls (.flush .segment)) us)) := by
  obtain ⟨d, es, log, active, ha⟩ := h.ran.agrees
  have hcounted := h.counted_iff ha
  obtain ⟨s, w₀⟩ := m
  obtain rfl : w₀ = calm d := ha.world
  obtain rfl : w.dir = d := hd
  have hs : Session s w.dir es log active := ha.session
  have htidy (fs : List Fate) : Tidy [] fs ↔ Undisturbed fs :=
    (tidy_iff [] fs).trans (and_iff_right fun hne => absurd rfl hne)
  have hrun (n : ℕ) := (hs.toRunning.account hs.idle).useAll (us.take n) hw
    (lt_of_le_of_lt (Nat.add_le_add_left (List.length_take_le' n us) _) hroom)
  refine ⟨log, hs.logs, fun hall => ⟨?_, ?_⟩, ?_⟩
  · -- before the first writer the entries are those from before
    obtain ⟨log', honly⟩ := hall 0
    rw [List.take_zero] at honly
    change OnlyWritten ⟨s, calm w.dir⟩ log [] ⟨s, w⟩ log' at honly
    exact hcounted.mp (honly.count_same hs.kept.holds
      ⟨active, hs.kept.shaped.mem, hs.activeId.symm⟩)
  · obtain ⟨log₁, honly⟩ := hall us.length
    obtain ⟨s', w', es', log', active', dirty, hend, hacc⟩ := hrun us.length
    rw [List.take_length] at honly hend hacc
    rw [List.nil_append, List.nil_append] at hacc
    replace hacc := hacc.mono fun ht : Tidy [] _ => ⟨trivial, ht⟩
    rw [show Machine.store ⟨s, calm w.dir⟩ = s from rfl, hend] at honly
    exact (htidy _).mp (hacc.tidy_of_holds honly.holds honly.entries)
  · rintro ⟨hoff, hundisturbed⟩ n
    obtain ⟨s', w', es', log', active', dirty, hend, hacc⟩ := hrun n
    rw [List.nil_append, List.nil_append] at hacc
    replace hacc := hacc.mono fun ht : Tidy [] _ => ⟨trivial, ht⟩
    refine ⟨log', ?_⟩
    rw [show Machine.store ⟨s, calm w.dir⟩ = s from rfl, hend]
    refine hacc.onlyWritten ((htidy _).mpr ?_) (hcounted.mpr hoff)
    rw [fatesOf_take]
    exact hundisturbed.sublist (List.take_sublist n _)

end

section
attribute [local instance] sample

/-- A world in which the second flush of a segment file fails. -/
def faltering (d : Dir) : World :=
  ⟨d, ⟨Function.update (fun _ => []) (.flush .segment) [false, true], []⟩⟩

theorem steady_faltering (d : Dir) : Steady (faltering d) :=
  ⟨fun _ hc => by simp [faltering, Function.update_of_ne hc], rfl⟩

/-- A writer that returns Ok, one without pushes that is dropped, and one whose flush fails. -/
def threeUses : List Use := [⟨[(⟨1⟩, [7])], true⟩, ⟨[], false⟩, ⟨[(⟨2⟩, [8])], true⟩]

theorem Tallied.onlyWritten_threeUses : ∃ s log log', OnlyWritten ⟨s, calm blank.formatted⟩ log
    (useAll threeUses ⟨s, faltering blank.formatted⟩).1
    (useAll threeUses ⟨s, faltering blank.formatted⟩).2 log' := by
  obtain ⟨s, hopen, _⟩ := fresh_blank.session ⟨0⟩
  have htallied : Tallied ⟨s, calm blank.formatted⟩ Journal.start false :=
    Tallied.opened fresh_blank hopen
  have hnext : (openedBlank ⟨0⟩).all (fun m =>
      decide (m.store.nextSegId.val.toNat+threeUses.length < 2^32)) = true := by decide +kernel
  rw [show openedBlank ⟨0⟩ = some ⟨s, calm blank.formatted⟩ by rw [openedBlank, hopen],
    Option.all_some, decide_eq_true_eq] at hnext
  obtain ⟨log, _, hiff⟩ :=
    Tallied.onlyWritten_iff htallied (steady_faltering _) rfl threeUses hnext
  have hundisturbed : Undisturbed (fatesOf [false, true] threeUses) := by
    change Undisturbed [([(⟨1⟩, [7])], true), ([], false), ([(⟨2⟩, [8])], false)]
    simp [Undisturbed]
  obtain ⟨log', honly⟩ := hiff.mpr ⟨rfl, hundisturbed⟩ 3
  exact ⟨s, log, log', honly⟩

/-- What a writer pushed that was dropped is flushed with the next batch. -/
theorem Ran.not_onlyWritten : ¬ ∀ m j w us, Ran m j → Steady w → w.dir = m.world.dir →
    m.store.nextSegId.val.toNat+us.length < 2^32 → ∃ log, m.Logs log ∧
      ∃ log', OnlyWritten m log (useAll us ⟨m.store, w⟩).1 (useAll us ⟨m.store, w⟩).2 log' := by
  intro hall
  obtain ⟨s, hopen, hs, _, hst, _⟩ := fresh_blank.session ⟨0⟩
  have hnext : (openedBlank ⟨0⟩).all (fun m =>
      decide (m.store.nextSegId.val.toNat+2 < 2^32)) = true := by decide +kernel
  rw [show openedBlank ⟨0⟩ = some ⟨s, calm blank.formatted⟩ by rw [openedBlank, hopen],
    Option.all_some, decide_eq_true_eq] at hnext
  obtain ⟨log, hlogs, log', honly⟩ := hall ⟨s, calm blank.formatted⟩ _ (calm blank.formatted)
    [⟨[(⟨1⟩, [7])], false⟩, ⟨[(⟨2⟩, [8])], true⟩] (Ran.opened fresh_blank hopen)
    (steady_calm _) rfl hnext
  -- the files of a new store hold nothing
  have hempty : liveLog s.state log = [] := by
    have hbytes := (hlogs firstSegment (by rw [hst]; exact List.mem_singleton.mpr rfl)).2
    have hfile := hs.kept.holds firstSegment hs.kept.shaped.mem
    rw [show (calm blank.formatted).dir = blank.formatted from rfl, hfile] at hbytes
    have hnil := (List.append_cancel_left (Option.some.inj hbytes)).symm
    have hlog : log ⟨1⟩ = [] := by
      cases hl : log ⟨1⟩ with
      | nil => rfl
      | cons e rest =>
        rw [show log firstSegment.id = e :: rest from hl, Grammar.encodeAll_cons] at hnil
        exact absurd (List.append_eq_nil_iff.mp hnil).1 (frames.encode_ne_nil e)
    rw [liveLog, hst]
    simpa [firstState, firstSegment] using hlog
  obtain ⟨s', w', es', log₁, active', dirty, hrun, hacc⟩ :=
    (hs.toRunning.account hs.idle).useAll [⟨[(⟨1⟩, [7])], false⟩, ⟨[(⟨2⟩, [8])], true⟩]
      (w := calm blank.formatted) (steady_calm _) hnext
  rw [List.nil_append, List.nil_append] at hacc
  replace hacc := hacc.mono fun ht : Tidy [] _ => ⟨trivial, ht⟩
  have hentries := honly.entries
  have hbytes := honly.holds
  rw [hrun] at hentries hbytes
  rw [show liveLog (Machine.store ⟨s, calm blank.formatted⟩).state log = liveLog s.state (fun _ => [])
    from hempty.trans (by simp [liveLog])] at hentries
  have htidy := hacc.tidy_of_holds hbytes hentries
  have hflush : Flushes (([(⟨2⟩, [8])], true) : Fate) := ⟨rfl, by simp⟩
  exact absurd (htidy.2.1 hflush) (by simp [leftBy, Flushes])

end
end Woodshed
