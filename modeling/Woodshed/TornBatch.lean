import Woodshed.Mending
import Woodshed.Runs

/-! A batch of which only a part of the bytes reached the file: the frames that are there in whole
are kept by the open, and the next batch goes directly behind them. -/
namespace Woodshed
open Sequencing Framing

/-- Bytes behind the others of a file. -/
def Dir.appendTo (d : Dir) (name : FileName) (data : Bytes) : Dir :=
  d.writeAt name ((d.bytes name).getD []).length data

theorem Dir.differs_appendTo (d : Dir) (name : FileName) (data : Bytes) :
    d.Differs (d.appendTo name data) name :=
  d.differs_writeAt _ _ _

theorem Dir.bytes_appendTo {d : Dir} {name : FileName} {old : Bytes} (h : d.bytes name = some old)
    (data : Bytes) : (d.appendTo name data).bytes name = some (old ++ data) := by
  rw [Dir.appendTo, Dir.bytes_writeAt, if_pos rfl, h, Option.map_some, Option.getD_some,
    overwrite_end]

section
variable [Crates]

/-! ### What opens -/

/-- What is decoded of a part of a batch behind whole frames. -/
theorem validPrefix_part (es xs : List Entry) (hes : ∀ e ∈ es, Fits e) (hxs : ∀ e ∈ xs, Fits e)
    (n : ℕ) : ∃ k ≤ xs.length, (frames.encodeAll (xs.take k)).length ≤ n ∧
      (∀ j ≤ xs.length, (frames.encodeAll (xs.take j)).length ≤ n → j ≤ k) ∧
      validPrefix (frames.encodeAll es ++ (frames.encodeAll xs).take n) =
        frames.encodeAll (es ++ xs.take k) := by
  have hpre : (frames.encodeAll xs).take n <+: frames.encodeAll xs := List.take_prefix _ _
  obtain ⟨k, hk, hitems, hmost, _⟩ := frames.decode_prefix xs _ hxs hpre
  obtain ⟨hsplit, _, _⟩ := frames.decode_sound ((frames.encodeAll xs).take n)
  refine ⟨k, hk, ?_, ?_, ?_⟩
  · have hlen := congrArg List.length hsplit
    rw [hitems, List.length_append, List.length_take] at hlen
    omega
  · -- whole records of the batch within the first `n` bytes are within what is left of them
    intro j hj hle
    refine hmost j hj ?_
    rw [List.length_take, le_min_iff]
    refine ⟨hle, ?_⟩
    conv_rhs => rw [← List.take_append_drop j xs, Grammar.encodeAll_append, List.length_append]
    exact Nat.le_add_right _ _
  · rw [validPrefix, frames.decode_encodeAll_append es _ hes, hitems]

section
variable {d : Dir} {es : List Entry} {st : StoreState} {log : SegmentId → List Entry}
  {active : SegmentEntry}

/-- A directory in whose active segment a batch is torn. -/
theorem Clean.nearly_torn (h : Clean d es st log active) {xs : List Entry}
    (hxs : ∀ e ∈ xs, Fits e) {n k : ℕ}
    (hvalid : validPrefix (frames.encodeAll (log active.id) ++ (frames.encodeAll xs).take n) =
      frames.encodeAll (log active.id ++ xs.take k)) :
    Nearly (d.appendTo (segmentPath active.id) ((frames.encodeAll xs).take n)) es st
      (Function.update log active.id (log active.id ++ xs.take k)) active := by
  set part := (frames.encodeAll xs).take n with hpart
  set log₁ := Function.update log active.id (log active.id ++ xs.take k) with hlog₁
  have hdiff := d.differs_appendTo (segmentPath active.id) part
  have hactive := h.holds active h.shaped.mem
  have hbytes := Dir.bytes_appendTo hactive part
  rw [List.append_assoc] at hbytes
  have hother {seg : SegmentEntry} (hseg : seg ∈ st.segments) (hne : seg ≠ active) :
      (d.appendTo (segmentPath active.id) part).bytes (segmentPath seg.id) =
        some (segmentMagic ++ frames.encodeAll (log seg.id)) := by
    rw [hdiff.bytes _ (fun heq => hne (h.shaped.inj hseg h.shaped.mem (segmentPath_injective heq)))]
    exact h.holds seg hseg
  have hsame {seg : SegmentEntry} (hseg : seg ∈ st.segments) (hne : seg ≠ active) :
      log₁ seg.id = log seg.id :=
    Function.update_of_ne (fun heq => hne (h.shaped.inj hseg h.shaped.mem heq)) _ _
  refine ⟨hdiff.present.trans h.present,
    h.recorded.differs hdiff (segmentPath_ne_manifest _).symm, h.shaped, ?_, ?_, ?_, ?_, ?_, h.room,
    ?_⟩
  · intro seg hseg
    by_cases heq : seg = active
    · rw [heq]
      exact hasSegment_of hbytes
    · exact hasSegment_of (hother hseg heq)
  · intro seg hseg hne
    rw [body_eq (hother hseg hne), hsame hseg hne]
  · rw [body_eq hbytes, hvalid, hlog₁, Function.update_self]
  · intro seg hseg info hi
    have hne : seg ≠ active := by
      rintro rfl
      rw [h.shaped.unsealed] at hi
      cases hi
    rw [hsame hseg hne]
    exact h.sealsOk seg hseg info hi
  · intro name hname id hid
    exact h.filed.known name ((hdiff.mem name).mp hname) id hid
  · exact Whole.append h.whole active.id (fun e he => hxs e (List.mem_of_mem_take he))

/-- A batch behind whole frames, whatever its ids are. -/
theorem Running.batch {s : Store} (h : Running s d es log active) (hw : Whole s.state log)
    (hbuf : s.activeCursor.buf = ⟨[]⟩) (hp : s.rolloverPending = false) {ys : List Entry}
    (hne : ys ≠ []) (hys : ∀ e ∈ ys, Fits e) :
    ∃ s' d', Store.batch ys ⟨s, calm d⟩ = .ok (some active.id) ⟨s', calm d'⟩ ∧
      s'.state = s.state ∧
      Clean d' es s.state (Function.update log active.id (log active.id ++ ys)) active := by
  obtain ⟨first, rest, hcons⟩ := List.exists_cons_of_ne_nil hne
  have hlast := List.getLast?_eq_some_getLast hne
  set last := ys.getLast hne with hlastdef
  have hwriter : writerOf ys = ⟨some first.1, some last.1, ys.length⟩ :=
    writerOf_eq hcons hlast
  set s₁ := s.buffered ys with hs₁
  have hfull : s₁.activeCursor.buf.buf = frames.encodeAll ys := by
    rw [hs₁, Store.buffered, hbuf]
    rfl
  have hrun : Running s₁ d es log active :=
    ⟨h.kept, h.manifestCursor, h.activeId, h.activeFirst, h.position, h.next, h.pending, h.last⟩
  have hroom : s₁.Room := by
    intro hp'
    rw [show s₁.rolloverPending = s.rolloverPending from rfl, hp] at hp'
    cases hp'
  have hnot : ¬ s₁.rolloverPending = true := by
    rw [show s₁.rolloverPending = s.rolloverPending from rfl, hp]
    exact Bool.false_ne_true
  have hwrite := hrun.write_eq (steady_calm d) rfl first.1 last.1 ys.length hroom
  rw [show s₁.readyFor first.1 = s₁ from if_neg hnot, show d.readyFor s₁ first.1 = d from
    if_neg hnot] at hwrite
  refine ⟨s₁.flushed last.1 ys.length, d.flushed s₁, ?_, rfl, ?_⟩
  · rw [Store.batch, bind_ok (Store.pushAll_eq ys s (calm d)), hwriter, hwrite]
    dsimp only
    rw [show (calm d).flushFails = false from rfl, if_neg Bool.false_ne_true, popped_calm,
      hrun.activeId]
    rfl
  · exact ⟨(hrun.flushed hfull hlast ys.length).kept, Whole.append hw active.id hys⟩

end

/-! ### The next batch -/

omit [Crates] in
/-- Entries from `target` on at the end stay when the entries before it are dropped in front. -/
theorem dropWhile_append_from (target : EntryId) (xs : List Entry) {ys : List Entry}
    (h : ∀ e ∈ ys, target ≤ e.1) :
    (xs ++ ys).dropWhile (fun e => decide (e.1 < target)) =
      xs.dropWhile (fun e => decide (e.1 < target)) ++ ys := by
  rw [List.dropWhile_append]
  split
  · rename_i hnil
    rw [List.isEmpty_iff.mp hnil, List.nil_append]
    cases ys with
    | nil => rfl
    | cons e ys => simp [not_lt.mpr (h e (by simp))]
  · rfl

/-- A scan that starts at any live segment comes to what is at the end of the last one. -/
theorem Running.yields_last {s : Store} {d : Dir} {es : List Entry} {log : SegmentId → List Entry}
    {active : SegmentEntry} (h : Running s d es log active) (hw : Whole s.state log)
    (hindex : s.index = indexOf s.state log) {xs ys : List Entry} (hlog : log active.id = xs ++ ys)
    (hne : ys ≠ []) (hys : ∀ e ∈ ys, s.state.firstEntry ≤ e.1) :
    ∃ before, Machine.Yields ⟨s, calm d⟩ s.firstEntryId (before ++ ys) := by
  have hshape := h.kept.shaped
  have hmax : max s.firstEntryId s.state.firstEntry = s.state.firstEntry := max_self _
  obtain ⟨seg, offset, hstart, hseg⟩ : ∃ seg offset, s.scanStart s.state.firstEntry =
      some (SegmentEntry.id seg, offset) ∧ seg ∈ s.state.segments := by
    unfold Store.scanStart
    cases hfind : s.index.find s.state.firstEntry with
    | none =>
      obtain ⟨seg, rest, hsegs⟩ := List.exists_cons_of_ne_nil hshape.nonempty
      exact ⟨seg, magicLen, by rw [hsegs]; rfl, by rw [hsegs]; simp⟩
    | some pos =>
      obtain ⟨x, hx, hid, _⟩ := EntryIndex.find_segment hfind
      rw [hindex] at hx
      obtain ⟨seg, hseg, rfl⟩ := List.mem_map.mp hx
      refine ⟨seg, pos.byteOffset, ?_, hseg⟩
      change some (pos.segment, pos.byteOffset) = _
      rw [← hid]
  -- the last entry of all is one of `ys`
  have hlast : ¬ s.lastEntry.all (fun last => decide (last < s.state.firstEntry)) = true := by
    rw [h.lastEntry_all le_rfl]
    intro hall
    have hsplit : liveLog s.state log =
        (s.state.segments.dropLast.flatMap fun seg => log seg.id) ++ xs ++ ys := by
      rw [liveLog]
      conv_lhs => rw [hshape.split]
      rw [List.flatMap_append, List.flatMap_singleton, hlog, List.append_assoc]
    have hl : (liveLog s.state log).getLast? = some (ys.getLast hne) := by
      rw [hsplit, List.getLast?_append_of_ne_nil _ hne, List.getLast?_eq_some_getLast hne]
    exact absurd (hall _ hl) (not_lt.mpr (hys _ (List.getLast_mem hne)))
  obtain ⟨older, newer, hsplit⟩ := List.append_of_mem hseg
  have hyields := yields_from s.firstEntryId hshape.nodup h.kept.holds hw
    (by rw [hmax]; exact hlast) (by rw [hmax]; exact hstart) hsplit
  rw [hmax] at hyields
  have hend := hshape.last
  rw [hsplit] at hend
  rcases List.eq_nil_or_concat newer with rfl | ⟨between, last, rfl⟩
  · -- the scan starts in the active segment
    obtain rfl : seg = active := by simpa using hend
    rw [hlog, dropWhile_append_from _ xs hys, List.flatMap_nil, List.append_nil] at hyields
    exact ⟨_, hyields⟩
  · obtain rfl : last = active := by
      simpa [List.getLast?_append, List.getLast?_cons] using hend
    rw [List.concat_eq_append, List.flatMap_append, List.flatMap_singleton, hlog,
      ← List.append_assoc, ← List.append_assoc]
      at hyields
    exact ⟨_, hyields⟩

/-- How a later batch fares: it is stored directly behind the others, and, if it is as `Later` has
it, returned after the next open. Where all ids ascend, so is everything else from the head on. -/
structure Continues (s : Store) (d : Dir) (log : SegmentId → List Entry) (active : SegmentEntry)
    (ys : List Entry) (Later : StoreState → List Entry → Prop) (d' : Dir) : Prop where
  batch : ∃ s', Store.batch ys ⟨s, calm d⟩ = .ok (some active.id) ⟨s', calm d'⟩
  stored : ∀ seg ∈ s.state.segments, d'.bytes (segmentPath seg.id) =
    some (segmentMagic ++ frames.encodeAll (if seg = active then log seg.id ++ ys else log seg.id))
  reopens : ∀ cfg, ∃ s', Store.openStore cfg (calm d') = .ok s' (calm d') ∧
    (Later s.state ys →
      ∃ before, Machine.Yields ⟨s', calm d'⟩ s'.firstEntryId (before ++ ys)) ∧
    (Later s.state ys → Ordered s.state (Function.update log active.id (log active.id ++ ys)) →
      Headed s.state (Function.update log active.id (log active.id ++ ys)) →
        Machine.Yields ⟨s', calm d'⟩ s'.firstEntryId
          (entriesFrom s'.firstEntryId (liveLog s.state log) ++ ys))

/-- What becomes of a directory after `n` bytes of a batch: it opens without approval, with the `k`
entries behind the others whose frames are there in whole. -/
structure Mends (d : Dir) (st : StoreState) (log : SegmentId → List Entry) (active : SegmentEntry)
    (xs : List Entry) (n : ℕ) (cfg : StoreCfg)
    (Later : StoreState → List Entry → Prop) (k : ℕ) (s : Store) (d' : Dir) : Prop where
  opens : Store.openStore cfg (calm (d.appendTo (segmentPath active.id)
    ((frames.encodeAll xs).take n))) = .ok s (calm d')
  segments : s.state.segments = st.segments
  stored : ∀ seg ∈ st.segments, d'.bytes (segmentPath seg.id) = some (segmentMagic ++
    frames.encodeAll (if seg = active then log seg.id ++ xs.take k else log seg.id))
  le_length : k ≤ xs.length
  whole : (frames.encodeAll (xs.take k)).length ≤ n
  most : ∀ j ≤ xs.length, (frames.encodeAll (xs.take j)).length ≤ n → j ≤ k
  continues : ∀ ys ≠ [], (∀ e ∈ ys, Fits e) → ∃ d'', Continues s d'
    (Function.update log active.id (log active.id ++ xs.take k)) active ys Later d''

omit [Crates] in
/-- The ids of the batch are not below the head. -/
def AtHead (st : StoreState) (ys : List Entry) : Prop := ∀ e ∈ ys, st.firstEntry ≤ e.1

omit [Crates] in
theorem update_active {st : StoreState} {log : SegmentId → List Entry} {active seg : SegmentEntry}
    (hs : Shaped st active) (hseg : seg ∈ st.segments) (xs : List Entry) :
    Function.update log active.id (log active.id ++ xs) seg.id =
      if seg = active then log seg.id ++ xs else log seg.id := by
  by_cases heq : seg = active
  · rw [heq, Function.update_self, if_pos rfl]
  · rw [Function.update_of_ne (fun hid => heq (hs.inj hseg hs.mem hid)), if_neg heq]

/-- A batch behind an open. -/
theorem Clean.continues {s : Store} {d : Dir} {es : List Entry} {log : SegmentId → List Entry}
    {active : SegmentEntry} (h : Clean d es s.state log active) {cfg : StoreCfg}
    (hopen : Store.openStore cfg (calm d) = .ok s (calm d)) {ys : List Entry} (hne : ys ≠ [])
    (hys : ∀ e ∈ ys, Fits e) : ∃ d', Continues s d log active ys AtHead d' := by
  obtain ⟨s', hopen', hrun, _, _, _, hbuf, hp, _⟩ := h.openStore cfg
  rw [hopen] at hopen'
  cases hopen'
  obtain ⟨s', d', hbatch, _, hclean⟩ := hrun.batch h.whole hbuf hp hne hys
  refine ⟨d', ⟨s', hbatch⟩, ?_, ?_⟩
  · intro seg hseg
    rw [hclean.holds seg hseg, update_active h.shaped hseg]
  · intro cfg'
    obtain ⟨s'', hopen'', hrun', _, hst, hindex, _⟩ := hclean.openStore cfg'
    have hlog : Function.update log active.id (log active.id ++ ys) active.id =
        log active.id ++ ys := Function.update_self _ _ _
    refine ⟨s'', hopen'', ?_, ?_⟩
    · intro hhead
      exact hrun'.yields_last (by rw [hst]; exact hclean.whole) (by rw [hindex, hst]) hlog hne
        (by rw [hst]; exact hhead)
    · intro hhead hordered hheaded
      have hfull : Function.update log active.id (log active.id ++ ys) active.id ≠ [] := by
        rw [hlog]
        exact fun hnil => hne (List.append_eq_nil_iff.mp hnil).2
      obtain ⟨s₂, hopen₂, hsess, _⟩ :=
        hclean.session hordered (fun hnil => absurd hnil hfull) cfg'
      rw [hopen''] at hopen₂
      cases hopen₂
      have hyields := hsess.readable.yields_head (by rw [hst]; exact hheaded)
      rw [hst, liveLog_update s.state log active h.shaped, entriesFrom_append,
        (entriesFrom_eq_self _ ys).mpr hhead] at hyields
      change Machine.Yields _ s''.state.firstEntry (entriesFrom s''.state.firstEntry _ ++ ys)
      rw [hst]
      exact hyields

/-- A torn batch costs only its own entries, from the first that is not there in whole. -/
theorem Clean.mends {d : Dir} {es : List Entry} {st : StoreState} {log : SegmentId → List Entry}
    {active : SegmentEntry} (h : Clean d es st log active) {xs : List Entry}
    (hxs : ∀ e ∈ xs, Fits e) (n : ℕ) (cfg : StoreCfg) :
    ∃ k s d', Mends d st log active xs n cfg AtHead k s d' := by
  obtain ⟨k, hk, hwhole, hmost, hvalid⟩ :=
    validPrefix_part (log active.id) xs (h.whole active h.shaped.mem) hxs n
  have hnearly := h.nearly_torn hxs hvalid
  obtain ⟨s, d', es', hopen, hclean, hst, _, s', hopen', rfl⟩ := hnearly.openStore cfg
  have hsegs : s'.state.segments = st.segments := by rw [hst]
  refine ⟨k, s', d', hopen, hsegs, ?_, hk, hwhole, hmost, ?_⟩
  · intro seg hseg
    rw [hclean.holds seg (hsegs ▸ hseg), update_active h.shaped hseg]
  · intro ys hne hys
    exact hclean.continues hopen' hne hys

end

section
attribute [local instance] sample

/-- A new store, and the first of two frames with a part of the second. -/
theorem Clean.mends_blank : ∃ k s d', Mends blank.formatted firstState (fun _ => []) firstSegment
    [(⟨1⟩, [7]), (⟨2⟩, [8])] 30 ⟨0⟩ AtHead k s d' :=
  Clean.mends (clean_formatted fresh_blank) (by simp [Fits]) 30 ⟨0⟩

/-- What the last entry is when one with id 1 is written after an open, and the store is opened once
more. -/
def laterLast (d : Dir) : Option (Option EntryId) :=
  match Store.openStore ⟨0⟩ (calm (d.appendTo (segmentPath ⟨1⟩) [])) with
  | .ok s w =>
    match Store.batch [(⟨1⟩, [])] ⟨s, w⟩ with
    | .ok _ m =>
      match Store.openStore ⟨0⟩ m.world with
      | .ok s _ => some s.lastEntry
      | .error _ _ => none
    | .error _ _ => none
  | .error _ _ => none

/-- Behind a head at 9 an entry with id 1 is stored, but not returned. -/
theorem Clean.not_mends : ¬ ∀ d es st log active xs n cfg, Clean d es st log active →
    (∀ e ∈ xs, Fits e) → ∃ k s d', Mends d st log active xs n cfg (fun _ _ => True) k s d' := by
  intro hall
  obtain ⟨s, hopen, hs, _, hst, _⟩ := fresh_blank.session ⟨0⟩
  have hfit : Fits (opFrame (headOp s.state ⟨9⟩ [])) := by
    rw [hst, Fits]
    decide +kernel
  have hfirst : s.state.firstEntry ≤ ⟨9⟩ := by
    rw [hst]
    decide
  obtain ⟨s₁, d₁, es₁, hrun, hsess, hst₁, _⟩ := hs.truncateStart hfirst hfit
  -- what the model computes
  have hscan : (openedBlank ⟨0⟩).all (fun m =>
      decide (laterLast (Request.perform m (.truncateStart ⟨9⟩ [])).2.world.dir = some none)) = true := by
    decide +kernel
  have hsome : openedBlank ⟨0⟩ = some ⟨s, calm blank.formatted⟩ := by rw [openedBlank, hopen]
  have hperform : Request.perform ⟨s, calm blank.formatted⟩ (.truncateStart ⟨9⟩ []) =
      (.done, ⟨s₁, calm d₁⟩) := outcomeOf_ok hrun
  rw [hsome, Option.all_some, hperform, decide_eq_true_eq] at hscan
  change laterLast d₁ = some none at hscan
  -- what the entries below the head would have it return
  obtain ⟨k, s₂, d₂, hmends⟩ := hall d₁ es₁ _ _ _ [] 0 ⟨0⟩ hsess.clean (by simp)
  obtain ⟨d₃, hcont⟩ := hmends.continues [(⟨1⟩, [])] (by simp) (by simp [Fits])
  obtain ⟨s₃, hbatch⟩ := hcont.batch
  obtain ⟨s₄, hreopen, hreturns, _⟩ := hcont.reopens ⟨0⟩
  obtain ⟨before, hyields⟩ := hreturns trivial
  unfold laterLast at hscan
  rw [show Store.openStore ⟨0⟩ (calm (d₁.appendTo (segmentPath ⟨1⟩) [])) = _ from hmends.opens]
    at hscan
  dsimp only at hscan
  rw [hbatch] at hscan
  dsimp only at hscan
  rw [hreopen] at hscan
  have hlast : s₄.lastEntry = none := Option.some.inj hscan
  have hnil := hyields.unique (Machine.yields_nil (by rw [hlast]; rfl))
  simp at hnil

end
end Woodshed
