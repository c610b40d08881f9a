import Woodshed.Rewinding

/-! `truncate_end` keeps the entries up to one of them: where it does, in every run, and what later
batches and opens find of them. -/
namespace Woodshed
open Sequencing Framing FrameScanner

section
variable [Crates]

/-! ### Runs -/

/-- The files of the live segments are whole frames, of the entries that `log` has for them. -/
def Machine.Logs (m : Machine) (log : SegmentId → List Entry) : Prop :=
  ∀ seg ∈ m.store.state.segments, (∀ e ∈ log seg.id, Fits e) ∧
    m.world.dir.bytes (segmentPath seg.id) = some (segmentMagic ++ frames.encodeAll (log seg.id))

/-- What batches of larger and larger ids lead to, with requests as `P` has them in between, and the
entries that were written. -/
inductive Writes (P : Request → Prop) (m₀ : Machine) (xs₀ : List Entry) : Machine → List Entry → Prop
  | here : Writes P m₀ xs₀ m₀ xs₀
  | batch {m : Machine} {xs : List Entry} (h : Writes P m₀ xs₀ m xs) (ys : List Entry)
      (hasc : (xs ++ ys).Pairwise fun a b => a.1 < b.1) (hfit : ∀ e ∈ ys, Fits e)
      (hroom : ys ≠ [] → m.store.Room) :
      Writes P m₀ xs₀ ((Request.batch ys).perform m).2 (xs ++ ys)
  | other {m : Machine} {xs : List Entry} (h : Writes P m₀ xs₀ m xs) (r : Request)
      (hr : ∀ ys, r ≠ .batch ys) (hp : P r) (hrec : r.Recordable m) :
      Writes P m₀ xs₀ (r.perform m).2 xs

/-- The files of the live segments have just these entries, also when the store is opened again, and
they are what is read then. -/
structure Machine.Holds (m : Machine) (xs : List Entry) : Prop where
  files : ∃ log, m.Logs log ∧ liveLog m.store.state log = xs
  yields : (∀ e ∈ xs, m.store.firstEntryId ≤ e.1) → m.Yields m.store.firstEntryId xs
  reopens : ∀ cfg, ∃ s log, Store.openStore cfg m.world = .ok s m.world ∧
    Machine.Logs ⟨s, m.world⟩ log ∧ liveLog s.state log = xs ∧
    ∀ fromId, Machine.Yields ⟨s, m.world⟩ fromId (entriesFrom (max fromId s.state.firstEntry) xs)

/-- `truncate_end` cuts just behind an entry: at the end of its frame, unless it is the last entry.
What is stored then are the entries up to it, and what further batches add. -/
structure CutsBehind (m : Machine) (log : SegmentId → List Entry) (lastValid : EntryId)
    (m' : Machine) : Prop where
  done : Store.truncateEnd lastValid m = .ok ⟨⟩ m'
  offset : m.store.lastEntryId ≠ some lastValid → ∃ target drop before e after,
    target ∈ m.store.state.segments ∧
    truncateTarget m.store.state.segments lastValid = some (target.id, drop) ∧
    log target.id = before ++ e :: after ∧ e.1 = lastValid ∧
    m'.world = calm ((m.world.dir.cut target (segmentEnd (before ++ [e]))).appended
      m.store.manifestCursor.position (cutOp target (segmentEnd (before ++ [e])) drop))
  later : ∀ m'' xs, Writes (fun r => ∃ cfg, r = .reopen cfg) m'
    ((liveLog m.store.state log).filter fun e => decide (e.1 ≤ lastValid)) m'' xs → m''.Holds xs

/-- Of the segment with an entry the index marks no frame up to it but the first. -/
def Store.MarksFirst (s : Store) (log : SegmentId → List Entry) (e : Entry) : Prop :=
  ∀ seg ∈ s.state.segments, e ∈ log seg.id → ∀ c, s.Checkpoint seg.id c → c.1 ≤ e.1 → c.2 = magicLen

/-! ### What a run keeps -/

section
variable {s : Store} {d : Dir} {es : List Entry} {log : SegmentId → List Entry}
  {active target : SegmentEntry} {pre post : List SegmentEntry} {before after : List Entry} {e : Entry}

theorem Session.logs (h : Session s d es log active) : Machine.Logs ⟨s, calm d⟩ log :=
  fun seg hseg => ⟨h.whole seg hseg, h.kept.holds seg hseg⟩

/-- The files have the entries of one log only. -/
theorem Session.logs_eq (h : Session s d es log active) {log' : SegmentId → List Entry}
    (hl : Machine.Logs ⟨s, calm d⟩ log') {seg : SegmentEntry} (hseg : seg ∈ s.state.segments) :
    log' seg.id = log seg.id := by
  obtain ⟨hfit, hbytes⟩ := hl seg hseg
  have hbytes' := h.kept.holds seg hseg
  rw [show (calm d).dir = d from rfl, hbytes'] at hbytes
  have heq := List.append_cancel_left (Option.some.inj hbytes)
  have hdec := congrArg (fun bytes => (frames.decode bytes).items) heq
  rw [frames.decode_encodeAll _ (h.whole seg hseg), frames.decode_encodeAll _ hfit] at hdec
  exact hdec.symm

/-- What is read is what is stored, also when the store is opened again. -/
theorem Readable.holds (h : Readable s d es log active) :
    Machine.Holds ⟨s, calm d⟩ (liveLog s.state log) := by
  refine ⟨⟨log, fun seg hseg => ⟨h.whole seg hseg, h.kept.holds seg hseg⟩, rfl⟩, ?_, ?_⟩
  · intro hge
    have hheaded : Headed s.state log := fun seg hseg e he =>
      hge e (List.mem_flatMap.mpr ⟨seg, List.mem_of_mem_tail hseg, he⟩)
    have hyields := h.yields_head hheaded
    have hall : entriesFrom s.state.firstEntry (liveLog s.state log) = liveLog s.state log :=
      List.filter_eq_self.mpr fun e he => decide_eq_true (hge e he)
    rw [hall] at hyields
    exact hyields
  · intro cfg
    have hclean : Clean d es s.state log active := ⟨h.kept, h.whole⟩
    obtain ⟨s', hopen, hs', _, hst, hindex, _⟩ := hclean.readable h.ordered cfg
    have hsame : liveLog s'.state log = liveLog s.state log := by rw [hst]
    refine ⟨s', log, hopen, fun seg hseg => ⟨hs'.whole seg hseg, hs'.kept.holds seg hseg⟩, hsame,
      fun fromId => ?_⟩
    have hcov := covered_indexOf s'.state log hs'.ordered.inside (max fromId s'.state.firstEntry)
    rw [← hst] at hindex
    rw [← hindex] at hcov
    have hyields := (hs'.yields_iff (le_max_right fromId _)).mpr (Or.inr hcov)
    rw [hsame] at hyields
    exact (Machine.yields_max ⟨s', calm d⟩ fromId _).mp hyields

theorem Session.holds (h : Session s d es log active) :
    Machine.Holds ⟨s, calm d⟩ (liveLog s.state log) := h.readable.holds

/-- A batch of larger ids. -/
theorem Session.perform_batch (h : Session s d es log active) {ys : List Entry}
    (hasc : (liveLog s.state log ++ ys).Pairwise fun a b => a.1 < b.1) (hfit : ∀ e ∈ ys, Fits e)
    (hroom : ys ≠ [] → s.Room) :
    ∃ s' d' es' log' active', ((Request.batch ys).perform ⟨s, calm d⟩).2 = ⟨s', calm d'⟩ ∧
      Session s' d' es' log' active' ∧ liveLog s'.state log' = liveLog s.state log ++ ys := by
  obtain ⟨_, hys, hnew⟩ := List.pairwise_append.mp hasc
  by_cases hne : ys = []
  · subst hne
    refine ⟨s, d, es, log, active, ?_, h, by rw [List.append_nil]⟩
    rw [Request.perform, outcomeOf_ok h.batch_nil]
  · obtain ⟨s', d', es', log', active', hrun, hs', hlog, _⟩ := h.batch hne hfit hys hnew (hroom hne)
    refine ⟨s', d', es', log', active', ?_, hs', hlog⟩
    rw [Request.perform, outcomeOf_ok hrun]

/-- Any other request leaves the entries of the segments that stay. -/
theorem Session.perform_other (h : Session s d es log active) {r : Request}
    (hr : ∀ ys, r ≠ .batch ys) (hrec : r.Recordable ⟨s, calm d⟩) :
    ∃ s' d' es', (r.perform ⟨s, calm d⟩).2 = ⟨s', calm d'⟩ ∧ Session s' d' es' log active ∧
      (∀ seg ∈ s'.state.segments, seg ∈ s.state.segments) ∧
      ((∃ cfg, r = .reopen cfg) → s'.state = s.state) := by
  cases r with
  | batch ys => exact absurd rfl (hr ys)
  | truncateStart first metaPairs =>
    by_cases hlt : first < s.state.firstEntry
    · have hrun := Store.truncateStart_refused (m := ⟨s, calm d⟩) metaPairs hlt
      refine ⟨s, d, es, ?_, h, fun _ hseg => hseg, fun _ => rfl⟩
      rw [Request.perform, outcomeOf_error hrun]
    · have hfit : Fits (opFrame (headOp s.state first metaPairs)) := by
        refine hrec _ ?_
        rw [Request.recorded, if_neg hlt]
      obtain ⟨s', d', es', hrun, hs', hst, _⟩ := h.truncateStart (not_lt.mp hlt) hfit
      refine ⟨s', d', es', ?_, hs', ?_, ?_⟩
      · rw [Request.perform, outcomeOf_ok hrun]
      · intro seg hseg
        rw [hst] at hseg
        exact mem_killed hseg
      · rintro ⟨cfg, hcfg⟩
        cases hcfg
  | deleteDeadSegments =>
    obtain ⟨s', d', es', hrun, hs', _, _, hst⟩ := h.deleteDeadSegments
    refine ⟨s', d', es', ?_, hs', ?_, ?_⟩
    · rw [Request.perform, outcomeOf_ok hrun]
    · intro seg hseg
      rwa [hst] at hseg
    · rintro ⟨cfg, hcfg⟩
      cases hcfg
  | writeMetadata pairs =>
    obtain ⟨s', d', es', hrun, hs', _, _, hst⟩ := h.writeMetadata (hrec _ rfl)
    refine ⟨s', d', es', ?_, hs', ?_, ?_⟩
    · rw [Request.perform, outcomeOf_ok hrun]
    · intro seg hseg
      rwa [hst] at hseg
    · rintro ⟨cfg, hcfg⟩
      cases hcfg
  | reopen cfg =>
    obtain ⟨s', hopen, hs', _, hst, _⟩ := h.reopen cfg
    refine ⟨s', d, es, ?_, hs', fun seg hseg => by rwa [hst] at hseg, fun _ => hst⟩
    rw [Request.perform, hopen]

/-- Batches, with opens in between, keep what was stored and add what is written. -/
theorem Session.grown (h : Session s d es log active) {m : Machine} {xs : List Entry}
    (hw : Writes (fun r => ∃ cfg, r = .reopen cfg) ⟨s, calm d⟩ (liveLog s.state log) m xs) :
    ∃ s' d' es' log' active', m = ⟨s', calm d'⟩ ∧ Session s' d' es' log' active' ∧
      liveLog s'.state log' = xs := by
  induction hw with
  | here => exact ⟨s, d, es, log, active, rfl, h, rfl⟩
  | batch _ ys hasc hfit hroom ih =>
    obtain ⟨s₁, d₁, es₁, log₁, active₁, rfl, h₁, rfl⟩ := ih
    exact h₁.perform_batch hasc hfit hroom
  | other _ r hr hp hrec ih =>
    obtain ⟨s₁, d₁, es₁, log₁, active₁, rfl, h₁, rfl⟩ := ih
    obtain ⟨s', d', es', hrun, hs', _, hst⟩ := h₁.perform_other hr hrec
    exact ⟨s', d', es', log₁, active₁, hrun, hs', by rw [hst hp]⟩

/-- Behind every run the live entries are among the written ones. -/
theorem Session.written (h : Session s d es log active) {xs₀ : List Entry}
    (hsub : ∀ e ∈ liveLog s.state log, e ∈ xs₀) {m : Machine} {xs : List Entry}
    (hw : Writes (fun _ => True) ⟨s, calm d⟩ xs₀ m xs) :
    ∃ s' d' es' log' active', m = ⟨s', calm d'⟩ ∧ Session s' d' es' log' active' ∧
      ∀ e ∈ liveLog s'.state log', e ∈ xs := by
  induction hw with
  | here => exact ⟨s, d, es, log, active, rfl, h, hsub⟩
  | batch _ ys hasc hfit hroom ih =>
    obtain ⟨s₁, d₁, es₁, log₁, active₁, rfl, h₁, hsub₁⟩ := ih
    obtain ⟨_, hys, hnew⟩ := List.pairwise_append.mp hasc
    have hlive : (liveLog s₁.state log₁ ++ ys).Pairwise fun a b => a.1 < b.1 :=
      List.pairwise_append.mpr ⟨h₁.ordered.liveLog, hys, fun f hf e he => hnew f (hsub₁ f hf) e he⟩
    obtain ⟨s', d', es', log', active', hrun, hs', hlog⟩ := h₁.perform_batch hlive hfit hroom
    refine ⟨s', d', es', log', active', hrun, hs', fun e he => ?_⟩
    rw [hlog] at he
    exact (List.mem_append.mp he).elim (fun he => List.mem_append_left _ (hsub₁ e he))
      (List.mem_append_right _)
  | other _ r hr _ hrec ih =>
    obtain ⟨s₁, d₁, es₁, log₁, active₁, rfl, h₁, hsub₁⟩ := ih
    obtain ⟨s', d', es', hrun, hs', hsegs, _⟩ := h₁.perform_other hr hrec
    refine ⟨s', d', es', log₁, active₁, hrun, hs', fun e he => hsub₁ e ?_⟩
    obtain ⟨seg, hseg, he⟩ := List.mem_flatMap.mp he
    exact List.mem_flatMap.mpr ⟨seg, hsegs seg hseg, he⟩

/-! ### The cut -/

/-- Behind the last entry there is nothing to cut. -/
theorem Session.cutsBehind_last (h : Session s d es log active) {lastValid : EntryId}
    (hlast : s.lastEntryId = some lastValid) :
    CutsBehind ⟨s, calm d⟩ log lastValid ⟨s, calm d⟩ := by
  have hall : s.lastEntryId.all (fun last => decide (last ≤ lastValid)) = true := by
    rw [hlast]
    simp
  have hsame : (liveLog s.state log).filter (fun e => decide (e.1 ≤ lastValid)) =
      liveLog s.state log := by
    refine List.filter_eq_self.mpr fun e he => decide_eq_true ?_
    rcases h.last with hid | ⟨hnil, _⟩
    · obtain ⟨last, hend, rfl⟩ := Option.map_eq_some_iff.mp (hid.symm.trans hlast)
      exact le_of_getLast h.ordered.liveLog hend he
    · rw [hnil] at he
      cases he
  refine ⟨Store.truncateEnd_beyond (calm d) hall, fun hne => absurd hlast hne, ?_⟩
  intro m'' xs hw
  change Writes _ _ ((liveLog s.state log).filter fun e => decide (e.1 ≤ lastValid)) _ _ at hw
  rw [hsame] at hw
  obtain ⟨s', d', es', log', active', rfl, hs', rfl⟩ := h.grown hw
  exact hs'.holds

/-- Where the search starts at the first frame the cut is where it should be. -/
theorem Session.cutsBehind_start (h : Session s d es log active)
    (hc : Cutting s log pre target post before e after) (hlast : s.lastEntryId ≠ some e.1)
    (hstart : startOffset s.index e.1 target.id = magicLen)
    (hrec : (Command.truncateEnd e.1).Recordable ⟨s, calm d⟩) :
    ∃ m', CutsBehind ⟨s, calm d⟩ log e.1 m' := by
  have hcut := h.cutsAt hc hlast
  rw [Store.cutOffset, hstart, ← segmentEnd] at hcut
  set off := segmentEnd (before ++ [e]) with hoff
  have hfit : Fits (opFrame (cutOp target off (post.map (·.id)))) :=
    hrec _ (h.upright.recorded_cut hcut)
  obtain ⟨es', hs'⟩ := h.cut hc hlast hstart hfit
  obtain ⟨hrun, _⟩ := h.upright.cut hcut
  have hmem : target ∈ s.state.segments := by simp [hc.split]
  refine ⟨_, hrun, fun _ => ?_, ?_⟩
  · refine ⟨target, post.map (·.id), before, e, after, hmem, hc.chosen, hc.entries, rfl, ?_⟩
    rw [← hoff, show (Machine.mk s (calm d)).world.dir = d from rfl]
  · intro m'' xs hw
    change Writes _ _ ((liveLog s.state log).filter fun x => decide (x.1 ≤ e.1)) _ _ at hw
    rw [← h.liveLog_cut hc] at hw
    obtain ⟨s'', d'', es'', log'', active'', rfl, hs'', rfl⟩ := hs'.grown hw
    exact hs''.holds

/-- Where it does not, the cut is behind where it should be. -/
theorem Session.start_of_cutsBehind (h : Session s d es log active)
    (hc : Cutting s log pre target post before e after) (hlast : s.lastEntryId ≠ some e.1)
    {m' : Machine} (hm : CutsBehind ⟨s, calm d⟩ log e.1 m') :
    startOffset s.index e.1 target.id = magicLen := by
  have hcut := h.cutsAt hc hlast
  obtain ⟨hrun, _⟩ := h.upright.cut hcut
  obtain ⟨target', drop, before', e', after', hmem', hchosen, hentries, hid, hworld⟩ := hm.offset hlast
  have hdone := hm.done
  rw [hrun] at hdone
  obtain rfl := (EStateM.Result.ok.inj hdone).2
  have hmem : target ∈ s.state.segments := by simp [hc.split]
  obtain rfl : target' = target := by
    rw [hc.chosen] at hchosen
    injection hchosen with hpair
    exact h.kept.shaped.inj hmem' hmem (congrArg Prod.fst hpair).symm
  have hupto : before' ++ [e'] = before ++ [e] := by
    rw [← h.target_entries hc, ← hid]
    have hasc := h.ordered.inside target' hmem
    rw [hentries] at hasc ⊢
    exact (filter_upTo hasc).symm
  -- the sizes of the file that is cut
  have hsize {off pos : ℕ} {op : ManifestOp} (hoff : magicLen ≤ off) :
      (((d.cut target' off).appended pos op).bytes (segmentPath target'.id)).map List.length =
        some off := by
    rw [h.upright.bytes_cut hmem hoff, Option.map_some, List.length_append, length_resize]
    exact congrArg some (Nat.add_sub_cancel' hoff)
  have hfiles := congrArg (fun w : World =>
    (w.dir.bytes (segmentPath target'.id)).map List.length) hworld
  dsimp only at hfiles
  rw [hupto] at hfiles
  have hle : magicLen ≤ segmentEnd (before ++ [e]) := Nat.le_add_right _ _
  have heq := (hsize (hcut.magicLen_le h.upright.offsets)).symm.trans (hfiles.trans (hsize hle))
  rw [Option.some.injEq, Store.cutOffset, segmentEnd] at heq
  exact Nat.add_right_cancel heq

/-- A mark that is not behind the first frame is at the first frame. -/
theorem Marks.first {xs : List Entry} {c f : EntryId × ℕ} (hc : Marks xs c) (hf : Marks xs f)
    (hasc : xs.Pairwise fun a b => a.1 < b.1) (hle : c.1 ≤ f.1) (hoff : f.2 = magicLen) :
    c.2 = magicLen := by
  obtain ⟨front, x, _, hx, rfl⟩ := hc
  obtain ⟨front', y, _, hy, rfl⟩ := hf
  dsimp only at hle hoff
  rw [segmentEnd] at hoff
  have hfirst : front' = [] := by
    cases front' with
    | nil => rfl
    | cons b rest =>
      rw [Grammar.encodeAll_cons, frames_encode, List.length_append, length_frame] at hoff
      have hpos : 0 < headerLen := by decide
      omega
  rw [hfirst, List.nil_append] at hy
  cases front with
  | nil => rfl
  | cons b rest =>
    rw [hx, List.cons_append] at hy hasc
    obtain ⟨rfl, _⟩ := List.cons.inj hy
    exact absurd hle (not_le.mpr ((List.pairwise_cons.mp hasc).1 x (by simp)))

/-- The search for an entry finds a mark of its segment, if there is one up to it. -/
theorem Session.find_target (h : Session s d es log active)
    (hc : Cutting s log pre target post before e after) {c : EntryId × ℕ}
    (hmark : s.Checkpoint target.id c) (hle : c.1 ≤ e.1) :
    ∃ pos, s.index.find e.1 = some pos ∧ pos.segment = target.id ∧ c.1 ≤ pos.checkpoint ∧
      Marks (log target.id) (pos.checkpoint, pos.byteOffset) := by
  obtain ⟨x, hx, hid, hcin⟩ := hmark
  cases hfind : s.index.find e.1 with
  | none => exact absurd hle (not_le.mpr (h.index.sorted.find_none hfind x hx _ hcin))
  | some pos =>
    obtain ⟨t, ht, htid, hpos, hpe, hmax⟩ := h.index.sorted.find_some hfind
    have hcp := hmax x hx c hcin hle
    have hmarks := h.index.marks t ht _ hpos
    obtain ⟨g, hg, hcg⟩ := (h.index.marks x hx c hcin).mem
    obtain ⟨f, hf, hpf⟩ := hmarks.mem
    obtain ⟨seg, hseg, hsegid⟩ := (lists_iff _ _).mp (h.index.live t ht (List.ne_nil_of_mem hpos))
    rw [hid] at hg
    rw [← hsegid] at hf
    -- what is found lies between the mark and the entry, so in their segment
    have hacross := h.ordered.across_ids
    rw [hc.split] at hacross
    have htarget : seg = target := by
      rw [hc.split, List.mem_append, List.mem_cons] at hseg
      rcases hseg with hpre | heq | hpost
      · have hlt := (List.pairwise_append.mp hacross).2.2 seg hpre target (by simp) f hf g hg
        rw [hcg] at hcp
        exact absurd (hcp.trans_eq hpf) (not_le.mpr hlt)
      · exact heq
      · have hlt := (h.sides hc).2 seg hpost f hf
        exact absurd (hpf.symm.le.trans hpe) (not_le.mpr hlt)
    rw [← hsegid, htarget] at htid hmarks
    exact ⟨pos, rfl, htid.symm, hcp, hmarks⟩

/-- The search for the cut starts at the first frame just if the index marks no other one up to the
entry. -/
theorem Session.startOffset_iff (h : Session s d es log active)
    (hc : Cutting s log pre target post before e after) :
    startOffset s.index e.1 target.id = magicLen ↔
      ∀ c, s.Checkpoint target.id c → c.1 ≤ e.1 → c.2 = magicLen := by
  constructor
  · intro hstart c hmark hle
    obtain ⟨pos, hfind, htarget, hcp, hpos⟩ := h.find_target hc hmark hle
    have hoff : pos.byteOffset = magicLen := by
      rw [startOffset, hfind] at hstart
      dsimp only at hstart
      rwa [if_pos htarget] at hstart
    obtain ⟨x, hx, hid, hcin⟩ := hmark
    have hc' : Marks (log target.id) c := hid ▸ h.index.marks x hx c hcin
    exact hc'.first hpos (h.ordered.inside target (by simp [hc.split])) hcp hoff
  · intro hall
    rw [startOffset]
    cases hfind : s.index.find e.1 with
    | none => rfl
    | some pos =>
      obtain ⟨t, ht, htid, hpos, hpe, _⟩ := h.index.sorted.find_some hfind
      dsimp only
      split
      · rename_i heq
        exact hall _ ⟨t, ht, htid.trans heq, hpos⟩ hpe
      · rfl

/-- The entry is in no other segment. -/
theorem Session.eq_target (h : Session s d es log active)
    (hc : Cutting s log pre target post before e after) {seg : SegmentEntry}
    (hseg : seg ∈ s.state.segments) (hin : e ∈ log seg.id) : seg = target := by
  have hacross := h.ordered.across_ids
  have hein : e ∈ log target.id := by simp [hc.entries]
  rw [hc.split] at hseg hacross
  rw [List.mem_append, List.mem_cons] at hseg
  rcases hseg with hpre | heq | hpost
  · exact absurd ((List.pairwise_append.mp hacross).2.2 seg hpre target (by simp) e hin e hein)
      (lt_irrefl _)
  · exact heq
  · exact absurd ((h.sides hc).2 seg hpost e hin) (lt_irrefl _)

theorem Session.marksFirst_iff (h : Session s d es log active)
    (hc : Cutting s log pre target post before e after) :
    s.MarksFirst log e ↔ startOffset s.index e.1 target.id = magicLen := by
  rw [h.startOffset_iff hc]
  constructor
  · exact fun hall => hall target (by simp [hc.split]) (by simp [hc.entries])
  · intro hall seg hseg hin
    rw [h.eq_target hc hseg hin]
    exact hall

/-- Only the entries of live segments count. -/
theorem CutsBehind.congr {m m' : Machine} {log log' : SegmentId → List Entry} {lastValid : EntryId}
    (h : CutsBehind m log lastValid m')
    (hlog : ∀ seg ∈ m.store.state.segments, log' seg.id = log seg.id) :
    CutsBehind m log' lastValid m' := by
  refine ⟨h.done, fun hne => ?_, ?_⟩
  · obtain ⟨target, drop, before, e, after, hmem, hchosen, hentries, hrest⟩ := h.offset hne
    exact ⟨target, drop, before, e, after, hmem, hchosen, (hlog target hmem).trans hentries, hrest⟩
  · rw [liveLog_congr hlog]
    exact h.later

omit [Crates] in
theorem Store.MarksFirst.congr {log' : SegmentId → List Entry} (h : s.MarksFirst log e)
    (hlog : ∀ seg ∈ s.state.segments, log' seg.id = log seg.id) : s.MarksFirst log' e :=
  fun seg hseg he => h seg hseg (hlog seg hseg ▸ he)

/-- The cut is where it should be just if there is nothing to cut or the search starts at the first
frame. -/
theorem Session.cutsBehind_iff_marksFirst (h : Session s d es log active)
    {log' : SegmentId → List Entry} (hlog : Machine.Logs ⟨s, calm d⟩ log')
    (he : e ∈ liveLog s.state log') (hrec : (Command.truncateEnd e.1).Recordable ⟨s, calm d⟩) :
    (∃ m', CutsBehind ⟨s, calm d⟩ log' e.1 m') ↔
      s.lastEntryId = some e.1 ∨ s.MarksFirst log' e := by
  have hsame : ∀ seg ∈ s.state.segments, log' seg.id = log seg.id := fun seg hseg =>
    h.logs_eq hlog hseg
  have hback : ∀ seg ∈ s.state.segments, log seg.id = log' seg.id := fun seg hseg =>
    (hsame seg hseg).symm
  rw [liveLog_congr hsame] at he
  have hcuts : (∃ m', CutsBehind ⟨s, calm d⟩ log' e.1 m') ↔
      ∃ m', CutsBehind ⟨s, calm d⟩ log e.1 m' :=
    ⟨fun ⟨m', hm⟩ => ⟨m', hm.congr hback⟩, fun ⟨m', hm⟩ => ⟨m', hm.congr hsame⟩⟩
  have hmarks : s.MarksFirst log' e ↔ s.MarksFirst log e :=
    ⟨fun hm => hm.congr hback, fun hm => hm.congr hsame⟩
  rw [hcuts, hmarks]
  by_cases hlast : s.lastEntryId = some e.1
  · exact ⟨fun _ => Or.inl hlast, fun _ => ⟨_, h.cutsBehind_last hlast⟩⟩
  · obtain ⟨pre, target, post, before, after, hc⟩ := h.cutting he
    rw [or_iff_right hlast, h.marksFirst_iff hc]
    exact ⟨fun ⟨_, hm⟩ => h.start_of_cutsBehind hc hlast hm,
      fun hstart => h.cutsBehind_start hc hlast hstart hrec⟩

end

/-- A run from a new store leaves a session. -/
theorem Fresh.written {d : Dir} (hd : Fresh d) {cfg : StoreCfg} {s : Store} {w : World}
    (hopen : Store.openOrCreate cfg (calm d) = .ok s w) {m : Machine} {xs : List Entry}
    (hw : Writes (fun _ => True) ⟨s, w⟩ [] m xs) :
    ∃ s d es log active, m = ⟨s, calm d⟩ ∧ Session s d es log active := by
  obtain ⟨s', hopen', hs, _, hst, _⟩ := hd.session cfg
  rw [hopen] at hopen'
  obtain ⟨rfl, rfl⟩ := EStateM.Result.ok.inj hopen'
  have hnone : ∀ e ∈ liveLog s.state (fun _ => ([] : List Entry)), e ∈ ([] : List Entry) := by
    intro e he
    rw [hst] at he
    cases he
  obtain ⟨s', d', es', log', active', rfl, h, _⟩ := hs.written hnone hw
  exact ⟨s', d', es', log', active', rfl, h⟩

/-- In every run of batches of ascending ids, trims, clean-ups, metadata and opens, `truncate_end`
keeps exactly the entries up to a stored one, just if that is the last one or the index marks no frame
of its segment up to it but the first: the offset of a checkpoint is counted twice. -/
theorem Writes.cutsBehind_iff {d : Dir} (hd : Fresh d) {cfg : StoreCfg} {s : Store} {w : World}
    (hopen : Store.openOrCreate cfg (calm d) = .ok s w) {m : Machine} {xs : List Entry}
    (hw : Writes (fun _ => True) ⟨s, w⟩ [] m xs) {log : SegmentId → List Entry} (hlog : m.Logs log)
    {e : Entry} (he : e ∈ liveLog m.store.state log)
    (hrec : (Command.truncateEnd e.1).Recordable m) :
    (∃ m', CutsBehind m log e.1 m') ↔
      m.store.lastEntryId = some e.1 ∨ m.store.MarksFirst log e := by
  obtain ⟨s, d, es, log', active, rfl, h⟩ := hd.written hopen hw
  exact h.cutsBehind_iff_marksFirst hlog he hrec

/-- What proper requests lead to. -/
theorem Reached.writes {m : Machine} {j : Journal} (h : Reached (fun m r => r.Recordable m) m j) :
    ∃ d cfg s w, Fresh d ∧ Store.openOrCreate cfg (calm d) = .ok s w ∧
      Writes (fun _ => True) ⟨s, w⟩ [] m j.written ∧ j.written.Pairwise fun a b => a.1 < b.1 := by
  induction h with
  | @opened d cfg s w hd hopen => exact ⟨d, cfg, s, w, hd, hopen, .here, List.Pairwise.nil⟩
  | @request m j r _ hr hp ih =>
    obtain ⟨d, cfg, s, w, hd, hopen, hw, hasc⟩ := ih
    cases r with
    | batch ys =>
      obtain ⟨hys, hfit, _, hnew, hroom⟩ := hr
      have hall : (j.written ++ ys).Pairwise fun a b => a.1 < b.1 :=
        List.pairwise_append.mpr ⟨hasc, hys, hnew⟩
      exact ⟨d, cfg, s, w, hd, hopen, hw.batch ys hall hfit hroom, hall⟩
    | truncateStart first metaPairs =>
      have hsame : (j.after (.truncateStart first metaPairs)).written = j.written := by
        rw [Journal.after]
        split <;> rfl
      rw [hsame]
      exact ⟨d, cfg, s, w, hd, hopen, hw.other _ (by simp) trivial hp, hasc⟩
    | deleteDeadSegments => exact ⟨d, cfg, s, w, hd, hopen, hw.other _ (by simp) trivial hp, hasc⟩
    | writeMetadata pairs => exact ⟨d, cfg, s, w, hd, hopen, hw.other _ (by simp) trivial hp, hasc⟩
    | reopen cfg' => exact ⟨d, cfg, s, w, hd, hopen, hw.other _ (by simp) trivial hp, hasc⟩

end

section
attribute [local instance] sample

instance (m : Machine) (log : SegmentId → List Entry) : Decidable (m.Logs log) :=
  have : ∀ e : Entry, Decidable (Fits e) := fun e => inferInstanceAs (Decidable (e.2.length < 2^32))
  inferInstanceAs (Decidable (∀ seg ∈ m.store.state.segments, (∀ e ∈ log seg.id, Fits e) ∧
    m.world.dir.bytes (segmentPath seg.id) = some (segmentMagic ++ frames.encodeAll (log seg.id))))

/-- Three segments with entries. -/
def rollingLog (id : SegmentId) : List Entry :=
  if id = ⟨1⟩ then [(⟨1⟩, [])]
  else if id = ⟨2⟩ then [(⟨2⟩, []), (⟨3⟩, [])]
  else [(⟨4⟩, []), (⟨5⟩, [])]

/-- What is true of the machine behind the run. -/
theorem run_rolling {m : Machine} (hm : openedBlank ⟨0⟩ = some m) (p : Machine → Prop)
    [DecidablePred p] (h : (openedBlank ⟨0⟩).all (fun m =>
      decide (p (performAll m (rolling ++ [.reopen ⟨0⟩])))) = true) :
    p (performAll m (rolling ++ [.reopen ⟨0⟩])) := by
  rw [hm] at h
  exact of_decide_eq_true h

/-- A run with three segments, and what its index marks. -/
theorem written_rolling : ∃ m d cfg s w xs, openedBlank ⟨0⟩ = some m ∧ Fresh d ∧
    Store.openOrCreate cfg (calm d) = .ok s w ∧
    Writes (fun _ => True) ⟨s, w⟩ [] (performAll m (rolling ++ [.reopen ⟨0⟩])) xs ∧
    (performAll m (rolling ++ [.reopen ⟨0⟩])).Logs rollingLog ∧
    ∀ e, (performAll m (rolling ++ [.reopen ⟨0⟩])).store.MarksFirst rollingLog e := by
  set rs := rolling ++ [.reopen ⟨0⟩] with hrs
  have hproper : (openedBlank ⟨0⟩).all (fun m => properRun m Journal.start rs) = true := by
    decide +kernel
  obtain ⟨m, hm, hreached⟩ := reached_openedBlank (P := fun m r => r.Recordable m) ⟨0⟩ rs
    (by simp [hrs, rolling, Request.Recordable, Request.recorded]) hproper
  have hrun (p : Machine → Prop) [DecidablePred p]
      (h : (openedBlank ⟨0⟩).all (fun m => decide (p (performAll m rs))) = true) :
      p (performAll m rs) := by
    rw [hm] at h
    exact of_decide_eq_true h
  obtain ⟨d, cfg, s, w, hd, hopen, hw, _⟩ := hreached.writes
  have hlog := hrun (fun m => m.Logs rollingLog) (by decide +kernel)
  have hmarks := hrun (fun m => ∀ x ∈ m.store.index.segments, ∀ c ∈ x.2.checkpoints, c.2 = magicLen)
    (by decide +kernel)
  refine ⟨m, d, cfg, s, w, _, hm, hd, hopen, hw, hlog, ?_⟩
  rintro e seg _ _ c ⟨x, hx, _, hc⟩ _
  exact hmarks x hx c hc

/-- The middle one of three segments is cut behind its first entry. -/
theorem Writes.cutsBehind_iff_rolling : ∃ m, openedBlank ⟨0⟩ = some m ∧
    ∃ m', CutsBehind (performAll m (rolling ++ [.reopen ⟨0⟩])) rollingLog ⟨2⟩ m' := by
  obtain ⟨m, _, _, _, _, _, hm, hd, hopen, hw, hlog, hmarks⟩ := written_rolling
  have he := run_rolling hm (fun m => ((⟨2⟩, []) : Entry) ∈ liveLog m.store.state rollingLog)
    (by decide +kernel)
  have hrec := run_rolling hm (fun m => (Command.truncateEnd ⟨2⟩).Recordable m) (by decide +kernel)
  exact ⟨m, hm, (Writes.cutsBehind_iff hd hopen hw hlog he hrec).mpr (Or.inr (hmarks _))⟩

/-- More entries than there are between two checkpoints. -/
def longBatch : List Entry := (List.range 66).map fun i => (⟨UInt64.ofNat (i+1)⟩, [])

/-- The batch is in the first segment. -/
theorem segments_longBatch {m : Machine} (hm : openedBlank ⟨0⟩ = some m) :
    ((Request.batch longBatch).perform m).2.store.state.segments = [firstSegment] := by
  have hrun : (openedBlank ⟨0⟩).all (fun m =>
      decide (((Request.batch longBatch).perform m).2.store.state.segments = [firstSegment])) = true := by
    decide +kernel
  rw [hm] at hrun
  exact of_decide_eq_true hrun

/-- After an open, the search for the last entry but one starts at the second checkpoint, and the file
is cut far behind the end of the frame. -/
theorem Writes.not_cutsBehind : ¬ ∀ d cfg s w, Fresh d → Store.openOrCreate cfg (calm d) = .ok s w →
    ∀ m xs, Writes (fun _ => True) ⟨s, w⟩ [] m xs → ∀ log, m.Logs log →
      ∀ e ∈ liveLog m.store.state log, ∃ m', CutsBehind m log e.1 m' := by
  intro hall
  obtain ⟨s, hopen, hs, _, hst, hpend⟩ := fresh_blank.session ⟨0⟩
  have hnone : liveLog s.state (fun _ => ([] : List Entry)) = [] := by
    rw [hst]
    rfl
  have hasc : (([] : List Entry) ++ longBatch).Pairwise fun a b => a.1 < b.1 := by decide +kernel
  have hfit : ∀ e ∈ longBatch, Fits e := by
    intro e he
    obtain ⟨i, _, rfl⟩ := List.mem_map.mp he
    exact Nat.two_pow_pos 32
  have hroom : longBatch ≠ [] → s.Room := by
    intro _ hp
    rw [hpend] at hp
    cases hp
  have hstart : Writes (fun _ => True) ⟨s, calm blank.formatted⟩ [] ⟨s, calm blank.formatted⟩ [] := .here
  have hw := (hstart.batch longBatch hasc hfit hroom).other (.reopen ⟨0⟩) (by simp) trivial
    (fun op hop => by cases hop)
  -- the batch, then the open
  obtain ⟨s₁, d₁, es₁, log, active, hrun, h₁, hlive⟩ :=
    hs.perform_batch (by rw [hnone]; exact hasc) hfit hroom
  obtain ⟨s₂, hopen₂, h₂, _, hst₂, hindex, _⟩ := h₁.reopen ⟨0⟩
  rw [hrun, Request.perform, hopen₂] at hw
  rw [hnone, List.nil_append, ← hst₂] at hlive
  have hsegs := segments_longBatch (m := ⟨s, calm blank.formatted⟩) (by rw [openedBlank, hopen])
  rw [hrun, ← hst₂] at hsegs
  have hlog : log firstSegment.id = longBatch := by
    rw [← hlive, liveLog, hsegs, List.flatMap_singleton]
  have he : ((⟨65⟩, []) : Entry) ∈ liveLog s₂.state log := by
    rw [hlive]
    decide +kernel
  have hlast : s₂.lastEntryId ≠ some ⟨65⟩ := by
    rw [(h₂.stocked he).last, hlive]
    decide +kernel
  obtain ⟨m', hm⟩ := hall _ _ _ _ fresh_blank hopen _ _ hw log h₂.logs _ he
  obtain ⟨pre, target, post, before, after, hc⟩ := h₂.cutting he
  have htarget : target = firstSegment := by
    have hmem : target ∈ s₂.state.segments := by simp [hc.split]
    rw [hsegs] at hmem
    exact List.mem_singleton.mp hmem
  have hmarks := (h₂.startOffset_iff hc).mp (h₂.start_of_cutsBehind hc hlast hm)
  obtain ⟨c, hcin, hle, hne⟩ : ∃ c ∈ checkpointsOf longBatch, c.1 ≤ ⟨65⟩ ∧ c.2 ≠ magicLen := by
    decide +kernel
  refine hne (hmarks c ⟨(firstSegment.id, ⟨checkpointsOf longBatch⟩), ?_, ?_, hcin⟩ hle)
  · rw [hindex, indexOf, ← hst₂, hsegs, List.map_singleton, hlog]
    exact List.mem_singleton.mpr rfl
  · rw [htarget]

end
end Woodshed
