import Woodshed.Revising

/-! The count of the active segment's entries over a run: `truncate_end` sets it to zero, whatever the
cut leaves, and it is right again behind the next rollover or open. -/
namespace Woodshed
open Framing

section
variable [Crates]

/-- Whether the count is off behind a command. A cut that drops entries puts it off, a rollover or an
open right. -/
def Command.putsOff (m : Machine) (j : Journal) (off : Bool) : Command → Bool
  | .request (.batch xs) => off && !(m.store.rolloverPending && !xs.isEmpty)
  | .request (.reopen _) => false
  | .request _ => off
  | .truncateEnd lastValid => off ||
      (!j.lastEntry.all (fun last => decide (last ≤ lastValid)) &&
        j.visible.any fun e => decide (e.1 = lastValid))

/-- The runs of all calls, with whether the count is off behind them. -/
inductive Tallied : Machine → Journal → Bool → Prop
  | opened {d : Dir} {cfg : StoreCfg} {s : Store} {w : World} (hd : Fresh d)
      (h : Store.openOrCreate cfg (calm d) = .ok s w) : Tallied ⟨s, w⟩ Journal.start false
  | command {m : Machine} {j : Journal} {off : Bool} (c : Command) (h : Tallied m j off)
      (hc : c.Proper m j) (hr : c.Recordable m) :
      Tallied (c.perform m).2 (j.follow c) (c.putsOff m j off)

theorem Tallied.ran {m : Machine} {j : Journal} {off : Bool} (h : Tallied m j off) : Ran m j := by
  induction h with
  | opened hd hopen => exact .opened hd hopen
  | command c _ hc hr ih => exact ih.command c hc hr

/-- Every run has its tally. -/
theorem Ran.tallied {m : Machine} {j : Journal} (h : Ran m j) : ∃ off, Tallied m j off := by
  induction h with
  | opened hd hopen => exact ⟨false, .opened hd hopen⟩
  | command c _ hc hr ih =>
    obtain ⟨off, ih⟩ := ih
    exact ⟨_, ih.command c hc hr⟩

/-- The entries in the file of the active segment. -/
def Machine.inActive (m : Machine) : List Entry :=
  (frames.decode (body m.world.dir m.store.activeId)).items

/-- A count that is off is too low. -/
def Machine.Tallies (m : Machine) (off : Bool) : Prop :=
  if off = true then m.store.activeEntryCount < m.inActive.length
  else m.store.activeEntryCount = m.inActive.length

theorem Session.inActive {s : Store} {d : Dir} {es : List Entry} {log : SegmentId → List Entry}
    {active : SegmentEntry} (h : Session s d es log active) :
    Machine.inActive ⟨s, calm d⟩ = log active.id := by
  have hmem := h.kept.shaped.mem
  change (frames.decode (body d s.activeId)).items = _
  rw [h.activeId, body_eq (h.kept.holds active hmem), frames.decode_encodeAll _ (h.whole active hmem)]

section
variable {s s' : Store} {d d' : Dir} {es es' : List Entry} {log log' : SegmentId → List Entry}
  {active active' : SegmentEntry} {off : Bool}

/-- As many entries more as are counted. -/
theorem Session.tallies (h : Session s d es log active) (ht : Machine.Tallies ⟨s, calm d⟩ off)
    (h' : Session s' d' es' log' active') {n : ℕ}
    (hcount : s'.activeEntryCount = s.activeEntryCount+n)
    (hlog : (log' active'.id).length = (log active.id).length+n) :
    Machine.Tallies ⟨s', calm d'⟩ off := by
  unfold Machine.Tallies at ht ⊢
  rw [h.inActive] at ht
  rw [h'.inActive, hlog]
  change if off = true then s'.activeEntryCount < _ else s'.activeEntryCount = _
  rw [hcount]
  dsimp only at ht
  split at ht
  · rw [if_pos ‹_›]
    omega
  · rw [if_neg ‹_›, ht]

theorem Session.tallies_batch (h : Session s d es log active) (ht : Machine.Tallies ⟨s, calm d⟩ off)
    {xs : List Entry} (hne : xs ≠ []) (hfit : ∀ e ∈ xs, Fits e)
    (hasc : xs.Pairwise fun a b => a.1 < b.1) (hnew : ∀ f ∈ liveLog s.state log, ∀ e ∈ xs, f.1 < e.1)
    (hroom : s.Room) :
    Machine.Tallies (Request.perform ⟨s, calm d⟩ (.batch xs)).2 (off && !s.rolloverPending) := by
  obtain ⟨first, rest, hcons⟩ := List.exists_cons_of_ne_nil hne
  have hlast := List.getLast?_eq_some_getLast hne
  have hrun := h.batch_eq hcons hlast hroom
  rw [Request.perform, outcomeOf_ok hrun]
  by_cases hp : s.rolloverPending = true
  · -- the new segment has the entries of the batch, and no others are counted
    have hs : (s.buffered xs).readyFor first.1 = (s.buffered xs).rolled first.1 := if_pos hp
    have hd : d.readyFor (s.buffered xs) first.1 = d.rolled (s.buffered xs) first.1 := if_pos hp
    have hnow := h.batch_rolled hp hcons hlast hfit hasc hnew hroom
    rw [hs, hd, hp, Bool.not_true, Bool.and_false]
    unfold Machine.Tallies
    rw [if_neg Bool.false_ne_true, hnow.inActive, Function.update_self, Function.update_self,
      List.nil_append]
    exact Nat.zero_add _
  · have hs : (s.buffered xs).readyFor first.1 = s.buffered xs := if_neg hp
    have hd : d.readyFor (s.buffered xs) first.1 = d := if_neg hp
    rw [hs, hd, Bool.eq_false_of_not_eq_true hp, Bool.not_false, Bool.and_true]
    refine h.tallies ht (h.batch_same hlast hfit hasc hnew) rfl ?_
    rw [Function.update_self, List.length_append]

theorem Session.tallies_reopen (h : Session s d es log active) (cfg : StoreCfg) :
    Machine.Tallies (Request.perform ⟨s, calm d⟩ (.reopen cfg)).2 false := by
  obtain ⟨s', hopen, hrun, _, hst, hindex, hbuf, _, hcount, _⟩ := h.clean.openStore cfg
  rw [Request.perform, hopen]
  dsimp only
  unfold Machine.Tallies
  have hmem := h.kept.shaped.mem
  have hin : Machine.inActive ⟨s', calm d⟩ = log active.id := by
    change (frames.decode (body d s'.activeId)).items = _
    rw [hrun.activeId, body_eq (h.kept.holds active hmem),
      frames.decode_encodeAll _ (h.whole active hmem)]
  rw [if_neg Bool.false_ne_true, hin]
  exact hcount

end

/-- A cut leaves the entry it is behind, and counts none. -/
theorem Agrees.tallies_cut {s : Store} {d : Dir} {j : Journal} {es : List Entry}
    {log : SegmentId → List Entry} {active : SegmentEntry} (h : Agrees ⟨s, calm d⟩ j d es log active)
    {e : Entry} (he : e ∈ liveLog s.state log) (hne : s.lastEntryId ≠ some e.1)
    (hseek : s.SeeksFirst e.1) (hrec : (Command.truncateEnd e.1).Recordable ⟨s, calm d⟩) :
    Machine.Tallies ((Command.truncateEnd e.1).perform ⟨s, calm d⟩).2 true := by
  have hs : Session s d es log active := h.session
  obtain ⟨pre, target, post, before, after, hc⟩ := hs.cutting he
  have hstart : startOffset s.index e.1 target.id = magicLen := hseek _ hc.chosen
  have hcut := hs.cutsAt hc hne
  rw [Store.cutOffset, hstart, ← segmentEnd] at hcut
  obtain ⟨es', hs'⟩ := hs.cut hc hne hstart (hrec _ (hs.upright.recorded_cut hcut))
  obtain ⟨hrun, _⟩ := hs.upright.cut hcut
  rw [Command.perform, outcomeOf_ok hrun]
  unfold Machine.Tallies
  rw [if_pos rfl, hs'.inActive, Function.update_self, List.length_append]
  exact Nat.succ_pos _

/-- Whether the count is off is told by the run. -/
theorem Agrees.tallies {m : Machine} {j : Journal} {d : Dir} {es : List Entry}
    {log : SegmentId → List Entry} {active : SegmentEntry} (h : Agrees m j d es log active)
    {off : Bool} (ht : m.Tallies off) (c : Command) (hc : c.Proper m j) (hr : c.Recordable m) :
    (c.perform m).2.Tallies (c.putsOff m j off) := by
  obtain ⟨s, w⟩ := m
  obtain rfl : w = calm d := h.world
  have hs : Session s d es log active := h.session
  cases c with
  | truncateEnd lastValid =>
    obtain ⟨hge, hseek⟩ := hc
    have hnone := h.none_behind hge
    rw [Command.putsOff, hnone]
    obtain ⟨hdone, hsame, _⟩ := h.truncateEnd ⟨hge, hseek⟩ hr
    by_cases hall : (s.lastEntryId.all fun last => decide (last ≤ lastValid)) = true
    · have hperform : (Command.truncateEnd lastValid).perform ⟨s, calm d⟩ = (.done, ⟨s, calm d⟩) :=
        outcomeOf_ok (Store.truncateEnd_beyond (calm d) hall)
      rw [hperform, hall, Bool.not_true, Bool.false_and, Bool.or_false]
      exact ht
    · rw [Bool.eq_false_of_not_eq_true hall, Bool.not_false, Bool.true_and]
      by_cases hstored : (j.visible.any fun e => decide (e.1 = lastValid)) = true
      · rw [hstored, Bool.or_true]
        simp only [List.any_eq_true, decide_eq_true_eq] at hstored
        obtain ⟨e, he, rfl⟩ := (h.stored_iff hge).mp hstored
        refine h.tallies_cut he ?_ hseek hr
        intro hlast
        exact hall (by rw [hlast]; simp)
      · rw [Bool.eq_false_of_not_eq_true hstored, Bool.or_false]
        have hrefused : j.accepts (.truncateEnd lastValid) = false := by
          rw [Journal.accepts, hnone, Bool.eq_false_of_not_eq_true hall,
            Bool.eq_false_of_not_eq_true hstored]
          rfl
        rw [hsame hrefused]
        exact ht
  | request r =>
    cases r with
    | batch xs =>
      obtain ⟨hasc, hfit, _, hnew, hroom⟩ := hc
      by_cases hne : xs = []
      · subst hne
        have hperform : Command.perform ⟨s, calm d⟩ (.request (.batch [])) = (.done, ⟨s, calm d⟩) :=
          outcomeOf_ok hs.batch_nil
        rw [hperform, Command.putsOff, List.isEmpty_nil, Bool.not_true, Bool.and_false,
          Bool.not_false, Bool.and_true]
        exact ht
      · have hlive : ∀ f ∈ liveLog s.state log, ∀ e ∈ xs, f.1 < e.1 := fun f hf =>
          hnew f (h.live f hf)
        rw [Command.putsOff, List.isEmpty_eq_false_iff.mpr hne, Bool.not_false, Bool.and_true]
        exact hs.tallies_batch ht hne hfit hasc hlive (hroom hne)
    | truncateStart first metaPairs =>
      by_cases hlt : first < s.state.firstEntry
      · have hrun := Store.truncateStart_refused (m := ⟨s, calm d⟩) metaPairs hlt
        rw [Command.perform, Request.perform, outcomeOf_error hrun]
        exact ht
      · have hfit : Fits (opFrame (headOp s.state first metaPairs)) := by
          refine hr _ ?_
          rw [Command.recorded, Request.recorded, if_neg hlt]
          rfl
        obtain ⟨s', d', es', hrun, hs', _⟩ := hs.truncateStart (not_lt.mp hlt) hfit
        obtain ⟨hrun', _⟩ := hs.upright.truncateStart metaPairs (not_lt.mp hlt)
        have hsame := (EStateM.Result.ok.inj (hrun.symm.trans hrun')).2
        rw [Command.perform, Request.perform, outcomeOf_ok hrun]
        exact hs.tallies ht hs' (n := 0) (congrArg (fun m => m.store.activeEntryCount) hsame) rfl
    | deleteDeadSegments =>
      obtain ⟨s', d', es', hrun, hs', _⟩ := hs.deleteDeadSegments
      obtain ⟨s'', d'', hrun', _, _, hs'', _⟩ := hs.upright.deleteDeadSegments
      have hsame := (EStateM.Result.ok.inj (hrun.symm.trans hrun')).2
      rw [Command.perform, Request.perform, outcomeOf_ok hrun]
      refine hs.tallies ht hs' (n := 0) ?_ rfl
      exact (congrArg (fun m => m.store.activeEntryCount) hsame).trans
        (congrArg Store.activeEntryCount hs'')
    | writeMetadata pairs =>
      obtain ⟨s', d', es', hrun, hs', _⟩ := hs.writeMetadata (hr _ rfl)
      have hrun' : Store.writeMetadata pairs ⟨s, calm d⟩ = _ := hs.upright.appendOp rfl d _
      have hsame := (EStateM.Result.ok.inj (hrun.symm.trans hrun')).2
      rw [Command.perform, Request.perform, outcomeOf_ok hrun]
      exact hs.tallies ht hs' (n := 0) (congrArg (fun m => m.store.activeEntryCount) hsame) rfl
    | reopen cfg => exact hs.tallies_reopen cfg

/-- In every run the count is right just if the run has not put it off. -/
theorem Tallied.tallies {m : Machine} {j : Journal} {off : Bool} (h : Tallied m j off) :
    m.Tallies off := by
  induction h with
  | opened hd hopen =>
    rename_i d cfg s w
    obtain ⟨s', hopen', hs, _⟩ := hd.session cfg
    have hopened := (openOrCreate_fresh hd cfg).symm.trans hopen
    have hreopened := hs.clean.openStore cfg
    obtain ⟨s'', hopen'', hrun, _, _, _, _, _, hcount, _⟩ := hreopened
    rw [hopened] at hopen''
    obtain ⟨rfl, rfl⟩ := EStateM.Result.ok.inj hopen''
    rw [hopen] at hopen'
    obtain ⟨rfl, -⟩ := EStateM.Result.ok.inj hopen'
    unfold Machine.Tallies
    rw [if_neg Bool.false_ne_true, hs.inActive]
    exact hcount
  | command c hrun hc hr ih =>
    obtain ⟨d, es, log, active, ha⟩ := hrun.ran.agrees
    exact ha.tallies ih c hc hr

end
end Woodshed
