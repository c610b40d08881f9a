import Woodshed.Keeping

/-! Runs of all calls of a store, `truncate_end` among them, and the journal that they come to. -/
namespace Woodshed
open Framing FrameScanner

namespace Journal

/-- The journal takes a command: `truncate_end` takes an entry that is there, or one from the last
on. -/
def accepts (j : Journal) : Command → Bool
  | .request (.truncateStart firstEntry _) => !decide (firstEntry < j.head)
  | .request _ => true
  | .truncateEnd lastValid => j.lastEntry.all (fun last => decide (last ≤ lastValid)) ||
      j.visible.any fun e => decide (e.1 = lastValid)

/-- The entries up to one of them stay. -/
def cutBehind (j : Journal) (lastValid : EntryId) : Journal :=
  { j with written := j.written.filter fun e => decide (e.1 ≤ lastValid) }

/-- The journal behind a command: entries are added at the end, and taken off there. -/
def follow (j : Journal) : Command → Journal
  | .request r => j.after r
  | .truncateEnd lastValid =>
    if j.lastEntry.all (fun last => decide (last ≤ lastValid)) then j
    else if j.visible.any fun e => decide (e.1 = lastValid) then j.cutBehind lastValid
    else j

end Journal

section
variable [Crates]

/-- The search for an entry starts at the first frame of its segment. -/
def Store.SeeksFirst (s : Store) (lastValid : EntryId) : Prop :=
  ∀ pair ∈ truncateTarget s.state.segments lastValid,
    startOffset s.index lastValid pair.1 = magicLen

instance (s : Store) (lastValid : EntryId) : Decidable (s.SeeksFirst lastValid) :=
  inferInstanceAs (Decidable (∀ pair ∈ truncateTarget s.state.segments lastValid,
    startOffset s.index lastValid pair.1 = magicLen))

/-- The calls a store is meant for: the end is not cut before the head, and where the index marks no
frame but the first on the way there. -/
def Command.Proper (m : Machine) (j : Journal) : Command → Prop
  | .request r => r.Proper m j
  | .truncateEnd lastValid => j.head ≤ lastValid ∧ m.store.SeeksFirst lastValid

instance (m : Machine) (j : Journal) (c : Command) : Decidable (c.Proper m j) :=
  match c with
  | .request r => inferInstanceAs (Decidable (r.Proper m j))
  | .truncateEnd lastValid =>
    inferInstanceAs (Decidable (j.head ≤ lastValid ∧ m.store.SeeksFirst lastValid))

/-- What runs of all calls lead to: a store created in a directory without one, then proper commands
whose ops can be recorded, and the journal that this comes to. -/
inductive Ran : Machine → Journal → Prop
  | opened {d : Dir} {cfg : StoreCfg} {s : Store} {w : World} (hd : Fresh d)
      (h : Store.openOrCreate cfg (calm d) = .ok s w) : Ran ⟨s, w⟩ Journal.start
  | command {m : Machine} {j : Journal} (c : Command) (h : Ran m j) (hc : c.Proper m j)
      (hr : c.Recordable m) : Ran (c.perform m).2 (j.follow c)

omit [Crates] in
/-- The head stays in front of the segments that a cut leaves. -/
theorem Headed.cut {st : StoreState} {log : SegmentId → List Entry} (h : Headed st log)
    {st' : StoreState} {log' : SegmentId → List Entry} {pre post : List SegmentEntry}
    {target : SegmentEntry} (hsplit : st.segments = pre ++ target :: post)
    (hsegs : st'.segments = pre ++ [target]) (hfirst : st'.firstEntry = st.firstEntry)
    (hlog : ∀ seg ∈ st'.segments, ∀ e ∈ log' seg.id, e ∈ log seg.id) : Headed st' log' := by
  intro seg hseg e he
  rw [hfirst]
  have hin := hlog seg (List.mem_of_mem_tail hseg) e he
  refine h seg ?_ e hin
  rw [hsegs] at hseg
  rw [hsplit]
  -- the head concerns all segments but the first, and a cut takes none off the front
  cases pre with
  | nil => cases hseg
  | cons first rest =>
    rw [List.cons_append, List.tail_cons] at hseg ⊢
    rw [List.append_cons]
    exact List.mem_append_left _ hseg

omit [Crates] in
theorem entriesFrom_filter (target : EntryId) (p : Entry → Bool) (xs : List Entry) :
    entriesFrom target (xs.filter p) = (entriesFrom target xs).filter p := by
  rw [entriesFrom, entriesFrom, List.filter_comm]

section
variable {s : Store} {d : Dir} {es : List Entry} {log : SegmentId → List Entry}
  {active : SegmentEntry} {j : Journal} {lastValid : EntryId}

/-- From the head on, store and journal agree on whether there is an entry behind. -/
theorem Agrees.none_behind (h : Agrees ⟨s, calm d⟩ j d es log active) (hge : j.head ≤ lastValid) :
    j.lastEntry.all (fun last => decide (last ≤ lastValid)) =
      s.lastEntryId.all fun last => decide (last ≤ lastValid) := by
  have hhead : s.state.firstEntry = j.head := h.head
  have hlast : s.lastEntry = j.lastEntry := h.showsJournal.last
  rw [← hlast, Store.lastEntry, hhead]
  cases hid : s.lastEntryId with
  | none => rfl
  | some last =>
    rw [Option.bind_some]
    by_cases hlt : last < j.head
    · -- an entry before the head is not behind
      have hle : last ≤ lastValid := hlt.le.trans hge
      rw [if_pos hlt]
      simp [hle]
    · rw [if_neg hlt]

/-- From the head on, what the journal shows of an id is what is stored. -/
theorem Agrees.stored_iff (h : Agrees ⟨s, calm d⟩ j d es log active) (hge : j.head ≤ lastValid) :
    (∃ e ∈ j.visible, e.1 = lastValid) ↔ ∃ e ∈ liveLog s.state log, e.1 = lastValid := by
  have hvisible : entriesFrom j.head (liveLog s.state log) = j.visible := h.visible
  rw [← hvisible]
  constructor
  · rintro ⟨e, he, hid⟩
    exact ⟨e, List.mem_of_mem_filter he, hid⟩
  · rintro ⟨e, he, hid⟩
    exact ⟨e, List.mem_filter.mpr ⟨he, by simpa [hid] using hge⟩, hid⟩

/-- A cut where the journal has the entry, and the search starts at the first frame. -/
theorem Agrees.cut (h : Agrees ⟨s, calm d⟩ j d es log active) {e : Entry}
    (he : e ∈ liveLog s.state log) (hbehind : ∃ last, s.lastEntryId = some last ∧ e.1 < last)
    (hseek : s.SeeksFirst e.1) (hrec : (Command.truncateEnd e.1).Recordable ⟨s, calm d⟩) :
    ∃ s' d' es' log' active', Store.truncateEnd e.1 ⟨s, calm d⟩ = .ok ⟨⟩ ⟨s', calm d'⟩ ∧
      Agrees ⟨s', calm d'⟩ (j.cutBehind e.1) d' es' log' active' := by
  have hs := h.session
  have hne : s.lastEntryId ≠ some e.1 := by
    obtain ⟨last, hlast, hlt⟩ := hbehind
    rw [hlast]
    exact fun heq => hlt.ne' (Option.some.inj heq)
  obtain ⟨pre, target, post, before, after, hc⟩ := hs.cutting he
  -- the search begins behind the magic, where the offset of the cut is the one that is meant
  have hstart : startOffset s.index e.1 target.id = magicLen := hseek _ hc.chosen
  have hcut := hs.cutsAt hc hne
  rw [Store.cutOffset, hstart, ← segmentEnd] at hcut
  obtain ⟨es', hs'⟩ := hs.cut hc hne hstart (hrec _ (hs.upright.recorded_cut hcut))
  obtain ⟨hrun, _⟩ := hs.upright.cut hcut
  have hlog := hs.liveLog_cut hc
  have hsegs := segments_cutState hs.kept.shaped.nodup hc.split
  refine ⟨_, _, es', _, target, hrun, rfl, hs', h.head, h.metadata, ?_, ?_, ?_⟩
  · refine Headed.cut h.headed hc.split hsegs rfl ?_
    intro seg hseg f hf
    change seg ∈ (cutState s.state target (post.map (·.id))).segments at hseg
    rw [hsegs, List.mem_append, List.mem_singleton] at hseg
    rcases hseg with hseg | rfl
    · rwa [Function.update_of_ne ((hs.sides hc).1 seg hseg)] at hf
    · rw [Function.update_self, ← hs.target_entries hc] at hf
      exact List.mem_of_mem_filter hf
  · change entriesFrom j.head (liveLog (cutState s.state target (post.map (·.id))) _) =
      entriesFrom j.head (j.written.filter fun x => decide (x.1 ≤ e.1))
    have hvisible : entriesFrom j.head (liveLog s.state log) = j.visible := h.visible
    rw [hlog, entriesFrom_filter, hvisible, entriesFrom_filter]
    rfl
  · intro f hf
    change f ∈ liveLog (cutState s.state target (post.map (·.id))) _ at hf
    rw [hlog, List.mem_filter] at hf
    exact List.mem_filter.mpr ⟨h.live f hf.1, hf.2⟩

end

/-- `truncate_end` does what the journal does, and keeps the two in agreement. -/
theorem Agrees.truncateEnd {m : Machine} {j : Journal} {d : Dir} {es : List Entry}
    {log : SegmentId → List Entry} {active : SegmentEntry} (h : Agrees m j d es log active)
    {lastValid : EntryId} (hc : (Command.truncateEnd lastValid).Proper m j)
    (hr : (Command.truncateEnd lastValid).Recordable m) :
    ((Command.truncateEnd lastValid).perform m).1.isDone = j.accepts (.truncateEnd lastValid) ∧
      (j.accepts (.truncateEnd lastValid) = false →
        ((Command.truncateEnd lastValid).perform m).2 = m) ∧
      ∃ d' es' log' active', Agrees ((Command.truncateEnd lastValid).perform m).2
        (j.follow (.truncateEnd lastValid)) d' es' log' active' := by
  obtain ⟨s, w⟩ := m
  obtain rfl : w = calm d := h.world
  obtain ⟨hge, hseek⟩ := hc
  have hs := h.session
  have hnone := h.none_behind hge
  rw [Journal.accepts, Journal.follow, hnone]
  by_cases hall : (s.lastEntryId.all fun last => decide (last ≤ lastValid)) = true
  · -- nothing is behind
    have hperform : (Command.truncateEnd lastValid).perform ⟨s, calm d⟩ = (.done, ⟨s, calm d⟩) :=
      outcomeOf_ok (Store.truncateEnd_beyond (calm d) hall)
    rw [hperform, hall, if_pos rfl]
    exact ⟨rfl, fun _ => rfl, d, es, log, active, h⟩
  · obtain ⟨last, hlast, hlt⟩ : ∃ last, s.lastEntryId = some last ∧ lastValid < last := by
      cases hid : s.lastEntryId with
      | none => simp [hid] at hall
      | some last => exact ⟨last, rfl, by simpa [hid] using hall⟩
    rw [if_neg hall, Bool.eq_false_of_not_eq_true hall, Bool.false_or]
    by_cases hstored : ∃ e ∈ j.visible, e.1 = lastValid
    · -- the entry is there: the cut is behind it
      obtain ⟨e, he, rfl⟩ := (h.stored_iff hge).mp hstored
      obtain ⟨s', d', es', log', active', hrun, hagrees⟩ := h.cut he ⟨last, hlast, hlt⟩ hseek hr
      have hany : (j.visible.any fun x => decide (x.1 = e.1)) = true := by simpa using hstored
      have hperform : (Command.truncateEnd e.1).perform ⟨s, calm d⟩ = (.done, ⟨s', calm d'⟩) :=
        outcomeOf_ok hrun
      rw [hperform, hany, if_pos rfl]
      exact ⟨rfl, by simp, d', es', log', active', hagrees⟩
    · -- the entry is not there: the search fails, and nothing is recorded
      have hlive : ∀ e ∈ liveLog s.state log, e.1 ≠ lastValid := fun e he hid =>
        hstored ((h.stored_iff hge).mpr ⟨e, he, hid⟩)
      have hany : (j.visible.any fun x => decide (x.1 = lastValid)) = false := by
        rw [List.any_eq_false]
        intro e he
        simpa using fun hid => hstored ⟨e, he, hid⟩
      -- the last entry is behind the head, so there are entries to go through
      obtain ⟨f, hf⟩ : ∃ f, f ∈ liveLog s.state log := by
        rcases hs.last with hl | ⟨_, hl⟩
        · rw [hlast] at hl
          cases hg : (liveLog s.state log).getLast? with
          | none => simp [hg] at hl
          | some f => exact ⟨f, List.mem_of_getLast? hg⟩
        · have hhead : s.state.firstEntry = j.head := h.head
          exact absurd (hl last hlast) (not_lt.mpr (hhead ▸ hge.trans hlt.le))
      obtain ⟨err, hrun⟩ := (hs.stocked hf).truncateEnd_notStored hall hlive
      have hperform : (Command.truncateEnd lastValid).perform ⟨s, calm d⟩ =
          (.failed (.err err), ⟨s, calm d⟩) := outcomeOf_error hrun
      rw [hperform, hany]
      exact ⟨rfl, fun _ => rfl, d, es, log, active, h⟩

/-- Every proper command whose op can be recorded does what the journal does. -/
theorem Agrees.command {m : Machine} {j : Journal} {d : Dir} {es : List Entry}
    {log : SegmentId → List Entry} {active : SegmentEntry} (h : Agrees m j d es log active)
    (c : Command) (hc : c.Proper m j) (hr : c.Recordable m) :
    (c.perform m).1.isDone = j.accepts c ∧ (j.accepts c = false → (c.perform m).2 = m) ∧
      ∃ d' es' log' active', Agrees (c.perform m).2 (j.follow c) d' es' log' active' := by
  cases c with
  | truncateEnd lastValid => exact h.truncateEnd hc hr
  | request r =>
    obtain ⟨hout, hnext⟩ := h.request r hc hr
    change (r.perform m).1.isDone = _ ∧ _
    rw [hout]
    cases r with
    | truncateStart first metaPairs =>
      by_cases hlt : first < j.head
      · have hhead : m.store.state.firstEntry = j.head := h.head
        have hrun := Store.truncateStart_refused (m := m) metaPairs (by rwa [hhead])
        refine ⟨by simp [Journal.outcome, Journal.accepts, hlt, Outcome.isDone], fun _ => ?_, hnext⟩
        change (outcomeOf (Store.truncateStart first metaPairs) m).2 = m
        rw [outcomeOf_error hrun]
      · exact ⟨by simp [Journal.outcome, Journal.accepts, hlt, Outcome.isDone],
          by simp [Journal.accepts, hlt], hnext⟩
    | batch xs => exact ⟨rfl, by simp [Journal.accepts], hnext⟩
    | deleteDeadSegments => exact ⟨rfl, by simp [Journal.accepts], hnext⟩
    | writeMetadata pairs => exact ⟨rfl, by simp [Journal.accepts], hnext⟩
    | reopen cfg => exact ⟨rfl, by simp [Journal.accepts], hnext⟩

theorem Ran.agrees {m : Machine} {j : Journal} (h : Ran m j) :
    ∃ d es log active, Agrees m j d es log active := by
  induction h with
  | opened hd hopen => exact (Reached.opened hd hopen).agrees
  | command c _ hc hr ih =>
    obtain ⟨d, es, log, active, h⟩ := ih
    exact (h.command c hc hr).2.2

/-- With `truncate_end`, too, a store refines its journal: in every run it shows the journal it should
have come to, takes a proper command just if the journal does, and is as it was where it does not. -/
theorem Ran.refinesJournal {m : Machine} {j : Journal} (h : Ran m j) :
    Shows m j ∧ ∀ c : Command, c.Proper m j → c.Recordable m →
      (c.perform m).1.isDone = j.accepts c ∧ (j.accepts c = false → (c.perform m).2 = m) := by
  obtain ⟨d, es, log, active, h⟩ := h.agrees
  refine ⟨h.showsJournal, fun c hc hr => ?_⟩
  obtain ⟨hdone, hsame, _⟩ := h.command c hc hr
  exact ⟨hdone, hsame⟩

/-- Whether every command of a list is proper and can be recorded when its turn comes. -/
def properCommands : Machine → Journal → List Command → Bool
  | _, _, [] => true
  | m, j, c :: cs => decide (c.Proper m j ∧ c.Recordable m) &&
      properCommands (c.perform m).2 (j.follow c) cs

theorem Ran.run {m : Machine} {j : Journal} (h : Ran m j) (cs : List Command)
    (hcs : properCommands m j cs = true) : Ran (commandAll m cs) (cs.foldl Journal.follow j) := by
  induction cs generalizing m j with
  | nil => exact h
  | cons c cs ih =>
    rw [properCommands, Bool.and_eq_true, decide_eq_true_eq] at hcs
    exact ih (h.command c hcs.1.1 hcs.1.2) hcs.2

end

section
attribute [local instance] sample

/-- Three segments, cut back into the second one and written on with an id that had been used. -/
def revised : List Command :=
  [.request (.batch [(⟨1⟩, [])]), .request (.batch [(⟨2⟩, []), (⟨3⟩, [])]),
    .request (.batch [(⟨4⟩, []), (⟨5⟩, [])]), .truncateEnd ⟨2⟩, .request (.batch [(⟨3⟩, [9])]),
    .truncateEnd ⟨1⟩, .request .deleteDeadSegments, .request (.reopen ⟨0⟩)]

theorem ran_openedBlank (cfg : StoreCfg) (cs : List Command)
    (h : (openedBlank cfg).all (fun m => properCommands m Journal.start cs) = true) :
    ∃ m, openedBlank cfg = some m ∧ Ran (commandAll m cs) (cs.foldl Journal.follow Journal.start) := by
  obtain ⟨s, hopen, _⟩ := fresh_blank.session cfg
  have hsome : openedBlank cfg = some ⟨s, calm blank.formatted⟩ := by rw [openedBlank, hopen]
  rw [hsome] at h
  exact ⟨_, hsome, (Ran.opened fresh_blank hopen).run cs h⟩

theorem Ran.refinesJournal_revised : ∃ m, openedBlank ⟨0⟩ = some m ∧
    Shows (commandAll m revised) (revised.foldl Journal.follow Journal.start) := by
  obtain ⟨m, hm, hran⟩ := ran_openedBlank ⟨0⟩ revised (by decide +kernel)
  exact ⟨m, hm, hran.refinesJournal.1⟩

end
end Woodshed
