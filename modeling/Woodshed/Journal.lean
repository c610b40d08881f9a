import Woodshed.ScanFrom

/-! What a store is for: a log of entries with a head, and metadata, that outlive closing it. The
requests a store takes, and how each changes that. -/
namespace Woodshed

/-- A log that is read from its head on, and metadata. -/
structure Journal where
  head : EntryId
  /-- All entries that were ever written, in order. -/
  written : List Entry
  metaPairs : Meta

namespace Journal

def start : Journal := ⟨⟨0⟩, [], []⟩

/-- The entries that count. -/
def visible (j : Journal) : List Entry := entriesFrom j.head j.written

def lastEntry (j : Journal) : Option EntryId := j.visible.getLast?.map (·.1)

end Journal

inductive Request where
  | batch (xs : List Entry)
  | truncateStart (firstEntry : EntryId) (metaPairs : Meta)
  | deleteDeadSegments
  | writeMetadata (pairs : Meta)
  /-- Close the store and open it again. -/
  | reopen (cfg : StoreCfg)

/-- What comes of a request. -/
inductive Outcome where
  | done
  | failed (e : Failure IoError)
  | notOpened (e : Failure OpenError)

namespace Journal

/-- The head only moves forward. -/
def after (j : Journal) : Request → Journal
  | .batch xs => { j with written := j.written ++ xs }
  | .truncateStart firstEntry metaPairs =>
    if firstEntry < j.head then j
    else { j with head := firstEntry, metaPairs := metaPairs.foldl StoreState.setMeta j.metaPairs }
  | .deleteDeadSegments => j
  | .writeMetadata pairs => { j with metaPairs := pairs.foldl StoreState.setMeta j.metaPairs }
  | .reopen _ => j

def outcome (j : Journal) : Request → Outcome
  | .truncateStart firstEntry _ =>
    if firstEntry < j.head then
      .failed (.err ⟨.invalidInput, "truncate_start: first_entry is before the current log head"⟩)
    else .done
  | _ => .done

end Journal

section
variable [Crates]

def outcomeOf {α : Type} (run : StoreM α) (m : Machine) : Outcome × Machine :=
  match run m with
  | .ok _ m' => (.done, m')
  | .error e m' => (.failed e, m')

def Request.perform (m : Machine) : Request → Outcome × Machine
  | .batch xs => outcomeOf (Store.batch xs) m
  | .truncateStart firstEntry metaPairs => outcomeOf (Store.truncateStart firstEntry metaPairs) m
  | .deleteDeadSegments => outcomeOf Store.deleteDeadSegments m
  | .writeMetadata pairs => outcomeOf (Store.writeMetadata pairs) m
  | .reopen cfg =>
    match Store.openStore cfg m.world with
    | .ok s w => (.done, ⟨s, w⟩)
    | .error e w => (.notOpened e, ⟨m.store, w⟩)

/-- The batches a store is meant for: ids ascend, above all ids before them and not below the head,
payloads fit, and the segment ids do not run out. -/
def Request.Proper (m : Machine) (j : Journal) : Request → Prop
  | .batch xs => (xs.Pairwise fun a b => a.1 < b.1) ∧ (∀ e ∈ xs, Fits e) ∧
      (∀ e ∈ xs, j.head ≤ e.1) ∧ (∀ f ∈ j.written, ∀ e ∈ xs, f.1 < e.1) ∧ (xs ≠ [] → m.store.Room)
  | _ => True

instance (m : Machine) (j : Journal) (r : Request) : Decidable (r.Proper m j) :=
  match r with
  | .batch xs => inferInstanceAs (Decidable ((xs.Pairwise fun a b => a.1 < b.1) ∧
      (∀ e ∈ xs, e.2.length < 2^32) ∧ (∀ e ∈ xs, j.head ≤ e.1) ∧
      (∀ f ∈ j.written, ∀ e ∈ xs, f.1 < e.1) ∧ (xs ≠ [] → m.store.Room)))
  | .truncateStart _ _ | .deleteDeadSegments | .writeMetadata _ | .reopen _ =>
    inferInstanceAs (Decidable True)

/-- The op that the request records, if there is one of a length that the caller decides. -/
def Request.recorded (m : Machine) : Request → Option ManifestOp
  | .truncateStart firstEntry metaPairs =>
    if firstEntry < m.store.state.firstEntry then none
    else some (headOp m.store.state firstEntry metaPairs)
  | .writeMetadata pairs => some (ManifestOp.withMeta .metadata pairs)
  | _ => none

/-- The recorded op fits the length field of a frame. -/
def Request.Recordable (m : Machine) (r : Request) : Prop :=
  ∀ op, r.recorded m = some op → op.encode.length < 2^32

/-- What runs lead to: a store created in a directory without one, then proper requests that are as
`P` has it, and the journal that this comes to. -/
inductive Reached (P : Machine → Request → Prop) : Machine → Journal → Prop
  | opened {d : Dir} {cfg : StoreCfg} {s : Store} {w : World} (hd : Fresh d)
      (h : Store.openOrCreate cfg (calm d) = .ok s w) : Reached P ⟨s, w⟩ Journal.start
  | request {m : Machine} {j : Journal} (r : Request) (h : Reached P m j) (hr : r.Proper m j)
      (hp : P m r) : Reached P (r.perform m).2 (j.after r)

/-- The machine and the journal behind a list of requests. -/
def performAll (m : Machine) (rs : List Request) : Machine := rs.foldl (fun m r => (r.perform m).2) m

/-- Whether every request of a list is proper when its turn comes. -/
def properRun : Machine → Journal → List Request → Bool
  | _, _, [] => true
  | m, j, r :: rs => decide (r.Proper m j) && properRun (r.perform m).2 (j.after r) rs

theorem Reached.run {P : Machine → Request → Prop} {m : Machine} {j : Journal} (h : Reached P m j)
    (rs : List Request) (hP : ∀ r ∈ rs, ∀ m, P m r) (hr : properRun m j rs = true) :
    Reached P (performAll m rs) (rs.foldl Journal.after j) := by
  induction rs generalizing m j with
  | nil => exact h
  | cons r rs ih =>
    rw [properRun, Bool.and_eq_true, decide_eq_true_eq] at hr
    exact ih (h.request r hr.1 (hP r (by simp) m)) (fun r hr => hP r (by simp [hr])) hr.2

theorem Reached.mono {P Q : Machine → Request → Prop} (hPQ : ∀ m r, P m r → Q m r) {m : Machine}
    {j : Journal} (h : Reached P m j) : Reached Q m j := by
  induction h with
  | opened hd hopen => exact .opened hd hopen
  | request r _ hr hp ih => exact ih.request r hr (hPQ _ _ hp)

/-- A store shows a journal: its head, its last entry, its entries and metadata, and the same again
when it is closed and opened. -/
structure Shows (m : Machine) (j : Journal) : Prop where
  head : m.store.firstEntryId = j.head
  last : m.store.lastEntry = j.lastEntry
  entries : m.Yields m.store.firstEntryId j.visible
  metadata : m.store.state.metadata = j.metaPairs
  /-- Opening again finds no issue, and leaves the directory as it is. -/
  intact : ∃ report, scan m.world = .ok report m.world ∧ report.issues = []
  /-- Right after opening again, a scan from anywhere starts there. -/
  reopened : ∀ cfg, ∃ s, Store.openStore cfg m.world = .ok s m.world ∧
    ∀ fromId, Machine.Yields ⟨s, m.world⟩ fromId (entriesFrom (max fromId j.head) j.written)

/-- The agreement between a store and a journal that every request keeps. -/
structure Agrees (m : Machine) (j : Journal) (d : Dir) (es : List Entry)
    (log : SegmentId → List Entry) (active : SegmentEntry) : Prop where
  world : m.world = calm d
  session : Session m.store d es log active
  head : m.store.state.firstEntry = j.head
  metadata : m.store.state.metaPairs = j.metaPairs
  headed : Headed m.store.state log
  visible : entriesFrom j.head (liveLog m.store.state log) = j.visible
  live : ∀ e ∈ liveLog m.store.state log, e ∈ j.written

end
end Woodshed
