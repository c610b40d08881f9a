import Woodshed.Cutting
import Woodshed.Journal

/-! All calls of a store, `truncate_end` among them, and runs of them. -/
namespace Woodshed
open Sequencing Framing

/-- What a store is asked for. -/
inductive Command where
  | request (r : Request)
  | truncateEnd (lastValid : EntryId)

def Outcome.isDone : Outcome → Bool
  | .done => true
  | _ => false

section
variable [Crates]

def Command.perform (m : Machine) : Command → Outcome × Machine
  | .request r => r.perform m
  | .truncateEnd lastValid => outcomeOf (Store.truncateEnd lastValid) m

/-- The batch gets no I/O failure, and a store that is closed is opened again. -/
def Command.Goes (m : Machine) : Command → Prop
  | .request (.batch xs) => (Command.perform m (.request (.batch xs))).1.isDone = true
  | .request (.reopen cfg) => (Command.perform m (.request (.reopen cfg))).1.isDone = true
  | _ => True

instance (m : Machine) (c : Command) : Decidable (c.Goes m) :=
  match c with
  | .request (.batch xs) =>
    inferInstanceAs (Decidable ((Command.perform m (.request (.batch xs))).1.isDone = true))
  | .request (.reopen cfg) =>
    inferInstanceAs (Decidable ((Command.perform m (.request (.reopen cfg))).1.isDone = true))
  | .request (.truncateStart _ _) | .request .deleteDeadSegments | .request (.writeMetadata _)
  | .truncateEnd _ => inferInstanceAs (Decidable True)

/-- The machines that commands as `P` has them lead to. -/
inductive Follows (P : Machine → Command → Prop) (m₀ : Machine) : Machine → Prop
  | here : Follows P m₀ m₀
  | next {m : Machine} (c : Command) (h : Follows P m₀ m) (hp : P m c) :
      Follows P m₀ (c.perform m).2

/-- What every command keeps holds behind every run. -/
theorem Follows.invariant {P : Machine → Command → Prop} {I : Machine → Prop} {m₀ m : Machine}
    (h : Follows P m₀ m) (h₀ : I m₀) (hstep : ∀ m c, I m → P m c → I (c.perform m).2) : I m := by
  induction h with
  | here => exact h₀
  | next c _ hp ih => exact hstep _ c ih hp

/-- Whether every command of a list is as `P` has it when its turn comes. -/
def followsRun (P : Machine → Command → Bool) : Machine → List Command → Bool
  | _, [] => true
  | m, c :: cs => P m c && followsRun P (c.perform m).2 cs

/-- The machine behind a list of commands. -/
def commandAll (m : Machine) (cs : List Command) : Machine := cs.foldl (fun m c => (c.perform m).2) m

theorem Follows.run {P : Machine → Command → Prop} {p : Machine → Command → Bool}
    (hp : ∀ m c, p m c = true → P m c) {m₀ m : Machine} (h : Follows P m₀ m) (cs : List Command)
    (hcs : followsRun p m cs = true) : Follows P m₀ (commandAll m cs) := by
  induction cs generalizing m with
  | nil => exact h
  | cons c cs ih =>
    rw [followsRun, Bool.and_eq_true] at hcs
    exact ih (h.next c (hp m c hcs.1)) hcs.2

/-- A batch that got no I/O failure found no file where it had to create one. -/
theorem Upright.unblocked {s : Store} {d : Dir} {active : SegmentEntry} (h : Upright s d active)
    {xs : List Entry} (hgo : Command.Goes ⟨s, calm d⟩ (.request (.batch xs))) :
    xs ≠ [] → s.rolloverPending = true → segmentPath s.nextSegId ∉ d.files := by
  intro hne hp hfile
  obtain ⟨e, m, hfail⟩ := Store.batch_blocked h.present hne hp hfile
  change (outcomeOf (Store.batch xs) ⟨s, calm d⟩).1.isDone = true at hgo
  rw [outcomeOf, hfail] at hgo
  cases hgo

omit [Crates] in
theorem outcomeOf_ok {α : Type} {run : StoreM α} {m m' : Machine} {a : α} (h : run m = .ok a m') :
    outcomeOf run m = (.done, m') := by
  rw [outcomeOf, h]

omit [Crates] in
theorem outcomeOf_error {α : Type} {run : StoreM α} {m m' : Machine} {e : Failure IoError}
    (h : run m = .error e m') : outcomeOf run m = (.failed e, m') := by
  rw [outcomeOf, h]

end
end Woodshed
