import PacketMemory.Proofs.Pane.Demand
import PacketMemory.Proofs.World.Calls

/-!
# Exact bounds

On memory that was not released, no access is refused without need. `World.Reachable.bounds_exact`
says of every call that demands something of a handle, and of slicing, when exactly it succeeds, with
what it is refused otherwise, and that the questions about room answer the same. So the bounds that
the cursor is checked against and those that a range is checked against never disagree, although they
are computed in different ways.
-/

namespace PacketMemory

namespace Call

/-- What the call puts aside before it looks at the memory can be allocated. Only for a text at an
index, this is as much as the caller asks for (`Pane.peekText`). -/
def Allocatable : Call → Prop
  | peekText _ length _ => length ≤ Block.largest
  | _ => True

/-- What lies in a window is no larger than what can be allocated. -/
theorem allocatable_of_met {p : Pane} {d : Demand} {call : Call} (hd : call.demand? = some d)
    (h : d.Met p) (hc : p.capacity ≤ Block.largest) : call.Allocatable := by
  cases call with
  | peekText index length codec =>
    cases hd
    have h : index + length ≤ p.capacity := h
    show length ≤ Block.largest
    omega
  | _ => trivial

end Call

namespace World

variable {w : World} {h : Handle} {p : Pane} {o : Option Failure}

theorem Sound.capacity_le (hw : w.Sound) (hp : w.pane? h = some p) :
    p.capacity ≤ Block.largest := by
  rcases pane?_eq_some_iff.1 hp with ⟨i, u, rfl, hu, rfl⟩ | ⟨v, u, hv, hu, rfl⟩
  · exact (hw.owner i u hu).small
  · obtain ⟨u', hu', hfit⟩ := hw.derived h v hv
    obtain rfl := Option.some.inj (hu.symm.trans hu')
    have hwindow := hfit.window
    have hsmall := (hw.owner _ u hu).small
    show v.capacity ≤ Block.largest
    omega

/-- A call through a handle ends as it does on the pane of the handle. -/
theorem call_ends (hp : w.pane? h = some p) {call : Call} (hends : Action.Ends call.run p o) :
    Action.Ends (Operation.call h call).run w o := by
  cases o with
  | none =>
    obtain ⟨a, p', hrun, -⟩ := hends
    exact .of_done (by rw [run_call hp, hrun]; rfl)
  | some e =>
    show (Operation.call h call).run w = (.failed e, w)
    rw [run_call hp, show call.run p = (.failed e, p) from hends, store_self hp]
    rfl

/-- Asking what can be read. -/
theorem run_canRead (hp : w.pane? h = some p) (hs : p.Sound) (length : Nat) :
    (Operation.call h (.canRead length)).run w =
      (.done (.answer (.flag (decide ((Demand.readable length).Met p)))), w) :=
  call_query hp
    (Action.bind_done (Pane.onCursor_query (Cursor.canRead_apply hs.cursor.reader_le length)))

/-- Asking what there is room for. -/
theorem run_canWrite (hp : w.pane? h = some p) (hs : p.Sound) (length : Nat) :
    (Operation.call h (.canWrite length)).run w =
      (.done (.answer (.flag (decide ((Demand.writable length).Met p)))), w) :=
  call_query hp
    (Action.bind_done (Pane.onCursor_query (Cursor.canWrite_apply hs.cursor.writer_le length)))

theorem run_canRead_iff (hp : w.pane? h = some p) (hs : p.Sound) {length : Nat} :
    (Operation.call h (.canRead length)).run w = (.done (.answer (.flag true)), w) ↔
      (Demand.readable length).Met p := by
  rw [run_canRead hp hs]
  simp

theorem run_canWrite_iff (hp : w.pane? h = some p) (hs : p.Sound) {length : Nat} :
    (Operation.call h (.canWrite length)).run w = (.done (.answer (.flag true)), w) ↔
      (Demand.writable length).Met p := by
  rw [run_canWrite hp hs]
  simp

/-- A range that a slice can be cut from is one that can be accessed. -/
theorem Sound.slice_ends (hw : w.Sound) (hh : h.isRecord = false) (hp : w.pane? h = some p)
    (hl : p.Live) (offset length : Nat) :
    Action.Ends (Operation.slice h offset length).run w
      ((Demand.range offset length).objection p none) := by
  by_cases hmet : (Demand.range offset length).Met p
  · obtain ⟨j, w', hrun, -⟩ := hw.slice_apply hh hp hl hmet
    rw [Demand.objection_of_met hmet]
    exact .of_done (Action.bind_done hrun)
  · have hcheck := Demand.check_of_not_met (hw.pane hp) hl hmet
    rw [Demand.objection_of_not_met hmet]
    exact Action.bind_failed (Action.bind_failed (slicing_refused hh hp hcheck))

/-- **Nothing is refused without need, and nothing is granted out of bounds.** A call through a handle
of memory that was not released succeeds iff what it demands is met (bytes at an index lie in the
window, wherever reader and writer are; no more is read than there is, and no more is written than
there is room for), and its text, if it has one, can be converted. Otherwise it is refused for what is
out of bounds, by the check of the demand: that of the cursor, if the call goes by the cursor. The
range check that follows there never fails. The questions about what can be read and written answer
what the checks decide, and a slice can be cut wherever there is access. -/
theorem Reachable.bounds_exact (hw : w.Reachable) (hp : w.pane? h = some p)
    (hr : p.released = false) :
    (∀ call d, call.demand? = some d →
      ((∃ a w', (Operation.call h call).run w = (.done a, w')) ↔
        d.Met p ∧ call.unencodable = none ∧ call.undecodable p = none ∧ call.Allocatable) ∧
      (call.Allocatable → call.unencodable = none → ¬d.Met p →
        let e := Failure.outOfBounds (d.refusal p)
        (Operation.call h call).run w = (.failed e, w) ∧ d.check p = (.failed e, p) ∧
          e.kind = .outOfBounds)) ∧
    (∀ length,
      (Operation.call h (.canRead length)).run w =
        (.done (.answer (.flag (decide ((Demand.readable length).Met p)))), w) ∧
      (Operation.call h (.canWrite length)).run w =
        (.done (.answer (.flag (decide ((Demand.writable length).Met p)))), w)) ∧
    (h.isRecord = false → ∀ offset length,
      ((∃ a w', (Operation.slice h offset length).run w = (.done a, w')) ↔
        offset + length ≤ p.capacity) ∧
      (p.capacity < offset + length → (Operation.slice h offset length).run w =
        (.failed (.outOfBounds (.range offset length p.capacity)), w))) ∧
    ∀ length index p',
      Pane.readingAt length p = (.done index, p') ∨ Pane.writingAt length p = (.done index, p') →
        Pane.checkRange index length p' = (.done (), p') := by
  have hs := hw.sound
  have hps := hs.pane hp
  have hl := hs.live_of_pane hp hr
  refine ⟨?_, ?_, ?_, ?_⟩
  · intro call d hd
    have hends := call_ends hp (call.run_ends hps hl hd)
    refine ⟨hends.succeeds_iff.trans ?_, ?_⟩
    · rw [Call.objection_eq_none_iff]
      refine ⟨fun ⟨henc, hmet, hdec⟩ => ⟨hmet, henc, hdec, ?_⟩,
        fun ⟨hmet, henc, hdec, _⟩ => ⟨henc, hmet, hdec⟩⟩
      exact Call.allocatable_of_met hd hmet (hs.capacity_le hp)
    · intro _ henc hmet
      rw [Call.objection_of_not_met henc hmet] at hends
      exact ⟨hends, Demand.check_of_not_met hps hl hmet, rfl⟩
  · exact fun length => ⟨run_canRead hp hps length, run_canWrite hp hps length⟩
  · intro hh offset length
    have hends := hs.slice_ends hh hp hl offset length
    refine ⟨hends.succeeds_iff.trans Demand.objection_none_iff, fun hlt => ?_⟩
    have hmet : ¬(Demand.range offset length).Met p := Nat.not_le_of_lt hlt
    rw [Demand.objection_of_not_met hmet] at hends
    exact hends
  · exact fun length index p' hchecked => Pane.checkRange_behind hps hchecked

/-- The empty slice at the end of an owner is a window like any other: an empty range fits, also
through a slice of it, and one whose end does not fit a word is refused. -/
theorem bounds_exact_empty :
    let w := (start [.standard]).after [.allocate 0 8, .slice (.owner 0) 8 0]
    (∃ a w', (Operation.call (.view 0) (.peekBytes 0 0)).run w = (.done a, w')) ∧
      (Operation.call (.view 0) (.peekBytes (2 ^ 64 - 1) 1)).run w =
        (.failed (.outOfBounds (.range (2 ^ 64 - 1) 1 0)), w) ∧
      (Operation.call (.view 0) (.readBytes 1)).run w =
        (.failed (.outOfBounds (.unreadable 0 1 0)), w) ∧
      ∃ a w', (Operation.slice (.view 0) 0 0).run w = (.done a, w') := by
  intro w
  have hp : w.pane? (.view 0) =
      some ⟨some (Block.zeros 8), false, 8, 0, Cursor.holding 0, default⟩ := by rfl
  obtain ⟨hcalls, -, hslice, -⟩ := Reachable.bounds_exact (w := w) ⟨_, _, rfl⟩ hp rfl
  refine ⟨?_, ?_, ?_, ?_⟩
  · exact (hcalls (.peekBytes 0 0) _ rfl).1.2 ⟨Nat.le_refl 0, rfl, rfl, trivial⟩
  · exact ((hcalls (.peekBytes (2 ^ 64 - 1) 1) _ rfl).2 trivial rfl (by decide)).1
  · exact ((hcalls (.readBytes 1) _ rfl).2 trivial rfl (by decide)).1
  · exact (hslice rfl 0 0).1.2 (Nat.le_refl 0)

end World

end PacketMemory
