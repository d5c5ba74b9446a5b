import PacketMemory.Proofs.World.Run

/-!
# Calls through handles

A history of calls, each through a handle of its own, is a list of pairs (`World.calling`).
`World.callsTo` picks the calls through one handle out of it, and `World.answersTo` what these come to
while all the others run in between.

A call comes to what it comes to on the pane of its handle (`World.run_call`). So calls through one
handle alone come to what they come to on its pane (`World.Sound.run_calls`), and calls through two
handles that do not get in each other's way come to what they come to on the two panes, in whatever
order between the two (`World.run_both`).
-/

namespace PacketMemory

namespace World

/-- The history of these calls through these handles. -/
def calling (steps : List (Handle × Call)) : List Operation :=
  steps.map fun step => .call step.1 step.2

/-- The calls through one handle. -/
def callsTo (h : Handle) (steps : List (Handle × Call)) : List Call :=
  (steps.filter fun step => decide (step.1 = h)).map Prod.snd

/-- What the calls through one handle come to, with all others in between. -/
def answersTo (w : World) (h : Handle) : List (Handle × Call) → List (Outcome Failure Reply)
  | [] => []
  | (k, call) :: rest =>
    let r := (Operation.call k call).run w
    if k = h then r.1 :: answersTo r.2 h rest else answersTo r.2 h rest

variable {w : World} {h k : Handle} {p : Pane} {call : Call} {rest : List (Handle × Call)}

theorem callsTo_cons_self : callsTo h ((h, call) :: rest) = call :: callsTo h rest := by
  simp [callsTo]

theorem callsTo_cons_ne (hk : k ≠ h) : callsTo h ((k, call) :: rest) = callsTo h rest := by
  simp [callsTo, hk]

theorem callsTo_append (steps rest : List (Handle × Call)) :
    callsTo h (steps ++ rest) = callsTo h steps ++ callsTo h rest := by
  simp only [callsTo, List.filter_append, List.map_append]

theorem callsTo_map_self (calls : List Call) : callsTo h (calls.map (Prod.mk h)) = calls := by
  induction calls with
  | nil => rfl
  | cons call rest ih => rw [List.map_cons, callsTo_cons_self, ih]

theorem callsTo_map_ne (hk : k ≠ h) (calls : List Call) :
    callsTo h (calls.map (Prod.mk k)) = [] := by
  induction calls with
  | nil => rfl
  | cons call rest ih => rw [List.map_cons, callsTo_cons_ne hk, ih]

/-- A call comes to what it comes to on the pane of its handle, which it leaves changed. -/
theorem run_call (hp : w.pane? h = some p) (call : Call) :
    (Operation.call h call).run w =
      ((call.run p).1.map Reply.answer, w.store h (call.run p).2) := by
  have hthrough := through_apply (m := call.run) hp
  rcases hrun : call.run p with ⟨a | e | t, p'⟩ <;> rw [hrun] at hthrough
  · exact Action.bind_done hthrough
  · exact Action.bind_failed hthrough
  · exact Action.bind_trapped hthrough

/-- A call that only asks. -/
theorem call_query (hp : w.pane? h = some p) {call : Call} {a : Answer}
    (hrun : call.run p = (.done a, p)) :
    (Operation.call h call).run w = (.done (.answer a), w) := by
  rw [run_call hp, hrun, store_self hp]
  rfl

/-- Looking at bytes of the window. -/
theorem run_peekBytes (hp : w.pane? h = some p) (hs : p.Sound) (hl : p.Live) {index length : Nat}
    (hfit : index + length ≤ p.capacity) :
    (Operation.call h (.peekBytes index length)).run w =
      (.done (.answer (.bytes (p.bytesAt index length))), w) :=
  call_query hp (Action.bind_done (Pane.peekBytes_apply hs hl hfit))

/-- The readable bytes, which stay unread. -/
theorem run_contents (hp : w.pane? h = some p) (hs : p.Sound) (hl : p.Live) :
    (Operation.call h .contents).run w = (.done (.answer (.bytes
      (p.bytesAt p.cursor.reader (p.cursor.writer - p.cursor.reader)))), w) :=
  call_query hp (Action.bind_done (Pane.contents_apply hs hl))

theorem after_calling_cons (w : World) (h : Handle) (call : Call) (rest : List (Handle × Call)) :
    w.after (calling ((h, call) :: rest)) =
      World.after ((Operation.call h call).run w).2 (calling rest) := rfl

theorem answersTo_cons_self (w : World) (h : Handle) (call : Call) (rest : List (Handle × Call)) :
    w.answersTo h ((h, call) :: rest) = ((Operation.call h call).run w).1 ::
      answersTo ((Operation.call h call).run w).2 h rest := if_pos rfl

theorem answersTo_cons_ne (w : World) (hk : k ≠ h) (call : Call) (rest : List (Handle × Call)) :
    w.answersTo h ((k, call) :: rest) =
      answersTo ((Operation.call k call).run w).2 h rest := if_neg hk

/-- **Calls through one handle** come to what they come to on the pane of the handle. -/
theorem Sound.run_calls (hw : w.Sound) (hp : w.pane? h = some p) (calls : List Call) :
    let steps := calls.map (Prod.mk h)
    (w.after (calling steps)).Sound ∧
      (w.after (calling steps)).pane? h = some (Call.runAll calls p).2 ∧
      w.answersTo h steps = (Call.runAll calls p).1.map (Outcome.map Reply.answer) := by
  induction calls generalizing w p with
  | nil => exact ⟨hw, hp, rfl⟩
  | cons call rest ih =>
    have he := call.run_evolves (hw.pane hp)
    obtain ⟨hsound, hend, hanswers⟩ := ih (hw.store hp he) (pane?_store_self hp he)
    refine ⟨?_, ?_, ?_⟩
    · rw [List.map_cons, after_calling_cons, run_call hp]
      exact hsound
    · rw [List.map_cons, after_calling_cons, run_call hp]
      exact hend
    · rw [List.map_cons, answersTo_cons_self, run_call hp, hanswers]
      rfl

section Both

variable {s t : Handle} {q : Pane} {R : World → Pane → Pane → Prop} {steps : List (Handle × Call)}

/-- **Calls through two handles** come to what they come to on two panes, if each single call does and
leaves the other pane alone. -/
theorem run_both (hst : s ≠ t)
    (left : ∀ w p q call, R w p q → ∃ w', (Operation.call s call).run w =
      ((call.run p).1.map Reply.answer, w') ∧ R w' (call.run p).2 q)
    (right : ∀ w p q call, R w p q → ∃ w', (Operation.call t call).run w =
      ((call.run q).1.map Reply.answer, w') ∧ R w' p (call.run q).2)
    (hr : R w p q) (honly : ∀ step ∈ steps, step.1 = s ∨ step.1 = t) :
    R (w.after (calling steps)) (Call.runAll (callsTo s steps) p).2
        (Call.runAll (callsTo t steps) q).2 ∧
      w.answersTo s steps =
        (Call.runAll (callsTo s steps) p).1.map (Outcome.map Reply.answer) ∧
      w.answersTo t steps =
        (Call.runAll (callsTo t steps) q).1.map (Outcome.map Reply.answer) := by
  induction steps generalizing w p q with
  | nil => exact ⟨hr, rfl, rfl⟩
  | cons step rest ih =>
    obtain ⟨k, call⟩ := step
    have hrest : ∀ step ∈ rest, step.1 = s ∨ step.1 = t := fun step hstep =>
      honly step (List.mem_cons_of_mem _ hstep)
    rcases honly (k, call) List.mem_cons_self with rfl | rfl
    · obtain ⟨w', hrun, hr'⟩ := left w p q call hr
      obtain ⟨hend, hs, ht⟩ := ih hr' hrest
      rw [callsTo_cons_self, callsTo_cons_ne hst, Call.runAll_cons, after_calling_cons,
        answersTo_cons_self, answersTo_cons_ne w hst, hrun, hs, ht]
      exact ⟨hend, rfl, rfl⟩
    · obtain ⟨w', hrun, hr'⟩ := right w p q call hr
      obtain ⟨hend, hs, ht⟩ := ih hr' hrest
      rw [callsTo_cons_self, callsTo_cons_ne hst.symm, Call.runAll_cons, after_calling_cons,
        answersTo_cons_self, answersTo_cons_ne w hst.symm, hrun, hs, ht]
      exact ⟨hend, rfl, rfl⟩

end Both

end World

end PacketMemory
