import PacketMemory.Operation
import PacketMemory.Proofs.World.Overlay
import PacketMemory.Proofs.World.Transfer
import PacketMemory.Proofs.World.Watch

/-!
# Operations in sound worlds

Every operation on a sound world leaves a sound world behind, and what it did to ownership are
exactly the deeds that it stands for (`Operation.run_stays`). All operations but the *abrupt* ones
are careful, too (`Operation.run_careful`). Abrupt are a check, which settles what it complains
about, the closing of a slice, which gives the slice up, and a cast to an overlay that writes.

So a history that starts with nothing but detectors leads to sound worlds only
(`World.Reachable.sound`).
-/

namespace PacketMemory

namespace World

variable {w : World}

/-! ## Packets in capture, and questions -/

theorem sight_observes (hw : w.Sound) (i : Nat) (header : CaptureInfo) :
    Action.Observes Trap.isMisuse (sight i header) w fun _ => True :=
  (through_observes hw fun _ _ hs => readable_observes hs).bind fun _ _ =>
    Action.Observes.pure trivial

theorem keep_careful (hw : w.Sound) (i : Nat) (header : CaptureInfo) :
    Action.Careful Trap.isMisuse (keep i header) w fun _ w' =>
      w.Becomes (w.copyUnreadDeeds (.owner i)) w' :=
  (through_observes hw fun _ _ _ => CaptureInfo.checkComplete_observes header).bind fun _ _ =>
    copyUnread_careful hw (.owner i)

theorem sameDetector_observes (a b : Nat) :
    Action.Observes Trap.isMisuse (sameDetector a b) w fun _ => True :=
  (ownerAt_observes a).bind fun _ _ => (ownerAt_observes b).bind fun _ _ =>
    Action.Observes.pure trivial

theorem describe_observes (h : Handle) :
    Action.Observes Trap.isMisuse (describe h) w fun _ => True := by
  refine Action.Careful.state_bind ?_
  cases h with
  | owner i => exact (ownerAt_observes i).bind fun _ _ => Action.Observes.pure trivial
  | view i | record i =>
    exact (Action.Observes.expect Trap.isMisuse_misuse).bind fun v _ =>
      (ownerAt_observes v.root).bind fun _ _ => Action.Observes.pure trivial

theorem outstanding_observes (d : Nat) :
    Action.Observes Trap.isMisuse (outstanding d) w fun _ => True :=
  (detectorAt_observes d).bind fun _ _ => Action.Observes.pure trivial

theorem settings_observes (d : Nat) :
    Action.Observes Trap.isMisuse (settings d) w fun _ => True :=
  (detectorAt_observes d).bind fun _ _ => Action.Observes.pure trivial

end World

/-! ## Operations -/

open World

namespace Operation

/-- What an operation does to ownership if it succeeds. -/
def deeds (w : World) : Operation → List Deed
  | allocate d capacity => [.allocate d capacity]
  | allocateCopy d bytes => [.allocate d bytes.length]
  | resize i capacity => [.resize i capacity]
  | release h => w.releaseDeeds h
  | close h => w.closeDeeds h
  | drop h => dropDeeds h
  | copy h _ length => w.copyDeeds h length
  | copyUnread h => w.copyUnreadDeeds h
  | keep i _ => w.copyUnreadDeeds (.owner i)
  | sweep d => [.sweep d]
  | check d => [.settle d]
  | configure d value => [.configure d value]
  | _ => []

/-- What an operation does to ownership if it fails. -/
def failedDeeds : Operation → List Deed
  | check d => [.settle d]
  | _ => []

/-- What an operation does to ownership, however it ends. -/
def enacted (w : World) (op : Operation) : List Deed :=
  match (op.run w).1 with
  | .done _ => op.deeds w
  | .failed _ => op.failedDeeds
  | .trapped _ => []

/-- Operations that may leave something behind when they fail. -/
def Abrupt (w : World) : Operation → Prop
  | check _ => True
  | close (.view i) => ∃ v, w.view? i = some v ∧ v.kind = .slice
  | lay _ o | probe _ o => ¬o.check.Reads
  | _ => False

variable {w : World}

/-- **Every operation that is not abrupt is careful**, and does the deeds it stands for. -/
theorem run_careful (hw : w.Sound) (op : Operation) (hop : ¬op.Abrupt w) :
    Action.Careful Trap.isMisuse op.run w fun _ w' => w.Becomes (op.deeds w) w' := by
  have answered : ∀ {α : Type} {m : World.Task α} {f : α → Reply} {deeds : List Deed},
      Action.Careful Trap.isMisuse m w (fun _ w' => w.Becomes deeds w') →
      Action.Careful Trap.isMisuse (m >>= fun a => pure (f a)) w
        fun _ w' => w.Becomes deeds w' :=
    fun hm => hm.bind fun _ _ h => Action.Succeeds.pure h
  have looked : ∀ {α : Type} {m : World.Task α} {f : α → Reply} {R : α → Prop},
      Action.Observes Trap.isMisuse m w R →
      Action.Careful Trap.isMisuse (m >>= fun a => pure (f a)) w fun _ w' => w.Becomes [] w' :=
    fun hm => hm.bind fun _ _ => Action.Careful.pure hw.becomes_refl
  have worked : ∀ {α : Type} {h : Handle} {m : Pane.Task α} {P : Pane → α → Pane → Prop},
      (∀ p, w.pane? h = some p → p.Sound → Action.Careful Trap.isMisuse m p (P p)) →
      (∀ p a p', P p a p' → p.Evolves p') →
      Action.Careful Trap.isMisuse (through h m) w fun _ w' => w.Becomes [] w' := by
    intro α h m P hm hP
    refine (through_careful hw hm).mono ?_
    rintro a _ ⟨p, p', hp, ha, rfl⟩
    exact hw.becomes_store hp (hP p a p' ha)
  cases op with
  | allocate d capacity =>
    refine answered ((allocate_careful d capacity).mono ?_)
    rintro _ _ ⟨hd, -, rfl⟩
    exact hw.becomes_enact hd
  | allocateCopy d bytes => exact answered ((allocateCopy_careful hw d bytes).mono fun _ _ h => h.2)
  | resize i capacity =>
    refine answered ((resize_careful hw i capacity).mono ?_)
    rintro _ _ ⟨hd, rfl⟩
    exact hw.becomes_enact hd
  | release h => exact answered (release_careful hw h)
  | close h =>
    refine answered (close_careful hw fun i v hh hv => ?_)
    subst hh
    rcases hk : v.kind with _ | _
    · exact absurd ⟨v, hv, hk⟩ hop
    · rfl
  | drop h => exact answered (drop_careful hw h)
  | duplicate h => exact answered (duplicate_careful hw h)
  | slice h offset length => exact answered (slice_careful hw h offset length)
  | sliceUnread h => exact answered (sliceUnread_careful hw h)
  | rootOf h => exact looked (rootOf_observes h)
  | copy h offset length => exact answered (copy_careful hw h offset length)
  | copyUnread h => exact answered (copyUnread_careful hw h)
  | lay h o =>
    have hreads : o.check.Reads := Classical.not_not.1 hop
    exact answered ((lay_stays hw h o).careful fun _ hd => hd.2 hreads)
  | probe h o =>
    have hreads : o.check.Reads := Classical.not_not.1 hop
    exact answered ((probe_stays hw h o).careful fun _ hd => hd.2 hreads)
  | layRecord h => exact answered (layRecord_careful hw h)
  | call h request =>
    exact answered (worked (fun _ _ hs => Call.run_careful hs request) fun _ _ _ h => h.1)
  | recordCall i request =>
    refine worked (fun p hp hs => ?_) (P := fun p _ p' => p.Evolves p') fun _ _ _ h => h
    rcases pane?_eq_some_iff.1 hp with ⟨j, o, hj, -⟩ | ⟨v, o, hv, ho, rfl⟩
    · cases hj
    · exact RecordCall.run_careful hs (hw.record i v hv) request
  | writeRecord h header =>
    exact answered (worked (fun _ _ hs => CaptureInfo.write_careful hs header) fun _ _ _ h => h)
  | checkComplete h header =>
    exact looked (through_observes hw fun _ _ _ => CaptureInfo.checkComplete_observes header)
  | sight i header => exact looked (sight_observes hw i header)
  | keep i header => exact answered (keep_careful hw i header)
  | copyBytes source index target targetIndex length =>
    exact answered ((copyBytes_careful hw source index target targetIndex length).mono
      fun _ _ h => hw.becomes_works h)
  | transfer source target length =>
    exact answered ((transfer_careful hw source target length).mono
      fun _ _ h => hw.becomes_works h)
  | exportBytes h => exact answered (exportBytes_careful hw h)
  | sameContents a b => exact looked (sameContents_observes hw a b)
  | sameDetector a b => exact looked (sameDetector_observes a b)
  | describe h => exact looked (describe_observes h)
  | outstanding d => exact looked (outstanding_observes d)
  | sweep d =>
    refine answered ((sweep_careful d).mono ?_)
    rintro _ _ ⟨detector, hd, -, rfl⟩
    exact hw.becomes_enact (d := .sweep d) (lt_of_detector hd)
  | check d => exact absurd trivial hop
  | settings d => exact looked (settings_observes d)
  | configure d value =>
    refine answered ((configure_careful d value).mono ?_)
    rintro _ _ ⟨hd, rfl⟩
    exact hw.becomes_enact (d := .configure d value) hd

/-- A sweep answers what it finds. -/
theorem run_sweep_of_some {d : Nat} {detector : Detector}
    (hd : w.detectors[d]? = some detector) :
    (sweep d).run w = (.done (.leaks detector.leaks), w.swept d Detector.swept) :=
  Action.bind_done (sweep_of_some hd)

/-! ## Abrupt operations -/

theorem run_check_of_none {d : Nat} (hd : w.detectors[d]? = none) :
    (check d).run w = (.trapped .misuse, w) :=
  Action.bind_trapped (check_of_none hd)

theorem run_check_of_some {d : Nat} {detector : Detector}
    (hd : w.detectors[d]? = some detector) :
    (check d).run w =
      (match detector.complaint with
        | some leak => .failed (.memoryLeak leak)
        | none => .done (.answer (.count detector.due.length)), w.swept d Detector.settled) := by
  have hcheck := check_of_some hd
  rcases hc : detector.complaint with _ | leak <;> rw [hc] at hcheck
  · exact Action.bind_done hcheck
  · exact Action.bind_failed hcheck

theorem run_close_slice {i : Nat} {v : View} (hv : w.view? i = some v) (hk : v.kind = .slice) :
    (close (.view i)).run w = (.failed (.illegalState .sliceClosed), w.setView i none) :=
  Action.bind_failed (close_slice hv hk)

/-- **Every operation leaves a sound world behind**, and does the deeds it stands for. Nothing
traps but the use of handles that do not exist or must not be used. -/
theorem run_stays (hw : w.Sound) (op : Operation) :
    Action.Stays Trap.isMisuse op.run w (fun w' => w.Becomes op.failedDeeds w')
      fun _ w' => w.Becomes (op.deeds w) w' := by
  by_cases hop : op.Abrupt w
  · cases op with
    | check d =>
      rcases hd : w.detectors[d]? with _ | detector
      · exact .of_apply_trapped (run_check_of_none hd) Trap.isMisuse_misuse
      · have hb : w.Becomes [.settle d] (w.swept d Detector.settled) :=
          hw.becomes_enact (d := .settle d) (lt_of_detector hd)
        have hrun := run_check_of_some hd
        rcases hc : detector.complaint with _ | leak <;> rw [hc] at hrun
        · exact .of_apply_done hrun hb
        · exact .of_apply_failed hrun hb
    | close h =>
      cases h with
      | view i =>
        obtain ⟨v, hv, hk⟩ := hop
        exact .of_apply_failed (run_close_slice hv hk) (hw.becomes_removed (h := .view i) hv)
      | owner i | record i => exact hop.elim
    | lay h o =>
      refine Action.Stays.bind ?_ fun _ _ h => Action.Succeeds.pure h
      exact (lay_stays hw h o).mono (fun _ h => h.1) fun _ _ h => h
    | probe h o =>
      refine Action.Stays.bind ?_ fun _ _ h => Action.Succeeds.pure h
      exact (probe_stays hw h o).mono (fun _ h => h.1) fun _ _ h => h
    | _ => exact hop.elim
  -- a careful operation that fails did no deed; only checks do one then
  · refine (run_careful hw op hop).stays ?_
    cases op with
    | check d => exact absurd trivial hop
    | _ => exact hw.becomes_refl

end Operation

namespace World

variable {w : World}

/-! ## Derivations -/

/-- What a derivation answers is what it made. -/
theorem made_of_run {m : Task Nat} {w w' : World} {j : Nat} {Q : Nat → World → Prop}
    (hm : Action.Careful Trap.isMisuse m w Q)
    (hrun : (m >>= fun j => pure (Reply.handle (.view j))) w = (.done (.handle (.view j)), w')) :
    Q j w' := by
  rcases h : m w with ⟨k | e | t, w''⟩
  · rw [Action.bind_done h] at hrun
    cases hrun
    exact hm.of_done h
  · rw [Action.bind_failed h] at hrun
    cases hrun
  · rw [Action.bind_trapped h] at hrun
    cases hrun

/-! ## Histories -/

/-- A world with nothing but detectors is sound. -/
theorem sound_start (settings : List LeakSettings) : (start settings).Sound := by
  refine ⟨nofun, nofun, ?_, nofun⟩
  intro h v hv
  cases h <;> cases hv

/-- What an operation comes to, in any case. -/
theorem Sound.run (hw : w.Sound) (op : Operation) : w.Becomes (op.enacted w) (op.run w).2 := by
  have h := op.run_stays hw
  unfold Operation.enacted
  rcases hrun : op.run w with ⟨a | e | t, w'⟩
  · exact h.of_done hrun
  · exact h.of_failed hrun
  · obtain ⟨-, rfl⟩ := h.of_trapped hrun
    exact hw.becomes_refl

/-- **Whatever happens, a sound world stays sound.** -/
theorem Sound.after (hw : w.Sound) (history : List Operation) : (w.after history).Sound := by
  induction history generalizing w with
  | nil => exact hw
  | cons op rest ih => exact ih (hw.run op).sound

/-- A world that some history leads to, from nothing but detectors. -/
def Reachable (w : World) : Prop := ∃ settings history, (start settings).after history = w

theorem Reachable.after (hw : w.Reachable) (history : List Operation) :
    (w.after history).Reachable := by
  obtain ⟨settings, before, rfl⟩ := hw
  exact ⟨settings, before ++ history, List.foldl_append⟩

theorem Reachable.sound (hw : w.Reachable) : w.Sound := by
  obtain ⟨settings, history, rfl⟩ := hw
  exact (sound_start settings).after history

end World

end PacketMemory
