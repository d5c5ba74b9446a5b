import PacketMemory.Action

/-!
# Contracts of actions

What holds of a whole operation is put together from what holds of its steps. Four contracts
say how an action comes out from one given state:

* `Stays T m s F Q` — it answers within `Q`, or it refuses and leaves a state within `F` behind.
  The only traps are those that `T` admits, and they leave the state alone.
* `Careful T m s Q` — besides, it leaves the state alone when it refuses. Nearly all operations
  are careful.
* `Observes T m s R` — besides, it leaves the state alone when it answers, and answers within `R`.
* `Succeeds m s Q` — it answers, within `Q`.

`Ends m s o` says exactly how a careful action ends: with the failure `o`, or with an answer if there
is none.

A careful operation looks first and acts then: `Observes.bind` puts a look in front of
something careful, and `Careful.bind` puts behind it what cannot be refused any more.
-/

namespace PacketMemory

/-- No trap at all. -/
def Trap.never (_ : Trap) : Prop := False

/-- The trap of a handle that does not exist or must not be used this way. -/
def Trap.isMisuse (t : Trap) : Prop := t = .misuse

theorem Trap.isMisuse_misuse : Trap.isMisuse .misuse := rfl

namespace Action

variable {σ τ ε ε' α β : Type}

/-- An answer within `Q`, or a refusal with a state within `F`. -/
def Stays (T : Trap → Prop) (m : Action σ ε α) (s : σ) (F : σ → Prop) (Q : α → σ → Prop) : Prop :=
  match m s with
  | (.done a, s') => Q a s'
  | (.failed _, s') => F s'
  | (.trapped t, s') => T t ∧ s' = s

/-- All or nothing: an answer within `Q`, or the state as it was. -/
def Careful (T : Trap → Prop) (m : Action σ ε α) (s : σ) (Q : α → σ → Prop) : Prop :=
  Stays T m s (fun s' => s' = s) Q

/-- Careful, and without effect in any case. -/
def Observes (T : Trap → Prop) (m : Action σ ε α) (s : σ) (R : α → Prop) : Prop :=
  Careful T m s fun a s' => s' = s ∧ R a

/-- An answer within `Q`. -/
def Succeeds (m : Action σ ε α) (s : σ) (Q : α → σ → Prop) : Prop :=
  ∃ a s', m s = (.done a, s') ∧ Q a s'

variable {T : Trap → Prop} {m : Action σ ε α} {f : α → Action σ ε β} {s s' : σ}
variable {F F' : σ → Prop} {P Q : α → σ → Prop} {Q' : β → σ → Prop} {R R' : α → Prop}

/-! ## What a contract says of an outcome -/

theorem Stays.of_done {a : α} (h : Stays T m s F Q) (hm : m s = (.done a, s')) : Q a s' := by
  unfold Stays at h
  rw [hm] at h
  exact h

theorem Stays.of_failed {e : ε} (h : Stays T m s F Q) (hm : m s = (.failed e, s')) : F s' := by
  unfold Stays at h
  rw [hm] at h
  exact h

theorem Stays.of_trapped {t : Trap} (h : Stays T m s F Q) (hm : m s = (.trapped t, s')) :
    T t ∧ s' = s := by
  unfold Stays at h
  rw [hm] at h
  exact h

theorem Careful.of_done {a : α} (h : Careful T m s Q) (hm : m s = (.done a, s')) : Q a s' :=
  Stays.of_done h hm

/-- **A careful action that fails has done nothing.** -/
theorem Careful.of_failed {e : ε} (h : Careful T m s Q) (hm : m s = (.failed e, s')) : s' = s :=
  Stays.of_failed (F := fun s' => s' = s) h hm

/-- Nor has one that stops, and it stops only for a reason that `T` admits. -/
theorem Careful.of_trapped {t : Trap} (h : Careful T m s Q) (hm : m s = (.trapped t, s')) :
    T t ∧ s' = s :=
  Stays.of_trapped h hm

/-- A look leaves the state alone, whatever comes out. -/
theorem Observes.state_eq (h : Observes T m s R) : (m s).2 = s := by
  rcases hm : m s with ⟨a | e | t, s'⟩
  · exact (Careful.of_done h hm).1
  · exact Careful.of_failed h hm
  · exact (Careful.of_trapped h hm).2

/-- Changing the answer leaves the state alone. -/
theorem state_answer (m : Action σ ε α) (f : α → β) (s : σ) :
    ((m >>= fun a => Pure.pure (f a)) s).2 = (m s).2 := by
  rw [bind_apply]
  rcases m s with ⟨a | e | t, s'⟩ <;> rfl

/-! ## What an outcome says of a contract -/

/-- A contract is a matter of the three ways to end. -/
theorem Stays.intro (hdone : ∀ a s', m s = (.done a, s') → Q a s')
    (hfailed : ∀ e s', m s = (.failed e, s') → F s')
    (htrapped : ∀ t s', m s = (.trapped t, s') → T t ∧ s' = s) : Stays T m s F Q := by
  unfold Stays
  rcases hm : m s with ⟨a | e | t, s'⟩
  · exact hdone a s' hm
  · exact hfailed e s' hm
  · exact htrapped t s' hm

theorem Stays.of_apply_done {a : α} (hm : m s = (.done a, s')) (h : Q a s') :
    Stays T m s F Q := by
  unfold Stays
  rw [hm]
  exact h

theorem Stays.of_apply_failed {e : ε} (hm : m s = (.failed e, s')) (h : F s') :
    Stays T m s F Q := by
  unfold Stays
  rw [hm]
  exact h

theorem Stays.of_apply_trapped {t : Trap} (hm : m s = (.trapped t, s)) (h : T t) :
    Stays T m s F Q := by
  unfold Stays
  rw [hm]
  exact ⟨h, rfl⟩

/-- What succeeds anyway has nothing to be careful about. -/
theorem Succeeds.careful (h : Succeeds m s Q) : Careful T m s Q := by
  obtain ⟨a, s', hm, ha⟩ := h
  exact Stays.of_apply_done hm ha

/-! ## Weakening -/

theorem Stays.mono (h : Stays T m s F P) (hF : ∀ s', F s' → F' s')
    (hPQ : ∀ a s', P a s' → Q a s') : Stays T m s F' Q := by
  refine .intro ?_ ?_ ?_
  · intro a s' hm
    exact hPQ a s' (h.of_done hm)
  · intro e s' hm
    exact hF s' (h.of_failed hm)
  · intro t s' hm
    exact h.of_trapped hm

theorem Careful.mono (h : Careful T m s P) (hPQ : ∀ a s', P a s' → Q a s') : Careful T m s Q :=
  Stays.mono h (fun _ hs => hs) hPQ

/-- A careful action stays wherever it starts, if it fails. -/
theorem Careful.stays (h : Careful T m s Q) (hF : F s) : Stays T m s F Q := by
  refine Stays.mono h ?_ fun _ _ hq => hq
  rintro s' rfl
  exact hF

/-- If nothing but the old state is within `F`, then this is care. -/
theorem Stays.careful (h : Stays T m s F Q) (hF : ∀ s', F s' → s' = s) : Careful T m s Q :=
  h.mono hF fun _ _ hq => hq

theorem Observes.mono (h : Observes T m s R) (hR : ∀ a, R a → R' a) : Observes T m s R' :=
  Careful.mono h fun a _ ha => ⟨ha.1, hR a ha.2⟩

theorem Succeeds.mono (h : Succeeds m s P) (hPQ : ∀ a s', P a s' → Q a s') : Succeeds m s Q := by
  obtain ⟨a, s', hm, ha⟩ := h
  exact ⟨a, s', hm, hPQ a s' ha⟩

/-! ## Single steps -/

theorem Succeeds.pure {a : α} (h : Q a s) : Succeeds (pure a : Action σ ε α) s Q :=
  ⟨a, s, rfl, h⟩

theorem Succeeds.update {g : σ → σ} {Q : Unit → σ → Prop} (h : Q () (g s)) :
    Succeeds (Action.update g : Action σ ε Unit) s Q :=
  ⟨(), g s, rfl, h⟩

theorem Careful.pure {a : α} (h : Q a s) : Careful T (pure a : Action σ ε α) s Q := h

theorem Careful.trap {t : Trap} (h : T t) : Careful T (trap t : Action σ ε α) s Q := ⟨h, rfl⟩

theorem Observes.pure {a : α} (h : R a) : Observes T (pure a : Action σ ε α) s R := ⟨rfl, h⟩

theorem Observes.fail {e : ε} : Observes T (fail e : Action σ ε α) s R := rfl

theorem Observes.trap {t : Trap} (h : T t) : Observes T (trap t : Action σ ε α) s R := ⟨h, rfl⟩

/-- Behind a requirement, it holds. -/
theorem Observes.require {p : Prop} [Decidable p] {e : ε} :
    Observes T (Action.require p e : Action σ ε Unit) s fun _ => p := by
  by_cases h : p
  · rw [require_true h]
    exact Observes.pure h
  · rw [require_false h]
    exact Observes.fail

/-- Behind an expectation, the value is there. -/
theorem Observes.expect {t : Trap} (h : T t) {o : Option α} :
    Observes T (Action.expect t o : Action σ ε α) s fun a => o = some a := by
  cases o with
  | none => exact Observes.trap h
  | some a => exact Observes.pure rfl

theorem Observes.ofExcept {r : Except ε α} :
    Observes T (Action.ofExcept r : Action σ ε α) s fun a => r = .ok a := by
  cases r with
  | error e => exact Observes.fail
  | ok a => exact Observes.pure rfl

/-! ## Sequences -/

/-- **Look first.** What follows a look stays within the same bounds. -/
theorem Observes.bind_stays (hm : Observes T m s R) (hF : F s)
    (hf : ∀ a, R a → Stays T (f a) s F Q') : Stays T (m >>= f) s F Q' := by
  rcases h : m s with ⟨a | e | t, s'⟩
  · obtain ⟨rfl, ha⟩ := Careful.of_done hm h
    unfold Stays
    rw [bind_done h]
    exact hf a ha
  · obtain rfl := Careful.of_failed hm h
    exact .of_apply_failed (bind_failed h) hF
  · obtain ⟨ht, rfl⟩ := Careful.of_trapped hm h
    exact .of_apply_trapped (bind_trapped h) ht

/-- A look in front of a careful action leaves it careful, and lets it rely on what was seen. -/
theorem Observes.bind (hm : Observes T m s R) (hf : ∀ a, R a → Careful T (f a) s Q') :
    Careful T (m >>= f) s Q' :=
  hm.bind_stays rfl hf

/-- **Act then.** Nothing is refused any more behind an answer. -/
theorem Stays.bind (hm : Stays T m s F Q) (hf : ∀ a s', Q a s' → Succeeds (f a) s' Q') :
    Stays T (m >>= f) s F Q' := by
  rcases h : m s with ⟨a | e | t, s'⟩
  · obtain ⟨b, s'', hb, hq⟩ := hf a s' (hm.of_done h)
    exact .of_apply_done ((bind_done h).trans hb) hq
  · exact .of_apply_failed (bind_failed h) (hm.of_failed h)
  · obtain ⟨ht, rfl⟩ := hm.of_trapped h
    exact .of_apply_trapped (bind_trapped h) ht

/-- A careful action can only be followed by what succeeds: a failure behind it would come too late.
-/
theorem Careful.bind (hm : Careful T m s Q) (hf : ∀ a s', Q a s' → Succeeds (f a) s' Q') :
    Careful T (m >>= f) s Q' :=
  Stays.bind hm hf

theorem Succeeds.bind (hm : Succeeds m s Q) (hf : ∀ a s', Q a s' → Succeeds (f a) s' Q') :
    Succeeds (m >>= f) s Q' := by
  obtain ⟨a, s', h, ha⟩ := hm
  obtain ⟨b, s'', hb, hq⟩ := hf a s' ha
  exact ⟨b, s'', (bind_done h).trans hb, hq⟩

/-- A first step that answers and changes nothing is as good as done. -/
theorem Careful.after {a : α} (hm : m s = (.done a, s)) (h : Careful T (f a) s Q') :
    Careful T (m >>= f) s Q' := by
  have hlook : Observes T m s fun b => b = a := Stays.of_apply_done hm ⟨rfl, rfl⟩
  refine hlook.bind ?_
  rintro b rfl
  exact h

/-- A step that is known goes in front of what succeeds. -/
theorem Succeeds.after {a : α} (hm : m s = (.done a, s')) (h : Succeeds (f a) s' Q') :
    Succeeds (m >>= f) s Q' := by
  obtain ⟨b, s'', hb, hq⟩ := h
  exact ⟨b, s'', (bind_done hm).trans hb, hq⟩

/-- If a sequence succeeds whenever its first check passes, it is careful. -/
theorem Careful.of_check {C : Prop} (hm : Observes T m s fun _ => C)
    (h : C → Succeeds (m >>= f) s Q') : Careful T (m >>= f) s Q' := by
  rcases hs : m s with ⟨a | e | t, s'⟩
  · exact (h (Careful.of_done hm hs).2).careful
  · exact Stays.of_apply_failed (bind_failed hs) (Careful.of_failed hm hs)
  · obtain ⟨ht, rfl⟩ := Careful.of_trapped hm hs
    exact Stays.of_apply_trapped (bind_trapped hs) ht

/-- The current state is always at hand. -/
theorem Careful.state_bind {f : σ → Action σ ε β} (h : Careful T (f s) s Q') :
    Careful T (Action.state >>= f) s Q' := h

theorem Succeeds.state_bind {f : σ → Action σ ε β} (h : Succeeds (f s) s Q') :
    Succeeds (Action.state >>= f) s Q' := h

/-! ## Actions around actions -/

/-- A refusal under another name leaves the same behind. -/
theorem Stays.mapError {g : ε → ε'} (h : Stays T m s F Q) :
    Stays T (Action.mapError g m) s F Q := by
  rcases hm : m s with ⟨a | e | t, s'⟩
  · exact .of_apply_done (by rw [mapError_apply, hm]; rfl) (h.of_done hm)
  · exact .of_apply_failed (by rw [mapError_apply, hm]; rfl) (h.of_failed hm)
  · obtain ⟨ht, rfl⟩ := h.of_trapped hm
    exact .of_apply_trapped (by rw [mapError_apply, hm]; rfl) ht

/-- A look whose refusal became an answer is still a look. -/
theorem Observes.attempt (h : Observes T m s R) :
    Observes T (Action.attempt m : Action σ ε' (Except ε α)) s fun r => ∀ a, r = .ok a → R a := by
  rcases hm : m s with ⟨a | e | t, s'⟩
  · obtain ⟨rfl, ha⟩ := Careful.of_done h hm
    refine Stays.of_apply_done (a := .ok a) (by rw [Action.attempt, hm]) ⟨rfl, ?_⟩
    rintro _ ⟨⟩
    exact ha
  · obtain rfl := Careful.of_failed h hm
    exact Stays.of_apply_done (a := .error e) (by rw [Action.attempt, hm]) ⟨rfl, nofun⟩
  · obtain ⟨ht, rfl⟩ := Careful.of_trapped h hm
    exact Stays.of_apply_trapped (by rw [Action.attempt, hm]) ht

/-- Nothing has to be cleaned up behind a success. -/
theorem Succeeds.onFailure {cleanup : Action σ ε Unit} (h : Succeeds m s Q) :
    Succeeds (Action.onFailure m cleanup) s Q := by
  obtain ⟨a, s', hm, ha⟩ := h
  refine ⟨a, s', ?_, ha⟩
  unfold Action.onFailure
  rw [hm]

/-- Work on a part of the state, which has to be put back as it was if nothing happens. -/
theorem Careful.within {get : σ → τ} {set : τ → σ → σ} {m : Action τ ε α} {P : α → τ → Prop}
    (hset : set (get s) s = s) (h : Careful T m (get s) P)
    (hPQ : ∀ a t, P a t → Q a (set t s)) : Careful T (Action.within get set m) s Q := by
  rcases hm : m (get s) with ⟨a | e | t, t'⟩
  · exact Stays.of_apply_done (by rw [within_apply, hm]) (hPQ a t' (h.of_done hm))
  · obtain rfl := h.of_failed hm
    exact Stays.of_apply_failed (by rw [within_apply, hm]) hset
  · obtain ⟨ht, rfl⟩ := h.of_trapped hm
    exact Stays.of_apply_trapped (by rw [within_apply, hm, hset]) ht

/-- What succeeds on a part succeeds on the whole. -/
theorem Succeeds.within {get : σ → τ} {set : τ → σ → σ} {m : Action τ ε α} {P : α → τ → Prop}
    (h : Succeeds m (get s) P) (hPQ : ∀ a t, P a t → Q a (set t s)) :
    Succeeds (Action.within get set m) s Q := by
  obtain ⟨a, t, hm, ha⟩ := h
  refine ⟨a, set t s, ?_, hPQ a t ha⟩
  rw [within_apply, hm]

/-! ## How an action ends -/

/-- The action is refused for this reason and leaves the state alone; without a reason, it answers. -/
def Ends (m : Action σ ε α) (s : σ) : Option ε → Prop
  | none => Succeeds m s fun _ _ => True
  | some e => m s = (.failed e, s)

variable {o : Option ε}

theorem Ends.of_done {a : α} (h : m s = (.done a, s')) : Ends m s none := ⟨a, s', h, trivial⟩

theorem Succeeds.ends (h : Succeeds m s Q) : Ends m s none := h.mono fun _ _ _ => trivial

/-- An action that ends in a certain way answers iff there is no reason against it. -/
theorem Ends.succeeds_iff (h : Ends m s o) : (∃ a s', m s = (.done a, s')) ↔ o = none := by
  cases o with
  | none =>
    obtain ⟨a, s', hm, -⟩ := h
    exact ⟨fun _ => rfl, fun _ => ⟨a, s', hm⟩⟩
  | some e =>
    refine ⟨?_, nofun⟩
    rintro ⟨a, s', hm⟩
    exact nomatch (congrArg Prod.fst (h.symm.trans hm))

/-- What follows an answer does not matter as long as it cannot fail. -/
theorem Ends.bind (h : Ends m s o) (hf : ∀ a s', m s = (.done a, s') → Ends (f a) s' none) :
    Ends (m >>= f) s o := by
  cases o with
  | none =>
    obtain ⟨a, s', hm, -⟩ := h
    exact Succeeds.after hm (hf a s' hm)
  | some e => exact bind_failed h

/-- Changing the answer is nothing to fail with. -/
theorem Ends.answer (h : Ends m s o) (g : α → β) :
    Ends (m >>= fun a => Pure.pure (g a)) s o :=
  h.bind fun _ _ _ => .of_done rfl

/-- A first step that answers and changes nothing is as good as done. -/
theorem Ends.after {a : α} (hm : m s = (.done a, s)) (h : Ends (f a) s o) :
    Ends (m >>= f) s o := by
  cases o with
  | none => exact Succeeds.after hm h
  | some e => exact (bind_done hm).trans h

/-! ## Along a preorder of states -/

section Preorder

variable {L : σ → σ → Prop}

/-- A careful action leads from its state to where it answers, or it stays. -/
theorem Careful.leads (hm : Careful T m s Q) (hrefl : L s s) (hQ : ∀ a s', Q a s' → L s s') :
    L s (m s).2 := by
  rcases hrun : m s with ⟨a | e | t, s'⟩
  · exact hQ a s' (hm.of_done hrun)
  · rw [hm.of_failed hrun]
    exact hrefl
  · rw [(hm.of_trapped hrun).2]
    exact hrefl

/-- A sequence gets as far as its steps. -/
theorem leads_bind (htrans : ∀ {s s' s''}, L s s' → L s' s'' → L s s'') (hm : L s (m s).2)
    (hf : ∀ a s', m s = (.done a, s') → L s' (f a s').2) : L s ((m >>= f) s).2 := by
  rcases hrun : m s with ⟨a | e | t, s'⟩ <;> rw [hrun] at hm
  · rw [bind_done hrun]
    exact htrans hm (hf a s' hrun)
  · rw [bind_failed hrun]
    exact hm
  · rw [bind_trapped hrun]
    exact hm

/-- What follows a look starts from the same state. -/
theorem Observes.leads_bind (hm : Observes T m s R) (hrefl : L s s)
    (hf : ∀ a, R a → L s (f a s).2) : L s ((m >>= f) s).2 := by
  rcases hrun : m s with ⟨a | e | t, s'⟩
  · obtain ⟨rfl, ha⟩ := Careful.of_done hm hrun
    rw [bind_done hrun]
    exact hf a ha
  · rw [bind_failed hrun, Careful.of_failed hm hrun]
    exact hrefl
  · rw [bind_trapped hrun, (Careful.of_trapped hm hrun).2]
    exact hrefl

end Preorder

/-! ## What does not change -/

/-- However the action ends, this of the state stays what it was. -/
def Keeps {ρ : Type} (g : σ → ρ) (m : Action σ ε α) : Prop := ∀ s, g (m s).2 = g s

namespace Keeps

variable {ρ : Type} {g : σ → ρ}

protected theorem pure (a : α) : Keeps g (pure a : Action σ ε α) := fun _ => rfl

protected theorem fail (e : ε) : Keeps g (fail e : Action σ ε α) := fun _ => rfl

protected theorem trap (t : Trap) : Keeps g (trap t : Action σ ε α) := fun _ => rfl

protected theorem update {f : σ → σ} (h : ∀ s, g (f s) = g s) :
    Keeps g (update f : Action σ ε Unit) := h

protected theorem bind (hm : Keeps g m) (hf : ∀ a, Keeps g (f a)) : Keeps g (m >>= f) := by
  intro s
  exact leads_bind (L := fun s s' => g s' = g s) (fun h h' => h'.trans h) (hm s)
    fun a s' _ => hf a s'

/-- Only the answer is changed. -/
protected theorem answer (hm : Keeps g m) (f : α → β) : Keeps g (m >>= fun a => Pure.pure (f a)) :=
  hm.bind fun a => .pure (f a)

/-- What follows a look at the state. -/
protected theorem look {f : σ → Action σ ε β} (hf : ∀ s, Keeps g (f s)) :
    Keeps g (state >>= f) := fun s => hf s s

protected theorem require (p : Prop) [Decidable p] (e : ε) :
    Keeps g (require p e : Action σ ε Unit) := by
  unfold require
  split
  · exact .pure ()
  · exact .fail e

protected theorem assert (p : Prop) [Decidable p] (t : Trap) :
    Keeps g (assert p t : Action σ ε Unit) := by
  unfold assert
  split
  · exact .pure ()
  · exact .trap t

protected theorem expect (t : Trap) (o : Option α) : Keeps g (expect t o : Action σ ε α) := by
  cases o with
  | none => exact .trap t
  | some a => exact .pure a

protected theorem ofExcept (r : Except ε α) : Keeps g (ofExcept r : Action σ ε α) := by
  cases r with
  | error e => exact .fail e
  | ok a => exact .pure a

end Keeps

/-- However the action ends, this of the state is no less than it was. -/
def Raises (g : σ → Nat) (m : Action σ ε α) : Prop := ∀ s, g s ≤ g (m s).2

namespace Raises

variable {g : σ → Nat}

protected theorem of_keeps (hm : Keeps g m) : Raises g m := fun s => Nat.le_of_eq (hm s).symm

protected theorem bind (hm : Raises g m) (hf : ∀ a, Raises g (f a)) : Raises g (m >>= f) := by
  intro s
  exact leads_bind (L := fun s s' => g s ≤ g s') Nat.le_trans (hm s) fun a s' _ => hf a s'

/-- Only the answer is changed. -/
protected theorem answer (hm : Raises g m) (f : α → β) :
    Raises g (m >>= fun a => Pure.pure (f a)) :=
  hm.bind fun a => .of_keeps (.pure (f a))

end Raises

end Action

end PacketMemory
