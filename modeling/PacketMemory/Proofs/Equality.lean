import PacketMemory.Proofs.Pane.Stream
import PacketMemory.Proofs.UseAfterRelease
import PacketMemory.Proofs.World.Calls

/-!
# Equality is decided by the readable bytes

Two handles are equal iff both of them show the same bytes, and not none (`World.Sound.run_sameContents`).
This is a relation between two strings of bytes, which does not know how either of them came about. So it
is symmetric and transitive whatever the two handles are, and a handle that shows nothing, being equal to
nothing, is not equal to itself either.

Main statement: `World.Reachable.equality_partial`.
-/

namespace PacketMemory

namespace World

/-- Asked for its readable bytes, a handle answers these. -/
def Shows (w : World) (h : Handle) (bytes : List UInt8) : Prop :=
  (Operation.call h .contents).run w = (.done (.answer (.bytes bytes)), w)

/-- Asked whether they are equal, two handles say so. -/
def Equates (w : World) (a b : Handle) : Prop :=
  (Operation.sameContents a b).run w = (.done (.answer (.flag true)), w)

variable {w w' : World} {h a b c a' b' : Handle} {p q x p' q' : Pane} {bytes : List UInt8}

/-- A handle shows its readable bytes as long as the memory is live. -/
theorem Sound.shows_iff (hw : w.Sound) (hp : w.pane? h = some p) :
    w.Shows h bytes ↔ p.released = false ∧ p.unread = bytes := by
  have hs := hw.pane hp
  constructor
  · intro hshows
    by_cases hl : p.Live
    · cases (run_contents hp hs hl).symm.trans hshows
      exact ⟨hl.1, rfl⟩
    · have hrefused : (Operation.call h .contents).run w = (.failed .memoryAccess, w) :=
        Action.bind_failed
          (through_refused hp (Action.bind_failed (Pane.contents_of_not_live hs hl)))
      cases hrefused.symm.trans hshows
  · rintro ⟨hr, rfl⟩
    exact run_contents hp hs (hw.live_of_pane hp hr)

/-- Live handles compare their readable bytes. -/
theorem Sound.sameContents_of_live (hw : w.Sound) (hp : w.pane? a = some p) (hl : p.Live)
    (hq : w.pane? b = some q) (hl' : q.Live) :
    sameContents a b w = (.done (decide (p.unread ≠ [] ∧ p.unread = q.unread)), w) := by
  have hs := hw.pane hp
  have hs' := hw.pane hq
  have hlen := Pane.length_unread hs hl
  have hlen' := Pane.length_unread hs' hl'
  apply (Action.bind_done (readable_seen hp hs)).trans
  apply (Action.bind_done (readable_seen hq hs')).trans
  by_cases hlength : p.cursor.writer - p.cursor.reader = 0 ∨
    p.cursor.writer - p.cursor.reader ≠ q.cursor.writer - q.cursor.reader
  · -- nothing can be read, or not the same number of bytes
    have hapart : ¬(p.unread ≠ [] ∧ p.unread = q.unread) := by
      rintro ⟨hnonempty, hsame⟩
      have hpos := List.length_pos_iff.2 hnonempty
      rw [← hsame] at hlen'
      omega
    rw [if_pos hlength, decide_eq_false hapart, Action.pure_apply]
  · obtain ⟨hpos, hsize⟩ := not_or.1 hlength
    have hsize : p.cursor.writer - p.cursor.reader = q.cursor.writer - q.cursor.reader :=
      Decidable.not_not.1 hsize
    have hnonempty : p.unread ≠ [] := List.ne_nil_of_length_pos (by omega)
    -- both ranges lie in their windows, so looking at them does not fail
    have hlook : ∀ {h : Handle} {y : Pane}, w.pane? h = some y → y.Live →
        p.cursor.writer - p.cursor.reader = y.cursor.writer - y.cursor.reader →
        (Action.attempt (through h (Pane.checkRange y.cursor.reader
            (p.cursor.writer - p.cursor.reader))) : Task (Except Failure Unit)) w =
          (.done (.ok ()), w) ∧
        through h (Pane.fetch y.cursor.reader (p.cursor.writer - p.cursor.reader)) w =
          (.done y.unread, w) := by
      intro h y hy hly hsize
      have hsy := hw.pane hy
      have hreader := hsy.cursor.reader_le
      have hwriter := hsy.cursor.writer_le
      have hsmall := hsy.small
      have hfit : y.cursor.reader + (y.cursor.writer - y.cursor.reader) ≤ y.capacity := by omega
      rw [hsize]
      constructor
      · rw [Action.attempt, through_query hy (Pane.checkRange_of_le hly (by omega) hfit)]
      · exact through_query hy (Pane.fetch_apply hsy hly hfit)
    obtain ⟨hcheck, hfetch⟩ := hlook hp hl rfl
    obtain ⟨hcheck', hfetch'⟩ := hlook hq hl' hsize
    rw [if_neg hlength]
    apply (Action.bind_done (paneOf_of_some hp)).trans
    apply (Action.bind_done (paneOf_of_some hq)).trans
    apply (Action.bind_done hcheck).trans
    apply (Action.bind_done hcheck').trans
    apply (Action.bind_done hfetch).trans
    apply (Action.bind_done hfetch').trans
    have hequal : (p.unread == q.unread) = decide (p.unread ≠ [] ∧ p.unread = q.unread) := by
      rw [Bool.eq_iff_iff, beq_iff_eq, decide_eq_true_iff]
      exact ⟨fun hsame => ⟨hnonempty, hsame⟩, And.right⟩
    rw [hequal, Action.pure_apply]

/-- **What equality comes to**: both handles show the same bytes, and not none. -/
theorem Sound.run_sameContents (hw : w.Sound) (hp : w.pane? a = some p) (hq : w.pane? b = some q) :
    (Operation.sameContents a b).run w = (.done (.answer (.flag (decide (p.released = false ∧
      q.released = false ∧ p.unread ≠ [] ∧ p.unread = q.unread)))), w) := by
  by_cases hr : p.released = false ∧ q.released = false
  · have hsame := hw.sameContents_of_live hp (hw.live_of_pane hp hr.1) hq (hw.live_of_pane hq hr.2)
    simp only [hr.1, hr.2, true_and]
    exact Action.bind_done hsame
  · have hn : ¬p.Live ∨ ¬q.Live :=
      Decidable.not_and_iff_or_not.1 fun hl => hr ⟨hl.1.1, hl.2.1⟩
    have hfalse : ¬(p.released = false ∧ q.released = false ∧ p.unread ≠ [] ∧
        p.unread = q.unread) := fun h => hr ⟨h.1, h.2.1⟩
    rw [decide_eq_false hfalse]
    exact Action.bind_done (sameContents_of_not_live hp (hw.pane hp) hq (hw.pane hq) hn)

theorem Sound.equates_iff (hw : w.Sound) (hp : w.pane? a = some p) (hq : w.pane? b = some q) :
    w.Equates a b ↔
      p.released = false ∧ q.released = false ∧ p.unread ≠ [] ∧ p.unread = q.unread := by
  rw [Equates, hw.run_sameContents hp hq]
  simp

/-- What two handles show is the same both ways. -/
theorem Sound.run_sameContents_comm (hw : w.Sound) (hp : w.pane? a = some p)
    (hq : w.pane? b = some q) :
    (Operation.sameContents a b).run w = (Operation.sameContents b a).run w := by
  have hswap : ∀ {y z : Pane},
      y.released = false ∧ z.released = false ∧ y.unread ≠ [] ∧ y.unread = z.unread →
      z.released = false ∧ y.released = false ∧ z.unread ≠ [] ∧ z.unread = y.unread := by
    rintro y z ⟨hr, hr', hnonempty, hsame⟩
    exact ⟨hr', hr, hsame ▸ hnonempty, hsame.symm⟩
  rw [hw.run_sameContents hp hq, hw.run_sameContents hq hp, decide_eq_decide.2 ⟨hswap, hswap⟩]

theorem Sound.equates_self_iff (hw : w.Sound) (hp : w.pane? a = some p) :
    w.Equates a a ↔ p.released = false ∧ p.cursor.reader < p.cursor.writer := by
  rw [hw.equates_iff hp hp]
  constructor
  · rintro ⟨hr, -, hnonempty, -⟩
    have hlen := Pane.length_unread (hw.pane hp) (hw.live_of_pane hp hr)
    have hpos := List.length_pos_iff.2 hnonempty
    exact ⟨hr, by omega⟩
  · rintro ⟨hr, hreadable⟩
    have hlen := Pane.length_unread (hw.pane hp) (hw.live_of_pane hp hr)
    exact ⟨hr, hr, List.ne_nil_of_length_pos (by omega), rfl⟩

/-- **Equality is a partial equivalence, decided by the readable bytes.** Whether two handles are equal is
always answered, and changes nothing. They are equal iff asking either of them for its readable bytes is
answered with the same string of bytes, which is not empty. So equality is symmetric and transitive,
whether the handles are owners or views and whatever memory they share, and a handle is equal to itself
iff the memory was not released and a byte can be read. And it depends on nothing else: between handles of
any other world that show the same bytes, or are released as these are, it is the same. -/
theorem Reachable.equality_partial (hw : w.Reachable) (hp : w.pane? a = some p)
    (hq : w.pane? b = some q) (hx : w.pane? c = some x) :
    (∃ e, (Operation.sameContents a b).run w = (.done (.answer (.flag e)), w) ∧
      (e = true ↔ ∃ bytes, bytes ≠ [] ∧ w.Shows a bytes ∧ w.Shows b bytes)) ∧
    (Operation.sameContents b a).run w = (Operation.sameContents a b).run w ∧
    (w.Equates a b → w.Equates b c → w.Equates a c) ∧
    (w.Equates a a ↔ p.released = false ∧ p.cursor.reader < p.cursor.writer) ∧
    ∀ (w' : World) (a' b' : Handle) (p' q' : Pane), w'.Reachable →
      w'.pane? a' = some p' → w'.pane? b' = some q' →
      p'.released = p.released → (p.released = false → p'.unread = p.unread) →
      q'.released = q.released → (q.released = false → q'.unread = q.unread) →
      ((Operation.sameContents a' b').run w').1 = ((Operation.sameContents a b).run w).1 := by
  have hs := hw.sound
  refine ⟨⟨_, hs.run_sameContents hp hq, ?_⟩, hs.run_sameContents_comm hq hp, ?_,
    hs.equates_self_iff hp, ?_⟩
  · simp only [decide_eq_true_eq, hs.shows_iff hp, hs.shows_iff hq]
    constructor
    · rintro ⟨hr, hr', hnonempty, hsame⟩
      exact ⟨p.unread, hnonempty, ⟨hr, rfl⟩, hr', hsame.symm⟩
    · rintro ⟨_, hnonempty, ⟨hr, rfl⟩, hr', hsame⟩
      exact ⟨hr, hr', hnonempty, hsame.symm⟩
  · rw [hs.equates_iff hp hq, hs.equates_iff hq hx, hs.equates_iff hp hx]
    rintro ⟨hr, -, hnonempty, hsame⟩ ⟨-, hr', -, hsame'⟩
    exact ⟨hr, hr', hnonempty, hsame.trans hsame'⟩
  · intro w' a' b' p' q' hw' hp' hq' hr hsame hr' hsame'
    rw [hw'.sound.run_sameContents hp' hq', hs.run_sameContents hp hq, hr, hr']
    by_cases hlive : p.released = false ∧ q.released = false
    · rw [hsame hlive.1, hsame' hlive.2]
    · have hfalse : ∀ {r : Prop}, ¬(p.released = false ∧ q.released = false ∧ r) :=
        fun h => hlive ⟨h.1, h.2.1⟩
      rw [decide_eq_false hfalse, decide_eq_false hfalse]

/-- An owner shows 1 2 1 2. So do a slice of it that overlaps these bytes and has the other byte order,
and a copy. Once the slice was read to its end, it is not even equal to itself. -/
theorem equality_partial_overlapping :
    let w := (start [.standard]).after [.allocate 0 8,
      .call (.owner 0) (.appendBytes [1, 2, 1, 2]), .call (.owner 0) (.pokeBytes 4 [1, 2, 3, 4]),
      .slice (.owner 0) 2 4, .call (.view 0) (.setOrder .little), .copyUnread (.owner 0)]
    let w' := w.after [.call (.view 0) (.skip 4)]
    w.Equates (.owner 0) (.view 0) ∧ w.Equates (.owner 0) (.owner 1) ∧
      (Operation.sameContents (.view 0) (.owner 0)).run w = (.done (.answer (.flag true)), w) ∧
      ¬w'.Equates (.view 0) (.view 0) := by
  intro w w'
  have hw : w.Reachable := ⟨_, _, rfl⟩
  have howner : w.pane? (.owner 0) =
      some ⟨some [1, 2, 1, 2, 1, 2, 3, 4], false, 0, 8, ⟨0, 4, 0, 0⟩, default⟩ := by rfl
  have hview : w.pane? (.view 0) =
      some ⟨some [1, 2, 1, 2, 1, 2, 3, 4], false, 2, 4, ⟨0, 4, 0, 0⟩, .little⟩ := by rfl
  have hcopy : w.pane? (.owner 1) =
      some ⟨some [1, 2, 1, 2], false, 0, 4, ⟨0, 4, 0, 0⟩, default⟩ := by rfl
  have hread : w'.pane? (.view 0) =
      some ⟨some [1, 2, 1, 2, 1, 2, 3, 4], false, 2, 4, ⟨4, 4, 0, 0⟩, .little⟩ := by rfl
  have hshows := (hw.sound.shows_iff howner).2 ⟨rfl, rfl⟩
  have hshows₁ := (hw.sound.shows_iff hview).2 ⟨rfl, rfl⟩
  have hshows₂ := (hw.sound.shows_iff hcopy).2 ⟨rfl, rfl⟩
  obtain ⟨⟨e, hrun, he⟩, hsym, htrans, -⟩ := hw.equality_partial howner hview hcopy
  obtain ⟨⟨e', hrun', he'⟩, -⟩ := hw.equality_partial hview hcopy hcopy
  obtain rfl : e = true := he.2 ⟨[1, 2, 1, 2], by decide, hshows, hshows₁⟩
  obtain rfl : e' = true := he'.2 ⟨[1, 2, 1, 2], by decide, hshows₁, hshows₂⟩
  obtain ⟨-, -, -, hself, -⟩ := (hw.after [_]).equality_partial hread hread hread
  exact ⟨hrun, htrans hrun hrun', hsym.trans hrun, fun h => absurd (hself.1 h).2 (by decide)⟩

end World

end PacketMemory
