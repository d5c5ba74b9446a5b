import PacketMemory.Proofs.Message
import PacketMemory.Proofs.Text.Utf8

/-!
# Text access is exact

What the bytes of a window are as text depends on these bytes alone (`Utf8.reading`), and `Utf8.ReadsAs`
says what it is, without the decoder: the text that is written as the bytes, or else a failure that locates
the fault. Access to text at an index answers this (`Pane.peekText_utf8`), and so does reading at the
cursor, which moves the reader only behind a text.

Main statement: `World.Reachable.text_exact`.
-/

namespace PacketMemory

namespace Utf8

variable {bytes : List UInt8} {outcome : Outcome Failure String}

/-- How reading bytes as text ends: with the text that is written as these bytes, and if there is none, with
the failure of the codec, whose source tells where the fault is. -/
structure ReadsAs (bytes : List UInt8) (outcome : Outcome Failure String) : Prop where
  text : ∀ s, outcome = .done s ↔ encode s = bytes
  fault : (∀ s, encode s ≠ bytes) →
    ∃ m : Malformed, outcome = .failed (.codec "UTF-8" (.malformed m)) ∧ m.Locates bytes

/-- What the decoder makes of bytes. -/
def reading (bytes : List UInt8) : Outcome Failure String :=
  match decode bytes with
  | .ok s => .done s
  | .error m => .failed (.codec "UTF-8" (.malformed m))

theorem reading_encode (s : String) : reading (encode s) = .done s := by
  rw [reading, decode_encode]

theorem reading_of_error {m : Malformed} (h : decode bytes = .error m) :
    reading bytes = .failed (.codec "UTF-8" (.malformed m)) := by
  rw [reading, h]

/-- **The decoder reads bytes as what they are.** -/
theorem readsAs_reading (bytes : List UInt8) : ReadsAs bytes (reading bytes) := by
  refine ⟨fun s => ⟨fun h => ?_, fun h => h ▸ reading_encode s⟩, fun hnone => ?_⟩
  · rcases hdecode : decode bytes with m | t
    · cases (reading_of_error hdecode).symm.trans h
    · obtain rfl := decode_eq_ok_iff.1 hdecode
      cases (reading_encode t).symm.trans h
      rfl
  · rcases hdecode : decode bytes with m | t
    · exact ⟨m, reading_of_error hdecode, decode_eq_error_iff.1 hdecode⟩
    · exact absurd (decode_eq_ok_iff.1 hdecode) (hnone t)

end Utf8

namespace Pane

variable {p : Pane} {index length : Nat}

/-- Text at an index is what its bytes are as text. -/
theorem peekText_utf8 (hp : p.Sound) (hl : p.Live) (h : index + length ≤ p.capacity) :
    peekText index length .utf8 p = (Utf8.reading (p.bytesAt index length), p) := by
  refine (Action.bind_done (peekBytes_apply hp hl h)).trans ?_
  simp only [Codec.utf8, Utf8.reading]
  cases Utf8.decode (p.bytesAt index length) <;> rfl

/-- Text is written as its bytes. -/
theorem pokeText_utf8 (hp : p.Sound) (hl : p.Live) {s : String}
    (h : index + (Utf8.encode s).length ≤ p.capacity) :
    pokeText index s .utf8 p = (.done (Utf8.encode s).length, p.overwrite index (Utf8.encode s)) := by
  have hencoded : encoded s .utf8 p = (.done (Utf8.encode s), p) := rfl
  obtain ⟨_, _, hpoke, rfl⟩ := pokeBytes_succeeds hp hl h
  exact (Action.bind_done hencoded).trans (Action.bind_done hpoke)

theorem pokeText_refused (hl : p.Live) {s : String}
    (h : p.capacity < index + (Utf8.encode s).length) :
    pokeText index s .utf8 p =
      (.failed (.outOfBounds (.range index (Utf8.encode s).length p.capacity)), p) := by
  have hencoded : encoded s .utf8 p = (.done (Utf8.encode s), p) := rfl
  refine (Action.bind_done hencoded).trans (Action.bind_failed ?_)
  exact Action.bind_failed (checkRange_of_lt hl h)

/-- The pane after a text was read, or was not. -/
def readOver (p : Pane) (length : Nat) : Outcome Failure String → Pane
  | .done _ => p.consumed length
  | _ => p

/-- **Reading at the cursor comes to what access at the reader does**, and moves over a text. -/
theorem readText_utf8 (hp : p.Sound) (hl : p.Live)
    (h : length ≤ p.cursor.writer - p.cursor.reader) :
    readText length .utf8 p = (Utf8.reading (p.bytesAt p.cursor.reader length),
      p.readOver length (Utf8.reading (p.bytesAt p.cursor.reader length))) := by
  have hreader := hp.cursor.reader_le
  have hwriter := hp.cursor.writer_le
  have hpeek : p.cursor.reader + length ≤ p.capacity := by omega
  refine (Action.bind_done (readingAt_of_le hp hl h)).trans ?_
  rw [Action.bind_apply, peekText_utf8 hp hl hpeek]
  rcases Utf8.reading (p.bytesAt p.cursor.reader length) with s | e | t
  · exact Action.bind_done (consume_apply hp h)
  · rfl
  · rfl

end Pane

namespace World

variable {w : World} {h : Handle} {p : Pane} {index length : Nat}

/-- How a call that answers a text ends, as the outcome of an operation. -/
def replies (outcome : Outcome Failure String) : Outcome Failure Reply :=
  outcome.map fun s => .answer (.text s)

theorem run_text (hp : w.pane? h = some p) {call : Call} {m : Pane.Task String}
    {outcome : Outcome Failure String} {p' : Pane}
    (hcall : call.run = do pure (.text (← m))) (hm : m p = (outcome, p')) :
    (Operation.call h call).run w = (replies outcome, w.store h p') := by
  rw [run_call hp, hcall, Action.bind_apply, hm]
  rcases outcome with s | e | t <;> rfl

theorem Sound.run_peekText (hw : w.Sound) (hp : w.pane? h = some p) (hl : p.Live)
    (hfit : index + length ≤ p.capacity) :
    (Operation.call h (.peekText index length .utf8)).run w =
      (replies (Utf8.reading (p.bytesAt index length)), w) := by
  rw [run_text hp rfl (Pane.peekText_utf8 (hw.pane hp) hl hfit), store_self hp]

theorem Sound.run_pokeText (hw : w.Sound) (hp : w.pane? h = some p) (hl : p.Live) {s : String}
    (hfit : index + (Utf8.encode s).length ≤ p.capacity) :
    (Operation.call h (.pokeText index s .utf8)).run w =
      (.done (.answer (.count (Utf8.encode s).length)),
        w.store h (p.overwrite index (Utf8.encode s))) := by
  have hrun : (Call.pokeText index s .utf8).run p =
      (.done (.count (Utf8.encode s).length), p.overwrite index (Utf8.encode s)) :=
    Action.bind_done (Pane.pokeText_utf8 (hw.pane hp) hl hfit)
  rw [run_call hp, hrun]
  rfl

/-- **Text access is exact**, through any handle of memory that was not released. Whatever the bytes of a
range in the window are, they are read as the text that is written as them, and writing this text back
changes nothing; if there is none, the codec refuses, and says how many of the bytes are whole characters
and what stands behind these (`Utf8.Malformed.Locates`). Where these bytes are the next ones to read,
reading at the cursor comes to the same. It moves the reader over the bytes if they are a text, and does
nothing else; a failure does nothing at all. A text that is written where there is room for it is read back
there. -/
theorem Reachable.text_exact (hw : w.Reachable) (hp : w.pane? h = some p) (hr : p.released = false) :
    (∀ index length, index + length ≤ p.capacity → ∃ bytes outcome,
      bytes.length = length ∧ Utf8.ReadsAs bytes outcome ∧
      (Operation.call h (.peekBytes index length)).run w = (.done (.answer (.bytes bytes)), w) ∧
      (Operation.call h (.peekText index length .utf8)).run w = (replies outcome, w) ∧
      (∀ s, outcome = .done s →
        (Operation.call h (.pokeText index s .utf8)).run w = (.done (.answer (.count length)), w)) ∧
      (p.cursor.reader = index → length ≤ p.cursor.writer - p.cursor.reader → ∃ w',
        (Operation.call h (.readText length .utf8)).run w = (replies outcome, w') ∧
        (∀ s, outcome = .done s →
          w' = w.store h (p.consumed length) ∧ w'.pane? h = some (p.consumed length)) ∧
        ((∀ s, outcome ≠ .done s) → w' = w))) ∧
    (∀ length, p.cursor.writer - p.cursor.reader < length →
      (Operation.call h (.readText length .utf8)).run w = (.failed (.outOfBounds
        (.unreadable p.cursor.reader length p.cursor.writer)), w)) ∧
    ∀ index s,
      let n := (Utf8.encode s).length
      let writing := Operation.call h (.pokeText index s .utf8)
      (index + n ≤ p.capacity → ∃ w', writing.run w = (.done (.answer (.count n)), w') ∧
        (Operation.call h (.peekText index n .utf8)).run w' = (.done (.answer (.text s)), w')) ∧
      (p.capacity < index + n →
        writing.run w = (.failed (.outOfBounds (.range index n p.capacity)), w)) := by
  have hs := hw.sound
  have hps := hs.pane hp
  have hl := hs.live_of_pane hp hr
  refine ⟨fun index length hfit => ?_, fun length hlt => ?_, fun index s => ⟨fun hfit => ?_,
    fun hlt => ?_⟩⟩
  · have hreads := Utf8.readsAs_reading (p.bytesAt index length)
    have hlength := Pane.length_bytesAt hps hl hfit
    refine ⟨_, _, hlength, hreads, run_peekBytes hp hps hl hfit, hs.run_peekText hp hl hfit,
      fun s hdone => ?_, fun hindex hread => ?_⟩
    · have hencode := (hreads.text s).1 hdone
      have hroom : index + (Utf8.encode s).length ≤ p.capacity := by rwa [hencode, hlength]
      have hwritten := hs.run_pokeText hp hl hroom
      rwa [hencode, Pane.overwrite_bytesAt hps hfit, store_self hp, hlength] at hwritten
    · subst hindex
      refine ⟨_, run_text hp rfl (Pane.readText_utf8 hps hl hread), fun s hdone => ?_, fun hnone => ?_⟩
      · rw [hdone]
        exact ⟨rfl, pane?_store_self hp (hps.evolves_consumed hread)⟩
      · rcases houtcome : Utf8.reading (p.bytesAt p.cursor.reader length) with s | e | t
        · exact absurd houtcome (hnone s)
        · exact store_self hp
        · exact store_self hp
  · have hrefused : Pane.readText length .utf8 p = (.failed (.outOfBounds
        (.unreadable p.cursor.reader length p.cursor.writer)), p) :=
      Action.bind_failed (Pane.readingAt_of_lt hps hl hlt)
    rw [run_text hp rfl hrefused, store_self hp]
    rfl
  · have he := hps.evolves_overwrite hfit
    have hp' := pane?_store_self hp he
    have hread := (hs.store hp he).run_peekText hp' (hl.of_evolves he) hfit
    have hindex : index ≤ p.capacity := Nat.le_trans (Nat.le_add_right _ _) hfit
    rw [Pane.bytesAt_overwrite hps hl hindex, Utf8.reading_encode] at hread
    exact ⟨_, hs.run_pokeText hp hl hfit, hread⟩
  · exact Action.bind_failed (through_refused hp (Action.bind_failed (Pane.pokeText_refused hl hlt)))

/-- The slice shows a text of three bytes, and behind it what a surrogate would be written as. The text is
read, and the reader moves over it. All six bytes are no text, since no character starts with 0xED 0xA0,
and the first two are none, since they end inside a character. A text can be written over the surrogate. -/
theorem text_exact_surrogate :
    let w := (World.start [.standard]).after [.allocate 0 8,
      .call (.owner 0) (.pokeBytes 0 [0, 0, 0x68, 0xC3, 0xA9, 0xED, 0xA0, 0x80]),
      .slice (.owner 0) 2 6]
    let reading := Operation.call (.view 0) (.readText 3 .utf8)
    let writing := Operation.call (.view 0) (.pokeText 3 "€" .utf8)
    (reading.run w).1 = .done (.answer (.text "hé")) ∧
      ((reading.run w).2.pane? (.view 0)).map (·.cursor.reader) = some 3 ∧
      (Operation.call (.view 0) (.peekText 0 6 .utf8)).run w =
        (.failed (.codec "UTF-8" (.malformed ⟨3, some 1⟩)), w) ∧
      (Operation.call (.view 0) (.peekText 0 2 .utf8)).run w =
        (.failed (.codec "UTF-8" (.malformed ⟨1, none⟩)), w) ∧
      ∃ w', writing.run w = (.done (.answer (.count 3)), w') ∧
        (Operation.call (.view 0) (.peekText 3 3 .utf8)).run w' =
          (.done (.answer (.text "€")), w') := by
  intro w reading writing
  have hp : w.pane? (.view 0) = some ⟨some [0, 0, 0x68, 0xC3, 0xA9, 0xED, 0xA0, 0x80], false, 2, 6,
      Cursor.holding 6, default⟩ := by rfl
  obtain ⟨hwindow, -, hwrite⟩ := Reachable.text_exact ⟨_, _, rfl⟩ hp rfl
  -- what a range with such a fault is refused with
  have hfault : ∀ {length content m}, length ≤ 6 →
      (Operation.call (.view 0) (.peekBytes 0 length)).run w =
        (.done (.answer (.bytes content)), w) → Utf8.decode content = .error m →
      (Operation.call (.view 0) (.peekText 0 length .utf8)).run w =
        (.failed (.codec "UTF-8" (.malformed m)), w) := by
    intro length content m hfit hbytes hdecode
    obtain ⟨bytes, outcome, -, hreads, hpeek, htext, -⟩ :=
      hwindow 0 length ((Nat.zero_add length).symm ▸ hfit)
    obtain rfl : content = bytes := by
      cases congrArg Prod.fst (hbytes.symm.trans hpeek)
      rfl
    obtain ⟨m', rfl, hlocates⟩ := hreads.fault fun s hs =>
      nomatch (Utf8.decode_eq_ok_iff.2 hs).symm.trans hdecode
    cases (Utf8.decode_eq_error_iff.2 hlocates).symm.trans hdecode
    exact htext
  obtain ⟨bytes, outcome, -, hreads, hpeek, -, -, hread⟩ := hwindow 0 3 (by decide)
  have hcontent : (Operation.call (.view 0) (.peekBytes 0 3)).run w =
      (.done (.answer (.bytes [0x68, 0xC3, 0xA9])), w) := by rfl
  obtain rfl : [0x68, 0xC3, 0xA9] = bytes := by
    cases congrArg Prod.fst (hcontent.symm.trans hpeek)
    rfl
  obtain rfl := (hreads.text "hé").2 (by decide)
  obtain ⟨w', hrun, hmoved, -⟩ := hread rfl (by decide)
  have hrun : reading.run w = (.done (.answer (.text "hé")), w') := hrun
  have hseen := (hmoved "hé" rfl).2
  refine ⟨?_, ?_, hfault (by decide) rfl rfl, hfault (by decide) rfl rfl, (hwrite 3 "€").1 (by decide)⟩
  · rw [hrun]
  · rw [hrun, hseen]
    rfl

end World

end PacketMemory
