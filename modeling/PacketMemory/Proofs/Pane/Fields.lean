import PacketMemory.Proofs.Pane.Footprint
import PacketMemory.Proofs.Pane.Released

/-!
# Fields of a record that are set

A call that sets a field of a record overwrites the bytes of this field and does nothing else
(`RecordCall.run_of_extent`). What it overwrites them with, or why it is refused, depends on the byte
order alone. The fields lie apart, so calls that set different fields commute (`RecordCall.run_comm`), and
each of them leaves the other fields of the header as they are (`RecordCall.recorded_overwrite`).
-/

namespace PacketMemory

/-! ## Words of a pane -/

namespace Pane

variable {p : Pane} {index other : Nat} {bytes : List UInt8} {word : BitVec 32}

/-- The header that the bytes at the start of the window make. -/
def recorded (p : Pane) : CaptureInfo :=
  ⟨.ofFields (p.wordAt CaptureRecord.secondsAt).toNat (p.wordAt CaptureRecord.microsAt).toNat,
    p.wordAt CaptureRecord.capturedAt, p.wordAt CaptureRecord.wireAt⟩

theorem Sound.evolves_word (hp : p.Sound) (h : index + 4 ≤ p.capacity) (word : BitVec 32) :
    p.Evolves (p.overwrite index ((Scalar.ofWord word).bytes p.order)) := by
  refine hp.evolves_overwrite ?_
  rw [Scalar.length_bytes_ofWord]
  exact h

/-- Two words, one behind the other. -/
theorem overwrite_words (hp : p.Sound) (h : index + 4 ≤ p.capacity) (word word' : BitVec 32) :
    (p.overwrite index ((Scalar.ofWord word).bytes p.order)).overwrite (index + 4)
        ((Scalar.ofWord word').bytes p.order) =
      p.overwrite index ((Scalar.ofWord word).bytes p.order ++ (Scalar.ofWord word').bytes p.order) := by
  have hlen := Scalar.length_bytes_ofWord p.order word
  have hboth := overwrite_behind hp (hlen.symm ▸ h) ((Scalar.ofWord word').bytes p.order)
  rwa [hlen] at hboth

theorem wordAt_overwrite_apart (hp : p.Sound) (hl : p.Live) (h : index ≤ p.capacity)
    (hother : other + 4 ≤ index ∨ index + bytes.length ≤ other) :
    (p.overwrite index bytes).wordAt other = p.wordAt other := by
  rw [wordAt, wordAt, bytesAt_overwrite_apart hp hl h hother]
  rfl

theorem wordAt_overwrite_self (hp : p.Sound) (hl : p.Live) (h : index + 4 ≤ p.capacity)
    (word : BitVec 32) :
    (p.overwrite index ((Scalar.ofWord word).bytes p.order)).wordAt index = word := by
  have hlen := Scalar.length_bytes_ofWord p.order word
  have he := hp.evolves_word h word
  refine (bytesAt_eq_iff (hp.of_evolves he) (hl.of_evolves he) h).1 ?_
  have hindex : index ≤ p.capacity := by omega
  rw [← hlen]
  exact bytesAt_overwrite hp hl hindex

end Pane

namespace RecordCall

variable {p : Pane} {call other : RecordCall} {start stop start' stop' : Nat} {order : ByteOrder}
variable {bytes : List UInt8}

/-! ## What is set -/

/-- The bytes of a record that a call sets: where they start, and where they stop. -/
def extent? : RecordCall → Option (Nat × Nat)
  | setTimestamp _ => some (0, 8)
  | setCaptured _ => some (8, 12)
  | setWire _ => some (12, 16)
  | _ => none

/-- What a call sets these bytes to, unless the record cannot hold it. -/
def image (order : ByteOrder) : RecordCall → Except Failure (List UInt8)
  | setTimestamp t =>
    match t.fields with
    | .ok (seconds, micros) =>
      .ok ((Scalar.ofWord seconds).bytes order ++ (Scalar.ofWord micros).bytes order)
    | .error e => .error e
  | setCaptured value | setWire value => .ok ((Scalar.ofWord value).bytes order)
  | _ => .ok []

/-- How a call that sets a field ends. -/
def verdict (order : ByteOrder) (call : RecordCall) : Outcome Failure Reply :=
  match call.image order with
  | .ok _ => .done .unit
  | .error e => .failed e

/-- The pane after a call that sets the bytes from `start` on. -/
def patched (start : Nat) (p : Pane) (call : RecordCall) : Pane :=
  match call.image p.order with
  | .ok bytes => p.overwrite start bytes
  | .error _ => p

/-- The header after a call, given the one before it. -/
def applied (info : CaptureInfo) : RecordCall → CaptureInfo
  | setTimestamp t => { info with timestamp := t.wholeMicros }
  | setCaptured value => { info with captured := value }
  | setWire value => { info with wire := value }
  | _ => info

/-- Different fields have no byte in common. -/
theorem extents_apart (h : call.extent? = some (start, stop))
    (h' : other.extent? = some (start', stop')) (hne : call.extent? ≠ other.extent?) :
    stop ≤ start' ∨ stop' ≤ start := by
  rw [h, h'] at hne
  cases call <;> cases h <;> cases other <;> cases h' <;>
    first | exact absurd rfl hne | decide

theorem stop_of_extent (h : call.extent? = some (start, stop))
    (hbytes : call.image order = .ok bytes) : start + bytes.length = stop ∧ stop ≤ 16 := by
  cases call with
  | setTimestamp t =>
    cases h
    rcases hfields : t.fields with e | ⟨seconds, micros⟩ <;> rw [image, hfields] at hbytes <;>
      cases hbytes
    rw [List.length_append, Scalar.length_bytes_ofWord, Scalar.length_bytes_ofWord]
    decide
  | setCaptured value | setWire value =>
    cases h
    cases hbytes
    rw [Scalar.length_bytes_ofWord]
    decide
  | _ => cases h

theorem patched_of_ok (h : call.image p.order = .ok bytes) :
    call.patched start p = p.overwrite start bytes := by
  rw [patched, h]

theorem patched_of_error {e : Failure} (h : call.image p.order = .error e) :
    call.patched start p = p := by
  rw [patched, h]

theorem order_patched : (call.patched start p).order = p.order := by
  rw [patched]
  split <;> rfl

theorem evolves_patched (hp : p.Sound) (hsize : CaptureRecord.size ≤ p.capacity)
    (h : call.extent? = some (start, stop)) : p.Evolves (call.patched start p) := by
  rcases himage : call.image p.order with e | bytes
  · rw [patched_of_error himage]
    exact hp.evolves_refl
  · obtain ⟨hstop, hlast⟩ := stop_of_extent h himage
    rw [patched_of_ok himage]
    refine hp.evolves_overwrite ?_
    rw [hstop]
    exact Nat.le_trans hlast hsize

/-- **A call that sets a field overwrites the bytes of the field**, unless the record cannot hold the
value. -/
theorem run_of_extent (hp : p.Sound) (hl : p.Live) (hsize : CaptureRecord.size ≤ p.capacity)
    (h : call.extent? = some (start, stop)) :
    call.run p = (call.verdict p.order, call.patched start p) := by
  have hset : ∀ (index : Nat) (value : BitVec 32), index + 4 ≤ CaptureRecord.size →
      CaptureRecord.setField index value p =
        (.done (), p.overwrite index ((Scalar.ofWord value).bytes p.order)) := fun index value hi =>
    CaptureRecord.setField_apply hp hl (Nat.le_trans hi hsize) value
  cases call with
  | setTimestamp t =>
    cases h
    rcases hfields : t.fields with e | ⟨seconds, micros⟩
    · have hfailed : CaptureRecord.setTimestamp t p = (.failed e, p) := by
        rw [CaptureRecord.setTimestamp, hfields]
        rfl
      rw [verdict, patched, image, hfields]
      exact Action.bind_failed hfailed
    · have hfirst : 0 + 4 ≤ p.capacity := Nat.le_trans (by decide) hsize
      have hbehind : CaptureRecord.microsAt + 4 ≤ p.capacity := Nat.le_trans (by decide) hsize
      have he := hp.evolves_word hfirst seconds
      have hsecond := CaptureRecord.setField_apply (hp.of_evolves he) (hl.of_evolves he) hbehind micros
      have hboth : CaptureRecord.setTimestamp t p = (.done (), p.overwrite 0
          ((Scalar.ofWord seconds).bytes p.order ++ (Scalar.ofWord micros).bytes p.order)) := by
        rw [CaptureRecord.setTimestamp, hfields, Action.ofExcept_ok, pure_bind,
          ← Pane.overwrite_words hp hfirst]
        exact (Action.bind_done (hset 0 seconds (by decide))).trans hsecond
      rw [verdict, patched, image, hfields]
      exact Action.bind_done hboth
  | setCaptured value | setWire value =>
    cases h
    exact Action.bind_done (hset _ value (by decide))
  | _ => cases h

/-- Different fields can be overwritten in either order. -/
theorem patched_comm (hp : p.Sound) (hsize : CaptureRecord.size ≤ p.capacity)
    (h : call.extent? = some (start, stop)) (h' : other.extent? = some (start', stop'))
    (hne : call.extent? ≠ other.extent?) :
    other.patched start' (call.patched start p) = call.patched start (other.patched start' p) := by
  -- neither call changes the byte order, so each has the same bytes to put before and after the other
  have horder : (other.patched start' p).order = p.order := order_patched
  have horder' : (call.patched start p).order = p.order := order_patched
  rcases himage : call.image p.order with e | xs
  · have hlate : call.image (other.patched start' p).order = .error e := by rw [horder, himage]
    rw [patched_of_error hlate, patched_of_error himage]
  have hlate : call.image (other.patched start' p).order = .ok xs := by rw [horder, himage]
  rcases himage' : other.image p.order with e' | ys
  · have hlate' : other.image (call.patched start p).order = .error e' := by rw [horder', himage']
    rw [patched_of_error hlate', patched_of_error himage']
  have hlate' : other.image (call.patched start p).order = .ok ys := by rw [horder', himage']
  obtain ⟨hstop, hlast⟩ := stop_of_extent h himage
  obtain ⟨hstop', hlast'⟩ := stop_of_extent h' himage'
  rw [patched_of_ok hlate, patched_of_ok hlate', patched_of_ok himage, patched_of_ok himage']
  simp only [CaptureRecord.size] at hsize
  rcases extents_apart h h' hne with hapart | hapart
  · exact Pane.overwrite_comm hp (by omega) (by omega) ys
  · exact (Pane.overwrite_comm hp (by omega) (by omega) xs).symm

/-- **Calls that set different fields commute**, and neither has an influence on how the other one ends. -/
theorem run_comm (hp : p.Sound) (hsize : CaptureRecord.size ≤ p.capacity)
    (h : call.extent? = some (start, stop)) (h' : other.extent? = some (start', stop'))
    (hne : call.extent? ≠ other.extent?) :
    ∃ p', other.run (call.run p).2 = ((other.run p).1, p') ∧
      call.run (other.run p).2 = ((call.run p).1, p') := by
  by_cases hl : p.Live
  · have hrun : ∀ {c : RecordCall} {first last : Nat} (q : Pane), c.extent? = some (first, last) →
        p.Evolves q → q.order = p.order → c.run q = (c.verdict p.order, c.patched first q) :=
      fun q hc he ho => ho ▸ run_of_extent (hp.of_evolves he) (hl.of_evolves he)
        (he.capacity.symm ▸ hsize) hc
    rw [hrun p h hp.evolves_refl rfl, hrun p h' hp.evolves_refl rfl,
      hrun _ h (evolves_patched hp hsize h') order_patched,
      hrun _ h' (evolves_patched hp hsize h) order_patched, patched_comm hp hsize h h' hne]
    exact ⟨_, rfl, rfl⟩
  · exact ⟨p, by rw [run_of_not_live hl, run_of_not_live hl],
      by rw [run_of_not_live hl, run_of_not_live hl]⟩

/-! ## What is read afterwards -/

/-- The seconds and the microseconds are put one behind the other, apart from the other fields. -/
theorem recorded_timestamp (hp : p.Sound) (hl : p.Live) (hsize : CaptureRecord.size ≤ p.capacity)
    (seconds micros : BitVec 32) :
    let p' := p.overwrite 0
      ((Scalar.ofWord seconds).bytes p.order ++ (Scalar.ofWord micros).bytes p.order)
    p'.recorded =
        { p.recorded with timestamp := .ofFields seconds.toNat micros.toNat } ∧
      p'.wordAt CaptureRecord.microsAt = micros := by
  intro p'
  have hlen := Scalar.length_bytes_ofWord p.order
  have hbelow : ∀ {index}, index ≤ CaptureRecord.size → index ≤ p.capacity := fun hi =>
    Nat.le_trans hi hsize
  have hfirst : 0 + 4 ≤ p.capacity := hbelow (by decide)
  have he := hp.evolves_word hfirst seconds
  have hq := hp.of_evolves he
  have hlq := hl.of_evolves he
  have hp' : p' = (p.overwrite 0 ((Scalar.ofWord seconds).bytes p.order)).overwrite 4
      ((Scalar.ofWord micros).bytes p.order) :=
    (Pane.overwrite_words hp hfirst seconds micros).symm
  have hseconds : p'.wordAt CaptureRecord.secondsAt = seconds := by
    rw [hp', Pane.wordAt_overwrite_apart hq hlq (hbelow (by decide)) (.inl (by decide))]
    exact Pane.wordAt_overwrite_self hp hl hfirst seconds
  have hmicros : p'.wordAt CaptureRecord.microsAt = micros := by
    rw [hp']
    exact Pane.wordAt_overwrite_self hq hlq (hbelow (by decide)) micros
  have hothers : ∀ {index}, 8 ≤ index → p'.wordAt index = p.wordAt index := by
    intro index hi
    have hbehind : 0 + ((Scalar.ofWord seconds).bytes p.order).length ≤ index := by
      rw [hlen]
      omega
    have hbehind' : 4 + ((Scalar.ofWord micros).bytes p.order).length ≤ index := by
      rw [hlen]
      omega
    rw [hp', Pane.wordAt_overwrite_apart hq hlq (hbelow (by decide)) (.inr hbehind'),
      Pane.wordAt_overwrite_apart hp hl (Nat.zero_le _) (.inr hbehind)]
  refine ⟨?_, hmicros⟩
  rw [Pane.recorded, hseconds, hmicros, hothers (by decide), hothers (by decide)]
  rfl

/-- **A call that sets a field sets no other one.** -/
theorem recorded_overwrite (hp : p.Sound) (hl : p.Live) (hsize : CaptureRecord.size ≤ p.capacity)
    (h : call.extent? = some (start, stop)) (hbytes : call.image p.order = .ok bytes) :
    (p.overwrite start bytes).recorded = call.applied p.recorded := by
  have hlen := Scalar.length_bytes_ofWord p.order
  have hbelow : ∀ {index}, index ≤ CaptureRecord.size → index ≤ p.capacity := fun hi =>
    Nat.le_trans hi hsize
  cases call with
  | setTimestamp t =>
    cases h
    rcases hfields : t.fields with e | ⟨seconds, micros⟩ <;> rw [image, hfields] at hbytes <;>
      cases hbytes
    obtain ⟨hrecorded, -⟩ := recorded_timestamp hp hl hsize seconds micros
    rw [hrecorded, applied, (Timestamp.ofFields_fields hfields).1]
  | setCaptured value =>
    cases h
    cases hbytes
    have hother : ∀ {index}, index + 4 ≤ 8 ∨ 12 ≤ index →
        (p.overwrite 8 ((Scalar.ofWord value).bytes p.order)).wordAt index = p.wordAt index :=
      fun hi => Pane.wordAt_overwrite_apart hp hl (hbelow (by decide)) (by rw [hlen]; exact hi)
    have hself : (p.overwrite 8 ((Scalar.ofWord value).bytes p.order)).wordAt
        CaptureRecord.capturedAt = value :=
      Pane.wordAt_overwrite_self hp hl (hbelow (by decide)) value
    rw [Pane.recorded, hother (.inl (by decide)), hother (.inl (by decide)), hself,
      hother (.inr (by decide))]
    rfl
  | setWire value =>
    cases h
    cases hbytes
    have hother : ∀ {index}, index + 4 ≤ 12 →
        (p.overwrite 12 ((Scalar.ofWord value).bytes p.order)).wordAt index = p.wordAt index :=
      fun hi => Pane.wordAt_overwrite_apart hp hl (hbelow (by decide)) (.inl hi)
    have hself : (p.overwrite 12 ((Scalar.ofWord value).bytes p.order)).wordAt
        CaptureRecord.wireAt = value :=
      Pane.wordAt_overwrite_self hp hl (hbelow (by decide)) value
    rw [Pane.recorded, hother (by decide), hother (by decide), hother (by decide), hself]
    rfl
  | _ => cases h

end RecordCall

end PacketMemory
