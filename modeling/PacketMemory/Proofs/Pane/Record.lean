import PacketMemory.Proofs.Pane.Checks

/-!
# Capture records in panes

A timestamp becomes two fields of a record, and the fields a timestamp. Both ways, nothing is lost but
what is less than a microsecond (`Timestamp.fields_of_inRange`, `Timestamp.fields_ofFields`).

A record is four numbers, one behind the other. Its bytes are there if its fields are, and the other
way round (`CaptureRecord.bytesAt_image_iff`); so what `CaptureInfo.write` writes, at one go, is what
`CaptureRecord.header` reads field by field.
-/

namespace PacketMemory

/-! ## Points in time -/

namespace Timestamp

/-- The point in time, rounded down to whole microseconds. -/
def wholeMicros (t : Timestamp) : Timestamp := ⟨t.nanos / 1000 * 1000⟩

/-- Whole seconds from the epoch on, as far as 32 bits count them. -/
def InRange (t : Timestamp) : Prop := 0 ≤ t.nanos ∧ t.nanos < secondsLimit * nanosPerSecond

instance (t : Timestamp) : Decidable t.InRange := inferInstanceAs (Decidable (_ ∧ _))

theorem seconds_ofNat (n : Nat) : seconds ⟨n⟩ = (n / nanosPerSecond : Nat) :=
  (Int.ofNat_fdiv n nanosPerSecond).symm

theorem subsecond_ofNat (n : Nat) : subsecond ⟨n⟩ = n % nanosPerSecond := by
  rw [subsecond, ← Int.ofNat_fmod, Int.toNat_natCast]

/-- From the epoch on, the seconds and the microseconds of a point in time are its digits. -/
theorem fields_ofNat (n : Nat) :
    fields ⟨n⟩ = if n / nanosPerSecond < secondsLimit then
      .ok (BitVec.ofNat 32 (n / nanosPerSecond), BitVec.ofNat 32 (n % nanosPerSecond / 1000))
    else
      .error (.illegalArgument .secondsRange) := by
  unfold fields
  rw [if_neg (Int.not_lt.2 (Int.natCast_nonneg n)), seconds_ofNat, subsecond_ofNat]
  rfl

/-- A timestamp outside of the range has no fields. -/
theorem fields_of_not_inRange {t : Timestamp} (h : ¬t.InRange) :
    ∃ why, t.fields = .error (.illegalArgument why) := by
  obtain ⟨nanos⟩ := t
  by_cases hneg : nanos < 0
  · exact ⟨_, if_pos hneg⟩
  · obtain ⟨n, rfl⟩ := Int.eq_ofNat_of_zero_le (Int.not_lt.1 hneg)
    refine ⟨_, (fields_ofNat n).trans (if_neg fun hlt => h ⟨Int.natCast_nonneg n, ?_⟩)⟩
    exact Int.ofNat_lt.2 ((Nat.div_lt_iff_lt_mul (by decide)).1 hlt)

/-- **The fields of a timestamp in range stand for it**, down to whole microseconds. -/
theorem fields_of_inRange {t : Timestamp} (h : t.InRange) :
    ∃ seconds micros : BitVec 32, t.fields = .ok (seconds, micros) ∧
      micros.toNat < microsPerSecond ∧ ofFields seconds.toNat micros.toNat = t.wholeMicros := by
  obtain ⟨nanos⟩ := t
  obtain ⟨hpos, hlt⟩ := h
  obtain ⟨n, rfl⟩ := Int.eq_ofNat_of_zero_le hpos
  have hlt : n < secondsLimit * nanosPerSecond := Int.ofNat_lt.1 hlt
  have hseconds : n / nanosPerSecond < secondsLimit := Nat.div_lt_of_lt_mul (by
    rwa [Nat.mul_comm])
  have hmicros : n % nanosPerSecond / 1000 < microsPerSecond := by
    simp only [nanosPerSecond, microsPerSecond]
    omega
  have hwide : microsPerSecond < secondsLimit := by decide
  have hword : ∀ {k : Nat}, k < secondsLimit → (BitVec.ofNat 32 k).toNat = k := fun hk =>
    (BitVec.toNat_ofNat _ _).trans (Nat.mod_eq_of_lt hk)
  refine ⟨_, _, (fields_ofNat n).trans (if_pos hseconds), ?_⟩
  rw [hword hseconds, hword (Nat.lt_trans hmicros hwide)]
  refine ⟨hmicros, ?_⟩
  -- the seconds and the microseconds together are the whole microseconds
  have hsum : n / nanosPerSecond * nanosPerSecond + n % nanosPerSecond / 1000 * 1000 =
      n / 1000 * 1000 := by
    simp only [nanosPerSecond]
    omega
  rw [ofFields, hsum]
  rfl

/-- What has fields is in range, so they stand for it. -/
theorem ofFields_fields {t : Timestamp} {seconds micros : BitVec 32}
    (h : t.fields = .ok (seconds, micros)) :
    ofFields seconds.toNat micros.toNat = t.wholeMicros ∧ micros.toNat < microsPerSecond := by
  have hin : t.InRange := by
    refine Classical.byContradiction fun hout => ?_
    obtain ⟨e, he⟩ := fields_of_not_inRange hout
    cases he.symm.trans h
  obtain ⟨seconds', micros', hfields, hmicros, hback⟩ := fields_of_inRange hin
  cases h.symm.trans hfields
  exact ⟨hback, hmicros⟩

/-- The microseconds carry into the seconds. -/
theorem seconds_ofFields (seconds micros : Nat) :
    (ofFields seconds micros).seconds = (seconds + micros / microsPerSecond : Nat) := by
  rw [ofFields, seconds_ofNat]
  simp only [nanosPerSecond, microsPerSecond]
  omega

theorem subsecond_ofFields (seconds micros : Nat) :
    (ofFields seconds micros).subsecond = micros % microsPerSecond * 1000 := by
  rw [ofFields, subsecond_ofNat]
  simp only [nanosPerSecond, microsPerSecond]
  omega

/-- **Fields make a timestamp with these fields**, as long as the microseconds do not exceed a
second. -/
theorem fields_ofFields {seconds micros : BitVec 32} (h : micros.toNat < microsPerSecond) :
    (ofFields seconds.toNat micros.toNat).fields = .ok (seconds, micros) := by
  have hbelow : micros.toNat * 1000 < nanosPerSecond := by
    simp only [nanosPerSecond, microsPerSecond] at h ⊢
    omega
  have hdiv : (seconds.toNat * nanosPerSecond + micros.toNat * 1000) / nanosPerSecond =
      seconds.toNat := by
    rw [Nat.add_comm, Nat.add_mul_div_right _ _ (by decide), Nat.div_eq_of_lt hbelow, Nat.zero_add]
  have hmod : (seconds.toNat * nanosPerSecond + micros.toNat * 1000) % nanosPerSecond =
      micros.toNat * 1000 := by
    rw [Nat.add_comm, Nat.add_mul_mod_self_right, Nat.mod_eq_of_lt hbelow]
  have hseconds : seconds.toNat < secondsLimit := seconds.isLt
  unfold ofFields
  rw [fields_ofNat, hdiv, hmod, if_pos hseconds, Nat.mul_div_cancel _ (by decide)]
  simp only [BitVec.ofNat_toNat, BitVec.setWidth_eq]

end Timestamp

/-! ## The fields of a record -/

namespace Pane

/-- The 32-bit number at an index. -/
def wordAt (p : Pane) (index : Nat) : BitVec 32 :=
  BitVec.ofNat 32 (Scalar.ofBytes .uint32 p.order (p.bytesAt index 4)).toNat

variable {p : Pane} {index : Nat}

theorem toNat_wordAt : (p.wordAt index).toNat = p.numberAt .uint32 index :=
  congrArg Scalar.toNat (Scalar.ofWord_ofNat_toNat (Scalar.type_ofBytes .uint32 p.order _))

/-- A number of 32 bits stands where its bytes stand. -/
theorem bytesAt_eq_iff (hp : p.Sound) (hl : p.Live) (h : index + 4 ≤ p.capacity)
    {word : BitVec 32} :
    p.bytesAt index 4 = (Scalar.ofWord word).bytes p.order ↔ p.wordAt index = word := by
  have hlen := length_bytesAt hp hl h
  constructor
  · intro hbytes
    have hread := Scalar.ofBytes_bytes p.order (Scalar.ofWord word)
    rw [← hbytes] at hread
    exact (congrArg (fun v : Scalar => BitVec.ofNat 32 v.toNat) hread).trans
      (Scalar.ofNat_toNat_ofWord word)
  · rintro rfl
    rw [wordAt, Scalar.ofWord_ofNat_toNat (Scalar.type_ofBytes _ _ _),
      Scalar.bytes_ofBytes p.order hlen]

end Pane

namespace CaptureRecord

/-- The bytes of a record with these fields. -/
def image (order : ByteOrder) (seconds micros captured wire : BitVec 32) : List UInt8 :=
  (Scalar.ofWord seconds).bytes order ++ ((Scalar.ofWord micros).bytes order ++
    ((Scalar.ofWord captured).bytes order ++ (Scalar.ofWord wire).bytes order))

variable {p : Pane} {index : Nat} {seconds micros captured wire : BitVec 32}

theorem length_image (order : ByteOrder) :
    (image order seconds micros captured wire).length = size := by
  simp only [image, List.length_append, Scalar.length_bytes_ofWord, size]

/-- **A record is there if its fields are.** -/
theorem bytesAt_image_iff (hp : p.Sound) (hl : p.Live) (h : size ≤ p.capacity) :
    p.bytesAt 0 size = image p.order seconds micros captured wire ↔
      p.wordAt secondsAt = seconds ∧ p.wordAt microsAt = micros ∧
        p.wordAt capturedAt = captured ∧ p.wordAt wireAt = wire := by
  have hparts : p.bytesAt 0 size = p.bytesAt 0 4 ++ (p.bytesAt 4 4 ++
      (p.bytesAt 8 4 ++ p.bytesAt 12 4)) := by
    rw [← Pane.bytesAt_add, ← Pane.bytesAt_add, ← Pane.bytesAt_add]
    rfl
  have hword : ∀ {index} {word : BitVec 32}, index + 4 ≤ size →
      (p.bytesAt index 4 = (Scalar.ofWord word).bytes p.order ↔ p.wordAt index = word) :=
    fun hi => Pane.bytesAt_eq_iff hp hl (Nat.le_trans hi h)
  have hsplit : ∀ {index} {word : BitVec 32} {xs ys}, index + 4 ≤ size →
      (p.bytesAt index 4 ++ xs = (Scalar.ofWord word).bytes p.order ++ ys ↔
        p.wordAt index = word ∧ xs = ys) := by
    intro index word xs ys hi
    have hlen : (p.bytesAt index 4).length = ((Scalar.ofWord word).bytes p.order).length := by
      rw [Pane.length_bytesAt hp hl (Nat.le_trans hi h), Scalar.length_bytes_ofWord]
    rw [List.append_eq_append_iff_of_size_eq_left hlen, hword hi]
  rw [hparts, image, hsplit (by decide), hsplit (by decide), hsplit (by decide),
    hword (by decide)]
  rfl

theorem field_apply (hp : p.Sound) (hl : p.Live) (h : index + 4 ≤ p.capacity) :
    field index p = (.done (p.wordAt index), p) :=
  Action.bind_done (Pane.peekScalar_apply hp hl .uint32 h false)

theorem setField_apply (hp : p.Sound) (hl : p.Live) (h : index + 4 ≤ p.capacity)
    (value : BitVec 32) :
    setField index value p = (.done (), p.overwrite index ((Scalar.ofWord value).bytes p.order)) :=
  Pane.pokeScalar_apply hp hl h false

theorem timestamp_apply (hp : p.Sound) (hl : p.Live) (h : size ≤ p.capacity) :
    timestamp p = (.done (.ofFields (p.wordAt secondsAt).toNat (p.wordAt microsAt).toNat), p) :=
  (Action.bind_done (field_apply hp hl (Nat.le_trans (by decide) h))).trans
    (Action.bind_done (field_apply hp hl (Nat.le_trans (by decide) h)))

theorem header_apply (hp : p.Sound) (hl : p.Live) (h : size ≤ p.capacity) :
    header p = (.done ⟨.ofFields (p.wordAt secondsAt).toNat (p.wordAt microsAt).toNat,
      p.wordAt capturedAt, p.wordAt wireAt⟩, p) := by
  refine (Action.bind_done (timestamp_apply hp hl h)).trans ?_
  refine (Action.bind_done (field_apply hp hl (Nat.le_trans (by decide) h))).trans ?_
  exact Action.bind_done (field_apply hp hl (Nat.le_trans (by decide) h))

end CaptureRecord

namespace CaptureInfo

variable {p : Pane} {info : CaptureInfo} {seconds micros : BitVec 32}

/-- **A header in range is written as a record.** -/
theorem write_apply (hp : p.Sound) (hl : p.Live)
    (h : CaptureRecord.size ≤ p.capacity - p.cursor.writer)
    (hfields : info.timestamp.fields = .ok (seconds, micros)) :
    info.write p = (.done (), p.appended
      (CaptureRecord.image p.order seconds micros info.captured info.wire)) := by
  have hcheck : Pane.checkWritable CaptureRecord.size p = (.done (), p) := by
    refine (Action.bind_done (Pane.checkLive_of_live hl)).trans ?_
    exact Pane.onCursor_query (Cursor.checkWritable_of_le hp.cursor.writer_le h)
  have happend : ∀ (xs : List UInt8) (word : BitVec 32), xs.length + 4 ≤ CaptureRecord.size →
      Pane.appendScalar (Scalar.ofWord word) false (p.appended xs) =
        (.done (), p.appended (xs ++ (Scalar.ofWord word).bytes p.order)) := fun _ _ hx =>
    Pane.appendScalar_appended hp hl (Nat.le_trans hx h)
  have hfirst := happend [] seconds (by decide)
  rw [Pane.appended_nil, List.nil_append] at hfirst
  have hlen : ∀ word, ((Scalar.ofWord word).bytes p.order).length = 4 :=
    Scalar.length_bytes_ofWord p.order
  unfold write
  rw [hfields, Action.ofExcept_ok, pure_bind]
  refine (Action.bind_done hcheck).trans ?_
  -- each field goes behind the ones before it
  refine (Action.bind_done hfirst).trans ?_
  refine (Action.bind_done (happend _ micros (by simp [hlen, CaptureRecord.size]))).trans ?_
  refine (Action.bind_done (happend _ info.captured (by simp [hlen, CaptureRecord.size]))).trans ?_
  rw [happend _ info.wire (by simp [hlen, CaptureRecord.size])]
  simp only [CaptureRecord.image, List.append_assoc]

/-- A header out of range is not written. -/
theorem write_of_error {e : Failure} (hfields : info.timestamp.fields = .error e) :
    info.write p = (.failed e, p) := by
  unfold write
  rw [hfields]
  rfl

end CaptureInfo

namespace CaptureRecord

variable {p : Pane}

/-! ## The overlay -/

/-- Why bytes with that many microseconds are not taken for a record. -/
def refusal (micros : Nat) : Cause :=
  .words ("timestamp microseconds " ++ toString micros ++ " exceed one second")

/-- **Bytes are taken for a record** if the microseconds do not exceed a second. -/
theorem overlay_apply (hp : p.Sound) (hl : p.Live) (h : size ≤ p.capacity) :
    overlay.check.run p =
      (if (p.wordAt microsAt).toNat < microsPerSecond then .done ()
        else .failed (refusal (p.wordAt microsAt).toNat), p) := by
  have hmicros : microsAt + ScalarType.uint32.size ≤ p.capacity := Nat.le_trans (by decide) h
  rw [Pane.toNat_wordAt]
  dsimp only [overlay]
  rw [Check.run_number_of_le hp hl hmicros, Check.run_insist]
  rfl

end CaptureRecord

end PacketMemory
