import PacketMemory.Proofs.Pane.Calls
import PacketMemory.Proofs.Pane.Sequential

/-!
# What calls demand

Most calls demand one thing of the handle: that some bytes lie in the window, that so many bytes are
readable, or that there is room for so many bytes (`Call.demand?`). A `Demand` is `Met` or not, as a
matter of unbounded numbers, and its `check`, whose sums and differences are those of machine words,
comes out accordingly (`Demand.check_of_met`, `Demand.check_of_not_met`).

The main statement is `Call.run_ends`. It says exactly how a call with a demand ends on live memory:
with the failure of a text that cannot be encoded, else with that of the demand, else with that of
bytes that cannot be decoded, and with an answer if there is none of these.
-/

namespace PacketMemory

/-- What a call demands of the window or of the cursor of its handle. -/
inductive Demand where
  /-- that these bytes lie in the window -/
  | range (index length : Nat)
  /-- that so many bytes are readable -/
  | readable (length : Nat)
  /-- that there is room for so many bytes -/
  | writable (length : Nat)
  deriving DecidableEq, Repr

namespace Demand

/-- The pane has what is demanded. -/
def Met (p : Pane) : Demand → Prop
  | range index length => index + length ≤ p.capacity
  | readable length => length ≤ p.cursor.writer - p.cursor.reader
  | writable length => length ≤ p.capacity - p.cursor.writer

instance (p : Pane) : (d : Demand) → Decidable (d.Met p)
  | range _ _ | readable _ | writable _ => inferInstanceAs (Decidable (_ ≤ _))

/-- What is out of bounds if the pane does not have it. -/
def refusal (p : Pane) : Demand → OutOfBounds
  | range index length => .range index length p.capacity
  | readable length => .unreadable p.cursor.reader length p.cursor.writer
  | writable length => .unwritable p.cursor.writer length p.capacity

/-- The check of the demand: of a range, that of access at an index, and of the others, that of the
cursor. -/
def check : Demand → Pane.Task Unit
  | range index length => Pane.checkRange index length
  | readable length => Pane.onCursor (Cursor.checkReadable length)
  | writable length => do
    let p ← Action.state
    Pane.onCursor (Cursor.checkWritable length p.capacity)

/-- What is said against a call with this demand, if `rest` is said against it once the demand is
met. -/
def objection (p : Pane) (d : Demand) (rest : Option Failure) : Option Failure :=
  if d.Met p then rest else some (.outOfBounds (d.refusal p))

variable {p : Pane} {d : Demand} {rest : Option Failure}

theorem objection_of_met (h : d.Met p) : d.objection p rest = rest := if_pos h

theorem objection_of_not_met (h : ¬d.Met p) :
    d.objection p rest = some (.outOfBounds (d.refusal p)) := if_neg h

theorem objection_none_iff : d.objection p none = none ↔ d.Met p := by
  by_cases h : d.Met p
  · simp only [objection_of_met h, h]
  · simp only [objection_of_not_met h, h, reduceCtorEq]

/-- **The check of a demand that is met passes.** Its sums and differences fit a machine word, since
a sound pane ends within one. -/
theorem check_of_met (hp : p.Sound) (hl : p.Live) (h : d.Met p) : d.check p = (.done (), p) := by
  have hs := hp.small
  cases d with
  | range index length => exact Pane.checkRange_of_le hl (by omega) h
  | readable length =>
    exact Pane.onCursor_query (Cursor.checkReadable_of_le hp.cursor.reader_le h)
  | writable length =>
    exact Pane.onCursor_query (Cursor.checkWritable_of_le hp.cursor.writer_le h)

/-- A demand that is not met is refused before anything is touched. The sum of a range may run over,
which is a refusal, too. -/
theorem check_of_not_met (hp : p.Sound) (hl : p.Live) (h : ¬d.Met p) :
    d.check p = (.failed (.outOfBounds (d.refusal p)), p) := by
  cases d with
  | range index length => exact Pane.checkRange_of_lt hl (Nat.lt_of_not_le h)
  | readable length =>
    have hc := Cursor.checkReadable_of_lt hp.cursor.reader_le (Nat.lt_of_not_le h)
    rw [check, Pane.onCursor, Action.within_apply, hc]
    rfl
  | writable length =>
    have hc := Cursor.checkWritable_of_lt hp.cursor.writer_le (Nat.lt_of_not_le h)
    rw [check, Action.state_bind_apply, Pane.onCursor, Action.within_apply, hc]
    rfl

/-- The check ends as the demand has it. -/
theorem check_ends (hp : p.Sound) (hl : p.Live) (d : Demand) :
    Action.Ends d.check p (d.objection p none) := by
  by_cases h : d.Met p
  · rw [objection_of_met h]
    exact .of_done (check_of_met hp hl h)
  · rw [objection_of_not_met h]
    exact check_of_not_met hp hl h

/-- What is readable lies in the window. -/
theorem range_of_readable (hp : p.Sound) {length : Nat} (h : (readable length).Met p) :
    (range p.cursor.reader length).Met p := by
  have hr := hp.cursor.reader_le
  have hw := hp.cursor.writer_le
  have h : length ≤ p.cursor.writer - p.cursor.reader := h
  show p.cursor.reader + length ≤ p.capacity
  omega

/-- What there is room for lies in the window. -/
theorem range_of_writable (hp : p.Sound) {length : Nat} (h : (writable length).Met p) :
    (range p.cursor.writer length).Met p := by
  have hw := hp.cursor.writer_le
  have h : length ≤ p.capacity - p.cursor.writer := h
  show p.cursor.writer + length ≤ p.capacity
  omega

end Demand

/-- What a codec has against a conversion. -/
def Codec.objection {α : Type} (codec : Codec) : Except Cause α → Option Failure
  | .ok _ => none
  | .error cause => some (.codec codec.name cause)

/-- A conversion ends as the codec has it, and the name of the codec is on the failure. -/
theorem Codec.convert_ends {α : Type} {p : Pane} (codec : Codec) (r : Except Cause α) :
    Action.Ends (Action.ofExcept (r.mapError (Failure.codec codec.name)) : Pane.Task α) p
      (codec.objection r) := by
  cases r with
  | ok a => exact .of_done rfl
  | error cause => rfl

namespace Pane

variable {α β : Type} {p : Pane} {d : Demand} {o : Option Failure} {index length : Nat}

/-! ## Access at an index -/

/-- A check in front decides between the failure of the demand and what follows. -/
theorem ends_of_check {m : Task α} {f : α → Task β} {a : α}
    (hmet : d.Met p → m p = (.done a, p))
    (hnot : ¬d.Met p → m p = (.failed (.outOfBounds (d.refusal p)), p))
    (hf : d.Met p → Action.Ends (f a) p o) : Action.Ends (m >>= f) p (d.objection p o) := by
  by_cases h : d.Met p
  · rw [Demand.objection_of_met h]
    exact .after (hmet h) (hf h)
  · rw [Demand.objection_of_not_met h]
    exact Action.bind_failed (hnot h)

/-- What follows the check of a range relies on the range. -/
theorem checkRange_ends {f : Unit → Task β} (hp : p.Sound) (hl : p.Live)
    (hf : index + length ≤ p.capacity → Action.Ends (f ()) p o) :
    Action.Ends (checkRange index length >>= f) p ((Demand.range index length).objection p o) :=
  ends_of_check (Demand.check_of_met hp hl) (Demand.check_of_not_met hp hl) hf

theorem peekBytes_ends (hp : p.Sound) (hl : p.Live) (index length : Nat) :
    Action.Ends (peekBytes index length) p ((Demand.range index length).objection p none) :=
  checkRange_ends hp hl fun h => .of_done (fetch_apply hp hl h)

/-- A number demands as many bytes as its type has, in either byte order. -/
theorem peekScalar_ends (hp : p.Sound) (hl : p.Live) (type : ScalarType) (index : Nat)
    (reversed : Bool) :
    Action.Ends (peekScalar type index reversed) p
      ((Demand.range index type.size).objection p none) := by
  refine .after (effectiveOrder_apply reversed) (checkRange_ends hp hl fun h => ?_)
  exact .after (fetch_apply hp hl h) (.of_done rfl)

/-- Bytes that are there may still be no text. -/
theorem peekText_ends (hp : p.Sound) (hl : p.Live) (index length : Nat) (codec : Codec) :
    Action.Ends (peekText index length codec) p ((Demand.range index length).objection p
      (codec.objection (codec.decode (p.bytesAt index length)))) := by
  refine ends_of_check (fun h => peekBytes_apply hp hl h) (fun h => ?_)
    fun _ => codec.convert_ends _
  exact Action.bind_failed (Demand.check_of_not_met hp hl h)

/-- A search demands what lies between its bounds, whichever of them comes first. That nothing is
found is an answer and no failure. -/
theorem find_ends (hp : p.Sound) (hl : p.Live) (start stop : Nat) (value : UInt8) :
    Action.Ends (find start stop value) p
      ((Demand.range (min start stop) (max start stop - min start stop)).objection p none) := by
  rcases Nat.lt_or_ge p.capacity (max start stop) with h | h
  · rw [Demand.objection_of_not_met (Nat.not_le.2 (by omega))]
    exact find_of_lt hl h
  · have hmet : (Demand.range (min start stop) (max start stop - min start stop)).Met p := by
      show _ + _ ≤ p.capacity
      omega
    rw [Demand.objection_of_met hmet]
    exact .of_done (find_apply hp hl h)

theorem pokeBytes_ends (hp : p.Sound) (hl : p.Live) (index : Nat) (bytes : List UInt8) :
    Action.Ends (pokeBytes index bytes) p
      ((Demand.range index bytes.length).objection p none) :=
  checkRange_ends hp hl fun h => (put_succeeds hp hl h).ends

theorem pokeZero_ends (hp : p.Sound) (hl : p.Live) (index length : Nat) :
    Action.Ends (pokeZero index length) p ((Demand.range index length).objection p none) :=
  checkRange_ends hp hl fun h =>
    (put_succeeds hp hl (by rw [List.length_replicate]; exact h)).ends

theorem pokeScalar_ends (hp : p.Sound) (hl : p.Live) (index : Nat) (value : Scalar)
    (reversed : Bool) :
    Action.Ends (pokeScalar index value reversed) p
      ((Demand.range index value.type.size).objection p none) :=
  .after (effectiveOrder_apply reversed) (checkRange_ends hp hl fun h =>
    (put_succeeds hp hl (by rw [Scalar.length_bytes]; exact h)).ends)

/-! ## Access at the cursor -/

/-- What follows the check of the cursor relies on so many bytes being readable. -/
theorem readingAt_ends {f : Nat → Task β} (hp : p.Sound) (hl : p.Live)
    (hf : length ≤ p.cursor.writer - p.cursor.reader → Action.Ends (f p.cursor.reader) p o) :
    Action.Ends (readingAt length >>= f) p ((Demand.readable length).objection p o) :=
  ends_of_check (fun h => readingAt_of_le hp hl h)
    (fun h => readingAt_of_lt hp hl (Nat.lt_of_not_le h)) hf

/-- Where the cursor lets a handle read or write, there is access. -/
theorem checkRange_behind (hp : p.Sound) {p' : Pane}
    (h : readingAt length p = (.done index, p') ∨ writingAt length p = (.done index, p')) :
    checkRange index length p' = (.done (), p') := by
  rcases h with h | h
  · obtain ⟨rfl, hl, hmet, rfl⟩ :=
      Action.Careful.of_done (readingAt_observes (T := Trap.never) hp length) h
    exact Demand.check_of_met hp hl (Demand.range_of_readable hp hmet)
  · obtain ⟨rfl, hl, hmet, rfl⟩ :=
      Action.Careful.of_done (writingAt_observes (T := Trap.never) hp length) h
    exact Demand.check_of_met hp hl (Demand.range_of_writable hp hmet)

/-- The range check behind the check of the cursor always passes, so only what comes after it can
still be refused. -/
theorem read_ends {peek : Nat → Task α} (hp : p.Sound) (hl : p.Live)
    (hlook : (peek p.cursor.reader p).2 = p)
    (hpeek : Action.Ends (peek p.cursor.reader) p
      ((Demand.range p.cursor.reader length).objection p o)) :
    Action.Ends
      (do
        let index ← readingAt length
        let a ← peek index
        onCursor (Cursor.consume length)
        pure a) p ((Demand.readable length).objection p o) := by
  refine readingAt_ends hp hl fun h => ?_
  rw [Demand.objection_of_met (Demand.range_of_readable hp h)] at hpeek
  refine hpeek.bind fun a p' hrun => ?_
  obtain rfl : p' = p := (congrArg Prod.snd hrun).symm.trans hlook
  exact .of_done (Action.bind_done (consume_apply hp h))

/-- Nothing behind the check of the cursor can refuse to write. -/
theorem append_ends (poke : Nat → Task Unit) (bytes : List UInt8) (hp : p.Sound) (hl : p.Live)
    (hpoke : p.cursor.writer + bytes.length ≤ p.capacity →
      Action.Succeeds (poke p.cursor.writer) p fun _ p' =>
        p' = p.overwrite p.cursor.writer bytes) :
    Action.Ends
      (do
        let index ← writingAt bytes.length
        poke index
        onCursor (Cursor.produce bytes.length)) p
      ((Demand.writable bytes.length).objection p none) := by
  by_cases h : (Demand.writable bytes.length).Met p
  · rw [Demand.objection_of_met h]
    exact (append_succeeds poke bytes hp hl h hpoke).ends
  · rw [Demand.objection_of_not_met h]
    exact append_refused poke hp hl (Nat.lt_of_not_le h)

theorem readBytes_ends (hp : p.Sound) (hl : p.Live) (length : Nat) :
    Action.Ends (readBytes length) p ((Demand.readable length).objection p none) :=
  read_ends hp hl (peekBytes_observes (T := Trap.never) hp _ _).state_eq (peekBytes_ends hp hl _ _)

theorem readScalar_ends (hp : p.Sound) (hl : p.Live) (type : ScalarType) (reversed : Bool) :
    Action.Ends (readScalar type reversed) p ((Demand.readable type.size).objection p none) :=
  read_ends hp hl (peekScalar_observes (T := Trap.never) hp _ _ _).state_eq
    (peekScalar_ends hp hl _ _ _)

/-- What is decoded are the bytes at the reader, which stays before bytes that are no text. -/
theorem readText_ends (hp : p.Sound) (hl : p.Live) (length : Nat) (codec : Codec) :
    Action.Ends (readText length codec) p ((Demand.readable length).objection p
      (codec.objection (codec.decode (p.bytesAt p.cursor.reader length)))) :=
  read_ends hp hl (peekText_observes (T := Trap.never) hp _ _ _).state_eq
    (peekText_ends hp hl _ _ _)

theorem appendBytes_ends (hp : p.Sound) (hl : p.Live) (bytes : List UInt8) :
    Action.Ends (appendBytes bytes) p ((Demand.writable bytes.length).objection p none) :=
  append_ends (pokeBytes · bytes) bytes hp hl fun h => pokeBytes_succeeds hp hl h

theorem appendZero_ends (hp : p.Sound) (hl : p.Live) (length : Nat) :
    Action.Ends (appendZero length) p ((Demand.writable length).objection p none) := by
  have h := append_ends (pokeZero · length) (List.replicate length 0) hp hl fun h =>
    pokeZero_succeeds hp hl (by rw [List.length_replicate] at h; exact h)
  rw [List.length_replicate] at h
  exact h

/-- A number takes as much room as its type says, in either byte order. -/
theorem appendScalar_ends (hp : p.Sound) (hl : p.Live) (value : Scalar) (reversed : Bool) :
    Action.Ends (appendScalar value reversed) p
      ((Demand.writable value.type.size).objection p none) := by
  have h := append_ends (pokeScalar · value reversed) (value.bytes (p.orderFor reversed)) hp hl
    fun h => pokeScalar_succeeds hp hl (by rw [Scalar.length_bytes] at h; exact h)
  rw [Scalar.length_bytes] at h
  exact h

/-- To skip bytes demands what reading them demands. -/
theorem skip_ends (hp : p.Sound) (hl : p.Live) (length : Nat) :
    Action.Ends (skip length) p ((Demand.readable length).objection p none) := by
  have hs := hp.small
  refine .after (checkLive_of_live hl) ?_
  by_cases h : (Demand.readable length).Met p
  · have hcheck := Cursor.checkReadable_of_le hp.cursor.reader_le h
    have hconsume := Cursor.consume_succeeds (ε := Failure) hp.cursor (by omega) h
    rw [Demand.objection_of_met h]
    exact (Action.Succeeds.within (Q := fun _ _ => True) (Action.Succeeds.after hcheck hconsume)
      fun _ _ _ => trivial).ends
  · have hcheck := Cursor.checkReadable_of_lt hp.cursor.reader_le (Nat.lt_of_not_le h)
    have hskip : Cursor.skip length p.cursor = _ := Action.bind_failed hcheck
    rw [Demand.objection_of_not_met h]
    show onCursor (Cursor.skip length) p = _
    rw [onCursor, Action.within_apply, hskip]
    rfl

/-- To ask for room is nothing but the demand. -/
theorem checkWritable_ends (hp : p.Sound) (hl : p.Live) (length : Nat) :
    Action.Ends (checkWritable length) p ((Demand.writable length).objection p none) :=
  .after (checkLive_of_live hl) (Demand.check_ends hp hl (.writable length))

end Pane

/-! ## Calls -/

namespace Call

/-- What the call demands, if it is one thing and not a matter of indices. -/
def demand? : Call → Option Demand
  | skip length | readBytes length | readText length _ => some (.readable length)
  | readScalar type _ => some (.readable type.size)
  | readFlag => some (.readable 1)
  | checkWritable length | appendZero length => some (.writable length)
  | appendScalar value _ => some (.writable value.type.size)
  | appendFlag _ => some (.writable 1)
  | appendBytes bytes => some (.writable bytes.length)
  | appendText text codec => some (.writable (codec.bytes text).length)
  | peekBytes index length | pokeZero index length | peekText index length _ =>
    some (.range index length)
  | peekScalar type index _ => some (.range index type.size)
  | pokeScalar index value _ => some (.range index value.type.size)
  | peekFlag index | pokeFlag index _ => some (.range index 1)
  | pokeBytes index bytes => some (.range index bytes.length)
  | pokeText index text codec => some (.range index (codec.bytes text).length)
  | find start stop _ => some (.range (min start stop) (max start stop - min start stop))
  | _ => none

/-- What the codec has against the text that is to be written. -/
def unencodable : Call → Option Failure
  | pokeText _ text codec | appendText text codec => codec.objection (codec.encode text)
  | _ => none

/-- What the codec has against the bytes that are to be read. -/
def undecodable (p : Pane) : Call → Option Failure
  | peekText index length codec => codec.objection (codec.decode (p.bytesAt index length))
  | readText length codec =>
    codec.objection (codec.decode (p.bytesAt p.cursor.reader length))
  | _ => none

/-- What is said against a call with this demand: text is encoded before the demand is checked, and
decoded behind it. -/
def objection (p : Pane) (d : Demand) (call : Call) : Option Failure :=
  match call.unencodable with
  | some e => some e
  | none => d.objection p (call.undecodable p)

variable {p : Pane} {d : Demand}

/-- Text that can be encoded leaves the demand in front of everything else. -/
theorem objection_of_not_met {call : Call} (henc : call.unencodable = none) (h : ¬d.Met p) :
    call.objection p d = some (.outOfBounds (d.refusal p)) := by
  rw [objection, henc]
  exact Demand.objection_of_not_met h

/-- **Nothing is said against a call** iff its text can be encoded, its demand is met, and its bytes
can be decoded. -/
theorem objection_eq_none_iff {call : Call} : call.objection p d = none ↔
    call.unencodable = none ∧ d.Met p ∧ call.undecodable p = none := by
  unfold objection Demand.objection
  cases call.unencodable with
  | some e => simp
  | none => by_cases h : d.Met p <;> simp [h]

/-- A text is encoded before anything else. -/
theorem encoded_ends {α : Type} {m : List UInt8 → Pane.Task α} (text : String) (codec : Codec)
    {o : Option Failure} (hm : Action.Ends (m (codec.bytes text)) p o) :
    Action.Ends (Pane.encoded text codec >>= m) p
      (match codec.objection (codec.encode text) with
      | some e => some e
      | none => o) := by
  unfold Pane.encoded
  unfold Codec.bytes at hm
  cases h : codec.encode text with
  | error cause => rfl
  | ok bytes =>
    rw [h] at hm
    exact hm

/-- **How a call ends is a matter of its demand** and of the text that it converts. -/
theorem run_ends (hp : p.Sound) (hl : p.Live) {call : Call} (hd : call.demand? = some d) :
    Action.Ends call.run p (call.objection p d) := by
  cases call with
  | peekScalar type index reversed =>
    cases hd
    exact (Pane.peekScalar_ends hp hl type index reversed).answer _
  | pokeScalar index value reversed =>
    cases hd
    exact (Pane.pokeScalar_ends hp hl index value reversed).answer _
  | readScalar type reversed =>
    cases hd
    exact (Pane.readScalar_ends hp hl type reversed).answer _
  | appendScalar value reversed =>
    cases hd
    exact (Pane.appendScalar_ends hp hl value reversed).answer _
  -- a truth value is a number of one byte
  | peekFlag index =>
    cases hd
    exact ((Pane.peekScalar_ends hp hl .uint8 index false).answer _).answer _
  | pokeFlag index value =>
    cases hd
    exact (Pane.pokeScalar_ends hp hl index (Scalar.ofByte _) false).answer _
  | readFlag =>
    cases hd
    exact ((Pane.readScalar_ends hp hl .uint8 false).answer _).answer _
  | appendFlag value =>
    cases hd
    exact (Pane.appendScalar_ends hp hl (Scalar.ofByte _) false).answer _
  | peekBytes index length =>
    cases hd
    exact (Pane.peekBytes_ends hp hl index length).answer _
  | pokeBytes index bytes =>
    cases hd
    exact (Pane.pokeBytes_ends hp hl index bytes).answer _
  | readBytes length =>
    cases hd
    exact (Pane.readBytes_ends hp hl length).answer _
  | appendBytes bytes =>
    cases hd
    exact (Pane.appendBytes_ends hp hl bytes).answer _
  | pokeZero index length =>
    cases hd
    exact (Pane.pokeZero_ends hp hl index length).answer _
  | appendZero length =>
    cases hd
    exact (Pane.appendZero_ends hp hl length).answer _
  | find start stop value =>
    cases hd
    exact (Pane.find_ends hp hl start stop value).answer _
  | skip length =>
    cases hd
    exact (Pane.skip_ends hp hl length).answer _
  | checkWritable length =>
    cases hd
    exact (Pane.checkWritable_ends hp hl length).answer _
  | peekText index length codec =>
    cases hd
    exact (Pane.peekText_ends hp hl index length codec).answer _
  | readText length codec =>
    cases hd
    exact (Pane.readText_ends hp hl length codec).answer _
  | pokeText index text codec =>
    cases hd
    exact (encoded_ends text codec ((Pane.pokeBytes_ends hp hl index _).answer _)).answer _
  | appendText text codec =>
    cases hd
    exact (encoded_ends text codec ((Pane.appendBytes_ends hp hl _).answer _)).answer _
  | _ => cases hd

end Call

end PacketMemory
