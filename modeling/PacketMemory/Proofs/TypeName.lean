import Mathlib.Data.List.TakeWhile
import PacketMemory.Overlay.TypeName
import PacketMemory.Proofs.Text.Blank

/-!
# Short type names

A type is named by segments with `::` between them, the last of which is the name proper (`qualified`), and
perhaps a list of arguments. Its short name is the name proper, with the list of arguments as it stands
unless all of these are `Ticked`.

Main statement: `short_exact`. What starts with a tick need not be a scope: `shorten_character`.
-/

namespace PacketMemory.TypeName

variable {found path base name arguments : List Char} {segments pieces : List (List Char)}

/-- A segment of a path. -/
def Segment (text : List Char) : Prop := ':' ∉ text ∧ '<' ∉ text

/-- A name behind the segments of its path. -/
def qualified (segments : List (List Char)) (base : List Char) : List Char :=
  (segments.flatMap fun segment => segment ++ [':', ':']) ++ base

/-- A list of arguments, with a comma between two of them. -/
def argumentList (pieces : List (List Char)) : List Char :=
  '<' :: ([','].intercalate pieces ++ ['>'])

/-- An argument that starts with a tick, but for the blanks in front of it. -/
def Ticked (argument : List Char) : Prop :=
  ∃ before rest, argument = before ++ tick :: rest ∧ Blanks before

/-! ## Paths -/

theorem lastSegment_append (h : ':' ∉ path) (rest : List Char) :
    lastSegment found (path ++ rest) = lastSegment found rest := by
  induction path with
  | nil => rfl
  | cons c path ih =>
    have hc : c ≠ ':' := fun hc => h (hc ▸ List.mem_cons_self)
    rw [List.cons_append, lastSegment, if_neg fun hcolons => hc hcolons.1,
      ih fun hmem => h (List.mem_cons_of_mem c hmem)]

theorem lastSegment_self (h : ':' ∉ path) : lastSegment found path = found := by
  have hpath : lastSegment found (path ++ []) = found := lastSegment_append h []
  rwa [List.append_nil] at hpath

theorem qualified_cons (segment : List Char) (segments : List (List Char)) (base : List Char) :
    qualified (segment :: segments) base = segment ++ ':' :: ':' :: qualified segments base := by
  simp only [qualified, List.flatMap_cons, List.append_assoc, List.cons_append, List.nil_append]

/-- **Behind a path is the name proper.** -/
theorem lastSegment_qualified (hbase : ':' ∉ base) (hsegments : ∀ s ∈ segments, ':' ∉ s)
    (hfound : segments = [] → found = base) :
    lastSegment found (qualified segments base) = base := by
  induction segments generalizing found with
  | nil =>
    rw [hfound rfl]
    exact lastSegment_self hbase
  | cons segment rest ih =>
    have hrest : ∀ s ∈ rest, ':' ∉ s := fun s hs => hsegments s (List.mem_cons_of_mem segment hs)
    rw [qualified_cons, lastSegment_append (hsegments segment List.mem_cons_self), lastSegment,
      if_pos ⟨rfl, rfl⟩, lastSegment]
    -- the second of the two colons may be followed by another one only if more segments follow
    refine ih hrest fun hnone => ?_
    have hhead : ¬base.head? = some ':' := fun h => hbase (List.mem_of_mem_head? h)
    subst hnone
    exact if_neg fun h => hhead h.2

theorem not_mem_qualified (hbase : Segment base) (hsegments : ∀ s ∈ segments, Segment s) :
    '<' ∉ qualified segments base := by
  rw [qualified, List.mem_append, List.mem_flatMap]
  rintro (⟨segment, hmem, hbracket⟩ | hbracket)
  · rcases List.mem_append.1 hbracket with h | h
    · exact (hsegments segment hmem).2 h
    · exact absurd h (by decide)
  · exact hbase.2 hbracket

/-! ## Arguments -/

theorem separated_eq_splitOn (separator : Char) (text : List Char) :
    separated separator text = text.splitOn separator := by
  induction text with
  | nil => rfl
  | cons c rest ih =>
    have hcons : (c :: rest).splitOn separator = if (c == separator) = true
        then [] :: rest.splitOn separator else (rest.splitOn separator).modifyHead (c :: ·) :=
      List.splitOnP_cons_eq_if_modifyHead c rest
    rw [separated, ih, hcons]
    by_cases hc : c = separator
    · rw [if_pos hc, if_pos (beq_iff_eq.2 hc)]
    · rw [if_neg hc, if_neg (mt beq_iff_eq.1 hc)]
      rcases hparts : rest.splitOn separator with _ | ⟨part, parts⟩
      · exact absurd hparts (List.splitOnP_ne_nil _ rest)
      · rfl

theorem isTicked_iff {argument : List Char} : isTicked argument = true ↔ Ticked argument := by
  rw [isTicked, decide_eq_true_eq]
  constructor
  · intro hhead
    obtain ⟨rest, hrest⟩ := List.head?_eq_some_iff.1 hhead
    refine ⟨argument.takeWhile isBlank, rest, ?_, blanks_takeWhile argument⟩
    rw [← hrest]
    exact List.takeWhile_append_dropWhile.symm
  · rintro ⟨before, rest, rfl, hbefore⟩
    rw [trimStart_append hbefore]
    rfl

/-- **A list of arguments is dropped iff all of them are ticked.** -/
theorem onlyTicked_iff (hne : pieces ≠ []) (hpieces : ∀ p ∈ pieces, ',' ∉ p) :
    onlyTicked ([','].intercalate pieces ++ ['>']) = true ↔ ∀ p ∈ pieces, Ticked p := by
  rw [onlyTicked, List.getLast?_concat, List.dropLast_concat, separated_eq_splitOn,
    List.splitOn_intercalate _ hpieces hne]
  simp only [true_and, decide_eq_true_eq, List.all_eq_true, isTicked_iff]

/-! ## Short names -/

/-- Of a name without arguments, the path is dropped. -/
theorem shorten_of_no_bracket (h : '<' ∉ name) : shorten name = lastSegment name name := by
  have hall : ∀ c ∈ name, decide (c ≠ '<') = true := fun c hc =>
    decide_eq_true fun hbracket => h (hbracket ▸ hc)
  rw [shorten, List.takeWhile_eq_self_iff.2 hall, List.dropWhile_eq_nil_iff.2 hall]

/-- Of a name with arguments, the path is dropped, and perhaps the arguments are. -/
theorem shorten_of_bracket (h : '<' ∉ name) :
    shorten (name ++ '<' :: arguments) =
      if onlyTicked arguments then lastSegment name name
      else lastSegment name name ++ '<' :: arguments := by
  have hall : ∀ c ∈ name, decide (c ≠ '<') = true := fun c hc =>
    decide_eq_true fun hbracket => h (hbracket ▸ hc)
  rw [shorten, List.takeWhile_append_of_pos hall, List.dropWhile_append_of_pos hall,
    List.takeWhile_cons_of_neg (by decide), List.dropWhile_cons_of_neg (by decide),
    List.append_nil]

/-- **A short name is exact.** Of a type that is named by segments and a name proper, it is the name proper.
If arguments follow, they follow as they stand, unless each of them is ticked, and then none of them
does. -/
theorem short_exact (hbase : Segment base) (hsegments : ∀ s ∈ segments, Segment s) :
    shorten (qualified segments base) = base ∧
    ∀ pieces, pieces ≠ [] → (∀ p ∈ pieces, ',' ∉ p) →
      ((∀ p ∈ pieces, Ticked p) →
        shorten (qualified segments base ++ argumentList pieces) = base) ∧
      ((∃ p ∈ pieces, ¬Ticked p) →
        shorten (qualified segments base ++ argumentList pieces) = base ++ argumentList pieces) := by
  have hbracket := not_mem_qualified hbase hsegments
  have hlast : lastSegment (qualified segments base) (qualified segments base) = base :=
    lastSegment_qualified hbase.1 (fun s hs => (hsegments s hs).1) fun hnone => by rw [hnone]; rfl
  refine ⟨?_, fun pieces hne hpieces => ⟨fun hall => ?_, fun hsome => ?_⟩⟩
  · rw [shorten_of_no_bracket hbracket, hlast]
  · rw [argumentList, shorten_of_bracket hbracket, hlast,
      if_pos ((onlyTicked_iff hne hpieces).2 hall)]
  · obtain ⟨p, hp, hnot⟩ := hsome
    rw [argumentList, shorten_of_bracket hbracket, hlast,
      if_neg fun hall => hnot ((onlyTicked_iff hne hpieces).1 hall p hp)]

/-- **A character for an argument is lost**, whichever it is, since it is written behind a tick. A comma is
taken for a separator, and leaves a tick on either side. -/
theorem shorten_character (hbase : Segment base) (hsegments : ∀ s ∈ segments, Segment s) (c : Char) :
    shorten (qualified segments base ++ argumentList [[tick, c, tick]]) = base := by
  obtain ⟨-, hexact⟩ := short_exact hbase hsegments
  have hticked : ∀ rest, Ticked (tick :: rest) := fun rest => ⟨[], rest, rfl, nofun⟩
  by_cases hc : c = ','
  · have hsplit : argumentList [[tick, c, tick]] = argumentList [[tick], [tick]] := by
      rw [hc]
      rfl
    have hpieces : ∀ p ∈ [[tick], [tick]], ',' ∉ p ∧ Ticked p := by
      intro p hp
      obtain rfl : p = [tick] := List.eq_of_mem_replicate (n := 2) hp
      exact ⟨by decide, hticked []⟩
    rw [hsplit]
    exact (hexact _ (List.cons_ne_nil _ _) fun p hp => (hpieces p hp).1).1 fun p hp =>
      (hpieces p hp).2
  · have hnone : ∀ p ∈ [[tick, c, tick]], ',' ∉ p := by
      intro p hp hcomma
      obtain rfl := List.mem_singleton.1 hp
      have hmem : ',' = tick ∨ ',' = c ∨ ',' = tick := by
        simpa only [List.mem_cons, List.not_mem_nil, or_false] using hcomma
      rcases hmem with htick | rfl | htick
      · exact absurd htick (by decide)
      · exact hc rfl
      · exact absurd htick (by decide)
    refine (hexact _ (List.cons_ne_nil _ _) hnone).1 fun p hp => ?_
    obtain rfl := List.mem_singleton.1 hp
    exact hticked _

/-- The path goes and a list with a type stays, but not one with characters. -/
example :
    short "samples::Cell<'_, core::Word>" = "Cell<'_, core::Word>" ∧
      short "samples::Cell<'_, 'static>" = "Cell" ∧ short "samples::Cell<'x'>" = "Cell" := by
  decide

end PacketMemory.TypeName
