import Mathlib.Data.List.Forall2
import PacketMemory.Leak.Settings
import PacketMemory.Proofs.Text.Blank

/-!
# Settings from the environment

Which values of a variable are words for a setting is said without the parser: `Spells` looks for the word
in letters of either case, with blanks around it. The parser takes the blanks away and lowers the letters,
which comes to the same for words that are `Plain` (`normalWord_eq_iff`), as all listed words are.

`Chosen` is what a single variable asks for, and `ofEnvironment_exact` says that each setting is what its
own variable asks for.
-/

namespace PacketMemory

namespace LeakSettings

variable {α : Type} {value value' word : String} {core xs ys : List Char} {c d : Char}

/-! ## Words in values -/

/-- The same character, or the same letter of ASCII in the other case. -/
def SameLetter (c d : Char) : Prop :=
  c = d ∨ (c.isUpper = true ∧ d.toNat = c.toNat + 32) ∨ (d.isUpper = true ∧ c.toNat = d.toNat + 32)

/-- The value holds this text, with nothing but blanks around it. -/
def Holds (value : String) (core : List Char) : Prop :=
  ∃ before behind, value.toList = before ++ (core ++ behind) ∧ Blanks before ∧ Blanks behind

/-- The value is a word in letters of either case, with blanks around it. -/
def Spells (value word : String) : Prop :=
  ∃ core, Holds value core ∧ List.Forall₂ SameLetter core word.toList

/-- The values differ at most in the blanks around them and in the case of letters. -/
def Restyled (value value' : String) : Prop :=
  ∃ core core', Holds value core ∧ Holds value' core' ∧ List.Forall₂ SameLetter core core'

/-- Values that spell no word: without anything but blanks, with a blank inside, or with a character that
is neither a blank nor one of ASCII. -/
inductive Unreadable (value : String) : Prop
  | blank (h : Blanks value.toList)
  | inner {i j k : Nat} {a b c : Char} (hij : i < j) (hjk : j < k) (hi : value.toList[i]? = some a)
    (hj : value.toList[j]? = some b) (hk : value.toList[k]? = some c) (ha : isBlank a = false)
    (hb : isBlank b = true) (hc : isBlank c = false)
  | foreign {c : Char} (hc : c ∈ value.toList) (hsolid : isBlank c = false) (hlarge : 128 ≤ c.toNat)

/-- The words that switch something on or off. -/
def flagWords : Bool → List String
  | true => ["1", "true", "yes", "on"]
  | false => ["0", "false", "no", "off"]

/-- The name of a mode. -/
def modeWords : ReportMode → List String
  | .log => ["log"]
  | .strict => ["strict"]

/-- What a variable with these words asks for: what a word is spelled for, and the default if there is no
value or it spells no word. -/
structure Chosen (words : α → List String) (default : α) (value : Option String) (chosen : α) :
    Prop where
  recognised : ∀ v a, value = some v → (∃ word ∈ words a, Spells v word) → chosen = a
  unrecognised : (∀ v, value = some v → ∀ a, ∀ word ∈ words a, ¬Spells v word) → chosen = default

/-! ## What the parser compares -/

theorem isUpper_iff : c.isUpper = true ↔ 65 ≤ c.toNat ∧ c.toNat ≤ 90 := decide_eq_true_iff

theorem sameLetter_iff : SameLetter c d ↔ c.toLower = d.toLower := by
  rw [← Char.toNat_inj, toNat_toLower, toNat_toLower, SameLetter, isUpper_iff, isUpper_iff,
    ← Char.toNat_inj]
  split <;> split <;> omega

theorem sameLetters_iff :
    List.Forall₂ SameLetter xs ys ↔ xs.map Char.toLower = ys.map Char.toLower := by
  have hsame : SameLetter = fun c d => c.toLower = d.toLower :=
    funext fun c => funext fun d => propext sameLetter_iff
  rw [← List.forall₂_eq_eq_eq, List.forall₂_map_left_iff, List.forall₂_map_right_iff, hsame]

theorem holds_trim (value : String) : Holds value (trim value.toList) := exists_trim _

/-- The parser compares what the value holds, in lower case. -/
theorem Holds.normalWord (h : Holds value core) :
    normalWord value = String.ofList (trim (core.map Char.toLower)) := by
  obtain ⟨before, behind, hvalue, hbefore, hbehind⟩ := h
  rw [LeakSettings.normalWord, hvalue, trim_padded hbefore hbehind, trim_map_toLower]

theorem Restyled.normalWord (h : Restyled value value') : normalWord value = normalWord value' := by
  obtain ⟨core, core', hcore, hcore', hletters⟩ := h
  rw [hcore.normalWord, hcore'.normalWord, sameLetters_iff.1 hletters]

theorem Restyled.refl (value : String) : Restyled value value :=
  ⟨_, _, holds_trim value, holds_trim value, sameLetters_iff.2 rfl⟩

/-- A word of small letters and digits. -/
structure Plain (word : String) : Prop where
  nonempty : word.toList ≠ []
  solid : Solid word.toList
  lower : word.toList.map Char.toLower = word.toList
  ascii : ∀ c ∈ word.toList, c.toNat < 128

-- by `List.all`, since a quantifier over characters may be decided by looking at every one there is
instance (word : String) : Decidable (Plain word) :=
  decidable_of_iff (word.toList ≠ [] ∧ (word.toList.all fun c => !isBlank c) = true ∧
      word.toList.map Char.toLower = word.toList ∧
      (word.toList.all fun c => decide (c.toNat < 128)) = true) <| by
    simp only [List.all_eq_true, Bool.not_eq_true', decide_eq_true_eq]
    exact ⟨fun ⟨hnonempty, hsolid, hlower, hascii⟩ => ⟨hnonempty, hsolid, hlower, hascii⟩,
      fun h => ⟨h.nonempty, h.solid, h.lower, h.ascii⟩⟩

theorem plain_flag : ∀ b, ∀ word ∈ flagWords b, Plain word := by decide

theorem plain_mode : ∀ m, ∀ word ∈ modeWords m, Plain word := by
  rintro (_ | _) <;> decide

/-- **The parser finds the words that are spelled.** -/
theorem normalWord_eq_iff (hw : Plain word) : normalWord value = word ↔ Spells value word := by
  constructor
  · rintro rfl
    refine ⟨_, holds_trim value, sameLetters_iff.2 ?_⟩
    rw [hw.lower, normalWord, String.toList_ofList]
  · rintro ⟨core, hcore, hletters⟩
    rw [hcore.normalWord, sameLetters_iff.1 hletters, hw.lower, trim_of_solid hw.solid,
      String.ofList_toList]

theorem spells_listed_iff {words : List String} (hwords : ∀ word ∈ words, Plain word) :
    (∃ word ∈ words, Spells value word) ↔ normalWord value ∈ words := by
  constructor
  · rintro ⟨word, hmem, hspells⟩
    rw [(normalWord_eq_iff (hwords word hmem)).2 hspells]
    exact hmem
  · intro hmem
    exact ⟨_, hmem, (normalWord_eq_iff (hwords _ hmem)).1 rfl⟩

/-! ## Settings -/

theorem flag?_eq_some_iff {b : Bool} :
    flag? value = some b ↔ ∃ word ∈ flagWords b, Spells value word := by
  have hapart : ∀ word ∈ flagWords true, word ∉ flagWords false := by decide
  rw [spells_listed_iff (plain_flag b), flag?]
  split_ifs with hon hoff
  · cases b
    · exact ⟨nofun, fun h => absurd h (hapart _ hon)⟩
    · exact ⟨fun _ => hon, fun _ => rfl⟩
  · cases b
    · exact ⟨fun _ => hoff, fun _ => rfl⟩
    · exact ⟨nofun, fun h => absurd h hon⟩
  · cases b
    · exact ⟨nofun, fun h => absurd h hoff⟩
    · exact ⟨nofun, fun h => absurd h hon⟩

theorem mode?_eq_some_iff {m : ReportMode} :
    mode? value = some m ↔ ∃ word ∈ modeWords m, Spells value word := by
  rw [spells_listed_iff (plain_mode m), mode?]
  split_ifs with hlog hstrict
  · rw [hlog]
    cases m <;> decide
  · rw [hstrict]
    cases m <;> decide
  · cases m
    · exact ⟨nofun, fun h => absurd (List.mem_singleton.1 h) hlog⟩
    · exact ⟨nofun, fun h => absurd (List.mem_singleton.1 h) hstrict⟩

/-- What a variable asks for is what the parser makes of it. -/
theorem chosen_of_iff {words : α → List String} {choose : String → Option α}
    (h : ∀ v a, choose v = some a ↔ ∃ word ∈ words a, Spells v word) (default : α)
    (value : Option String) : Chosen words default value ((value.bind choose).getD default) := by
  refine ⟨fun v a hvalue hspells => ?_, fun hnone => ?_⟩
  · rw [hvalue, Option.bind_some, (h v a).2 hspells]
    rfl
  · have hfails : value.bind choose = none := by
      refine Option.eq_none_iff_forall_ne_some.2 fun a ha => ?_
      obtain ⟨v, hvalue, hchoose⟩ := Option.bind_eq_some_iff.1 ha
      obtain ⟨word, hmem, hspells⟩ := (h v a).1 hchoose
      exact hnone v hvalue a word hmem hspells
    rw [hfails]
    rfl

/-- What a parser makes of a variable does not depend on the style of the value. -/
theorem bind_restyled {choose : String → Option α}
    (h : ∀ v v', normalWord v = normalWord v' → choose v = choose v') {v v' : Option String}
    (hv : Option.Rel Restyled v v') : v'.bind choose = v.bind choose := by
  cases hv with
  | some hstyle => exact (h _ _ hstyle.normalWord).symm
  | none => rfl

/-- Where there is no blank, there is what the value holds. -/
theorem within_of_solid {before behind : List Char} (hbefore : Blanks before)
    (hbehind : Blanks behind) {i : Nat} (hi : (before ++ (core ++ behind))[i]? = some c)
    (hc : isBlank c = false) : before.length ≤ i ∧ core[i - before.length]? = some c := by
  have hblank : ∀ {text : List Char} {n : Nat}, Blanks text → text[n]? ≠ some c := by
    intro text n htext hn
    cases (htext c (List.mem_of_getElem? hn)).symm.trans hc
  rcases Nat.lt_or_ge i before.length with hlt | hge
  · rw [List.getElem?_append_left hlt] at hi
    exact absurd hi (hblank hbefore)
  · rw [List.getElem?_append_right hge] at hi
    rcases Nat.lt_or_ge (i - before.length) core.length with hlt | hbeyond
    · rw [List.getElem?_append_left hlt] at hi
      exact ⟨hge, hi⟩
    · rw [List.getElem?_append_right hbeyond] at hi
      exact absurd hi (hblank hbehind)

/-- **A word has no blank inside**, is not empty, and is written in ASCII. -/
theorem not_spells_of_unreadable (hw : Plain word) (hu : Unreadable value) : ¬Spells value word := by
  rintro ⟨core, ⟨before, behind, hvalue, hbefore, hbehind⟩, hletters⟩
  have hlower := sameLetters_iff.1 hletters
  rw [hw.lower] at hlower
  have hword : ∀ c ∈ core, c.toLower ∈ word.toList := fun c hc => hlower ▸ List.mem_map_of_mem hc
  have hsolid : Solid core := fun c hc => (isBlank_toLower c).symm.trans (hw.solid _ (hword c hc))
  cases hu with
  | blank h =>
    have hcore : core ≠ [] := by
      rintro rfl
      exact hw.nonempty hlower.symm
    obtain ⟨c, hc⟩ := List.exists_mem_of_ne_nil core hcore
    have hmem : c ∈ value.toList := by
      rw [hvalue]
      exact List.mem_append_right _ (List.mem_append_left _ hc)
    cases (h c hmem).symm.trans (hsolid c hc)
  | inner hij hjk hi hj hk ha hb hc =>
    rw [hvalue] at hi hj hk
    obtain ⟨hfirst, -⟩ := within_of_solid hbefore hbehind hi ha
    obtain ⟨-, hlast⟩ := within_of_solid hbefore hbehind hk hc
    obtain ⟨hlt, -⟩ := List.getElem?_eq_some_iff.1 hlast
    -- what is between two characters of the word is in the word, too
    rw [List.getElem?_append_right (by omega), List.getElem?_append_left (by omega)] at hj
    cases hb.symm.trans (hsolid _ (List.mem_of_getElem? hj))
  | @foreign c hc hnone hlarge =>
    obtain ⟨i, hi⟩ := List.mem_iff_getElem?.1 hc
    rw [hvalue] at hi
    obtain ⟨-, hcore⟩ := within_of_solid hbefore hbehind hi hnone
    have hsmall := hw.ascii _ (hword c (List.mem_of_getElem? hcore))
    rw [toNat_toLower] at hsmall
    split at hsmall <;> omega

/-- **The settings are exactly what the environment asks for**, variable by variable, in any build.

* A value switches something on or off, or names a mode, iff it is one of the words for this in letters of
  either case, with blanks around it.
* A value that is empty or blank, that has a blank inside, or a character that is neither a blank nor one
  of ASCII, is never a word.
* Each setting is what its own variable asks for, and the default of the build if this is not set, or set
  to something else. It depends on nothing but the value of this variable, and not on how the value is
  styled. -/
theorem ofEnvironment_exact (debug : Bool) (lookup : String → Option String) :
    (∀ value b, flag? value = some b ↔ ∃ word ∈ flagWords b, Spells value word) ∧
    (∀ value m, mode? value = some m ↔ ∃ word ∈ modeWords m, Spells value word) ∧
    (∀ value, Unreadable value → flag? value = none ∧ mode? value = none) ∧
    [enabledVariable, sitesVariable, modeVariable].Nodup ∧
    let s := ofEnvironment lookup debug
    let default := standard debug
    (Chosen flagWords default.enabled (lookup enabledVariable) s.enabled ∧
      Chosen flagWords default.sites (lookup sitesVariable) s.sites ∧
      Chosen modeWords default.mode (lookup modeVariable) s.mode) ∧
    (∀ value, Restyled value value) ∧
    ∀ other,
      (Option.Rel Restyled (lookup enabledVariable) (other enabledVariable) →
        (ofEnvironment other debug).enabled = s.enabled) ∧
      (Option.Rel Restyled (lookup sitesVariable) (other sitesVariable) →
        (ofEnvironment other debug).sites = s.sites) ∧
      (Option.Rel Restyled (lookup modeVariable) (other modeVariable) →
        (ofEnvironment other debug).mode = s.mode) := by
  have hflag : ∀ v v', normalWord v = normalWord v' → flag? v = flag? v' := fun v v' h => by
    rw [flag?, flag?, h]
  have hmode : ∀ v v', normalWord v = normalWord v' → mode? v = mode? v' := fun v v' h => by
    rw [mode?, mode?, h]
  refine ⟨fun _ _ => flag?_eq_some_iff, fun _ _ => mode?_eq_some_iff, fun value hu => ⟨?_, ?_⟩, ?_,
    ⟨?_, ?_, ?_⟩, Restyled.refl, fun other => ⟨fun h => ?_, fun h => ?_, fun h => ?_⟩⟩
  · refine Option.eq_none_iff_forall_ne_some.2 fun b hb => ?_
    obtain ⟨word, hmem, hspells⟩ := flag?_eq_some_iff.1 hb
    exact not_spells_of_unreadable (plain_flag b word hmem) hu hspells
  · refine Option.eq_none_iff_forall_ne_some.2 fun m hm => ?_
    obtain ⟨word, hmem, hspells⟩ := mode?_eq_some_iff.1 hm
    exact not_spells_of_unreadable (plain_mode m word hmem) hu hspells
  · decide
  · exact chosen_of_iff (fun _ _ => flag?_eq_some_iff) _ _
  · exact chosen_of_iff (fun _ _ => flag?_eq_some_iff) _ _
  · exact chosen_of_iff (fun _ _ => mode?_eq_some_iff) _ _
  · exact congrArg (Option.getD · (standard debug).enabled) (bind_restyled hflag h)
  · exact congrArg (Option.getD · (standard debug).sites) (bind_restyled hflag h)
  · exact congrArg (Option.getD · (standard debug).mode) (bind_restyled hmode h)

/-- A wide blank around a word does not matter, one inside does, and the long s is no letter of ASCII. In
a release build, detection stays off unless its variable is set. -/
example :
    (ofEnvironment fun name => if name = sitesVariable then some "\u2003YeS\n" else none) =
        { standard with sites := true } ∧
      (ofEnvironment (fun _ => none) false).enabled = false ∧
      flag? "o n" = none ∧ flag? "ye\u017f" = none ∧ flag? "" = none := by
  decide

end LeakSettings

end PacketMemory
