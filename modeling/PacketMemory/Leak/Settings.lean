import PacketMemory.Text.Blank

/-!
# Leak detection settings

Detection can be on or off, can capture the place of each allocation, and reports leaks either
only in the log or also as a failure of the next check. Each setting has a variable of its own
in the environment; a variable that is not set, or whose value is none of the known words,
leaves the default of the build.
-/

namespace PacketMemory

/-- How a check surfaces the leaks it finds. -/
inductive ReportMode where
  /-- it counts them -/
  | log
  /-- it fails with the first one -/
  | strict
  deriving DecidableEq, Repr

/-- The settings of a detector. -/
structure LeakSettings where
  /-- whether new allocations are tracked -/
  enabled : Bool
  /-- whether the place of each tracked allocation is captured -/
  sites : Bool
  /-- how checks surface leaks -/
  mode : ReportMode
  deriving DecidableEq, Repr

namespace LeakSettings

/-- Detection is off. -/
def disabled : LeakSettings := ⟨false, false, .log⟩

/-- The settings without any word to the contrary. Detection is on in a debug build, and off in a
release build. What is said of memory elsewhere is about debug builds, in which overflow traps and
assertions are checked, so this is the build that is meant if none is named. -/
def standard (debug : Bool := true) : LeakSettings := { disabled with enabled := debug }

instance : Inhabited LeakSettings := ⟨standard⟩

/-! ## Environment -/

/-- Switches detection. -/
def enabledVariable : String := "PKTBUF_LEAK_DETECTION"

/-- Switches the capture of allocation sites. -/
def sitesVariable : String := "PKTBUF_LEAK_DETECTION_SITES"

/-- Selects the mode. -/
def modeVariable : String := "PKTBUF_LEAK_DETECTION_MODE"

/-- A word without the blanks around it, in lower case. Only the letters of ASCII have a lower
case here. -/
def normalWord (value : String) : String :=
  String.ofList ((trim value.toList).map Char.toLower)

/-- The words that switch something on or off. -/
def flag? (value : String) : Option Bool :=
  let word := normalWord value
  if word ∈ ["1", "true", "yes", "on"] then some true
  else if word ∈ ["0", "false", "no", "off"] then some false
  else none

/-- The names of the modes. -/
def mode? (value : String) : Option ReportMode :=
  let word := normalWord value
  if word = "log" then some .log
  else if word = "strict" then some .strict
  else none

/-- The settings that an environment asks for, in a debug or a release build. -/
def ofEnvironment (lookup : String → Option String) (debug : Bool := true) : LeakSettings where
  enabled := ((lookup enabledVariable).bind flag?).getD (standard debug).enabled
  sites := ((lookup sitesVariable).bind flag?).getD (standard debug).sites
  mode := ((lookup modeVariable).bind mode?).getD (standard debug).mode

end LeakSettings

end PacketMemory
