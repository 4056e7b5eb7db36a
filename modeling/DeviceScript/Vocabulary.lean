/-
The closed vocabularies of a command line.

Each is an enumeration with a `Vocabulary` instance, which gives every word the
label shown in diagnostics and the tag that stands for it in documents.  Reading a
tag goes through the list of all words, and the law of the class says that it
finds the word whose tag it is.
-/

namespace DeviceScript

/-- How a word is shown: `label` in diagnostics, `tag` in documents. -/
structure Spelling where
  label : String
  tag : String

/-- A finite set of words with distinct tags. -/
class Vocabulary (α : Type) where
  all : List α
  spelling : α → Spelling
  find_tag : ∀ a, all.find? (fun b => (spelling b).tag == (spelling a).tag) = some a

namespace Vocabulary

variable {α : Type} [Vocabulary α]

def label (a : α) : String := (spelling a).label

def tag (a : α) : String := (spelling a).tag

def ofTag? (s : String) : Option α := all.find? fun a => tag a == s

@[simp] theorem ofTag?_tag (a : α) : ofTag? (tag a) = some a := find_tag a

/-- Every word is listed. -/
theorem mem_all (a : α) : a ∈ (all : List α) := List.mem_of_find?_eq_some (find_tag a)

end Vocabulary

/-- The kinds of device that a selector can address. -/
inductive Device where
  | piston
  | rotor
  | program
  | timer
  | light
  | projector
  | merge
  | connector
  | welder
  | grinder
  | door
  | display
  | sound
deriving DecidableEq

instance : Vocabulary Device where
  all := [.piston, .rotor, .program, .timer, .light, .projector, .merge, .connector, .welder,
    .grinder, .door, .display, .sound]
  spelling
    | .piston => ⟨"Piston", "PISTON"⟩
    | .rotor => ⟨"Rotor", "ROTOR"⟩
    | .program => ⟨"Program", "PROGRAM"⟩
    | .timer => ⟨"Timer", "TIMER"⟩
    | .light => ⟨"Light", "LIGHT"⟩
    | .projector => ⟨"Projector", "PROJECTOR"⟩
    | .merge => ⟨"Merge", "MERGE"⟩
    | .connector => ⟨"Connector", "CONNECTOR"⟩
    | .welder => ⟨"Welder", "WELDER"⟩
    | .grinder => ⟨"Grinder", "GRINDER"⟩
    | .door => ⟨"Door", "DOOR"⟩
    | .display => ⟨"Display", "DISPLAY"⟩
    | .sound => ⟨"Sound", "SOUND"⟩
  find_tag a := by cases a <;> rfl

/-- The properties of a device that are on or off. -/
inductive BooleanProperty where
  | power
  | connected
  | connectable
  | angle
  | locked
  | lockable
  | running
  | paused
  | stopped
  | complete
  | open
deriving DecidableEq

instance : Vocabulary BooleanProperty where
  all := [.power, .connected, .connectable, .angle, .locked, .lockable, .running, .paused,
    .stopped, .complete, .open]
  spelling
    | .power => ⟨"Power", "POWER"⟩
    | .connected => ⟨"Connected", "CONNECTED"⟩
    | .connectable => ⟨"Connectable", "CONNECTABLE"⟩
    | .angle => ⟨"Angle", "ANGLE"⟩
    | .locked => ⟨"Locked", "LOCKED"⟩
    | .lockable => ⟨"Lockable", "LOCKABLE"⟩
    | .running => ⟨"Running", "RUNNING"⟩
    | .paused => ⟨"Paused", "PAUSED"⟩
    | .stopped => ⟨"Stopped", "STOPPED"⟩
    | .complete => ⟨"Complete", "COMPLETE"⟩
    | .open => ⟨"Open", "OPEN"⟩
  find_tag a := by cases a <;> rfl

/-- The properties of a device that are measured. -/
inductive NumericProperty where
  | height
  | angle
  | velocity
  | progress
  | closedRatio
  | fontSize
  | volume
  | range
deriving DecidableEq

instance : Vocabulary NumericProperty where
  all := [.height, .angle, .velocity, .progress, .closedRatio, .fontSize, .volume, .range]
  spelling
    | .height => ⟨"Height", "HEIGHT"⟩
    | .angle => ⟨"Angle", "ANGLE"⟩
    | .velocity => ⟨"Velocity", "VELOCITY"⟩
    | .progress => ⟨"Progress", "PROGRESS"⟩
    | .closedRatio => ⟨"ClosedRatio", "CLOSED_RATIO"⟩
    | .fontSize => ⟨"FontSize", "FONT_SIZE"⟩
    | .volume => ⟨"Volume", "VOLUME"⟩
    | .range => ⟨"Range", "RANGE"⟩
  find_tag a := by cases a <;> rfl

/-- The properties of a device that are texts. -/
inductive TextProperty where
  | name
  | run
  | text
  | color
  | sound
deriving DecidableEq

instance : Vocabulary TextProperty where
  all := [.name, .run, .text, .color, .sound]
  spelling
    | .name => ⟨"Name", "NAME"⟩
    | .run => ⟨"Run", "RUN"⟩
    | .text => ⟨"Text", "TEXT"⟩
    | .color => ⟨"Color", "COLOR"⟩
    | .sound => ⟨"Sound", "SOUND"⟩
  find_tag a := by cases a <;> rfl

/-- The units in which a script gives quantities. -/
inductive MeasureUnit where
  | seconds
  | ticks
  | degrees
  | radians
  | meters
  | rpm
deriving DecidableEq

instance : Vocabulary MeasureUnit where
  all := [.seconds, .ticks, .degrees, .radians, .meters, .rpm]
  spelling
    | .seconds => ⟨"Seconds", "SECONDS"⟩
    | .ticks => ⟨"Ticks", "TICKS"⟩
    | .degrees => ⟨"Degrees", "DEGREES"⟩
    | .radians => ⟨"Radians", "RADIANS"⟩
    | .meters => ⟨"Meters", "METERS"⟩
    | .rpm => ⟨"Rpm", "RPM"⟩
  find_tag a := by cases a <;> rfl

/-- The directions in which a device moves. -/
inductive Direction where
  | up
  | down
  | clockwise
  | counterclockwise
deriving DecidableEq

instance : Vocabulary Direction where
  all := [.up, .down, .clockwise, .counterclockwise]
  spelling
    | .up => ⟨"Up", "UP"⟩
    | .down => ⟨"Down", "DOWN"⟩
    | .clockwise => ⟨"Clockwise", "CLOCKWISE"⟩
    | .counterclockwise => ⟨"Counterclockwise", "COUNTERCLOCKWISE"⟩
  find_tag a := by cases a <;> rfl

/-- The comparators of a condition. -/
inductive Comparison where
  | greater
  | greaterOrEqual
  | equal
  | lessOrEqual
  | less
deriving DecidableEq

instance : Vocabulary Comparison where
  all := [.greater, .greaterOrEqual, .equal, .lessOrEqual, .less]
  spelling
    | .greater => ⟨"Greater", "GREATER"⟩
    | .greaterOrEqual => ⟨"GreaterOrEqual", "GREATER_OR_EQUAL"⟩
    | .equal => ⟨"Equal", "EQUAL"⟩
    | .lessOrEqual => ⟨"LessOrEqual", "LESS_OR_EQUAL"⟩
    | .less => ⟨"Less", "LESS"⟩
  find_tag a := by cases a <;> rfl

/-- What a script can ask of its own execution. -/
inductive Control where
  | start
  | restart
  | stop
  | parse
  | loop
  | pause
  | resume
deriving DecidableEq

instance : Vocabulary Control where
  all := [.start, .restart, .stop, .parse, .loop, .pause, .resume]
  spelling
    | .start => ⟨"Start", "START"⟩
    | .restart => ⟨"Restart", "RESTART"⟩
    | .stop => ⟨"Stop", "STOP"⟩
    | .parse => ⟨"Parse", "PARSE"⟩
    | .loop => ⟨"Loop", "LOOP"⟩
    | .pause => ⟨"Pause", "PAUSE"⟩
    | .resume => ⟨"Resume", "RESUME"⟩
  find_tag a := by cases a <;> rfl

/-- How a function of the script is entered. -/
inductive Jump where
  | goto
  | gosub
deriving DecidableEq

instance : Vocabulary Jump where
  all := [.goto, .gosub]
  spelling
    | .goto => ⟨"Goto", "GOTO"⟩
    | .gosub => ⟨"Gosub", "GOSUB"⟩
  find_tag a := by cases a <;> rfl

/-- How a condition on one device is taken over all devices that a selector
matches. -/
inductive Aggregation where
  | all
  | any
  | none
deriving DecidableEq

instance : Vocabulary Aggregation where
  all := [.all, .any, .none]
  spelling
    | .all => ⟨"All", "ALL"⟩
    | .any => ⟨"Any", "ANY"⟩
    | .none => ⟨"None", "NONE"⟩
  find_tag a := by cases a <;> rfl

/-- Whether an outcome of comparing satisfies the comparator. -/
def Comparison.matches : Comparison → Ordering → Bool
  | .greater, o => o == .gt
  | .greaterOrEqual, o => o != .lt
  | .equal, o => o == .eq
  | .lessOrEqual, o => o != .gt
  | .less, o => o == .lt

/-- The comparator of a condition that names none. -/
instance : Inhabited Comparison := ⟨.equal⟩

/-- The aggregation of a condition that names none. -/
instance : Inhabited Aggregation := ⟨.all⟩

end DeviceScript
