import VectorMotion.Decimal.Reading
import VectorMotion.Document.Animation
import VectorMotion.FrameRange
import VectorMotion.Report
import VectorMotion.Svg.Drawing

/-!
# Command line

The two commands of the program: `inspect` reports on one frame of a document, and `render` writes
frames as drawings. Options are written `--name value` or `--name=value`; a value in a word of its
own must not look like an option, so a negative number has to be written in the second way. The
options that concern the whole program may stand in front of the command or behind it, where the
later one counts; apart from that no option may be repeated.

Both commands are pure functions from a document to what is printed and which files are written.
-/

namespace VectorMotion.CommandLine

/-- What to do. -/
inductive Command (S : Type) where
  /-- Report on a document at a frame, or at its in point. -/
  | inspect (file : String) (frame : Option S)
  /-- Write the frames of a document into a directory. -/
  | render (file directory : String) (first last : Option Int)
  deriving Repr, Inhabited

/-- A command with the trim mode that the user asks for. -/
structure Invocation (S : Type) where
  command : Command S
  mode : Option Trim.Mode
  deriving Repr, Inhabited

/-- What one argument looks like. -/
inductive Argument where
  /-- Two hyphens: everything behind them is a word. -/
  | escape
  /-- An option, with its value if that is part of the argument. -/
  | option (name : String) (value : Option String)
  /-- A hyphen and something behind it that is no option. -/
  | short
  | word
  deriving Repr, DecidableEq, Inhabited

/-- What an argument looks like. -/
def Argument.ofText (text : String) : Argument :=
  match text.toList with
  | ['-', '-'] => .escape
  | '-' :: '-' :: rest =>
    let name := String.ofList (rest.takeWhile (· != '='))
    match rest.dropWhile (· != '=') with
    | [] => .option name none
    | _ :: value => .option name (some (String.ofList value))
  | '-' :: _ :: _ => .short
  | _ => .word

/-- Options and words, in the order in which they stand. -/
structure Arguments where
  options : List (String × String) := []
  words : List String := []
  deriving Repr, DecidableEq, Inhabited

/-- Adds an option. It has to be a known one, and must not have been given. -/
def Arguments.addOption? (read : Arguments) (known : List String) (name value : String) :
    Option Arguments :=
  if known.contains name && (read.options.lookup name).isNone then
    some { read with options := read.options ++ [(name, value)] }
  else none

/-- Adds an option whose value is an argument of its own, which must not look like an option. -/
def Arguments.addSeparate? (read : Arguments) (known : List String) (name value : String) :
    Option Arguments :=
  if Argument.ofText value == .word then read.addOption? known name value else none

/-- Reads arguments up to the first word, which comes back with all that is behind it. -/
def readOptions (known : List String) (read : Arguments) :
    List String → Option (Arguments × List String)
  | [] => some (read, [])
  | argument :: rest =>
    match Argument.ofText argument with
    | .word => some (read, argument :: rest)
    | .option name (some value) => do
      readOptions known (← read.addOption? known name value) rest
    | .option name none =>
      match rest with
      | [] => none
      | value :: rest => do
        let read ← read.addSeparate? known name value
        readOptions known read rest
    | .escape | .short => none

/-- Reads arguments to their end. -/
def readAll (known : List String) (read : Arguments) : List String → Option Arguments
  | [] => some read
  | argument :: rest =>
    match Argument.ofText argument with
    | .word => readAll known { read with words := read.words ++ [argument] } rest
    | .option name (some value) => do
      readAll known (← read.addOption? known name value) rest
    | .option name none =>
      match rest with
      | [] => none
      | value :: rest => do
        let read ← read.addSeparate? known name value
        readAll known read rest
    | .escape => some { read with words := read.words ++ rest }
    | .short => none

/-- The options that concern the whole program. -/
def commonOptions : List String := ["trim-mode", "log-level", "log-format"]

/-- How much is told about the work. -/
def logLevels : List String := ["error", "warn", "info", "debug", "trace"]

/-- How it is told. -/
def logFormats : List String := ["pretty", "json"]

variable {S : Type} [Scalar S]

/-- An option that may be left out. Its value has to be readable. -/
def optionValue? {V : Type} (read : String → Option V) (options : List (String × String))
    (name : String) : Option (Option V) :=
  match options.lookup name with
  | none => some none
  | some text => (read text).map some

/-- A value that is one of some words. -/
def oneOf? (words : List String) (text : String) : Option String :=
  if words.contains text then some text else none

/-- The name of a file or directory, which is not empty. -/
def path? (text : String) : Option String := if text.isEmpty then none else some text

/-- A frame number. -/
def frameNumber? (text : String) : Option Int :=
  (Decimal.integer? text).bind fun frame =>
    if FrameRange.least ≤ frame && frame ≤ FrameRange.greatest then some frame else none

/-- The trim mode among the options that concern the whole program, all of which have to be
readable. -/
def commonMode? (options : List (String × String)) : Option (Option Trim.Mode) := do
  let _ ← optionValue? (oneOf? logLevels) options "log-level"
  let _ ← optionValue? (oneOf? logFormats) options "log-format"
  optionValue? (fun text => (Trim.Mode.ofWord text).toOption) options "trim-mode"

/-- The command with a name, from the arguments behind it. -/
def command? (name : String) (rest : List String) :
    Option (Command S × List (String × String)) :=
  match name with
  | "inspect" => do
    let read ← readAll ("frame" :: commonOptions) {} rest
    let frame ← optionValue? Decimal.read? read.options "frame"
    let [file] := read.words | none
    return (.inspect (← path? file) frame, read.options)
  | "render" => do
    let read ← readAll ("out" :: "from" :: "to" :: commonOptions) {} rest
    let directory ← (← optionValue? path? read.options "out")
    let first ← optionValue? frameNumber? read.options "from"
    let last ← optionValue? frameNumber? read.options "to"
    let [file] := read.words | none
    return (.render (← path? file) directory first last, read.options)
  | _ => none

/-- What the arguments ask for, if they make sense. -/
def parse? (arguments : List String) : Option (Invocation S) := do
  let (before, name :: rest) ← readOptions commonOptions {} arguments | none
  let general ← commonMode? before.options
  let (command, options) ← command? name rest
  let mode ← commonMode? options
  return { command, mode := mode.or general }

/-- The variable of the environment that sets the trim mode for all documents. -/
def modeVariable : String := "LOTTIE_FORCE_TRIM_MODE"

/-- The settings for an invocation. What stands on the command line wins over the environment. -/
def Invocation.settings (invocation : Invocation S) (setting? : Option String) :
    Trim.Settings :=
  (Trim.Settings.ofEnvironment setting?).withMode invocation.mode

/-- The file that a command reads. -/
def Command.file : Command S → String
  | .inspect file _ | .render file _ _ _ => file

/-- What a command does: its status, what it prints and the files it writes, in the order of
writing. -/
structure Outcome where
  status : Nat
  printed : String := ""
  files : List (String × String) := []
  deriving Repr, DecidableEq, Inhabited

namespace Outcome

/-- The arguments make no sense. -/
def misuse : Outcome := { status := 2 }

/-- The command could not be carried out. -/
def failure : Outcome := { status := 1 }

/-- The program ended abruptly, for a path that could not be made. -/
def abort : Outcome := { status := 101 }

end Outcome

variable {P : Type} [Scalar P] [Widen S P] [Measure P] [Written S] [Written P]

/-- The name of the file of a frame: its number in at least five characters, the sign included. -/
def frameFile (frame : Int) : String :=
  let digits := (Nat.repr frame.natAbs).toList
  let sign := if frame < 0 then ['-'] else []
  let zeros := List.replicate (5 - sign.length - digits.length) '0'
  "frame_" ++ String.ofList (sign ++ zeros ++ digits) ++ ".svg"

/-- The drawing of a scene as a document. -/
def drawing (scene : Scene S P) : String :=
  Svg.document scene.info.width scene.info.height (Render.Canvas.ofCalls scene.calls)

/-- The file of a scene. -/
def sceneFile (scene : Scene S P) : String × String :=
  (frameFile (Scalar.truncateInto FrameRange.least FrameRange.greatest scene.frame),
    drawing scene)

/-- Writes frames one after the other; the scene of each is the last one brought to its time. A
frame of which a path cannot be made ends the work. -/
def renderFrames (scene : Scene S P) : List Int → Outcome
  | [] => { status := 0 }
  | frame :: rest =>
    let scene := scene.update (Scalar.ofInt frame)
    if scene.isUnbounded then .failure
    else
      let outcome := renderFrames scene rest
      { outcome with files := sceneFile scene :: outcome.files }

/-- Carries out a command on a scene. -/
def Command.perform (scene : Scene S P) : Command S → Outcome
  | .inspect _ frame =>
    let scene := match frame with
      | some frame => scene.update frame
      | none => scene
    if scene.isUnbounded then .abort else { status := 0, printed := Report.text scene }
  | .render _ _ first last =>
    match (FrameRange.ofInfo scene.info).clip first last with
    | .error _ => .failure
    | .ok range => renderFrames scene range.frames

/-- Carries out an invocation on the text of a document. -/
def Invocation.perform (P : Type) [Scalar P] [Widen S P] [Measure P] [Written P]
    (invocation : Invocation S) (setting? : Option String) (text : String) : Outcome :=
  match (Document.decode (S := S)).ofText text with
  | .error _ => .failure
  | .ok document =>
    let scene : Scene S P := Scene.ofDocument (invocation.settings setting?) document
    if scene.isUnbounded then .abort else invocation.command.perform scene

end VectorMotion.CommandLine
