import ProtoBuild.CommandLine
import ProtoBuild.Text.Split

/-!
# Reading a command line

A command line has a top level, where a command is named, and the level of that command.
Both have options of their own, and the option for the format belongs to both; where both
give it, that of the command counts.

An option is written `--name`, or with one letter after a dash; several letters may share
a dash.  Its value follows after `=`, or directly after the letter, or as the next word.
A value that is a word of its own is looked at late: when the next option or the next
target comes, or when the level ends.  So help that is asked for by a command comes before a
fault in such a value on the top level.  A word `--` says that no options follow.

No setting may be given twice.
-/

namespace ProtoBuild
namespace CommandLine

/-- What the words of a command line can set. -/
inductive Setting where
  | output
  | lakePath
  | target
  | skipValidation
  | installLocal
  | isolate
  | continueOnFailure
  | clean
  deriving DecidableEq, Repr

/-- Whether a value can be given to a setting. -/
def Setting.accepts : Setting → String → Bool
  | output, value => (OutputFormat.ofName? value).isSome
  | lakePath, value => ! value.isEmpty
  | target, value => ! value.isEmpty
  | _, _ => true

/-- What an option stands for. -/
inductive Switch where
  /-- A setting whose value follows. -/
  | value (setting : Setting)
  /-- A setting that is given by being named. -/
  | flag (setting : Setting)
  /-- A request that ends the reading. -/
  | request (answer : Invocation)
  deriving DecidableEq, Repr

/-- A level of the command line. -/
inductive Level where
  | top
  | build
  | branch
  deriving DecidableEq, Repr

namespace Level

/-- The options of a level that are written with a name. -/
def ofName? : Level → String → Option Switch
  | _, "output" => some (.value .output)
  | _, "help" => some (.request .help)
  | top, "version" => some (.request .version)
  | build, "lake-path" => some (.value .lakePath)
  | branch, "lake-path" => some (.value .lakePath)
  | build, "skip-validation" => some (.flag .skipValidation)
  | build, "install-local" => some (.flag .installLocal)
  | build, "isolate" => some (.flag .isolate)
  | build, "continue-on-failure" => some (.flag .continueOnFailure)
  | build, "clean" => some (.flag .clean)
  | _, _ => none

/-- The options of a level that are written with a letter. -/
def ofLetter? : Level → Char → Option Switch
  | _, 'o' => some (.value .output)
  | _, 'h' => some (.request .help)
  | top, 'V' => some (.request .version)
  | _, _ => none

/-- The words that name a command. -/
def commands : Level → List String
  | top => ["build", "branch", "help"]
  | _ => []

end Level

/-- What has been read of a level. -/
structure Reading where
  given : List (Setting × String) := []
  /-- A setting whose value has not been looked at, and the value if there is one. -/
  pending : Option (Setting × Option String) := none
  deriving DecidableEq, Repr

/-- Reading may end early, with what the command line stands for. -/
abbrev Reads (α : Type) := Except Invocation α

namespace Reading

/-- The value that was given to a setting. -/
def value? (r : Reading) (setting : Setting) : Option String :=
  (r.given.find? (·.1 == setting)).map Prod.snd

/-- Whether a flag was given. -/
def has (r : Reading) (setting : Setting) : Bool :=
  (r.value? setting).isSome

/-- Gives a value to a setting. -/
def give (r : Reading) (setting : Setting) (value : String) : Reads Reading :=
  if r.has setting || ! setting.accepts value then .error .fault
  else .ok { r with given := r.given ++ [(setting, value)] }

/-- Looks at the value that has not been looked at. -/
def settle (r : Reading) : Reads Reading :=
  match r.pending with
  | none => .ok r
  | some (_, none) => .error .fault
  | some (setting, some value) => give { r with pending := none } setting value

/-- Whether the next word is a value. -/
def awaitsValue (r : Reading) : Bool :=
  match r.pending with
  | some (_, none) => true
  | _ => false

/-- Reads an option, perhaps with a value attached to it. -/
def switch (r : Reading) (s : Switch) (attached : Option String) : Reads Reading :=
  match s, attached with
  | .value setting, some value => do (← r.settle).give setting value
  | .value setting, none => do return { (← r.settle) with pending := some (setting, none) }
  | .flag setting, none => do (← r.settle).give setting ""
  | .request answer, none => do
    let _ ← r.settle
    .error answer
  | _, some _ => .error .fault

/-- Reads a word that is no option. -/
def word (r : Reading) (level : Level) (text : String) : Reads Reading :=
  match level with
  | .build => do
    let r ← r.settle
    if r.has .target then .error .fault
    return { r with pending := some (.target, some text) }
  | _ => .error .fault

/-- Reads an option that is written with a name. -/
def named (r : Reading) (level : Level) (text : List Char) : Reads Reading :=
  let (name, value) := match Text.splitFirst? '=' text with
    | some (name, value) => (name, some (String.ofList value))
    | none => (text, none)
  match level.ofName? (String.ofList name) with
  | some s => r.switch s value
  | none => .error .fault

/-- The value after a letter, without the sign before it. -/
def attachedValue : List Char → Option String
  | [] => none
  | '=' :: value => some (String.ofList value)
  | value => some (String.ofList value)

/-- Reads options that are written with letters. -/
def letters (r : Reading) (level : Level) : List Char → Reads Reading
  | [] => .ok r
  | c :: rest =>
    match level.ofLetter? c with
    | none => .error .fault
    | some (.value setting) => r.switch (.value setting) (attachedValue rest)
    | some s => do letters (← r.switch s none) level rest

/-- Reads a word other than `--`. -/
def step (r : Reading) (level : Level) (text : String) : Reads Reading :=
  match text.toList, r.pending with
  | '-' :: '-' :: name, _ => r.named level name
  | '-' :: c :: rest, _ => r.letters level (c :: rest)
  | _, some (setting, none) => .ok { r with pending := some (setting, some text) }
  | _, _ => r.word level text

/-- Reads the words of a level, up to the name of a command and the words after it. -/
def words (r : Reading) (level : Level) :
    List String → Reads (Reading × Option (String × List String))
  | [] => .ok (r, none)
  | text :: rest =>
    if text = "--" then do return (← rest.foldlM (fun r text => r.word level text) r, none)
    else if ! r.awaitsValue && level.commands.contains text then .ok (r, some (text, rest))
    else do words (← r.step level text) level rest

/-- Reads all words of the level of a command. -/
def ofCommand (level : Level) (texts : List String) : Reads Reading := do
  (← words {} level texts).1.settle

/-- The path that leads into the lake. -/
def lakePath (r : Reading) : String :=
  (r.value? .lakePath).getD "."

/-- The options of a build. -/
def buildOptions (r : Reading) : BuildOptions where
  skipValidation := r.has .skipValidation
  installLocal := r.has .installLocal
  isolate := r.has .isolate
  continueOnFailure := r.has .continueOnFailure
  clean := r.has .clean

/-- The format that the level of the command, or else the top level, gives. -/
def format (top r : Reading) : OutputFormat :=
  (((r.value? .output) <|> (top.value? .output)).bind OutputFormat.ofName?).getD .text

end Reading

/-- Whether there is help on what some words name. -/
def isTopic : List String → Bool
  | [] => true
  | [name] => Level.top.commands.contains name
  | _ => false

/-- Reads a command line as far as it goes without an early end. -/
def readAll (texts : List String) : Reads Invocation := do
  match ← Reading.words {} .top texts with
  | (top, none) =>
    let _ ← top.settle
    return .help
  | (top, some ("build", rest)) =>
    let r ← Reading.ofCommand .build rest
    let top ← top.settle
    return .run (Reading.format top r) (.build (r.value? .target) r.lakePath r.buildOptions)
  | (top, some ("branch", rest)) =>
    let r ← Reading.ofCommand .branch rest
    let top ← top.settle
    return .run (Reading.format top r) (.branch r.lakePath)
  | (_, some (_, rest)) => return if isTopic rest then .help else .fault

/-- What a command line stands for. -/
def read (texts : List String) : Invocation :=
  match readAll texts with
  | .ok i => i
  | .error i => i

end CommandLine
end ProtoBuild
