import GatedNetwork.CommandLine.Xor
import GatedNetwork.Decimal.Reading
import GatedNetwork.Error.Message
import GatedNetwork.Image.Basic
import GatedNetwork.Network.Copying

/-! The commands of the program: what the arguments ask for, and what is answered. Files
are read and written outside; here a file is its content. -/

namespace GatedNetwork

inductive Command where
  | help
  | xor (save : Option String)
  | run (path : String) (values : List String)
  | runWithoutPath
  | unknown (name : String)
  deriving DecidableEq

namespace Command

def ofArguments : List String → Command
  | [] => .help
  | name :: rest =>
    match name with
    | "--help" | "-h" | "help" => .help
    | "xor" => .xor rest.head?
    | "run" =>
      match rest with
      | path :: values => .run path values
      | [] => .runWithoutPath
    | name => .unknown name

def file? : Command → Option String
  | .run path _ => some path
  | _ => none

/-- What a command leaves behind: its exit code, its output, and a file to be written. -/
structure Outcome where
  code : Nat := 0
  output : String := ""
  errors : String := ""
  save : Option (String × Bytes) := none

/-- A file that cannot be written makes the command fail after its output. -/
def Outcome.unsaved (o : Outcome) : Outcome :=
  { o with code := 1, errors := "Error: file cannot be written\n", save := none }

def lines (ls : List String) : String := String.join (ls.map (· ++ "\n"))

def helpText : String := lines [
  "gatenet (gated neural networks with a flattening compiler)",
  "usage:",
  "  gatenet xor [out.json]          train a 2-3-1 perceptron on XOR",
  "  gatenet run <snapshot> <x...>   activate a saved network (json or image)",
  "  gatenet help",
  "",
  "RUST_LOG=debug shows compilation and restore events."]

def vectorText (xs : List Float) : String :=
  "[" ++ String.intercalate ", " (xs.map Decimal.pointed.text) ++ "]"

def misuse (reason : String) : Outcome where
  code := 2
  output := helpText
  errors := lines [reason]

def failed (reason : String) : Outcome where
  code := 1
  errors := lines ["Error: " ++ reason]

def answerLine (x : List Float × Float) (y : Float) : String :=
  vectorText x.1 ++ " -> " ++ Decimal.fixed 4 y ++ " (target " ++ Decimal.bare.text x.2 ++ ")"

def programLine (p : Program) : String :=
  "flat program: " ++ toString p.memory.size ++ " slots, " ++
    toString p.instructionCount ++ " instructions"

def runXor (path : Option String) : Except NetworkError Outcome := do
  let (net, ys) ← Xor.run
  let snapshot ← net.toSnapshot
  return {
    output := lines (
      List.zipWith answerLine Xor.examples ys ++ net.program.toList.map programLine)
    save := path.map (·, snapshot.toJsonPretty) }

/-- A stored network is an image if it starts like one, else JSON text. -/
def readSnapshot (content : Bytes) : Except NetworkError Snapshot :=
  if content.take 8 = Image.magic.toList then Snapshot.ofImage content
  else if (String.fromUTF8? ⟨content.toArray⟩).isSome then Snapshot.ofJson content
  else .error .malformedJson

def answer (content : Bytes) (input : List Float) : Except NetworkError (List Float) := do
  let snapshot ← readSnapshot content
  match Network.ofSnapshot snapshot {} {} with
  | .error e _ => .error e
  | .ok net _ =>
    match Network.activate input net with
    | .error e _ => .error e
    | .ok ys _ => .ok ys

def runStored (content : Option Bytes) (values : List String) : Outcome :=
  match content, values.mapM Decimal.read with
  | none, _ => failed "file cannot be read"
  | _, none => failed "invalid float literal"
  | some content, some input =>
    match answer content input with
    | .ok ys => { output := lines [vectorText ys] }
    | .error e => failed e.message

/-- Executes a command. The content is that of the file which the command reads, if there
is such a file. -/
def execute (content : Option Bytes) : Command → Outcome
  | .help => { output := helpText }
  | .xor path =>
    match runXor path with
    | .ok o => o
    | .error e => failed e.message
  | .run _ values => runStored content values
  | .runWithoutPath => misuse "run: missing snapshot path"
  | .unknown name => misuse ("Unknown command: " ++ name)

end Command

end GatedNetwork
