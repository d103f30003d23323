import SolidityFlattener.EvmVersion
import SolidityFlattener.Text.Word

/-!
The arguments of the command line.

An argument is an option where it starts with a dash, unless it is the dash alone, looks like a
negative number or holds a blank. A long option can be cut short as long as one option fits; its
value follows it or is attached with `=`. Short options can be written in one argument. Nothing is
taken as an option after `--`.

The arguments are told apart first and taken in order then. What is left over is refused at the end
only, so a request for help is answered where it is reached.
-/

namespace SolidityFlattener.CommandLine

inductive Switch
  | help
  | file
  | batch
  | dir
  | out
  | outAuto
  | evmVersion
  | compilerConfig
  | packageRoot
  | newline
  | verbose
  | quiet
deriving DecidableEq, Repr

inductive Arity
  | none
  | one
  | optional
deriving DecidableEq, Repr

namespace Switch

def arity : Switch → Arity
  | help | verbose | quiet => .none
  | outAuto => .optional
  | _ => .one

/-- Options that exclude each other. -/
def group : Switch → List Switch
  | file | batch | dir => [file, batch, dir]
  | verbose | quiet => [verbose, quiet]
  | _ => []

def spellings : List (Text × Switch) :=
  [("-h", help), ("--help", help), ("--file", file), ("--batch", batch), ("--dir", dir),
    ("--out", out), ("--out-auto", outAuto), ("--evm-version", evmVersion),
    ("--compiler-config", compilerConfig), ("--package-root", packageRoot),
    ("--newline", newline), ("-v", verbose), ("--verbose", verbose), ("-q", quiet),
    ("--quiet", quiet)].map fun s => (s.1.toList, s.2)

def ofText? (t : Text) : Option Switch := spellings.lookup t

end Switch

/-- An argument told apart. A short option comes with what is attached to its letter. -/
inductive Word
  | value (t : Text)
  | dashes
  | long (s : Switch) (attached : Option Text)
  | short (s : Switch) (tail : Text)
  | unknown
deriving DecidableEq, Repr

def isNegativeNumber (t : Text) : Bool :=
  match t with
  | '-' :: body =>
    let body := if body.getLast? = some '\n' then body.dropLast else body
    let whole := body.takeWhile Text.isDecimalDigit
    match body.dropWhile Text.isDecimalDigit with
    | [] => whole != []
    | '.' :: places => places != [] && places.all Text.isDecimalDigit
    | _ => false
  | _ => false

/-- An argument cut at its first equals sign. -/
def cutAttached (t : Text) : Text × Option Text :=
  match t.dropWhile (· != '=') with
  | [] => (t, none)
  | _ :: attached => (t.takeWhile (· != '='), some attached)

/-- An argument of one dash: a short option and what is attached to it. -/
def shortWord (t : Text) : Option Word :=
  (Switch.ofText? (t.take 2)).map fun s => .short s (t.drop 2)

def startingWith (t : Text) : List Switch :=
  (Switch.spellings.filter fun s => t.isPrefixOf s.1).map Prod.snd

def plainWord (t : Text) : Word :=
  if isNegativeNumber t || t.contains ' ' then .value t else .unknown

/-- An argument before any `--`; none where it is short for more than one option. -/
def word? (t : Text) : Option Word :=
  match t with
  | ['-'] => some (.value t)
  | '-' :: '-' :: _ =>
    let (name, attached) := cutAttached t
    -- an exact spelling counts before one that is cut short
    match Switch.ofText? t, Switch.ofText? name with
    | some s, _ => some (.long s none)
    | none, some s => some (.long s attached)
    | none, none =>
      match startingWith name with
      | [] => some (plainWord t)
      | [s] => some (.long s attached)
      | _ => none
  | '-' :: _ => some ((shortWord t).getD (plainWord t))
  | _ => some (.value t)

def words? : List Text → Option (List Word)
  | [] => some []
  | t :: rest =>
    if t = ['-', '-'] then some (.dashes :: rest.map .value)
    else match word? t, words? rest with
      | some w, some ws => some (w :: ws)
      | _, _ => none

/-- How lines of the artifacts end. -/
inductive LineEnd
  | crlf
  | lf
deriving DecidableEq, Repr

namespace LineEnd

def name : LineEnd → Text
  | crlf => "crlf".toList
  | lf => "lf".toList

def text : LineEnd → Text
  | crlf => ['\r', '\n']
  | lf => ['\n']

def ofName? (t : Text) : Option LineEnd := [crlf, lf].find? fun e => e.name == t

end LineEnd

structure Arguments where
  file : Option Text
  batch : Option Text
  dir : Option Text
  out : Option Text
  outAuto : Option Text
  evmVersion : Option EvmVersion
  compilerConfig : Option Text
  packageRoot : Option Text
  newline : LineEnd
  verbose : Nat
  quiet : Bool
deriving DecidableEq, Repr

def Arguments.none : Arguments :=
  ⟨.none, .none, .none, .none, .none, .none, .none, .none, .crlf, 0, false⟩

/-- How a command line ends without a run: help was asked for, or it makes no sense. -/
inductive Exit
  | helped
  | refused
deriving DecidableEq, Repr

def Exit.status : Exit → Nat
  | helped => 0
  | refused => 2

/-- The arguments taken so far, the options among them, and whether anything is left over. -/
structure Reading where
  given : Arguments
  seen : List Switch
  leftOver : Bool

namespace Reading

def start : Reading := ⟨.none, [], false⟩

def store (a : Arguments) (s : Switch) (v : Text) : Except Exit Arguments :=
  match s with
  | .help => .error .helped
  | .file => .ok { a with file := some v }
  | .batch => .ok { a with batch := some v }
  | .dir => .ok { a with dir := some v }
  | .out => .ok { a with out := some v }
  | .outAuto => .ok { a with outAuto := some v }
  | .compilerConfig => .ok { a with compilerConfig := some v }
  | .packageRoot => .ok { a with packageRoot := some v }
  | .verbose => .ok { a with verbose := a.verbose + 1 }
  | .quiet => .ok { a with quiet := true }
  | .evmVersion =>
    match EvmVersion.ofName? v with
    | some version => .ok { a with evmVersion := some version }
    | none => .error .refused
  | .newline =>
    match LineEnd.ofName? v with
    | some e => .ok { a with newline := e }
    | none => .error .refused

/-- An option taken, unless one that it excludes was taken before. -/
def take (r : Reading) (s : Switch) (v : Text) : Except Exit Reading := do
  let given ← store r.given s v
  if s.group.any fun other => other != s && r.seen.contains other then .error .refused
  else return { r with given := given, seen := s :: r.seen }

/-- The short options behind a first one, and whether anything follows them that is none. -/
def cluster? : Text → Option (List Switch × Bool)
  | [] => some ([], false)
  | c :: rest =>
    if c = '-' ∨ c = '=' then none
    else match Switch.ofText? ['-', c] with
      | some s => (cluster? rest).map fun r => (s :: r.1, r.2)
      | none => some ([], true)

def takeAll : Reading → List Word → Except Exit Reading
  | r, [] => .ok r
  -- no value stands by itself, so each of them is left over
  | r, .value _ :: rest => takeAll { r with leftOver := true } rest
  | r, .dashes :: rest => takeAll { r with leftOver := true } rest
  | r, .unknown :: rest => takeAll { r with leftOver := true } rest
  | r, .short s tail :: rest =>
    match cluster? tail with
    | none => .error .refused
    | some (more, leftOver) =>
      match (s :: more).foldlM (fun r s => r.take s []) r with
      | .error e => .error e
      | .ok r => takeAll { r with leftOver := r.leftOver || leftOver } rest
  | r, .long s attached :: rest =>
    match s.arity, attached, rest with
    | .none, some _, _ => .error .refused
    | .none, none, rest => (r.take s []).bind fun r => takeAll r rest
    | _, some v, rest => (r.take s v).bind fun r => takeAll r rest
    | _, none, .value v :: rest => (r.take s v).bind fun r => takeAll r rest
    | .one, none, _ => .error .refused
    | .optional, none, rest => (r.take s []).bind fun r => takeAll r rest

end Reading

/-- The arguments of a command line. One of the three sources must be given, and nothing may be
left over. -/
def parse (args : List Text) : Except Exit Arguments :=
  match words? args with
  | none => .error .refused
  | some words =>
    match Reading.start.takeAll words with
    | .error e => .error e
    | .ok r =>
      if r.leftOver || !([Switch.file, .batch, .dir].any r.seen.contains) then .error .refused
      else .ok r.given

end SolidityFlattener.CommandLine
