import Ginti.Command.Argument

namespace Ginti.Command

/-- What a run reads and shows, and whether reported errors count. -/
structure Settings where
  input : String
  regex : Bool
  trace : Bool
  tokens : Bool
  symbols : Bool
  nestedScopes : Bool
  context : Bool
  strict : Bool
  deriving DecidableEq, Repr

/-- The settings without any arguments. -/
def Settings.initial : Settings :=
  ⟨"source.txt", false, false, true, true, false, false, false⟩

def Settings.apply (s : Settings) : Flag → Settings
  | .regex => { s with regex := true }
  | .trace => { s with trace := true }
  | .noTokens => { s with tokens := false }
  | .noSymbols => { s with symbols := false }
  | .nestedScopes => { s with nestedScopes := true }
  | .context => { s with context := true }
  | .strict => { s with strict := true }

/-- Why no run takes place. -/
inductive Refusal where
  | help
  | misuse (error : UsageError)
  deriving DecidableEq, Repr

/-- The letters behind the one-letter request for help. The same letter again asks again, and
    from the first other character on they are a value, which help does not take. -/
def clusterRefusal : List Char → Refusal
  | [] => .help
  | 'h' :: letters => clusterRefusal letters
  | value => .misuse (.ignoredValue .help value)

/-- What is known after some of the words. -/
structure Reading where
  settings : Settings
  /-- An operand has named the input. -/
  named : Bool
  /-- The input was named by the last word. -/
  justNamed : Bool
  /-- The arguments that have no use, in order. -/
  surplus : List String
  deriving DecidableEq, Repr

namespace Reading

def initial : Reading :=
  ⟨.initial, false, false, []⟩

/-- Names the input. -/
def nameInput (r : Reading) (text : String) : Reading :=
  { r with settings := { r.settings with input := text }, named := true, justNamed := true }

def addSurplus (r : Reading) (arguments : List String) : Reading :=
  { r with justNamed := false, surplus := r.surplus ++ arguments }

/-- The effect of one word. Help is given at once, whatever follows. -/
def take (r : Reading) : Word → Except Refusal Reading
  | .operand text => .ok (if r.named then r.addSurplus [text] else r.nameInput text)
  | .switch switch (some value) => .error (.misuse (.ignoredValue switch value))
  | .switch .help none => .error .help
  | .switch (.flag flag) none =>
    .ok { r with settings := r.settings.apply flag, justNamed := false }
  | .cluster letters => .error (clusterRefusal letters)
  | .unknown text => .ok (r.addSurplus [text])

/-- The effect of a double dash and the arguments behind it, which are all operands. The dash
    itself has a use only next to the operand that names the input. -/
def takeOperands (r : Reading) (operands : List String) : Reading :=
  if !r.named then
    match operands with
    | [] => r
    | first :: others => (r.nameInput first).addSurplus others
  else if r.justNamed then r.addSurplus operands
  else r.addSurplus ("--" :: operands)

/-- The settings, unless some arguments had no use. -/
def finish (r : Reading) : Except Refusal Settings :=
  if r.surplus.isEmpty then .ok r.settings else .error (.misuse (.unrecognized r.surplus))

end Reading

/-- The words before the double dash, or all words if there is none. -/
def readWords (arguments : List String) : Except Refusal (List Word) :=
  (arguments.mapM Word.read).mapError .misuse

/-- The settings that the arguments ask for. -/
def Settings.ofArguments (arguments : List String) : Except Refusal Settings := do
  let words ← readWords (arguments.takeWhile (· ≠ "--"))
  let reading ← words.foldlM Reading.take .initial
  match arguments.dropWhile (· ≠ "--") with
  | [] => reading.finish
  | _ :: operands => (reading.takeOperands operands).finish

end Ginti.Command
