/-!
# Arguments

The words that follow the name of a command: options in any order, and words in numbered places.
Words are read from left to right, and the first that cannot be accepted, or that asks for help,
ends the reading.
-/

namespace ScriptRecord.CommandLine

/-- Why words are not read as a request. -/
inductive Stop where
  /-- They ask for help. -/
  | help
  /-- They are not understood. -/
  | refused
  deriving DecidableEq, Repr

/-- An option. -/
structure Switch where
  long : String
  short : Option Char := none
  /-- Which values it takes, if it takes one. -/
  accepts? : Option (String → Bool) := none

/-- The option that asks for help. -/
def Switch.help : Switch := ⟨"help", some 'h', none⟩

/-- The option that asks for more to be reported. -/
def Switch.verbose : Switch := ⟨"verbose", some 'v', none⟩

/-- Which words can follow the name of a command. -/
structure Form where
  switches : List Switch
  /-- Which words are accepted in each place. -/
  places : List (String → Bool)

/-- The options, with those that can be used everywhere. -/
def Form.allSwitches (form : Form) : List Switch :=
  .help :: .verbose :: form.switches

/-- What words say: the values of options, by their long names, and the words in places. -/
structure Given where
  values : List (String × String)
  places : List String

namespace Given

/-- Nothing has been said. -/
def nothing : Given := ⟨[], []⟩

def value? (given : Given) (name : String) : Option String :=
  given.values.lookup name

def has (given : Given) (name : String) : Bool :=
  (given.value? name).isSome

def place? (given : Given) (index : Nat) : Option String :=
  given.places[index]?

/-- Take in an option with a value. An option can be used once. -/
def give (given : Given) (switch : Switch) (value : String) : Except Stop Given :=
  if given.has switch.long ∨ switch.accepts?.any (fun accepts => !accepts value) then
    .error .refused
  else .ok { given with values := (switch.long, value) :: given.values }

/-- Take in an option that has no value. -/
def turnOn (given : Given) (switch : Switch) : Except Stop Given :=
  if switch.long = Switch.help.long then .error .help else given.give switch ""

/-- Take in the word for the next place. -/
def fill (given : Given) (form : Form) (word : String) : Except Stop Given :=
  match form.places[given.places.length]? with
  | some accepts =>
    if accepts word then .ok { given with places := given.places ++ [word] } else .error .refused
  | none => .error .refused

/-- Take in an option by its long name. The value may follow an equals sign; if there is none, the
answer is the option that still waits for its value. -/
def readLong (given : Given) (form : Form) (name : List Char) :
    Except Stop (Given × Option Switch) :=
  let (long, rest) := name.span (· != '=')
  match form.allSwitches.find? fun switch => switch.long.toList == long with
  | none => .error .refused
  | some switch =>
    match switch.accepts?, rest with
    | none, [] => return (← given.turnOn switch, none)
    | none, _ => .error .refused
    | some _, [] => .ok (given, some switch)
    | some _, _ :: value => return (← given.give switch (String.ofList value), none)

/-- Take in options by their letters. What follows the letter of an option with a value is that
value, and an equals sign between them is dropped. -/
def readShort (given : Given) (form : Form) : List Char → Except Stop (Given × Option Switch)
  | [] => .ok (given, none)
  | letter :: rest =>
    match form.allSwitches.find? fun switch => switch.short == some letter with
    | none => .error .refused
    | some switch =>
      match switch.accepts?, rest with
      | none, _ => do (← given.turnOn switch).readShort form rest
      | some _, [] => .ok (given, some switch)
      | some _, '=' :: value => return (← given.give switch (String.ofList value), none)
      | some _, value => return (← given.give switch (String.ofList value), none)

/-- Take in one word that is not the value of an option. -/
def readWord (given : Given) (form : Form) (word : String) : Except Stop (Given × Option Switch) :=
  match word.toList with
  | '-' :: '-' :: name => given.readLong form name
  | '-' :: letter :: rest => given.readShort form (letter :: rest)
  | _ => return (← given.fill form word, none)

/-- Whether a word would be read as options. -/
def looksLikeOption (word : String) : Bool :=
  word.startsWith "-" && word != "-"

/-- Read words, where `waiting` is the option that the last word left without its value. After two
hyphens all words are for places. -/
def read (given : Given) (form : Form) (waiting : Option Switch) :
    List String → Except Stop Given
  | [] => if waiting.isSome then .error .refused else .ok given
  | word :: rest =>
    match waiting with
    | some switch =>
      if looksLikeOption word then .error .refused
      else do (← given.give switch word).read form none rest
    | none =>
      if word = "--" then rest.foldlM (fun given word => given.fill form word) given
      else do
        let (given, waiting) ← given.readWord form word
        given.read form waiting rest

end Given

end ScriptRecord.CommandLine
