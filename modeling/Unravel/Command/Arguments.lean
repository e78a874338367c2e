import Unravel.Text.Integer

/-!
Contract: the command line's arguments.

An argument that opens with a dash is an option, unless it is a lone dash, a
negative number or holds a blank. A long option may be cut short as long as one
option only begins that way, and may carry its value behind an equals sign; a
short one may carry its value at once. An option that takes a value takes the
next argument, which must not look like an option. The first argument that is
neither option nor value is the input; a second one is a mistake.

After two dashes nothing is an option. They count as nothing when they stand
next to the input.
-/

namespace Unravel.Command

inductive Setting where
  | help
  | output
  | skipPasses
  | onlyPasses
  | inline
  | renameMap
  | config
  | rotatedName
  | rotation
  | rot13
  | plain
  | report
  | reportFile
  | trace
  | profile
  | verbose
deriving DecidableEq, Repr

namespace Setting

def takesValue : Setting → Bool
  | .help | .rot13 | .plain | .report | .profile | .verbose => false
  | _ => true

def spellings : List (String × Setting) :=
  [("-h", .help), ("--help", .help), ("-o", .output), ("--out", .output), ("--output", .output),
    ("--skip-passes", .skipPasses), ("--only-passes", .onlyPasses), ("--inline", .inline),
    ("--rename-map", .renameMap), ("--config", .config), ("--rotated-array-name", .rotatedName),
    ("--array-rotation", .rotation), ("--rot13-strings", .rot13), ("--no-beautify", .plain),
    ("--report", .report), ("--report-json", .reportFile), ("--trace", .trace),
    ("--profile", .profile), ("--verbose", .verbose)]

def ofSpelling? (spelling : List Char) : Option Setting :=
  spellings.lookup (String.ofList spelling)

end Setting

/-- A call of the program. What no argument says is absent. -/
structure Invocation where
  input : String
  output : Option String
  skipPasses : Option String
  onlyPasses : Option String
  inline : Option String
  renameMap : Option String
  config : Option String
  rotatedName : Option String
  rotation : Option Int
  rot13 : Bool
  plain : Bool
  report : Bool
  reportFile : Option String
  trace : Option String
  profile : Bool
  verbose : Bool
deriving DecidableEq, Repr

inductive Usage where
  | help
  | mistake
deriving DecidableEq, Repr

/-! ## Tokens -/

inductive Token where
  | operand (text : String)
  | separator
  | unknown
  /-- An option, whether it is a short one, and the value written behind it. -/
  | option (setting : Setting) (short : Bool) (joined : Option (List Char))
deriving DecidableEq, Repr

def isShort : List Char → Bool
  | '-' :: '-' :: _ => false
  | _ => true

def splitEquals (chars : List Char) : Option (List Char × List Char) :=
  match chars.dropWhile (· != '=') with
  | _ :: value => some (chars.takeWhile (· != '='), value)
  | [] => none

/-- What an argument may stand for that spells no option out in full. -/
def candidates (chars : List Char) : List Token :=
  let (opening, joined) : List Char × Option (List Char) :=
    match isShort chars, splitEquals chars with
    | false, some (opening, value) => (opening, some value)
    | _, _ => (chars, none)
  Setting.spellings.filterMap fun entry =>
    let spelling := entry.1.toList
    if isShort chars && spelling = chars.take 2 then
      some (.option entry.2 true (some (chars.drop 2)))
    else if opening.isPrefixOf spelling then some (.option entry.2 (isShort spelling) joined)
    else none

def isDigit (char : Char) : Bool :=
  (Text.digitValue? char).isSome

/-- A negative decimal number, with a line feed behind it or not. -/
def isNegativeNumber (chars : List Char) : Bool :=
  match chars with
  | '-' :: rest =>
    let body := if rest.getLast? = some '\n' then rest.dropLast else rest
    match body.dropWhile isDigit with
    | [] => !body.isEmpty
    | '.' :: fraction => !fraction.isEmpty && fraction.all isDigit
    | _ => false
  | _ => false

def classify (text : String) : Except Usage Token :=
  let chars := text.toList
  if chars.head? != some '-' then .ok (.operand text)
  else
    match Setting.ofSpelling? chars with
    | some setting => .ok (.option setting (isShort chars) none)
    | none =>
      if chars.length = 1 then .ok (.operand text)
      else
        let written := (splitEquals chars).bind fun parts =>
          (Setting.ofSpelling? parts.1).map fun setting =>
            Token.option setting (isShort chars) (some parts.2)
        match written, candidates chars with
        | some token, _ => .ok token
        | none, [token] => .ok token
        | none, _ :: _ :: _ => .error .mistake
        | none, [] =>
          if isNegativeNumber chars || chars.contains ' ' then .ok (.operand text)
          else .ok .unknown

def tokens : List String → Except Usage (List Token)
  | [] => .ok []
  | text :: rest =>
    if text = "--" then .ok (.separator :: rest.map .operand)
    else
      match classify text with
      | .error usage => .error usage
      | .ok token => (tokens rest).map (token :: ·)

/-! ## Reading -/

structure Reading where
  found : Invocation
  hasInput : Bool
  /-- Whether the input has just been read. -/
  atInput : Bool
  leftOver : Bool
  /-- An option that waits for its value, and the flags written before it. -/
  pending : Option (List Setting × Setting)

namespace Reading

def start : Reading :=
  ⟨⟨"", none, none, none, none, none, none, none, none, false, false, false, none, none, false,
    false⟩, false, false, false, none⟩

def apply (reading : Reading) (setting : Setting) (value : String) : Except Usage Reading :=
  let found := reading.found
  let keep := fun (found : Invocation) => Except.ok { reading with found := found, atInput := false }
  match setting with
  | .help => .error .help
  | .output => keep { found with output := some value }
  | .skipPasses => keep { found with skipPasses := some value }
  | .onlyPasses => keep { found with onlyPasses := some value }
  | .inline => keep { found with inline := some value }
  | .renameMap => keep { found with renameMap := some value }
  | .config => keep { found with config := some value }
  | .rotatedName => keep { found with rotatedName := some value }
  | .rotation =>
    match Text.readInteger value with
    | .ok count => keep { found with rotation := some count }
    | .error _ => .error .mistake
  | .rot13 => keep { found with rot13 := true }
  | .plain => keep { found with plain := true }
  | .report => keep { found with report := true }
  | .reportFile => keep { found with reportFile := some value }
  | .trace => keep { found with trace := some value }
  | .profile => keep { found with profile := true }
  | .verbose => keep { found with verbose := true }

def applyFlags (reading : Reading) : List Setting → Except Usage Reading
  | [] => .ok reading
  | setting :: rest =>
    match reading.apply setting "" with
    | .ok reading => reading.applyFlags rest
    | .error usage => .error usage

/-- Takes in flags and the option after them, or waits for its value. -/
def settle (reading : Reading) (flags : List Setting) (setting : Setting) :
    Except Usage Reading :=
  if setting.takesValue then .ok { reading with pending := some (flags, setting), atInput := false }
  else reading.applyFlags (flags ++ [setting])

/-- Takes in flags and the value for the option after them. -/
def settleWith (reading : Reading) (flags : List Setting) (setting : Setting) (value : String) :
    Except Usage Reading :=
  match reading.applyFlags flags with
  | .ok reading => reading.apply setting value
  | .error usage => .error usage

/-- Takes in an option with characters written right behind it: its value, or
further short options. -/
def settleJoined (reading : Reading) (short : Bool) (flags : List Setting) (setting : Setting) :
    List Char → Except Usage Reading
  | [] => if setting.takesValue then reading.settleWith flags setting "" else .error .mistake
  | letter :: rest =>
    if setting.takesValue then
      reading.settleWith flags setting (String.ofList (letter :: rest))
    else if short then
      match Setting.ofSpelling? ['-', letter] with
      | none => .error .mistake
      | some next =>
        if rest.isEmpty then reading.settle (flags ++ [setting]) next
        else reading.settleJoined short (flags ++ [setting]) next rest
    else .error .mistake

def step (reading : Reading) (token : Token) : Except Usage Reading :=
  match reading.pending, token with
  | some (flags, setting), .operand value =>
    Reading.settleWith { reading with pending := none } flags setting value
  | some _, _ => .error .mistake
  | none, .operand text =>
    if reading.hasInput then .ok { reading with leftOver := true, atInput := false }
    else
      let found := { reading.found with input := text }
      .ok { reading with found := found, hasInput := true, atInput := true }
  | none, .separator =>
    if reading.hasInput && !reading.atInput then .ok { reading with leftOver := true }
    else .ok { reading with atInput := false }
  | none, .unknown => .ok { reading with leftOver := true, atInput := false }
  | none, .option setting _ none => reading.settle [] setting
  | none, .option setting short (some joined) => reading.settleJoined short [] setting joined

def steps (reading : Reading) : List Token → Except Usage Reading
  | [] => .ok reading
  | token :: rest =>
    match reading.step token with
    | .ok reading => reading.steps rest
    | .error usage => .error usage

end Reading

def parse (arguments : List String) : Except Usage Invocation :=
  match tokens arguments with
  | .error usage => .error usage
  | .ok found =>
    match Reading.start.steps found with
    | .error usage => .error usage
    | .ok reading =>
      if reading.pending.isSome || reading.leftOver || !reading.hasInput then .error .mistake
      else .ok reading.found

end Unravel.Command
