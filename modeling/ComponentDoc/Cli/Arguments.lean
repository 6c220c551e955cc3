import ComponentDoc.Pass

/-!
The arguments of the command line. Arguments are taken in order and the first fault ends the
reading; an option may be given once. Behind a lone pair of hyphens everything is an input.
-/

namespace ComponentDoc

structure Arguments where
  inputs : List String := []
  output : Option String := none
  format : Option String := none
  columns : Option String := none
  delimiter : Option String := none
  noDescription : Option String := none
  strict : Bool := false
deriving Repr, DecidableEq, Inhabited

inductive Usage where
  | help
  | invalid
deriving Repr, DecidableEq, Inhabited

inductive ValueOption where
  | output
  | format
  | columns
  | delimiter
  | noDescription
deriving Repr, DecidableEq, Inhabited

inductive OptionName where
  | value (option : ValueOption)
  | strict
  | help
deriving Repr, DecidableEq, Inhabited

def OptionName.ofLong? (name : String) : Option OptionName :=
  if name = "output" then some (.value .output)
  else if name = "format" then some (.value .format)
  else if name = "columns" then some (.value .columns)
  else if name = "delimiter" then some (.value .delimiter)
  else if name = "no-description" then some (.value .noDescription)
  else if name = "strict" then some .strict
  else if name = "help" then some .help
  else none

def OptionName.ofShort? (c : Char) : Option OptionName :=
  if c = 'o' then some (.value .output)
  else if c = 'f' then some (.value .format)
  else if c = 'h' then some .help
  else none

namespace Arguments

def valueOf (arguments : Arguments) : ValueOption → Option String
  | .output => arguments.output
  | .format => arguments.format
  | .columns => arguments.columns
  | .delimiter => arguments.delimiter
  | .noDescription => arguments.noDescription

def setValue (arguments : Arguments) (option : ValueOption) (value : String) :
    Except Usage Arguments :=
  -- An option is given once, and the options that name a path take no empty one.
  if (arguments.valueOf option).isSome then .error .invalid
  else
    match option with
    | .output => if value = "" then .error .invalid else .ok { arguments with output := value }
    | .columns => if value = "" then .error .invalid else .ok { arguments with columns := value }
    | .format => .ok { arguments with format := value }
    | .delimiter => .ok { arguments with delimiter := value }
    | .noDescription => .ok { arguments with noDescription := value }

def setStrict (arguments : Arguments) : Except Usage Arguments :=
  if arguments.strict then .error .invalid else .ok { arguments with strict := true }

/--
What one argument amounts to: it is complete, or an option still needs its value.
-/
inductive Step where
  | done (arguments : Arguments)
  | needsValue (arguments : Arguments) (option : ValueOption)

def readLong (arguments : Arguments) (text : List Char) : Except Usage Step :=
  let name := String.ofList (text.takeWhile (· != '='))
  let attached : Option String :=
    if text.contains '=' then some (String.ofList ((text.dropWhile (· != '=')).drop 1)) else none
  match OptionName.ofLong? name, attached with
  | some (.value option), some value => (arguments.setValue option value).map .done
  | some (.value option), none => .ok (.needsValue arguments option)
  | some .strict, none => arguments.setStrict.map .done
  | some .help, none => .error .help
  | _, _ => .error .invalid

/--
Read short options, without their hyphen. What follows the letter of an option with a value is
that value, and an equals sign may stand between them.
-/
def readShort (arguments : Arguments) : List Char → Except Usage Step
  | [] => .ok (.done arguments)
  | c :: rest =>
    match OptionName.ofShort? c, rest with
    | some (.value option), [] => .ok (.needsValue arguments option)
    | some (.value option), '=' :: value =>
      (arguments.setValue option (String.ofList value)).map .done
    | some (.value option), value => (arguments.setValue option (String.ofList value)).map .done
    | some .strict, rest => arguments.setStrict >>= fun a => readShort a rest
    | some .help, _ => .error .help
    | none, _ => .error .invalid

/--
Whether an argument can be the value of an option that stands before it: it does not look like an
option. A lone hyphen does not.
-/
def isValue (text : String) : Bool :=
  match text.toList with
  | '-' :: _ :: _ => false
  | _ => true

def readAll (arguments : Arguments) : List String → Except Usage Arguments
  | [] => .ok arguments
  | text :: rest =>
    match text.toList with
    -- Whatever follows is an input, even where it looks like an option.
    | ['-', '-'] => .ok { arguments with inputs := arguments.inputs ++ rest }
    | '-' :: '-' :: long => arguments.readLong long >>= fun step => next step rest
    | '-' :: c :: short => arguments.readShort (c :: short) >>= fun step => next step rest
    | _ => readAll { arguments with inputs := arguments.inputs ++ [text] } rest
where
  next (step : Step) (rest : List String) : Except Usage Arguments :=
    match step, rest with
    | .done arguments, rest => readAll arguments rest
    | .needsValue _ _, [] => .error .invalid
    | .needsValue arguments option, value :: rest =>
      if isValue value then arguments.setValue option value >>= fun a => readAll a rest
      else .error .invalid

def ofList (texts : List String) : Except Usage Arguments :=
  readAll {} texts

def options (arguments : Arguments) : Options :=
  let base : Options := {}
  { noDescription := arguments.noDescription.getD base.noDescription
    typeDelimiter := arguments.delimiter.getD base.typeDelimiter
    strict := arguments.strict }

end Arguments

end ComponentDoc
