import Pausable.Text.Quoted

/-!
The grammar of command lines. An option is written by its name, or by a beginning of its name that no
other option shares; a switch may have a letter besides, and letters may be joined in one argument.
Behind a bare `--` every argument is an operand. Arguments that nothing takes are left over.
-/
namespace Pausable.Command

/-- The reasons for which a command line is refused. -/
inductive Refusal where
  | ambiguous (argument : Text) (names : List Text)
  /-- A switch takes no value. -/
  | needlessValue (option value : Text)
  | noValue (option : Text)
  | invalidInt (option value : Text)
  | invalidChoice (argument value : Text) (choices : List Text)
  | conflict (option other : Text)
  | missing (names : List Text)
  | leftOver (arguments : List Text)

def Refusal.message : Refusal → Text
  | ambiguous t names => "ambiguous option: " ++ t ++ " could match " ++ Text.join ", " names
  | needlessValue o v => "argument " ++ o ++ ": ignored explicit argument " ++ v.quoted
  | noValue o => "argument " ++ o ++ ": expected one argument"
  | invalidInt o v => "argument " ++ o ++ ": invalid int value: " ++ v.quoted
  | invalidChoice a v choices =>
    "argument " ++ a ++ ": invalid choice: " ++ v.quoted ++ " (choose from "
      ++ Text.join ", " (choices.map Text.quoted) ++ ")"
  | conflict o other => "argument " ++ o ++ ": not allowed with argument " ++ other
  | missing names => "the following arguments are required: " ++ Text.join ", " names
  | leftOver ts => "unrecognized arguments: " ++ Text.join " " ts

/-- Why a command line is not carried out. -/
inductive Stop where
  /-- It asks for help instead. -/
  | help
  /-- A program, or a part of one, refuses it. -/
  | refused (program : Text) (reason : Refusal)

def Stop.line? : Stop → Option Text
  | help => none
  | refused program reason => some (program ++ ": error: " ++ reason.message)

/-- An option; `σ` holds what options set. -/
inductive Flag (σ : Type) where
  | help
  | switch (letter : Option CodePoint) (name : Text) (set : σ → Except Refusal σ)
  | valued (name : Text) (set : Text → σ → Except Refusal σ)

/-- What becomes of the arguments that are no options. -/
inductive Operand (σ : Type) where
  | absent
  /-- The first of them is taken. -/
  | single (set : Text → σ → σ)
  /-- The first of them is taken with all arguments behind it, options or not. -/
  | rest (set : List Text → σ → Except Stop σ)

/-- What a program, or a part of one, understands. -/
structure Grammar (σ : Type) where
  program : Text
  flags : List (Flag σ)
  operand : Operand σ
  /-- The names of what is required and not set. -/
  missing : σ → List Text

variable {σ : Type}

namespace Flag

def letter? : Flag σ → Option CodePoint
  | help => some 'h'
  | switch letter _ _ => letter
  | valued .. => none

def name : Flag σ → Text
  | help => "--help"
  | switch _ name _ | valued name _ => name

def lettered (c : CodePoint) : Text := "-" ++ ([c] : Text)

/-- All ways to write an option in full, as messages show them. -/
def title (f : Flag σ) : Text :=
  match f.letter? with
  | none => f.name
  | some c => lettered c ++ "/" ++ f.name

def isNamed (t : Text) (f : Flag σ) : Bool :=
  f.name = t || f.letter?.any fun c => lettered c = t

end Flag

/-- What an argument means by itself. -/
inductive Sense (σ : Type) where
  | plain
  /-- The first bare `--`. -/
  | divider
  /-- It has the looks of an option and is none. -/
  | stray
  | flag (f : Flag σ)
  | assigned (f : Flag σ) (value : Text)
  /-- A letter with something joined to it. -/
  | joined (f : Flag σ) (more : Text)

namespace Sense

/-- The two sides of the first equals sign. -/
def assignment? : Text → Option (Text × Text)
  | [] => none
  | c :: t =>
    if c = '=' then some ([], t) else (assignment? t).map fun (name, value) => (c :: name, value)

/-- Decimal digits of any script, at least one. -/
def isNumeral (t : Text) : Bool := !t.isEmpty && t.all fun c => c.digitValue?.isSome

/-- A minus and a numeral, which may have a fraction, and a line feed perhaps. -/
def isNegativeNumber (t : Text) : Bool :=
  let unended := if t.getLast? = some '\n' then t.dropLast else t
  match unended with
  | [] => false
  | c :: digits =>
    c = '-' && match digits.dropWhile fun c => c.digitValue?.isSome with
      | [] => isNumeral digits
      | d :: fraction => d = '.' && isNumeral fraction

/-- What an argument is that names no option. -/
def unnamed (t : Text) : Sense σ :=
  if isNegativeNumber t || t.contains ' ' then plain else stray

/-- What an argument with two dashes in front is, if it is not the full name of an option. -/
def abbreviated (flags : List (Flag σ)) (t : Text) : Except Refusal (Sense σ) :=
  let (name, value?) :=
    match assignment? t with
    | none => (t, none)
    | some (name, value) => (name, some value)
  match flags.filter fun f => name.isPrefixOf f.name with
  | [] => .ok (unnamed t)
  | [f] =>
    match value? with
    | none => .ok (flag f)
    | some v => .ok (assigned f v)
  | several => .error (.ambiguous t (several.map Flag.name))

/-- What an argument with one dash in front is, if it is not an option in full. -/
def lettered (flags : List (Flag σ)) (letter : CodePoint) (more t : Text) : Sense σ :=
  match flags.find? fun f => f.letter? = some letter with
  | some f => joined f more
  | none => unnamed t

def ofText (flags : List (Flag σ)) (t : Text) : Except Refusal (Sense σ) :=
  match t with
  | [] | [_] => .ok plain
  | first :: second :: more =>
    if first ≠ '-' then .ok plain
    else
      match flags.find? (Flag.isNamed t) with
      | some f => .ok (flag f)
      | none =>
        match (assignment? t).bind fun (name, value) =>
            (flags.find? (Flag.isNamed name)).map (assigned · value) with
        | some s => .ok s
        | none =>
          if second = '-' then abbreviated flags t else .ok (lettered flags second more t)

/-- What the arguments of a line mean, each with its text. -/
def ofTexts (flags : List (Flag σ)) : List Text → Except Refusal (List (Text × Sense σ))
  | [] => .ok []
  | t :: ts =>
    if t = ("--" : Text) then .ok ((t, divider) :: ts.map (·, plain))
    else
      match ofText flags t with
      | .error e => .error e
      | .ok s => (ofTexts flags ts).map ((t, s) :: ·)

end Sense

/-- The switches of joined letters, and what is left of the argument where a letter is unknown. -/
def joinedFlags (flags : List (Flag σ)) (f : Flag σ) : Text → Except Refusal (List (Flag σ) × Option Text)
  | [] => .ok ([f], none)
  | c :: more =>
    if c = '-' then .error (.needlessValue f.title (c :: more))
    else
      match flags.find? fun g => g.letter? = some c with
      | none => .ok ([f], some ('-' :: c :: more))
      | some g =>
        if more.head? = some '=' then .error (.needlessValue g.title more.tail)
        else (joinedFlags flags g more).map fun (gs, left) => (f :: gs, left)

/-- How far the arguments of a line are taken. -/
structure Progress (σ : Type) where
  settings : σ
  /-- The operand is still to come. -/
  pending : Bool
  /-- The arguments that nothing took, the last one first. -/
  leftOver : List Text

namespace Progress

/-- Nothing takes these arguments. -/
def leave (p : Progress σ) (args : List Text) : Progress σ :=
  { p with leftOver := args.reverse ++ p.leftOver }

def update (p : Progress σ) (set : σ → Except Stop σ) : Except Stop (Progress σ) :=
  (set p.settings).map fun s => { p with settings := s }

end Progress

namespace Grammar

/-- A refusal by the program of the grammar. -/
def refuse {β : Type} (g : Grammar σ) (reason : Refusal) : Except Stop β :=
  .error (.refused g.program reason)

def turn (g : Grammar σ) (f : Flag σ) (s : σ) : Except Stop σ :=
  match f with
  | .help => .error .help
  | .switch _ _ set => (set s).mapError (.refused g.program)
  | .valued name _ => g.refuse (.noValue name)

def assign (g : Grammar σ) (f : Flag σ) (value : Text) (s : σ) : Except Stop σ :=
  match f with
  | .valued _ set => (set value s).mapError (.refused g.program)
  | f => g.refuse (.needlessValue f.title value)

def turnAll (g : Grammar σ) (f : Flag σ) (more : Text) (p : Progress σ) : Except Stop (Progress σ) :=
  match joinedFlags g.flags f more with
  | .error e => g.refuse e
  | .ok (fs, left) =>
    (p.leave left.toList).update fun s => fs.foldlM (fun s f => g.turn f s) s

/-- Takes arguments one by one. Behind a divider all arguments are plain. -/
def scan (g : Grammar σ) : List (Text × Sense σ) → Progress σ → Except Stop (Progress σ)
  | [], p => .ok p
  | (t, .plain) :: rest, p =>
    match g.operand, p.pending with
    | .single set, true =>
      let p := { p with settings := set t p.settings, pending := false }
      match rest with
      | (_, .divider) :: behind => .ok (p.leave (behind.map (·.1)))
      | _ => scan g rest p
    | .rest set, true => p.update (set (t :: rest.map (·.1)))
    | _, _ => scan g rest (p.leave [t])
  | (t, .divider) :: rest, p =>
    match g.operand, p.pending, rest.map (·.1) with
    | .single set, true, u :: behind =>
      .ok ({ p with settings := set u p.settings, pending := false }.leave behind)
    | .rest set, true, u :: behind => p.update (set (t :: u :: behind))
    | _, _, behind => .ok (p.leave (t :: behind))
  | (t, .stray) :: rest, p => scan g rest (p.leave [t])
  | (_, .assigned f value) :: rest, p =>
    match p.update (g.assign f value) with
    | .error e => .error e
    | .ok p => scan g rest p
  | (_, .joined f more) :: rest, p =>
    match g.turnAll f more p with
    | .error e => .error e
    | .ok p => scan g rest p
  | (_, .flag (.valued name set)) :: (value, .plain) :: rest, p =>
    match p.update (g.assign (.valued name set) value) with
    | .error e => .error e
    | .ok p => scan g rest p
  | (_, .flag f) :: rest, p =>
    match p.update (g.turn f) with
    | .error e => .error e
    | .ok p => scan g rest p

/-- Reads a line: what it sets, and the arguments left over. -/
def read (g : Grammar σ) (args : List Text) (s : σ) : Except Stop (σ × List Text) :=
  match Sense.ofTexts g.flags args with
  | .error e => g.refuse e
  | .ok senses =>
    match g.scan senses ⟨s, true, []⟩ with
    | .error e => .error e
    | .ok p =>
      match g.missing p.settings with
      | [] => .ok (p.settings, p.leftOver.reverse)
      | names => g.refuse (.missing names)

end Grammar
end Pausable.Command
