/-
# SvgAssets.CommandLine.Arguments -- reading the arguments

Arguments are sorted into words first, all of them: those that name an option, those that look like
one, and all others. A long name may be shortened as long as it stays unique. The text of an option
stands behind an equals sign, directly behind a name of one letter, or in the next word. Then the
words are taken from the left; what belongs to no option is an error at the end. Behind two hyphens
no word names an option.
-/
import SvgAssets.CommandLine.Switch
import SvgAssets.Text.Digit
import SvgAssets.Value

namespace SvgAssets.CommandLine

open Text

/-- Why arguments cannot be used. -/
inductive UsageError where
  | ambiguous (word : Text) (names : List Text)
  | missingText (s : Switch)
  | unwantedText (s : Switch) (given : Text)
  | notAChoice (s : Switch) (given : Text) (choices : List Text)
  | unrecognized (words : List Text)

/-- The wording of an error. -/
def UsageError.message : UsageError → String
  | .ambiguous word names =>
    "ambiguous option: " ++ String.ofList word ++ " could match " ++
      String.ofList ([',', ' '].intercalate names)
  | .missingText s => "argument " ++ s.shown ++ ": expected one argument"
  | .unwantedText s given =>
    "argument " ++ s.shown ++ ": ignored explicit argument " ++ String.ofList (quoted given)
  | .notAChoice s given choices =>
    "argument " ++ s.shown ++ ": invalid choice: " ++ String.ofList (quoted given) ++
      " (choose from " ++ String.ofList ([',', ' '].intercalate (choices.map quoted)) ++ ")"
  | .unrecognized words =>
    "unrecognized arguments: " ++ String.ofList ([' '].intercalate words)

/-! ## Words -/

/-- What is attached to the name of an option. -/
inductive Attached where
  | nothing
  /-- A text directly behind the name. -/
  | joined (t : Text)
  /-- A text behind an equals sign. -/
  | equals (t : Text)

/-- One argument. -/
inductive Word where
  /-- An option under one of its names. -/
  | option (s : Switch) (name : Text) (attached : Attached)
  /-- It looks like an option, but there is none of this name. -/
  | unknown (t : Text)
  | plain (t : Text)

/-- A text, cut at its first equals sign. -/
def cutEquals (t : Text) : Text × Attached :=
  match breakAt? ['='] t with
  | some (name, given) => (name, .equals given)
  | none => (t, .nothing)

/-- The options that a word may mean when it is not the name of one. -/
def candidates (t : Text) : List (Text × Switch × Attached) :=
  match t with
  | '-' :: '-' :: _ =>
    let (start, attached) := cutEquals t
    Switch.byName.filterMap fun (name, s) =>
      if start.isPrefixOf name then some (name, s, attached) else none
  | '-' :: c :: rest =>
    Switch.byName.filterMap fun (name, s) =>
      if name = ['-', c] then some (name, s, .joined rest)
      else if t.isPrefixOf name then some (name, s, .nothing)
      else none
  | _ => []

/-- Whether a word is a negative number. One line end behind it does not count. -/
def isNegativeNumber (t : Text) : Bool :=
  match if t.getLast? = some '\n' then t.dropLast else t with
  | '-' :: s =>
    match breakAt? ['.'] s with
    | some (whole, fraction) =>
      whole.all isDecimal && !fraction.isEmpty && fraction.all isDecimal
    | none => !s.isEmpty && s.all isDecimal
  | _ => false

/-- The word for an argument. -/
def Word.ofText (t : Text) : Except UsageError Word :=
  match t with
  | '-' :: _ :: _ =>
    match Switch.find? t with
    | some s => .ok (.option s t .nothing)
    | none =>
      let (name, attached) := cutEquals t
      match attached, Switch.find? name with
      | .equals given, some s => .ok (.option s name (.equals given))
      | _, _ =>
        match candidates t with
        | [] => .ok (if isNegativeNumber t ∨ ' ' ∈ t then .plain t else .unknown t)
        | [(name, s, attached)] => .ok (.option s name attached)
        | several => .error (.ambiguous t (several.map (·.1)))
  | t => .ok (.plain t)

/-- The words for all arguments. -/
def words : List Text → Except UsageError (List Word)
  | [] => .ok []
  | t :: rest =>
    if t = ['-', '-'] then .ok (.unknown t :: rest.map .plain)
    else do
      let word ← Word.ofText t
      return word :: (← words rest)

/-! ## Options with their texts -/

/-- An option as it is used. -/
inductive Use where
  | bare (s : Switch)
  | withText (s : Switch) (t : Text)
  /-- Its text is the next word. -/
  | withNext (s : Switch)
  /-- It is no option. -/
  | none (t : Text)

/-- The uses that begin with an option and the text directly behind its name, which is one letter
long: the options without a text may be followed by further ones. -/
def bundle (s : Switch) : Text → Except UsageError (List Use)
  | [] => .ok [if s.takesText then .withNext s else .bare s]
  | c :: rest =>
    if s.takesText then .ok [.withText s (c :: rest)]
    else if c = '-' then .error (.unwantedText s (c :: rest))
    else
      match Switch.find? ['-', c] with
      | .none => .ok [.bare s, .none ('-' :: c :: rest)]
      | some next =>
        match rest with
        | '=' :: given =>
          if next.takesText then .ok [.bare s, .withText next given]
          else .error (.unwantedText next given)
        | rest => do return .bare s :: (← bundle next rest)

/-- The uses that an option and what is attached to it make. -/
def uses (s : Switch) (name : Text) (attached : Attached) : Except UsageError (List Use) :=
  let isShort := name.length = 2
  match attached with
  | .nothing => .ok [if s.takesText then .withNext s else .bare s]
  | .joined t => if isShort then bundle s t else .error (.unwantedText s t)
  | .equals t => if s.takesText then .ok [.withText s t] else .error (.unwantedText s t)

/-! ## Results -/

/-- What the arguments ask for. -/
inductive Request where
  | help
  | version
  /-- To go on with what is given for settings. -/
  | proceed (given : Entries Value)

/-- What has been read of the arguments. -/
structure State where
  given : Entries Value
  unrecognized : List Text

/-- Take one use, up to an option that ends the program. `next` is the next word, if it is a plain
one. The flag tells whether it was taken. -/
def take (state : State) (next : Option Text) (use : Use) :
    Except UsageError (State × Bool × Option Request) :=
  let give (s : Switch) (setting t : Text) (choices : Option (List Text)) (taken : Bool) :
      Except UsageError (State × Bool × Option Request) :=
    match choices with
    | some choices =>
      if t ∈ choices then
        .ok ({ state with given := state.given.set setting (.text t) }, taken, none)
      else .error (.notAChoice s t choices)
    | none => .ok ({ state with given := state.given.set setting (.text t) }, taken, none)
  match use with
  | .none t => .ok ({ state with unrecognized := state.unrecognized ++ [t] }, false, none)
  | .bare s =>
    match s.effect with
    | .help => .ok (state, false, some .help)
    | .version => .ok (state, false, some .version)
    | .turn setting on =>
      .ok ({ state with given := state.given.set setting (.bool on) }, false, none)
    | .take _ _ => .error (.missingText s)
  | .withText s t =>
    match s.effect with
    | .take setting choices => give s setting t choices false
    | _ => .error (.unwantedText s t)
  | .withNext s =>
    match s.effect, next with
    | .take setting choices, some t => give s setting t choices true
    | _, _ => .error (.missingText s)

/-- Take several uses. A missing next word counts before anything is done. -/
def takeAll (state : State) (next : Option Text) (us : List Use) :
    Except UsageError (State × Bool × Option Request) :=
  match us.getLast?, next with
  | some (.withNext s), none => .error (.missingText s)
  | _, _ => us.foldlM
    (fun (state, taken, request) use =>
      match request with
      | some r => .ok (state, taken, some r)
      | none => take state next use)
    (state, false, none)

/-- The request of words. -/
def request (state : State) : List Word → Except UsageError Request
  | [] =>
    if state.unrecognized.isEmpty then .ok (.proceed state.given)
    else .error (.unrecognized state.unrecognized)
  | .plain t :: rest | .unknown t :: rest =>
    request { state with unrecognized := state.unrecognized ++ [t] } rest
  | .option s name attached :: rest => do
    let us ← uses s name attached
    match rest with
    | .plain t :: rest' =>
      let (state, taken, ended) ← takeAll state (some t) us
      match ended with
      | some r => return r
      | none => request state (if taken then rest' else .plain t :: rest')
    | rest =>
      let (state, _, ended) ← takeAll state none us
      match ended with
      | some r => return r
      | none => request state rest
termination_by ws => ws.length
decreasing_by
  · simp
  · simp
  · split <;> (simp only [List.length_cons]; omega)
  · simp

/-- The request of the arguments. -/
def parse (arguments : List Text) : Except UsageError Request := do
  request ⟨[], []⟩ (← words arguments)

end SvgAssets.CommandLine
