import SeriesCache.Cache
/-!
# Settings from options

The settings of a cache are read from the arguments of a command line and from variables of its
environment.  An argument wins over a variable, and a variable over the default; a database has
none.  An option takes one value, behind it or after an equals sign, and is given once.
-/
namespace SeriesCache

inductive OptionError where
  | missing
  | unknown
  | invalid
  /-- A value that is none of the choices, or no value at all. -/
  | noChoice
  | repeated
  | tooMany
  | help
  deriving DecidableEq

inductive Setting where
  | database
  | mergePrecision
  | keyLimit
  | textLayout
  | queryPrecision
  deriving DecidableEq

namespace Setting

/-- In the order in which variables are looked at. -/
def all : List Setting := [database, mergePrecision, keyLimit, textLayout, queryPrecision]

def flag : Setting → Text
  | database => "semcache-database".toList
  | mergePrecision => "semcache-merge-precision".toList
  | keyLimit => "semcache-max-key-length".toList
  | textLayout => "semcache-string-encoding".toList
  | queryPrecision => "semcache-query-precision".toList

def variableName : Setting → Text
  | database => "INFLUXDB_SEMCACHE_DATABASE".toList
  | mergePrecision => "INFLUXDB_SEMCACHE_MERGE_PRECISION".toList
  | keyLimit => "INFLUXDB_SEMCACHE_MAX_KEY_LENGTH".toList
  | textLayout => "INFLUXDB_SEMCACHE_STRING_ENCODING".toList
  | queryPrecision => "INFLUXDB_SEMCACHE_QUERY_PRECISION".toList

def ofFlag? (name : Text) : Option Setting := all.find? fun s => s.flag = name

end Setting

/-- The settings given so far. -/
structure Options where
  database : Option Text
  mergePrecision : Option Precision
  keyLimit : Option Nat
  textLayout : Option TextLayout
  queryPrecision : Option Precision

namespace Options

def none : Options := ⟨.none, .none, .none, .none, .none⟩

def has (o : Options) : Setting → Bool
  | .database => o.database.isSome
  | .mergePrecision => o.mergePrecision.isSome
  | .keyLimit => o.keyLimit.isSome
  | .textLayout => o.textLayout.isSome
  | .queryPrecision => o.queryPrecision.isSome

def precision (value : Text) : Except OptionError Precision :=
  (Precision.ofLabel? value).elim (.error .invalid) .ok

/-- A length, perhaps with a plus sign, below 2^64. -/
def length (value : Text) : Except OptionError Nat :=
  let digits := (Text.dropPrefix? ['+'] value).getD value
  (Signed.unsigned? digits).elim (.error .invalid) fun n => .ok n.toNat

def layout (value : Text) : Except OptionError TextLayout :=
  if value = "fixed".toList then .ok .fixed
  else if value = "length-prefixed".toList then .ok .counted
  else .error .noChoice

def assign (o : Options) (setting : Setting) (value : Text) : Except OptionError Options :=
  match setting with
  | .database => .ok { o with database := value }
  | .mergePrecision => do return { o with mergePrecision := ← precision value }
  | .keyLimit => do return { o with keyLimit := ← length value }
  | .textLayout => do return { o with textLayout := ← layout value }
  | .queryPrecision => do return { o with queryPrecision := ← precision value }

/-! ## Arguments -/

/-- An option that was named, and its value if that has come yet. -/
abbrev Pending := Option (Setting × Option Text)

def give (o : Options) (setting : Setting) (value : Text) : Except OptionError Options :=
  if o.has setting then .error .repeated else o.assign setting value

/-- Settles the option that was named last. -/
def settle (o : Options) : Pending → Except OptionError Options
  | .none => .ok o
  | some (_, .none) => .error .noChoice
  | some (setting, some value) => o.give setting value

/-- The name of a long option and the value after its equals sign. -/
def splitLong (arg : Text) : Text × Option Text :=
  match arg.dropWhile (· ≠ '=') with
  | [] => (arg, .none)
  | _ :: value => (arg.takeWhile (· ≠ '='), some value)

def ofArguments (o : Options) (pending : Pending) : List Text → Except OptionError Options
  | [] => o.settle pending
  | ['-', '-'] :: args => if args.isEmpty then o.settle pending else .error .unknown
  | ('-' :: '-' :: arg) :: args => do
    let (name, value) := splitLong arg
    if name = "help".toList then
      if value.isSome then .error .tooMany
      let _ ← o.settle pending
      .error .help
    else match Setting.ofFlag? name with
      | .none => .error .unknown
      | some setting => do
        let o ← o.settle pending
        match value with
        | some value => ofArguments (← o.give setting value) .none args
        | .none => ofArguments o (some (setting, .none)) args
  | ('-' :: c :: _) :: _ => do
    if c = 'h' then
      let _ ← o.settle pending
      .error .help
    else .error .unknown
  | arg :: args => match pending with
    | some (setting, .none) => ofArguments o (some (setting, some arg)) args
    | _ => .error .unknown

/-! ## Variables and defaults -/

/-- The settings that are not given yet, from the variables of an environment. -/
def ofVariables (o : Options) (environment : List (Text × Text)) : Except OptionError Options :=
  Setting.all.foldlM (fun o setting =>
    if o.has setting then .ok o
    else match environment.lookup setting.variableName with
      | some value => o.assign setting value
      | .none => .ok o) o

def settings (o : Options) : Except OptionError Settings :=
  match o.database with
  | .none => .error .missing
  | some database =>
    let default := Settings.ofDatabase database
    .ok { database
          mergePrecision := o.mergePrecision.getD default.mergePrecision
          keyLimit := o.keyLimit.getD default.keyLimit
          textLayout := o.textLayout.getD default.textLayout
          queryPrecision := o.queryPrecision.getD default.queryPrecision }

end Options

/-- The settings that arguments and an environment ask for. -/
def Settings.read (args : List Text) (environment : List (Text × Text)) :
    Except OptionError Settings := do
  let given ← Options.none.ofArguments none args
  (← given.ofVariables environment).settings

end SeriesCache
