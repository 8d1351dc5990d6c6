import LineScript.Path
import LineScript.Table
import LineScript.Yaml.Document

/-!
This module contains the settings of the shell and how they are loaded. They are read from a file
that is named when the shell is started, by the environment, or else has its usual name; only in the
last case may it be missing.
-/

namespace LineScript

/--
The part of the environment that matters here.
-/
structure Environment where
  /-- The file with the settings. -/
  config : Option Text := none
  /-- Anything here turns tracing on. -/
  debug : Option Text := none
  deriving Repr, Inhabited

/--
Does the environment turn tracing on?
-/
def Environment.tracing (environment : Environment) : Bool :=
  !(environment.debug.getD []).isEmpty

/--
The settings. They may hold data of any type.
-/
structure Config where
  prompt : Yaml.Node := .scalar (.text ['>', ' '])
  banner : Yaml.Node := .scalar .null
  debug : Yaml.Node := .scalar (.bool false)
  exitOnError : Yaml.Node := .scalar (.bool true)
  deriving Inhabited

namespace Config

/--
Why settings could not be loaded.
-/
inductive Problem
  /-- The data in the file could not be read. -/
  | badData (problem : Yaml.Problem)
  /-- The bytes of the file are no text. -/
  | notText
  | isDirectory
  /-- The path of the file is too long. -/
  | tooLong
  | missing (path : Text)
  | notMapping (path typeName : Text)
  | unknownKeys (path : Text) (keys : List Text)
  | keyNotText (typeName : Text)
  /-- Unknown keys have no order. -/
  | keysUnordered (typeName typeName' : Text)
  deriving DecidableEq, Repr, Inhabited

/--
The words for a problem.
-/
def Problem.message : Problem → Text
  | .badData problem => problem.message
  | .notText => "the config file is not UTF-8".toList
  | .isDirectory => "the config file is a directory".toList
  | .tooLong => "the path of the config file is too long".toList
  | .missing path => "config file not found: ".toList ++ path
  | .notMapping path typeName => path ++ ": config must be a mapping, got ".toList ++ typeName
  | .unknownKeys path keys =>
    path ++ ": unknown config keys: ".toList ++ Text.join ", ".toList keys
  | .keyNotText typeName =>
    "sequence item 0: expected str instance, ".toList ++ typeName ++ " found".toList
  | .keysUnordered typeName typeName' =>
    "'<' not supported between instances of '".toList ++ typeName ++ "' and '".toList ++
      typeName' ++ ['\'']

/--
The usual name of the file.
-/
def defaultName : Text := "quill.yaml".toList

/--
Where the settings are.
-/
structure Location where
  path : Path
  /-- The path as it is shown in messages. -/
  shown : Text
  /-- Was the file asked for? -/
  explicit : Bool
  deriving Repr, Inhabited

/--
Where the settings are: at a path that is given, or that the environment gives, or in the working
directory. Empty paths do not count.
-/
def locate (path : Option Text) (environment : Environment) (directory : Text) : Location :=
  match [path, environment.config].filterMap id |>.find? (!·.isEmpty) with
  | some given =>
    let path := Path.ofText given
    ⟨path, path.text, true⟩
  | none => ⟨.child {} defaultName, ((Path.ofText directory).child defaultName).text, false⟩

/--
The names of the settings.
-/
def knownKeys : List Text := ["prompt", "banner", "debug", "exit_on_error"].map (·.toList)

/--
The entries at a location; there are none if nothing is there and nothing was asked for.
-/
def entries (location : Location) : Entry → Except Problem (List (Yaml.Node × Yaml.Node))
  | .absent | .blocked | .impossible =>
    if location.explicit then throw (.missing location.shown) else return []
  | .tooLong => throw .tooLong
  | .directory => throw .isDirectory
  | .file none => throw .notText
  | .file (some content) =>
    match Yaml.parse content with
    | .error problem => throw (.badData problem)
    | .ok (.scalar .null) => return []
    | .ok (.map entries) => return entries
    | .ok node => throw (.notMapping location.shown node.typeName)

/--
The keys that are not names of settings.
-/
def unknownKeys (entries : List (Yaml.Node × Yaml.Node)) : List Yaml.Node :=
  (entries.map (·.1)).filter fun key => !knownKeys.any fun name => key.ownText? = some name

/--
The smallest of some numbers with their keys.
-/
def smallest (first : Yaml.Node × Quantity) (others : List (Yaml.Node × Quantity)) : Yaml.Node :=
  (others.foldl (fun least other => if other.2.less least.2 then other else least) first).1

/--
The problem with unknown keys. They are to be named in order, so keys that have no order are a
problem of their own, and else the first one that is not a text.
-/
def keyProblem (location : Location) (first : Yaml.Node) (others : List Yaml.Node) : Problem :=
  let keys := first :: others
  match keys.mapM (·.ownText?), first.quantity?, others.mapM quantified? with
  | some names, _, _ => .unknownKeys location.shown (Table.ofList (names.map (·, ()))).names
  | none, some q, some qs => .keyNotText (smallest (first, q) qs).fullTypeName
  | none, _, _ =>
    match others.find? (·.fullTypeName ≠ first.fullTypeName) with
    | some other => .keysUnordered other.fullTypeName first.fullTypeName
    | none => .keyNotText first.fullTypeName
where
  /--
  A key that is a number.
  -/
  quantified? (key : Yaml.Node) : Option (Yaml.Node × Quantity) := key.quantity?.map (key, ·)

/--
Refuse unknown keys. A key without a value counts as the first one.
-/
def checkKeys (location : Location) (entries : List (Yaml.Node × Yaml.Node)) :
    Except Problem Unit :=
  let (nulls, others) := (unknownKeys entries).partition (·.isNull)
  match nulls ++ others with
  | [] => return ()
  | first :: others => throw (keyProblem location first others)

/--
The settings with some entries in place of the usual ones.
-/
def ofEntries (entries : List (Yaml.Node × Yaml.Node)) : Config :=
  { prompt := field "prompt" usual.prompt
    banner := field "banner" usual.banner
    debug := field "debug" usual.debug
    exitOnError := field "exit_on_error" usual.exitOnError }
where
  /--
  The settings when nothing is said.
  -/
  usual : Config := {}
  /--
  The entry with a name.
  -/
  field (name : String) (otherwise : Yaml.Node) : Yaml.Node :=
    ((entries.find? fun (key, _) => key.ownText? = some name.toList).map (·.2)).getD otherwise

/--
The settings at a location where `entry` was found.
-/
def load (location : Location) (environment : Environment) (entry : Entry) :
    Except Problem Config := do
  let entries ← entries location entry
  checkKeys location entries
  let config := ofEntries entries
  return if environment.tracing then { config with debug := .scalar (.bool true) } else config

end Config

end LineScript
