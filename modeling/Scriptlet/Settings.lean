import Scriptlet.Host
import Scriptlet.Quoted
import Scriptlet.Yaml.Node.Parser

/-! # Settings

What a settings file can change. Keys that a file leaves out keep their defaults, and so do keys
without a value; unknown and repeated keys are refused, and so are values of the wrong type.
-/
namespace Scriptlet

structure Settings where
  logLevel : Bytes
  color : Bool
  prompt : Bytes
  historyFile : Bytes
  deriving DecidableEq, Repr

/-- Why the contents of a document are refused, with the lines concerned. -/
inductive SettingFault where
  | unknownKey (line : Nat) (key : Bytes)
  | repeatedKey (line : Nat) (key : Bytes) (earlier : Nat)
  | repeatedSetting (line : Nat) (key : Bytes)
  | wrongType (line : Nat) (found : Bytes) (wanted : Bytes)
  deriving DecidableEq, Repr

namespace SettingFault

/-- The type that a whole document describes. -/
def documentType : Bytes := utf8 "main.config"

def message : SettingFault → Bytes
  | .unknownKey line key =>
    utf8 "line " ++ decimal line ++ utf8 ": field " ++ key ++ utf8 " not found in type " ++
      documentType
  | .repeatedKey line key earlier =>
    utf8 "line " ++ decimal line ++ utf8 ": mapping key " ++ quoted key ++
      utf8 " already defined at line " ++ decimal earlier
  | .repeatedSetting line key =>
    utf8 "line " ++ decimal line ++ utf8 ": field " ++ key ++ utf8 " already set in type " ++
      documentType
  | .wrongType line found wanted =>
    utf8 "line " ++ decimal line ++ utf8 ": cannot unmarshal " ++ found ++ utf8 " into " ++ wanted

end SettingFault

/-- Why settings can not be loaded from a file. -/
inductive SettingsError where
  | unopened (path : Bytes) (error : FileError)
  | unread (path : Bytes) (error : FileError)
  | malformed (path : Bytes) (fault : Yaml.Fault)
  | refused (path : Bytes) (faults : List SettingFault)
  deriving DecidableEq, Repr

namespace SettingsError

/-- Whether the file could not be opened at all. -/
def isUnopened : SettingsError → Bool
  | .unopened _ _ => true
  | _ => false

def message : SettingsError → Bytes
  | .unopened path e => utf8 "config: open " ++ path ++ utf8 ": " ++ e.message path
  | .unread path e =>
    utf8 "config: parse " ++ path ++ utf8 ": yaml: input error: " ++ e.message path
  | .malformed path fault =>
    utf8 "config: parse " ++ path ++ utf8 ": yaml: " ++ fault.message
  | .refused path faults =>
    utf8 "config: parse " ++ path ++ utf8 ": yaml: unmarshal errors:" ++
      faults.flatMap fun f => utf8 "\n  " ++ f.message

end SettingsError

namespace Settings

/-- The history of interactive sessions is kept in the home directory, if there is one. -/
def defaults (processVars : NameMap Bytes) : Settings :=
  { logLevel := utf8 "warn"
    color := true
    prompt := utf8 "pikl> "
    historyFile :=
      match processVars.get? (utf8 "HOME") with
      | none | some [] => []
      | some home => Path.join home (utf8 ".pikl_history") }

/-- Each pair of entries with the same key, by the first of the two. -/
def repeatedKeys : List (Yaml.Node × Yaml.Node) → List SettingFault
  | [] => []
  | (key, _) :: rest =>
    (rest.filter fun e => e.1.label == key.label).map
        (fun e => .repeatedKey e.1.line key.label.2 key.line) ++
      repeatedKeys rest

/-- What a node gives where a value of one type is wanted. -/
inductive Reading (α : Type) where
  | nothing
  | value (a : α)
  | wrong (faults : List SettingFault)

/-- How a scalar is shown in a complaint; a long one is cut. -/
def scalarForm (tag : Yaml.Tag) (text : Bytes) : Bytes :=
  tag.text ++ utf8 " `" ++
    (if 10 < text.length then text.take 7 ++ utf8 "..." else text) ++ utf8 "`"

/-- How a list or a mapping is shown in a complaint. -/
def collectionForm (tag : Yaml.Tag) : Bytes :=
  if tag = .sequence ∨ tag = .mapping then tag.text else tag.text ++ utf8 " ``"

/-- Reads a node by the meaning of its scalar; a value that is missing changes nothing. -/
def readNode {α : Type} (wanted : Bytes) (accept : Bytes → Yaml.Meaning → Option α) :
    Yaml.Node → Except Yaml.Fault (Reading α)
  | .scalar line tag text => do
    match ← Yaml.meaning tag text with
    | .nothing => .ok .nothing
    | meant =>
      match accept text meant with
      | some a => .ok (.value a)
      | none => .ok (.wrong [.wrongType line (scalarForm tag text) wanted])
  | .sequence line tag _ => .ok (.wrong [.wrongType line (collectionForm tag) wanted])
  | .mapping line tag entries =>
    match repeatedKeys entries with
    | [] => .ok (.wrong [.wrongType line (collectionForm tag) wanted])
    | faults => .ok (.wrong faults)
  | .reference _ _ target => readNode wanted accept target
  | .cycle _ name => .error ⟨.anchorInItself name, 0⟩

/-- Every scalar can be taken as a text, in the way it is written. -/
def readText (n : Yaml.Node) : Except Yaml.Fault (Reading Bytes) :=
  readNode (utf8 "string") (fun text meant =>
    match meant with
    | .text t => some t
    | _ => some text) n

/-- Texts for yes and no, or on and off, stand for truth values too. -/
def truthOf : Yaml.Meaning → Option Bool
  | .truth b => some b
  | .text t =>
    if isOneOf ["y", "Y", "yes", "Yes", "YES", "on", "On", "ON"] t then some true
    else if isOneOf ["n", "N", "no", "No", "NO", "off", "Off", "OFF"] t then some false
    else none
  | _ => none

def readTruth (n : Yaml.Node) : Except Yaml.Fault (Reading Bool) :=
  readNode (utf8 "bool") (fun _ meant => truthOf meant) n

/-- Settings with what was read put in its place. -/
def put {α : Type} (r : Reading α) (change : α → Settings) (s : Settings) :
    Settings × List SettingFault :=
  match r with
  | .nothing => (s, [])
  | .value a => (change a, [])
  | .wrong faults => (s, faults)

/-- Changes the setting of a name; nothing if there is no such setting. -/
def set? (s : Settings) (name : Bytes) (n : Yaml.Node) :
    Option (Except Yaml.Fault (Settings × List SettingFault)) :=
  if name = utf8 "log_level" then
    some do .ok (s.put (← readText n) fun t => { s with logLevel := t })
  else if name = utf8 "color" then
    some do .ok (s.put (← readTruth n) fun b => { s with color := b })
  else if name = utf8 "prompt" then
    some do .ok (s.put (← readText n) fun t => { s with prompt := t })
  else if name = utf8 "history_file" then
    some do .ok (s.put (← readText n) fun t => { s with historyFile := t })
  else none

/-- Settings while a document is read, with the faults found so far. While the entries of another
mapping are merged in, `taken` holds the names that no longer matter. -/
structure Loading where
  settings : Settings
  faults : List SettingFault := []
  taken : Option (List Bytes) := none

namespace Loading

def complain (l : Loading) (faults : List SettingFault) : Loading :=
  { l with faults := l.faults ++ faults }

/-- Changes the settings by an entry, unless its name is taken; `done` are the names set by earlier
entries of the same mapping. A key without a value is passed over. -/
def addEntry (l : Loading) (done : List Bytes) (key value : Yaml.Node) :
    Except Yaml.Fault (Loading × List Bytes) := do
  match ← readText key with
  | .nothing => .ok (l, done)
  | .wrong faults => .ok (l.complain faults, done)
  | .value name =>
    if l.taken.any (·.contains name) then .ok (l, done)
    else
      let l := { l with taken := l.taken.map (name :: ·) }
      match l.settings.set? name value with
      | none => .ok (l.complain [.unknownKey key.line name], done)
      | some change =>
        if done.contains name then .ok (l.complain [.repeatedSetting key.line name], done)
        else
          let (settings, faults) ← change
          .ok ({ l with settings }.complain faults, name :: done)

/-- Changes the settings by the entries of a mapping, but for those that merge others in. -/
def addEntries (l : Loading) (done : List Bytes) :
    List (Yaml.Node × Yaml.Node) → Except Yaml.Fault Loading
  | [] => .ok l
  | (key, value) :: rest =>
    if key.isMerge then l.addEntries done rest
    else do
      let (l, done) ← l.addEntry done key value
      l.addEntries done rest

/-- The names of keys that are texts. -/
def names (entries : List (Yaml.Node × Yaml.Node)) : List Bytes :=
  entries.filterMap fun e =>
    match readText e.1 with
    | .ok (.value name) => some name
    | _ => none

mutual

/-- Changes the settings by a node that has to be a mapping. The entries that are merged in come
last and count only where nothing else is set. -/
def addNode : Nat → Yaml.Node → Loading → Except Yaml.Fault Loading
  | 0, _, _ => .error ⟨.tooDeep, 0⟩
  | budget + 1, .mapping _ _ entries, l =>
    match repeatedKeys entries with
    | [] => do
      let l ← l.addEntries [] entries
      match (entries.filter (·.1.isMerge)).getLast? with
      | none => .ok l
      | some (_, source) =>
        let taken := l.taken
        let l ← merge budget source { l with taken := some (taken.getD (names entries)) }
        .ok { l with taken := if taken.isNone then none else l.taken }
    | faults => .ok (l.complain faults)
  | budget + 1, .reference _ _ target, l => addNode budget target l
  | _ + 1, .cycle _ name, _ => .error ⟨.anchorInItself name, 0⟩
  | _ + 1, .sequence line tag _, l =>
    .ok (l.complain [.wrongType line (collectionForm tag) SettingFault.documentType])
  | _ + 1, .scalar line tag text, l => do
    match ← Yaml.meaning tag text with
    | .nothing => .ok l
    | _ => .ok (l.complain [.wrongType line (scalarForm tag text) SettingFault.documentType])

/-- Merges a mapping, or each mapping of a list. -/
def merge : Nat → Yaml.Node → Loading → Except Yaml.Fault Loading
  | 0, _, _ => .error ⟨.tooDeep, 0⟩
  | budget + 1, source, l =>
    match source with
    | .mapping .. | .cycle .. => addNode budget source l
    | .reference _ _ target =>
      if target.isMapping then addNode budget source l else .error ⟨.mergeWithoutMapping, 0⟩
    | .sequence _ _ items => mergeItems budget items l
    | .scalar .. => .error ⟨.mergeWithoutMapping, 0⟩

def mergeItems : Nat → List Yaml.Node → Loading → Except Yaml.Fault Loading
  | 0, _, _ => .error ⟨.tooDeep, 0⟩
  | _ + 1, [], l => .ok l
  | budget + 1, item :: rest, l =>
    match item with
    | .mapping .. | .cycle .. => do
      let l ← addNode budget item l
      mergeItems budget rest l
    | .reference _ _ target =>
      if target.isMapping then do
        let l ← addNode budget item l
        mergeItems budget rest l
      else .error ⟨.mergeWithoutMapping, 0⟩
    | _ => .error ⟨.mergeWithoutMapping, 0⟩

end

end Loading

/-- Settings changed by a document, with the faults of its contents in order. -/
def ofDocument (s : Settings) (d : Yaml.Document) :
    Except Yaml.Fault (Settings × List SettingFault) := do
  let l ← Loading.addNode (d.depth + 1) d.root { settings := s }
  .ok (l.settings, l.faults)

/-- The variable that names a settings file when the command line does not. -/
def fileVariable : Bytes := utf8 "PIKL_CONFIG"

/-- The settings file to read, and whether it was asked for on the command line. -/
def file? (processVars : NameMap Bytes) (path : Bytes) : Option (Bytes × Bool) :=
  if path ≠ [] then some (path, true)
  else match processVars.get? fileVariable with
    | none | some [] => none
    | some path => some (path, false)

/-- Loads settings. A file that is not there matters only if the command line asked for it. -/
def load (host : Host) (path : Bytes) : Except SettingsError Settings :=
  let s := defaults host.processVars
  match file? host.processVars path with
  | none => .ok s
  | some (path, asked) =>
    match host.fileText path with
    | .error .isDirectory => .error (.unread path .isDirectory)
    | .error .notFound => if asked then .error (.unopened path .notFound) else .ok s
    | .error e => .error (.unopened path e)
    | .ok text =>
      match Yaml.Document.parse text with
      | .error fault => .error (.malformed path fault)
      | .ok none => .ok s
      | .ok (some document) =>
        match s.ofDocument document with
        | .error fault => .error (.malformed path fault)
        | .ok (s, []) => .ok s
        | .ok (_, faults) => .error (.refused path faults)

end Settings

end Scriptlet
