import ApiSync.Ambient
import ApiSync.Config.Schema
import ApiSync.Files
import ApiSync.Yaml.Load
/-!
Configuration files: where they are looked for, how they are read, and the profile that
is laid over them.
-/

namespace ApiSync
namespace Config

/-- Names under which a configuration file is found, best one first. -/
def fileNames : List String :=
  ["swagger-sync.yaml", "swagger-sync.yml", ".swagger-sync.yaml", ".swagger-sync.yml"]

/-- The configuration file: the one asked for, which must exist, or the first one found in
the directory. -/
def findFile (files : Files) (asked : Option String) (directory : String) :
    Except Failure (Option String) :=
  match asked with
  | none | some "" => pure ((fileNames.map (Path.join directory)).find? files.exists?)
  | some name =>
    let path := Path.resolve directory name
    if files.exists? path then pure (some path) else throw (.config (.missing path))

/-- The mapping in a configuration file; an empty file is an empty mapping. -/
def readFile (files : Files) (path : String) : Except Failure Fields :=
  match (files.read? path).bind Yaml.load? with
  | none => throw (.config (.unreadable path))
  | some v =>
    let v := if v.isNull then .map [] else v
    match fileShape.issues [] v with
    | [] => pure (v.asMap?.getD [])
    | issues => throw (.config (.invalid path issues))

/-- The settings of a profile.  A name that every mapping answers to finds an empty one,
provided that the file has profiles at all. -/
def profile? (file : Fields) (name : String) : Option Settings :=
  match Fields.get? file "environments" with
  | some (.map profiles) =>
    match Fields.get? (profiles.filter (·.1 ≠ Ambient.parentName)) name with
    | some v => some (settingsOf (v.asMap?.getD []))
    | none => if Ambient.isAmbient name then some Settings.none else none
  | _ => none

/-- The configuration that is in force in a directory, with a profile if one is asked
for. -/
def load (files : Files) (asked : Option String) (directory : String) (profile : Option String) :
    Except Failure Config := do
  match ← findFile files asked directory with
  | none =>
    match profile with
    | none => pure Settings.none.config
    | some name => throw (.config (.noFile name))
  | some path =>
    let file ← readFile files path
    match profile with
    | none => pure (settingsOf file).config
    | some name =>
      match profile? file name with
      | none => throw (.config (.noEnvironment name path))
      | some settings => pure (settings.onto (settingsOf file)).config

end Config
end ApiSync
