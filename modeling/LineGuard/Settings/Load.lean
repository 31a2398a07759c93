/-
# Loading settings

Settings come in layers over the built-in ones: files, the environment, and single
settings that are given directly. Layers are laid over each other in order, save
that what is given directly wins over everything else.
-/

import LineGuard.Settings.Basic
import LineGuard.Settings.Environment
import LineGuard.Toml.Document

namespace LineGuard.Settings

/-- A source of settings. -/
inductive Layer where
  /-- A file of TOML, and whether it may be absent. -/
  | file (contents : Option Text) (isOptional : Bool)
  /-- The variables of the environment. -/
  | environment (env : Environment)
  /-- A setting that is given directly by its path. -/
  | direct (path : Text) (value : Value)

namespace Layer

/-- Lays a file or the environment over the settings so far. -/
def lay (settings : Value) : Layer → Except Problem Value
  | file (some contents) _ =>
    match Toml.parse? contents with
    | some entries => .ok (settings.layOver entries)
    | none => .error .unusableSettings
  | file none true => .ok settings
  | file none false => .error .unusableSettings
  | environment env => .ok (settings.layOver env.entries)
  | direct .. => .ok settings

/-- Lays a setting that is given directly over the settings so far. -/
def layDirect (settings : Value) : Layer → Except Problem Value
  | direct path value =>
    match Path.parse? path with
    | some path => .ok (settings.setPath path value)
    | none => .error .unusableSettings
  | _ => .ok settings

end Layer

/-- The settings of some layers, of which later ones win. -/
def load (layers : List Layer) : Except Problem Settings := do
  let settings ← layers.foldlM Layer.lay builtin
  let settings ← layers.foldlM Layer.layDirect settings
  match ofValue? settings with
  | some settings => return settings
  | none => throw .unusableSettings

end LineGuard.Settings
