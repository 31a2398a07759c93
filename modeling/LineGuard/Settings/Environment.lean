/-
# Settings from the environment

Variables whose names begin with `GUARDTAG_`, in letters of any case, are settings.
What follows is the path of the setting, with two underscores for each dot. A value
is a truth value or a number if it reads as one, and a text otherwise.
-/

import LineGuard.Settings.Merge

namespace LineGuard.Settings

/-- The variables of an environment: their names and values. -/
abbrev Environment := List (Text × Text)

namespace Environment

/-- How the names of variables for settings begin, in lower case. -/
def lead : Text := "guardtag_".toList

/-- A name with a dot in place of two underscores. -/
def levels : Text → Text
  | '_' :: '_' :: rest => '.' :: levels rest
  | c :: rest => c :: levels rest
  | [] => []

/-- The path that a variable sets, if it is one of ours. -/
def settingName? (name : Text) : Option Text :=
  (Text.after? lead (foldCase name)).map levels

/-- The integer of 64 bits that a text is the numeral of. -/
def int? (t : Text) : Option Int :=
  let (isNegative, digits) := Decimal.readSign t
  if digits.isEmpty || digits.any (!Text.isAsciiDigit ·) then none
  else
    let magnitude : Int := Text.numberOf digits
    let n := if isNegative then -magnitude else magnitude
    if -(Nat.pow 2 63 : Int) ≤ n ∧ n < Nat.pow 2 63 then some n else none

/-- The floating-point number that a text is the numeral of, or the name of. -/
def float? (t : Text) : Option Double :=
  let (isNegative, name) := Decimal.readSign t
  let name := Text.lower name
  if name = "inf".toList ∨ name = "infinity".toList then some (.infinite isNegative)
  else if name = "nan".toList then some .nan
  else (Decimal.ofText? t).map Double.ofDecimal

/-- The value that a variable has. -/
def valueOf (t : Text) : Value :=
  let word := Text.lower t
  if word = "true".toList then .bool true
  else if word = "false".toList then .bool false
  else
    match int? t, float? t with
    | some n, _ => .int n
    | none, some x => .float x
    | none, none => .text t

/-- The settings among the variables. -/
def entries (env : Environment) : List (Text × Value) :=
  env.filterMap fun (name, value) => (settingName? name).map (·, valueOf value)

example : settingName? "GUARDTAG_SCOPES__SCAN_WINDOW".toList =
    some "scopes.scan_window".toList := by decide

example : settingName? "GUARDTAG".toList = none ∧
    settingName? "guardtag_a___b".toList = some "a._b".toList := by decide

end Environment

end LineGuard.Settings
