/-
# File names

What a path says about the kind of a file: its last part, and what follows the
last dot of that part. Empty parts and parts that are a single dot do not count,
so a trailing slash changes nothing.

A file name may also be given an extension, behind the one it has.
-/

import LineGuard.Text.Basic

namespace LineGuard.Text

/-- The parts of a path between slashes that count. -/
def pathParts (path : Text) : List Text :=
  (splitAt (· == '/') path).filter fun part => !part.isEmpty && part != ['.']

/-- The name a path ends in, unless it ends in a step upwards or has no parts. -/
def fileName? (path : Text) : Option Text :=
  match (pathParts path).getLast? with
  | some name => if name == ['.', '.'] then none else some name
  | none => none

/-- What follows the last dot of the file name. A dot the name starts with does
not count, so a hidden file has no extension by its dot alone. -/
def extension? (path : Text) : Option Text :=
  (fileName? path).bind fun name =>
    match (splitAt (· == '.') name).reverse with
    | last :: stem => if (join ['.'] stem.reverse).isEmpty then none else some last
    | [] => none

/-- The path with one more extension on the file name, if the path ends in one. What
stands behind the name, slashes and single dots, is left out. -/
def withExtension? (extension path : Text) : Option Text :=
  match (splitAt (· == '/') path).reverse.dropWhile fun part => part.isEmpty || part == ['.'] with
  | [] => none
  | name :: parts =>
    if name == ['.', '.'] then none
    else some (join ['/'] (name :: parts).reverse ++ '.' :: extension)

example : withExtension? "toml".toList "d//g.conf/./".toList = some "d//g.conf.toml".toList ∧
    withExtension? "toml".toList "d/..".toList = none ∧
    withExtension? "toml".toList ".".toList = none := by decide

end LineGuard.Text
