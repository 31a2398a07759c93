/-
# Analysing a document

The whole computation on one document: its tags, the scope of each tag, the
regions, and the permissions on each line. The regions built here are always
listed by start line, so folding them into a map never meets the problem that
regions from elsewhere can have.
-/

import LineGuard.PermissionMap
import LineGuard.Region.Build
import LineGuard.Scope.Resolver
import LineGuard.Tag.Grammar

namespace LineGuard

/-- What can be chosen about an analysis. -/
structure Options where
  defaults : Defaults
  /-- How many lines behind the first may be looked at for a construct. -/
  scanWindow : Nat
  /-- Whether constructs may be placed by the text alone. -/
  readsText : Bool
  /-- The difference of lines that a comparison of regions lets pass. -/
  boundaryTolerance : Nat
deriving DecidableEq, Repr

/-- The usual choice. -/
def Options.standard : Options := ⟨.standard, Resolver.standardWindow, true, 0⟩

/-- What is found out about a document. -/
structure Analysis where
  lineCount : Nat
  tags : List Tag
  /-- The scopes of the tags, in the same order. -/
  scopes : List Scope
  regions : List Region
  permissions : PermissionMap
deriving DecidableEq, Repr

namespace Analysis

/-- What places scopes under some options. -/
def resolver {Node : Type} (options : Options) (table : LanguageTable)
    (tree : Option (SyntaxTree Node)) : Resolver Node where
  table
  tree
  readsText := options.readsText
  window := options.scanWindow

/-- Analyses a document, with a syntax tree of it if there is one. -/
def ofDocument {Node : Type} [DecidableEq Node] (options : Options) (table : LanguageTable)
    (tree : Option (SyntaxTree Node)) (d : Document) : Except Problem Analysis := do
  let tags := d.tags
  let scopes := tags.map ((resolver options table tree).resolve d)
  let regions := Region.build d tags scopes options.defaults
  let permissions ← PermissionMap.ofRegions d.lineCount regions options.defaults
  return { lineCount := d.lineCount, tags, scopes, regions, permissions }

/-- Analyses a document without a syntax tree. -/
def ofText (options : Options) (table : LanguageTable) (d : Document) :
    Except Problem Analysis :=
  ofDocument options table (none : Option (SyntaxTree Nat)) d

/-- The regions of one target. -/
def regionsFor (a : Analysis) (target : Target) : List Region :=
  a.regions.filter (·.target == target)

end Analysis

end LineGuard
