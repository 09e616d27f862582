/-
# Options

The settings that all resources of a registry share. A resource may override the two limits.
-/
namespace Listing

structure Options where
  /-- Cuts the value of a list parameter into its items. -/
  separator : Char := ','
  /-- The page size of a request that names none. -/
  defaultLimit : Option Nat := none
  /-- The largest page size; larger ones are cut down to it. -/
  maxLimit : Option Nat := none
  /-- The configuration of text search in stores that have one. -/
  language : String := "english"
  /-- Up to this page size, related rows are loaded row by row. -/
  eagerLimit : Option Nat := none
  deriving DecidableEq, Repr, Inhabited

end Listing
