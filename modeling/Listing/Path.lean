/-
# Attribute paths

A path names an attribute by the relations to walk from the resource that a request lists, in
order, and the attribute at the end. It is written with two underscores between its segments.
-/
import Listing.Text.Blank

namespace Listing

/-- The relations to walk and the attribute at the end of them. -/
structure Path where
  relations : List String
  attr : String
  deriving DecidableEq, Repr, Inhabited

namespace Path

/-- What stands between the segments of a path. -/
def separator : String := "__"

/-- Cut a text at two underscores, from the left: three underscores in a row leave the third to the
piece that follows. -/
def cut : List Char → List (List Char)
  | [] => [[]]
  | '_' :: '_' :: cs => [] :: cut cs
  | c :: cs => Text.growFirst c (cut cs)

/-- The pieces of a text between separators. -/
def splitText (s : String) : List String := (cut s.toList).map String.ofList

/-- Join pieces with the separator. -/
def joinText (pieces : List String) : String := separator.intercalate pieces

/-- The segments of a path. -/
def segments (p : Path) : List String := p.relations ++ [p.attr]

/-- The path with the given segments: there is one exactly if there is a segment and none of them
is empty. -/
def ofSegments? (segments : List String) : Option Path :=
  if segments.any String.isEmpty then none
  else segments.getLast?.map fun attr => ⟨segments.dropLast, attr⟩

/-- Read a path. -/
def read? (s : String) : Option Path := ofSegments? (splitText s)

/-- The written form of a path, which is also its name in results. -/
def label (p : Path) : String := joinText p.segments

theorem ofSegments?_segments {p : Path} (h : ∀ s ∈ p.segments, s.isEmpty = false) :
    ofSegments? p.segments = some p := by
  have hany : p.segments.any String.isEmpty = false := by
    rw [List.any_eq_false]
    intro s hs
    simp [h s hs]
  simp [ofSegments?, hany]
  simp [segments]

theorem segments_of_ofSegments? {segments : List String} {p : Path}
    (h : ofSegments? segments = some p) :
    p.segments = segments ∧ ∀ s ∈ segments, s.isEmpty = false := by
  unfold ofSegments? at h
  split at h
  · simp at h
  · rename_i hany
    obtain ⟨last, hlast, rfl⟩ := Option.map_eq_some_iff.1 h
    have hne : segments ≠ [] := by rintro rfl; simp at hlast
    refine ⟨?_, ?_⟩
    · have hl : segments.getLast hne = last := by
        rw [List.getLast?_eq_some_getLast hne] at hlast
        exact Option.some.inj hlast
      simp only [Path.segments, ← hl]
      exact List.dropLast_concat_getLast hne
    · intro s hs
      have hall := List.any_eq_false.1 (Bool.not_eq_true _ ▸ hany)
      simpa using hall s hs

end Path
end Listing
