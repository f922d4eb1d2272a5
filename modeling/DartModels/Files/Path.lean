/-!
# Paths

A path as text, and what is done to it as text.

A path is not normalised. What a person wrote is what a report shows, so the
operations below keep doubled slashes and detours where they were. They only
look through them: the parent of `a//b` is `a`, and the name at the end of
`x/a.json/.` is `a.json`.

A path that begins with a slash is absolute. Appending it to another path
discards that path.

## Main definitions

* `Path.append`: A path below another.
* `Path.segments`: What stands between the slashes of a path.
* `Path.parent?`, `Path.name?`, `Path.stem?`: The parts of a path.
* `Path.isCurrent`: Whether a path stays where it begins.

## Theorems

* `segments_append_slash`, `segments_append`: The segments of a path that is put
  together.
* `segments_getLast`: A path that does not end in a slash ends in a name.
-/

namespace DartModels

namespace Path

/-- A path below another. -/
def append (base name : String) : String :=
  if name.startsWith "/" || base.isEmpty then name
  else if base.endsWith "/" then base ++ name
  else base ++ "/" ++ name

/-- The segments of a path, between its slashes. -/
def segments (path : String) : List String :=
  (path.toList.splitOn '/').map String.ofList

theorem segments_append_slash (base name : String) :
    segments (base ++ "/" ++ name) = segments base ++ segments name := by
  have hcs : (base ++ "/" ++ name).toList = base.toList ++ '/' :: name.toList := by
    simp only [String.toList_append, List.append_assoc]
    rfl
  rw [segments, hcs, List.splitOn_append_cons_self, List.map_append, segments, segments]

/-- A text without a slash is one segment. -/
theorem segments_eq_singleton {name : String} (h : '/' ∉ name.toList) : segments name = [name] := by
  rw [segments, List.splitOn_eq_singleton h, List.map_singleton, String.ofList_toList]

theorem endsWith_slash_iff {path : String} :
    path.endsWith "/" = true ↔ path.toList.getLast? = some '/' := by
  rw [String.endsWith_eq_endsWith_toSlice, String.Slice.endsWith_string_iff, String.copy_toSlice]
  exact List.singleton_suffix_iff_getLast?_eq_some

/-- What follows the last slash is empty only if nothing follows it. -/
theorem splitOn_slash_getLast {cs : List Char} (hne : cs ≠ []) (hslash : cs.getLast? ≠ some '/') :
    ∃ front last, cs.splitOn '/' = front ++ [last] ∧ last ≠ [] := by
  induction cs with
  | nil => exact absurd rfl hne
  | cons c rest ih =>
      rw [List.splitOn_cons_eq_if_modifyHead]
      cases rest with
      | nil =>
          have hc : (c == '/') = false := by simpa using hslash
          exact ⟨[], [c], by simp [hc], by simp⟩
      | cons d rest =>
          rw [List.getLast?_cons_cons] at hslash
          rcases ih (by simp) hslash with ⟨front, last, hsplit, hlast⟩
          rw [hsplit]
          split
          · exact ⟨[] :: front, last, rfl, hlast⟩
          · cases front with
            | nil => exact ⟨[], c :: last, rfl, by simp⟩
            | cons first front => exact ⟨(c :: first) :: front, last, rfl, hlast⟩

/-- A path that does not end in a slash ends in a name. -/
theorem segments_getLast {path : String} (hne : path ≠ "") (hslash : path.endsWith "/" = false) :
    ∃ front name, segments path = front ++ [name] ∧ name.isEmpty = false := by
  have hlast : path.toList.getLast? ≠ some '/' := fun h => by
    rw [endsWith_slash_iff.mpr h] at hslash
    exact nomatch hslash
  rcases splitOn_slash_getLast (by simpa using hne) hlast with ⟨front, last, hsplit, hne'⟩
  refine ⟨front.map String.ofList, String.ofList last, ?_, by simpa using hne'⟩
  rw [segments, hsplit, List.map_append, List.map_singleton]

/-- The last segment of a path to a name is that name. -/
theorem segments_append (base : String) {name : String} (h : '/' ∉ name.toList) :
    ∃ front, segments (append base name) = front ++ [name] := by
  rw [append]
  split
  · exact ⟨[], segments_eq_singleton h⟩
  split
  · -- The slash that the path ends in is the one before the name.
    rcases List.getLast?_eq_some_iff.mp (endsWith_slash_iff.mp ‹_›) with ⟨front, hfront⟩
    have hbase : base = String.ofList front ++ "/" := by
      rw [← String.toList_inj, hfront, String.toList_append, String.toList_ofList]
      rfl
    rw [hbase, segments_append_slash, segments_eq_singleton h]
    exact ⟨_, rfl⟩
  · rw [segments_append_slash, segments_eq_singleton h]
    exact ⟨_, rfl⟩

/-- Whether a segment leads nowhere. -/
def isIdle (segment : String) : Bool :=
  segment.isEmpty || segment == "."

/-- Segments without the idle ones at their end. -/
def trimIdle (segments : List String) : List String :=
  (segments.reverse.dropWhile isIdle).reverse

/-- Segments as a path again. A path whose only segment is empty is the root. -/
def join (first : String) (rest : List String) : String :=
  if first.isEmpty && rest.isEmpty then "/" else String.intercalate "/" (first :: rest)

/-- The path that a path lies in: `none` for the root and for no path at
    all. -/
def parent? (path : String) : Option String :=
  match segments path with
  | [] => none
  | first :: rest =>
      match trimIdle rest with
      | [] => if first.isEmpty then none else some ""
      | used => some (join first (trimIdle used.dropLast))

/-- The name at the end of a path: `none` if it ends in a detour. -/
def name? (path : String) : Option String :=
  match segments path with
  | [] => none
  | first :: rest =>
      let last := ((trimIdle rest).getLast?).getD first
      if isIdle last || last == ".." then none else some last

/-- A name without what follows its last point. A point at the beginning does
    not count. -/
def withoutExtension (name : String) : String :=
  let cs := name.toList.reverse
  let front := (cs.dropWhile (· != '.')).drop 1
  if front.isEmpty then name else String.ofList front.reverse

/-- The name at the end of a path, without its extension. -/
def stem? (path : String) : Option String :=
  (name? path).map withoutExtension

/-- Whether a path stays where it begins. -/
def isCurrent (path : String) : Bool :=
  !path.isEmpty && !path.startsWith "/" && (segments path).all isIdle

end Path

end DartModels
