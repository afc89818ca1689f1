import GisService.Data.ByteString

/-! Paths resolved without a file system: what the segments between the
separators say, symbolic links aside. -/
namespace Path

open ByteString

def dot : Bytes := ascii "."

def dotdot : Bytes := ascii ".."

/-- The segments of a path, empty ones included. -/
def segments (path : Bytes) : List Bytes := path.splitOn 47

/-- Where a path leads. At the root `..` leads nowhere; in front of a relative
path it has to stay. -/
structure Location where
  absolute : Bool
  segments : List Bytes
  deriving DecidableEq

namespace Location

/-- Remove the last segment. -/
def ascend (l : Location) : Location :=
  match l.segments.getLast? with
  | none => if l.absolute then l else { l with segments := [dotdot] }
  | some last =>
      if last = dotdot then { l with segments := l.segments ++ [dotdot] }
      else { l with segments := l.segments.dropLast }

/-- Follow one segment. -/
def enter (l : Location) (segment : Bytes) : Location :=
  if segment = [] ∨ segment = dot then l
  else if segment = dotdot then l.ascend
  else { l with segments := l.segments ++ [segment] }

/-- The location continues another one, and never turns back. -/
def Within (l root : Location) : Prop :=
  ∃ more, dotdot ∉ more ∧ l = { root with segments := root.segments ++ more }

theorem Within.refl (l : Location) : l.Within l := ⟨[], by simp, by simp⟩

/-- Without a step up a location below the root stays below it. -/
theorem Within.enter {l root : Location} (h : l.Within root) {segment : Bytes}
    (hSegment : segment ≠ dotdot) : (l.enter segment).Within root := by
  obtain ⟨more, hMore, rfl⟩ := h
  unfold Location.enter
  by_cases hSkipped : segment = [] ∨ segment = dot
  · rw [if_pos hSkipped]
    exact ⟨more, hMore, rfl⟩
  · rw [if_neg hSkipped, if_neg hSegment]
    exact ⟨more ++ [segment], by simp [hMore, Ne.symm hSegment], by simp⟩

/-- Segments that are not `..` lead further in. -/
theorem Within.foldl_enter {l root : Location} (h : l.Within root) {more : List Bytes}
    (hMore : dotdot ∉ more) : (more.foldl Location.enter l).Within root := by
  induction more generalizing l with
  | nil => exact h
  | cons segment more ih =>
      obtain ⟨hSegment, hRest⟩ := not_or.mp (mt List.mem_cons.mpr hMore)
      exact ih (h.enter (Ne.symm hSegment)) hRest

end Location

/-- The location that a path names. -/
def resolve (path : Bytes) : Location :=
  (segments path).foldl Location.enter { absolute := path.head? = some 47, segments := [] }

example : resolve (ascii "/../a//b/.././c/") = ⟨true, [ascii "a", ascii "c"]⟩ := by decide +kernel

theorem segments_nil : segments [] = [[]] := rfl

/-- A slash separates the segments of two paths. -/
theorem segments_append_cons (base path : Bytes) :
    segments (base ++ 47 :: path) = segments base ++ segments path :=
  List.splitOn_append_cons_self base path

/-- A separator at the end of a path changes nothing. -/
theorem resolve_concat {base : Bytes} (h : base ≠ []) : resolve (base ++ [47]) = resolve base := by
  have hHead : (base ++ [47]).head? = base.head? := List.head?_append_of_ne_nil base h
  simp [resolve, hHead, segments_append_cons, segments_nil, Location.enter]

/-- A path behind a separator is followed from where the base leads. -/
theorem resolve_append_cons (base path : Bytes) :
    resolve (base ++ 47 :: path) =
      (segments path).foldl Location.enter (resolve (base ++ [47])) := by
  have hHead : (base ++ 47 :: path).head? = (base ++ [47]).head? := by cases base <;> rfl
  simp [resolve, hHead, segments_append_cons, segments_nil, Location.enter]

/-- A segment is a substring. -/
theorem infix_of_mem_segments {path segment : Bytes} (h : segment ∈ segments path) :
    segment <:+: path := by
  have hPath : ((segments path).intersperse [47]).flatten = path := List.intercalate_splitOn 47
  obtain ⟨i, hi⟩ := List.mem_iff_getElem?.mp h
  rw [← hPath]
  refine List.infix_of_mem_flatten (List.mem_iff_getElem?.mpr ⟨2 * i, ?_⟩)
  rw [List.getElem?_intersperse_two_mul, hi]

/-- A path in which the two dots occur nowhere does not turn back. -/
theorem dotdot_not_mem_segments {path : Bytes} (h : ¬ dotdot <:+: path) :
    dotdot ∉ segments path :=
  fun hMem => h (infix_of_mem_segments hMem)

end Path
