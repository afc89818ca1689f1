import GisService.Url.Text

/-! What `normalize_path` makes of a path. -/
namespace Url

open ByteString Path

/-- An element that the loop keeps. -/
def Kept (elem : Bytes) : Prop := elem ≠ [] ∧ elem ≠ dot ∧ elem ≠ dotdot ∧ (47 : UInt8) ∉ elem

/-- Elements as they are joined. The last one may be empty. -/
def Normal (elems : List Bytes) : Prop :=
  (∀ elem ∈ elems.dropLast, Kept elem) ∧
    ∀ elem ∈ elems, elem ≠ dot ∧ elem ≠ dotdot ∧ (47 : UInt8) ∉ elem

variable {elems : List Bytes} {elem : Bytes}

theorem normal_of_kept (h : ∀ elem ∈ elems, Kept elem) : Normal elems :=
  ⟨fun elem hMem => h elem (List.mem_of_mem_dropLast hMem), fun elem hMem => (h elem hMem).2⟩

/-- At the end of a path an element that is no dot segment may stand as well. -/
theorem normal_concat (h : ∀ elem ∈ elems, Kept elem) (hDot : elem ≠ dot) (hDots : elem ≠ dotdot)
    (hSlash : (47 : UInt8) ∉ elem) : Normal (elems ++ [elem]) := by
  refine ⟨?_, fun other hMem => ?_⟩
  · rw [List.dropLast_concat]
    exact h
  · rcases List.mem_append.mp hMem with hOld | hNew
    · exact (h other hOld).2
    · obtain rfl := List.mem_singleton.mp hNew
      exact ⟨hDot, hDots, hSlash⟩

/-- One more segment leaves elements that are kept. -/
theorem kept_pushElem (h : ∀ elem ∈ elems, Kept elem) (hSlash : (47 : UInt8) ∉ elem) :
    ∀ other ∈ pushElem elems elem, Kept other := by
  unfold pushElem
  split
  · exact h
  · next hSkip =>
      obtain ⟨hNil, hDot⟩ := not_or.mp hSkip
      split
      · exact fun other hMem => h other (List.mem_of_mem_dropLast hMem)
      · next hDots =>
          intro other hMem
          rcases List.mem_append.mp hMem with hOld | hNew
          · exact h other hOld
          · obtain rfl := List.mem_singleton.mp hNew
            exact ⟨hNil, hDot, hDots, hSlash⟩

/-- All segments in front of the last leave elements that are kept. -/
theorem kept_foldl (h : ∀ elem ∈ elems, Kept elem) {more : List Bytes}
    (hSlash : ∀ elem ∈ more, (47 : UInt8) ∉ elem) :
    ∀ elem ∈ more.foldl pushElem elems, Kept elem := by
  induction more generalizing elems with
  | nil => exact h
  | cons elem more ih =>
      have hPushed := kept_pushElem h (hSlash elem List.mem_cons_self)
      exact ih hPushed fun other hMem => hSlash other (List.mem_cons_of_mem _ hMem)

/-- The last segment leaves a path in normal form. -/
theorem normal_lastElem (h : ∀ elem ∈ elems, Kept elem) (hSlash : (47 : UInt8) ∉ elem) :
    Normal (lastElem elems elem) := by
  unfold lastElem
  split
  · exact normal_concat h (by decide) (by decide) (by simp)
  · next hDot =>
      split
      · exact normal_of_kept fun other hMem => h other (List.mem_of_mem_dropLast hMem)
      · next hDots => exact normal_concat h hDot hDots hSlash

theorem exists_segments (s : Bytes) : ∃ front last, segments s = front ++ [last] := by
  have hNonempty : segments s ≠ [] := List.splitOn_ne_nil 47 s
  obtain ⟨front, last, hSegments⟩ := (List.eq_nil_or_concat (segments s)).resolve_left hNonempty
  exact ⟨front, last, hSegments.trans List.concat_eq_append⟩

/-- The last segment is treated on its own. -/
theorem elements_eq {s last : Bytes} {front : List Bytes} (h : segments s = front ++ [last]) :
    elements s = lastElem (front.foldl pushElem []) last := by
  rw [elements, h, List.dropLast_concat, List.getLast?_concat]
  rfl

theorem kept_front {s last : Bytes} {front : List Bytes} (h : segments s = front ++ [last]) :
    ∀ elem ∈ front.foldl pushElem [], Kept elem := by
  have hNone : ∀ elem ∈ ([] : List Bytes), Kept elem := nofun
  refine kept_foldl hNone fun elem hMem => ?_
  have hSegment : elem ∈ segments s := h ▸ List.mem_append_left _ hMem
  exact not_mem_of_mem_splitOn hSegment

/-- The elements of any path are in normal form. -/
theorem normal_elements (s : Bytes) : Normal (elements s) := by
  obtain ⟨front, last, hSegments⟩ := exists_segments s
  rw [elements_eq hSegments]
  have hLast : last ∈ segments s := hSegments ▸ List.mem_append_right _ List.mem_cons_self
  exact normal_lastElem (kept_front hSegments) (not_mem_of_mem_splitOn hLast)

/-- Elements that are kept are pushed as they are. -/
theorem foldl_pushElem (h : ∀ elem ∈ elems, Kept elem) (front : List Bytes) :
    elems.foldl pushElem front = front ++ elems := by
  induction elems generalizing front with
  | nil => simp
  | cons elem elems ih =>
      obtain ⟨hNil, hDot, hDots, -⟩ := h elem List.mem_cons_self
      have hPush : pushElem front elem = front ++ [elem] := by simp [pushElem, hNil, hDot, hDots]
      rw [List.foldl_cons, hPush, ih fun other hMem => h other (List.mem_cons_of_mem _ hMem)]
      simp

/-- Elements that are joined in normal form are found again. -/
theorem elements_intercalate (h : Normal elems) (hNonempty : elems ≠ []) :
    elements ([47].intercalate elems) = elems ∧ elements (47 :: [47].intercalate elems) = elems := by
  obtain ⟨front, last, rfl⟩ := (List.eq_nil_or_concat elems).resolve_left hNonempty
  rw [List.concat_eq_append] at h ⊢
  obtain ⟨hDot, hDots, -⟩ := h.2 last (by simp)
  have hFront : ∀ elem ∈ front, Kept elem := by
    have hInner := h.1
    rwa [List.dropLast_concat] at hInner
  have hSegments : segments ([47].intercalate (front ++ [last])) = front ++ [last] :=
    List.splitOn_intercalate 47 (fun elem hMem => (h.2 elem hMem).2.2) (by simp)
  have hSlashed : segments (47 :: [47].intercalate (front ++ [last])) =
      ([] :: front) ++ [last] := by
    have hAppend := segments_append_cons [] ([47].intercalate (front ++ [last]))
    rwa [hSegments] at hAppend
  have hFold (start : List Bytes) : front.foldl pushElem start = start ++ front :=
    foldl_pushElem hFront start
  have hLast : lastElem front last = front ++ [last] := by simp [lastElem, hDot, hDots]
  constructor
  · rw [elements_eq hSegments, hFold, List.nil_append, hLast]
  · rw [elements_eq hSlashed, List.foldl_cons, hFold, pushElem,
      if_pos (.inl rfl), List.nil_append, hLast]

/-- Joined elements do not start with the separator. -/
theorem head_intercalate (h : Normal elems) : ([47].intercalate elems).head? ≠ some 47 := by
  cases elems with
  | nil => nofun
  | cons elem rest =>
      obtain ⟨-, -, hSlash⟩ := h.2 elem List.mem_cons_self
      cases elem with
      | cons c elem =>
          have hHead : ([47].intercalate ((c :: elem) :: rest)).head? = some c := by
            cases rest <;> simp [List.intercalate]
          rw [hHead]
          rintro ⟨⟩
          exact hSlash List.mem_cons_self
      | nil =>
          -- Only the last element may be empty.
          cases rest with
          | nil => nofun
          | cons next rest => exact absurd rfl (h.1 [] (by simp)).1

/-- The normal path is that of the elements, with a slash in front if there was
one. -/
theorem normalizePath_eq (s : Bytes) : normalizePath s =
    (if s.head? = some 47 then [47] else []) ++ [47].intercalate (elements s) := by
  by_cases hNil : s = []
  · subst hNil
    rfl
  · rw [normalizePath, if_neg hNil]

/-- A normalised path stays as it is. -/
theorem normalizePath_normalizePath (s : Bytes) :
    normalizePath (normalizePath s) = normalizePath s := by
  have hNormal := normal_elements s
  rw [normalizePath_eq s]
  split
  · rw [List.singleton_append, normalizePath_eq, List.head?_cons, if_pos rfl]
    cases hElems : elements s with
    | nil => rfl
    | cons elem rest =>
        rw [hElems] at hNormal
        rw [(elements_intercalate hNormal (by simp)).2]
        rfl
  · rw [List.nil_append, normalizePath_eq, if_neg (head_intercalate hNormal)]
    cases hElems : elements s with
    | nil => rfl
    | cons elem rest =>
        rw [hElems] at hNormal
        rw [(elements_intercalate hNormal (by simp)).1]
        rfl

/-- A location that is reached by the elements, behind some number of steps up
from the start of a relative path. -/
def Reached (l : Location) (elems : List Bytes) : Prop :=
  ∃ k, (l.absolute = true → k = 0) ∧ l.segments = List.replicate k dotdot ++ elems

theorem absolute_ascend (l : Location) : l.ascend.absolute = l.absolute := by
  unfold Location.ascend
  split
  · split <;> rfl
  · split <;> rfl

theorem absolute_enter (l : Location) (elem : Bytes) : (l.enter elem).absolute = l.absolute := by
  unfold Location.enter
  split
  · rfl
  · split
    · exact absolute_ascend l
    · rfl

theorem absolute_foldl (l : Location) (more : List Bytes) :
    (more.foldl Location.enter l).absolute = l.absolute := by
  induction more generalizing l with
  | nil => rfl
  | cons elem more ih => rw [List.foldl_cons, ih, absolute_enter]

/-- To go up is to drop the last element. -/
theorem Reached.ascend {l : Location} (h : Reached l elems) (hDots : dotdot ∉ elems) :
    Reached l.ascend elems.dropLast := by
  obtain ⟨k, hAbsolute, hSegments⟩ := h
  rcases List.eq_nil_or_concat elems with rfl | ⟨front, last, rfl⟩
  · rw [List.append_nil] at hSegments
    cases hl : l.absolute with
    | true =>
        obtain rfl := hAbsolute hl
        refine ⟨0, fun _ => rfl, ?_⟩
        simp [Location.ascend, hSegments, hl]
    | false =>
        refine ⟨k + 1, fun hUp => ?_, ?_⟩
        · rw [absolute_ascend, hl] at hUp
          cases hUp
        · rw [List.dropLast_nil, List.append_nil]
          cases k with
          | zero => simp [Location.ascend, hSegments, hl]
          | succ k =>
              rw [List.replicate_succ', ← hSegments]
              simp [Location.ascend, hSegments, List.getLast?_replicate]
  · rw [List.concat_eq_append] at hSegments hDots ⊢
    have hLast : last ≠ dotdot := fun h => hDots (by simp [h])
    refine ⟨k, fun hUp => hAbsolute (absolute_ascend l ▸ hUp), ?_⟩
    have hSome : l.segments.getLast? = some last := by rw [hSegments]; simp
    rw [Location.ascend, hSome]
    simp only [if_neg hLast, hSegments]
    rw [← List.append_assoc, List.dropLast_concat, List.dropLast_concat]

/-- To follow a segment is to push it. -/
theorem Reached.enter {l : Location} (h : Reached l elems) (hDots : dotdot ∉ elems)
    (elem : Bytes) : Reached (l.enter elem) (pushElem elems elem) := by
  unfold Location.enter pushElem
  split
  · exact h
  · split
    · exact h.ascend hDots
    · obtain ⟨k, hAbsolute, hSegments⟩ := h
      exact ⟨k, hAbsolute, by rw [hSegments, List.append_assoc]⟩

theorem dotdot_not_mem_of_kept (h : ∀ elem ∈ elems, Kept elem) : dotdot ∉ elems :=
  fun hMem => (h dotdot hMem).2.2.1 rfl

/-- To follow a path is to push its segments. -/
theorem Reached.foldl {l : Location} (h : Reached l elems) (hKept : ∀ elem ∈ elems, Kept elem)
    {more : List Bytes} (hSlash : ∀ elem ∈ more, (47 : UInt8) ∉ elem) :
    Reached (more.foldl Location.enter l) (more.foldl pushElem elems) := by
  induction more generalizing l elems with
  | nil => exact h
  | cons elem more ih =>
      have hEnter := h.enter (dotdot_not_mem_of_kept hKept) elem
      have hPushed := kept_pushElem hKept (hSlash elem List.mem_cons_self)
      exact ih hEnter hPushed fun other hMem => hSlash other (List.mem_cons_of_mem _ hMem)

/-- The elements that say something. -/
def steps (elems : List Bytes) : List Bytes := elems.filter (· ≠ [])

/-- Elements that are kept are followed one by one. -/
theorem steps_eq_self (h : ∀ elem ∈ elems, Kept elem) : steps elems = elems := by
  rw [steps, List.filter_eq_self]
  exact fun elem hMem => decide_eq_true (h elem hMem).1

/-- Of the last element only what is not empty leads anywhere. -/
theorem steps_lastElem (h : ∀ elem ∈ elems, Kept elem) (last : Bytes) :
    steps (lastElem elems last) = pushElem elems last := by
  have hSelf := steps_eq_self h
  unfold pushElem lastElem
  split
  · next hDot =>
      rw [if_pos (.inr hDot), steps, List.filter_append]
      exact (List.append_nil _).trans hSelf
  · next hDot =>
      split
      · next hDots =>
          rw [if_neg (by simp [hDots, dot, dotdot, ascii])]
          exact steps_eq_self fun elem hMem => h elem (List.mem_of_mem_dropLast hMem)
      · rw [steps, List.filter_append, ← steps, hSelf]
        by_cases hNil : last = [] <;> simp [hNil, hDot]

/-- The location and the elements behind all segments of a path. -/
theorem reached_resolve (s : Bytes) : Reached (resolve s) (steps (elements s)) := by
  obtain ⟨front, last, hSegments⟩ := exists_segments s
  have hStart : Reached ⟨decide (s.head? = some 47), []⟩ [] := ⟨0, fun _ => rfl, rfl⟩
  have hSlash : ∀ elem ∈ front, (47 : UInt8) ∉ elem := fun elem hMem =>
    not_mem_of_mem_splitOn (hSegments ▸ List.mem_append_left _ hMem : elem ∈ segments s)
  have hKept := kept_front hSegments
  have hEnter := (hStart.foldl nofun hSlash).enter (dotdot_not_mem_of_kept hKept) last
  rw [resolve, hSegments, List.foldl_append, elements_eq hSegments, steps_lastElem hKept]
  exact hEnter

/-- A path in normal form only ever goes down. -/
theorem foldl_enter (h : Normal elems) (l : Location) :
    elems.foldl Location.enter l = { l with segments := l.segments ++ steps elems } := by
  have hEnter := h.2
  clear h
  induction elems generalizing l with
  | nil => simp [steps]
  | cons elem elems ih =>
      obtain ⟨hDot, hDots, -⟩ := hEnter elem List.mem_cons_self
      have hRest := fun l => ih l fun other hMem => hEnter other (List.mem_cons_of_mem _ hMem)
      rw [List.foldl_cons, hRest]
      by_cases hNil : elem = []
      · simp [Location.enter, steps, hNil]
      · simp [Location.enter, steps, hNil, hDot, hDots]

/-- Joined elements are the segments, but no element still is an empty one. -/
theorem segments_intercalate (h : Normal elems) :
    segments ([47].intercalate elems) = if elems = [] then [[]] else elems := by
  split
  · next hNil =>
      subst hNil
      rfl
  · next hElems =>
      exact List.splitOn_intercalate 47 (fun elem hMem => (h.2 elem hMem).2.2) hElems

/-- The text of a path in normal form only ever goes down. -/
theorem foldl_segments (h : Normal elems) (l : Location) :
    (segments ([47].intercalate elems)).foldl Location.enter l =
      { l with segments := l.segments ++ steps elems } := by
  rw [segments_intercalate h]
  split
  · next hNil =>
      subst hNil
      simp [Location.enter, steps]
  · exact foldl_enter h l

/-- The slash at the front is an empty segment. -/
theorem segments_slash (elems : List Bytes) : segments (47 :: [47].intercalate elems) =
    [] :: segments ([47].intercalate elems) :=
  segments_append_cons [] ([47].intercalate elems)

/-- A normalised path leads where the path leads, except that it does not leave
the start of a relative path. -/
theorem resolve_normalizePath (s : Bytes) : resolve (normalizePath s) =
    { resolve s with segments := (resolve s).segments.dropWhile (· = dotdot) } := by
  have hNormal := normal_elements s
  obtain ⟨k, -, hSegments⟩ := reached_resolve s
  have hDots : dotdot ∉ steps (elements s) :=
    fun hMem => (hNormal.2 dotdot (List.mem_of_mem_filter hMem)).2.1 rfl
  have hDrop : (resolve s).segments.dropWhile (· = dotdot) = steps (elements s) := by
    rw [hSegments, List.dropWhile_append_of_pos (by simp [List.mem_replicate]),
      List.dropWhile_eq_self_iff]
    intro hLength hHead
    exact hDots (of_decide_eq_true hHead ▸ List.getElem_mem hLength)
  have hAbsolute : (resolve s).absolute = decide (s.head? = some 47) := absolute_foldl _ _
  rw [hDrop, normalizePath_eq]
  by_cases hHead : s.head? = some 47
  · rw [if_pos hHead, List.singleton_append]
    rw [resolve, segments_slash, List.foldl_cons, foldl_segments hNormal]
    simp [Location.enter, hAbsolute, hHead]
  · rw [if_neg hHead, List.nil_append, resolve, foldl_segments hNormal,
      decide_eq_false (head_intercalate hNormal)]
    simp [hAbsolute, hHead]

/-- A normalised path does not start with two separators. -/
theorem not_slashes_isPrefix (s : Bytes) : ¬ [47, 47] <+: normalizePath s := by
  have hHead := head_intercalate (normal_elements s)
  rw [normalizePath_eq]
  rintro ⟨rest, hRest⟩
  split at hRest
  · have hTail : 47 :: rest = [47].intercalate (elements s) := (List.cons.inj hRest).2
    rw [← hTail] at hHead
    exact hHead rfl
  · rw [List.nil_append] at hRest
    rw [← hRest] at hHead
    exact hHead rfl

/-- Normalisation is done once, keeps where the path leads, as far as this is
not above its start, and leaves no segment of dots. -/
theorem normalizePath_normal (s : Bytes) :
    normalizePath (normalizePath s) = normalizePath s ∧
    resolve (normalizePath s) =
      { resolve s with segments := (resolve s).segments.dropWhile (· = dotdot) } ∧
    dot ∉ segments (normalizePath s) ∧ dotdot ∉ segments (normalizePath s) := by
  have hNormal := normal_elements s
  have hJoined : ∀ segment ∈ segments ([47].intercalate (elements s)),
      segment ≠ dot ∧ segment ≠ dotdot := by
    rw [segments_intercalate hNormal]
    split
    · rintro segment hMem
      obtain rfl := List.mem_singleton.mp hMem
      exact ⟨by decide, by decide⟩
    · exact fun segment hMem => ⟨(hNormal.2 segment hMem).1, (hNormal.2 segment hMem).2.1⟩
  have hDots : ∀ segment ∈ segments (normalizePath s), segment ≠ dot ∧ segment ≠ dotdot := by
    rw [normalizePath_eq]
    split
    · rw [List.singleton_append, segments_slash]
      intro segment hMem
      rcases List.mem_cons.mp hMem with rfl | hRest
      · exact ⟨by decide, by decide⟩
      · exact hJoined segment hRest
    · exact hJoined
  exact ⟨normalizePath_normalizePath s, resolve_normalizePath s,
    fun hMem => (hDots dot hMem).1 rfl, fun hMem => (hDots dotdot hMem).2 rfl⟩

end Url
