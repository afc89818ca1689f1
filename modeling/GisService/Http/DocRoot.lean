import GisService.Data.Path
import GisService.Http.Session

/-! Which files a request can name. The server looks for two dots in the
target; what counts is where the path leads. -/
namespace Http

open ByteString Path

variable {server : Server}

/-- What `handle_request` does depends on what `file_body::open` finds at this
path. -/
def Opens (server : Server) (request : Request) (path : Bytes) : Prop :=
  ∃ openFile openFile' api, (∀ other, other ≠ path → openFile other = openFile' other) ∧
    handleRequest server ⟨request, openFile, api⟩ ≠ handleRequest server ⟨request, openFile', api⟩

/-- The request is answered from a file. -/
def AsksForFile (request : Request) : Prop :=
  legalTarget request.target = true ∧
    (request.method = .head ∨ request.method = .get ∧ request.target.take 4 ≠ ascii "/api")

/-- A file request is settled by what there is at its path. -/
theorem handleRequest_file (server : Server) {request : Request} (h : AsksForFile request) :
    ∃ found : Bytes → Response, (∀ contents, (found contents).head.code = Status.ok.code) ∧
      ∀ openFile api, handleRequest server ⟨request, openFile, api⟩ =
        withFile server request (openFile (cstr (filePath server request))) found := by
  obtain ⟨hLegal, hHead | ⟨hGet, hTarget⟩⟩ := h
  · exact ⟨headResponse server request (filePath server request), fun _ => rfl,
      fun _ _ => handleRequest_head hLegal hHead⟩
  · exact ⟨fileResponse server request (filePath server request), fun _ => rfl,
      fun _ _ => handleRequest_get hLegal hGet hTarget⟩

/-- Every other request looks at no file. -/
theorem handleRequest_congr {request : Request} (h : ¬ AsksForFile request)
    (openFile openFile' : Bytes → OpenResult) (api : Except Cxx.Exception (Status × Bytes)) :
    handleRequest server ⟨request, openFile, api⟩ =
      handleRequest server ⟨request, openFile', api⟩ := by
  cases hLegal : legalTarget request.target with
  | false => simp [handleRequest, hLegal]
  | true =>
      have hMethod : ¬ (request.method = .head ∨
          request.method = .get ∧ request.target.take 4 ≠ ascii "/api") :=
        fun hAsks => h ⟨hLegal, hAsks⟩
      obtain ⟨hHead, hGet⟩ := not_or.mp hMethod
      simp only [handleRequest, hLegal, hHead, hGet, if_false]

/-- What is opened, and when. -/
theorem opens_iff {request : Request} {path : Bytes} :
    Opens server request path ↔ AsksForFile request ∧ path = cstr (filePath server request) := by
  constructor
  · rintro ⟨openFile, openFile', api, hElsewhere, hDiffer⟩
    have hAsks : AsksForFile request := by
      by_contra hNot
      exact hDiffer (handleRequest_congr hNot openFile openFile' api)
    obtain ⟨found, -, hFile⟩ := handleRequest_file server hAsks
    refine ⟨hAsks, ?_⟩
    by_contra hPath
    rw [hFile, hFile, hElsewhere _ (Ne.symm hPath)] at hDiffer
    exact hDiffer rfl
  · rintro ⟨hAsks, rfl⟩
    obtain ⟨found, hFound, hFile⟩ := handleRequest_file server hAsks
    refine ⟨fun _ => .noSuchFileOrDirectory, fun path =>
      if path = cstr (filePath server request) then .opened [] else .noSuchFileOrDirectory,
      .error .logicError, fun other hOther => (if_neg hOther).symm, fun hSame => ?_⟩
    rw [hFile, hFile, if_pos rfl] at hSame
    have hResponse : notFound server request = found [] :=
      (List.cons.inj (Prod.mk.inj hSame).1).1
    have hCode : (notFound server request).head.code = Status.ok.code := hResponse ▸ hFound []
    exact absurd hCode (by simp [notFound, errorResponse, Response.preparePayload, Status.code])

/-- The target with the name that a directory gets. -/
def fileTarget (target : Bytes) : Bytes :=
  if target.getLast? = some 47 then target ++ ascii "index.html" else target

/-- `path_cat` puts the target behind the base or behind the base without its
last separator. -/
theorem pathCat_eq {base : Bytes} (h : base ≠ []) :
    ∃ stem, (base = stem ∧ stem ≠ [] ∨ base = stem ++ [47]) ∧
      ∀ path, pathCat base path = stem ++ path := by
  by_cases hSlash : base.getLast? = some 47
  · refine ⟨base.dropLast, .inr (List.dropLast_append_getLast? 47 hSlash).symm, fun path => ?_⟩
    rw [pathCat, if_neg h, if_pos hSlash]
  · refine ⟨base, .inl ⟨rfl, h⟩, fun path => ?_⟩
    rw [pathCat, if_neg h, if_neg hSlash]

/-- The path is that of the target behind `doc_root`. -/
theorem filePath_eq (hRoot : server.docRoot ≠ []) (request : Request) :
    filePath server request = pathCat server.docRoot (fileTarget request.target) := by
  obtain ⟨stem, -, hCat⟩ := pathCat_eq hRoot
  simp only [filePath, fileTarget, hCat]
  split <;> simp

/-- A legal target has no two dots behind its first separator, with or without
the name that is appended. -/
theorem fileTarget_of_legal {target : Bytes} (h : legalTarget target = true) :
    ∃ rest, fileTarget target = 47 :: rest ∧ ¬ dotdot <:+: rest := by
  obtain ⟨hSlash, hFind⟩ : target.head? = some 47 ∧ find (ascii "..") target = none := by
    simpa [legalTarget] using h
  have hDots : ¬ dotdot <:+: target := by
    rw [← find_isSome_iff]
    simp [dotdot, hFind]
  obtain ⟨rest, rfl⟩ := List.head?_eq_some_iff.mp hSlash
  have hName : ¬ dotdot <:+: fileTarget (47 :: rest) := by
    intro hInfix
    unfold fileTarget at hInfix
    split at hInfix
    · -- the name starts behind a separator, so no dots run into it
      rename_i hLast
      obtain ⟨front, hFront⟩ := List.getLast?_eq_some_iff.mp hLast
      rw [hFront, List.append_assoc, List.singleton_append] at hInfix
      rcases infix_append_cons (by decide) hInfix with hLeft | hRight
      · exact hDots (hFront ▸ hLeft.trans (List.prefix_append _ _).isInfix)
      · exact absurd ((find_isSome_iff _ _).mpr hRight) (by decide)
    · exact hDots hInfix
  obtain ⟨rest', hTarget⟩ : ∃ rest', fileTarget (47 :: rest) = 47 :: rest' := by
    unfold fileTarget
    split
    · exact ⟨rest ++ ascii "index.html", rfl⟩
    · exact ⟨rest, rfl⟩
  refine ⟨rest', hTarget, fun hInfix => hName ?_⟩
  rw [hTarget]
  exact hInfix.trans (List.suffix_cons _ _).isInfix

/-- A path behind a separator stays within a base, if it has no two dots. -/
theorem pathCat_within {base rest : Bytes} (hBase : base ≠ []) (hRest : ¬ dotdot <:+: rest) :
    (resolve (pathCat base (47 :: rest))).Within (resolve base) := by
  obtain ⟨stem, hStem, hCat⟩ := pathCat_eq hBase
  have hResolve : resolve (stem ++ [47]) = resolve base := by
    rcases hStem with ⟨rfl, hNonempty⟩ | rfl
    · exact resolve_concat hNonempty
    · rfl
  rw [hCat, resolve_append_cons, hResolve]
  exact (Location.Within.refl _).foldl_enter (dotdot_not_mem_segments hRest)

/-- Cut at a NUL, the path is the base cut there or the base followed by what is
left of the target. -/
theorem cstr_pathCat {base : Bytes} (hBase : base ≠ []) (rest : Bytes) :
    cstr (pathCat base (47 :: rest)) =
      if 0 ∈ base then cstr base else pathCat base (47 :: cstr rest) := by
  obtain ⟨stem, hStem, hCat⟩ := pathCat_eq hBase
  have hMem : (0 : UInt8) ∈ base ↔ (0 : UInt8) ∈ stem := by
    rcases hStem with ⟨rfl, -⟩ | rfl <;> simp
  rw [hCat, hCat]
  by_cases h : (0 : UInt8) ∈ stem
  · have hBaseCut : cstr base = cstr stem := by
      rcases hStem with ⟨rfl, -⟩ | rfl
      · rfl
      · exact cstr_append_of_mem h _
    rw [if_pos (hMem.mpr h), cstr_append_of_mem h, hBaseCut]
  · rw [if_neg (mt hMem.mp h), cstr_append_of_not_mem h]
    rfl

/-- Every path that is opened leads into `doc_root`, before and after it is
passed as a C string. A `doc_root` from the command line has no NUL. -/
theorem opens_within_docRoot (server : Server) (hRoot : server.docRoot ≠ []) (request : Request)
    (path : Bytes) (h : Opens server request path) :
    path = cstr (filePath server request) ∧
      (resolve (filePath server request)).Within (resolve server.docRoot) ∧
      (resolve path).Within (resolve (cstr server.docRoot)) ∧
      ((0 : UInt8) ∉ server.docRoot → (resolve path).Within (resolve server.docRoot)) := by
  obtain ⟨⟨hLegal, -⟩, rfl⟩ := opens_iff.mp h
  obtain ⟨rest, hTarget, hRest⟩ := fileTarget_of_legal hLegal
  have hCut : ¬ dotdot <:+: cstr rest := fun hInfix =>
    hRest (hInfix.trans (cstr_isPrefix rest).isInfix)
  rw [filePath_eq hRoot, hTarget, cstr_pathCat hRoot]
  refine ⟨rfl, pathCat_within hRoot hRest, ?_, fun hZero => ?_⟩
  · by_cases hZero : (0 : UInt8) ∈ server.docRoot
    · rw [if_pos hZero]
      exact Location.Within.refl _
    · rw [if_neg hZero, cstr_eq_self hZero]
      exact pathCat_within hRoot hCut
  · rw [if_neg hZero]
    exact pathCat_within hRoot hCut

/-- A relative `doc_root` with a separator at its end. -/
def relativeServer : Server where
  docRoot := ascii "../www/"
  beastVersion := ascii "Boost.Beast/322"

def directoryRequest : Request where
  method := .get
  target := ascii "/maps/./"

/-- Both paths begin with the same step up. -/
theorem opens_within_docRoot_directory :
    filePath relativeServer directoryRequest = ascii "../www/maps/./index.html" ∧
      (resolve (ascii "../www/maps/./index.html")).Within (resolve (ascii "../www/")) := by
  have hPath : cstr (filePath relativeServer directoryRequest) =
      ascii "../www/maps/./index.html" := by decide +kernel
  have hOpens : Opens relativeServer directoryRequest (ascii "../www/maps/./index.html") :=
    opens_iff.mpr ⟨⟨by decide +kernel, .inr ⟨rfl, by decide +kernel⟩⟩, hPath.symm⟩
  exact ⟨by decide +kernel,
    (opens_within_docRoot relativeServer (by decide) directoryRequest _ hOpens).2.2.2 (by decide)⟩

end Http
