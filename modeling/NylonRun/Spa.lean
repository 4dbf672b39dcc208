import NylonRun.Lib.LinkTree
import NylonRun.Traffic

/-!
# The files of an SPA

`serve_spa` (src/proxy.rs:396-456) on a disk with symbolic links. The check that nothing outside of
the directory is served compares canonical paths; what is served has to be readable as a file
besides.
-/

open UnixPath

namespace Spa

/-- `Path::extension`: the name of the file from its last dot on, unless it starts with that. -/
def extension (path : String) : Option String :=
  (fileName path).bind fun name =>
    match name.toList.reverse.span (· ≠ '.') with
    | (_, []) => none
    | (_, [_]) => none
    | (ext, _ :: _ :: _) => some (String.ofList ext.reverse)

/-- `content_type` (src/proxy.rs:458-484). -/
def contentType (path : String) : String :=
  match extension path with
  | some "html" => "text/html; charset=utf-8"
  | some "css" => "text/css; charset=utf-8"
  | some "js" | some "mjs" => "application/javascript; charset=utf-8"
  | some "json" => "application/json; charset=utf-8"
  | some "png" => "image/png"
  | some "jpg" | some "jpeg" => "image/jpeg"
  | some "gif" => "image/gif"
  | some "svg" => "image/svg+xml"
  | some "ico" => "image/x-icon"
  | some "webp" => "image/webp"
  | some "woff" => "font/woff"
  | some "woff2" => "font/woff2"
  | some "ttf" => "font/ttf"
  | some "otf" => "font/otf"
  | some "wasm" => "application/wasm"
  | some "xml" => "application/xml"
  | some "txt" => "text/plain; charset=utf-8"
  | some "pdf" => "application/pdf"
  | some "zip" => "application/zip"
  | some "mp4" => "video/mp4"
  | some "webm" => "video/webm"
  | some "mp3" => "audio/mpeg"
  | _ => "application/octet-stream"

/-- An answer that `serve_spa` writes. -/
structure Answer where
  header : ResponseHeader
  body : Bytes
  deriving DecidableEq

/-- An error as plain text, without its length. -/
def plainError (status : Nat) (text : String) : Answer :=
  ⟨⟨status, [("content-type", "text/plain")]⟩, text.toUTF8.data.toList⟩

/-- The path that a request names in the directory (src/proxy.rs:397-402). -/
def filePath (uriPath dir : String) : String :=
  let cleanPath := Text.trimStart (· == '/') uriPath
  if cleanPath = "" then join dir "index.html" else join dir cleanPath

/-- The path that is read for it, with the canonical directory (src/proxy.rs:420-428). -/
def resolved (t : LinkTree) (filePath : String) (canonicalDir : Place) : String :=
  let index := join (render canonicalDir) "index.html"
  if t.pathExists filePath then
    match t.canonicalize filePath with
    | some p => if canonicalDir <+: p then render p else index
    | none => index
  else index

/-- `serve_spa` (src/proxy.rs:396-456). -/
def serveSpa (t : LinkTree) (uriPath dir : String) : Answer :=
  match t.canonicalize dir with
  | none => plainError 500 "SPA directory not found\n"
  | some canonicalDir =>
    let path := resolved t (filePath uriPath dir) canonicalDir
    match t.read path with
    | some content => ⟨⟨200, [("content-type", contentType path),
        ("content-length", toString content.length)]⟩, content⟩
    | none => plainError 404 "not found\n"

/-! ## Which file is served -/

/-- The place of a path is that of a regular file inside the directory. -/
def FileIn (t : LinkTree) (base p : Place) : Prop :=
  base <+: p ∧ ∃ content readable, t.lstat p = some (.file content readable)

/-- The answer has the bytes of the regular file at the place, which is inside the directory. -/
def Serves (t : LinkTree) (base p : Place) (answer : Answer) : Prop :=
  base <+: p ∧ ∃ content readable, t.lstat p = some (.file content readable) ∧
    answer.header.status = 200 ∧ answer.body = content

/-- What is to be served: the file that the path names, if it leads to a regular file inside the
directory, and else the index. -/
def ServesNamed (t : LinkTree) (base index : Place) (path : String) (answer : Answer) : Prop :=
  (∀ p, t.canonicalize path = some p → FileIn t base p → Serves t base p answer) ∧
    ((∀ p, t.canonicalize path = some p → ¬FileIn t base p) → Serves t base index answer)

variable {t : LinkTree} {base index : Place}

theorem resolved_eq (t : LinkTree) (base : Place) (path : String) : resolved t path base =
    match t.canonicalize path with
    | some p => if base <+: p then render p else join (render base) "index.html"
    | none => join (render base) "index.html" := by
  unfold resolved LinkTree.pathExists
  cases t.canonicalize path <;> rfl

/-- What is answered when the path that is read has a content. -/
theorem serves_of_read {uriPath dir : String} {p : Place} {content : Bytes}
    (hdir : t.canonicalize dir = some base)
    (hread : t.read (resolved t (filePath uriPath dir) base) = some content)
    (hinside : base <+: p) (hfile : t.lstat p = some (.file content true)) :
    Serves t base p (serveSpa t uriPath dir) := by
  refine ⟨hinside, content, true, hfile, ?_⟩
  unfold serveSpa
  rw [hdir]
  dsimp only
  rw [hread]
  exact ⟨rfl, rfl⟩

theorem not_serves_of_read {uriPath dir : String} (hdir : t.canonicalize dir = some base)
    (hread : t.read (resolved t (filePath uriPath dir) base) = none) (p : Place) :
    ¬Serves t base p (serveSpa t uriPath dir) := by
  rintro ⟨-, content, readable, -, hstatus, -⟩
  unfold serveSpa at hstatus
  rw [hdir] at hstatus
  dsimp only at hstatus
  rw [hread] at hstatus
  exact absurd (show (404 : Nat) = 200 from hstatus) (by decide)

/-- `serve_spa` serves the file that the path names, or else the index, exactly if the path does not
lead to something inside the directory that cannot be read as a file. -/
theorem serveSpa_iff (uriPath dir : String) (hdir : t.canonicalize dir = some base)
    (hindex : t.canonicalize (join (render base) "index.html") = some index)
    (hinside : base <+: index) (hfile : ∃ content, t.lstat index = some (.file content true)) :
    ServesNamed t base index (filePath uriPath dir) (serveSpa t uriPath dir) ↔
      ∀ p, t.canonicalize (filePath uriPath dir) = some p → base <+: p →
        ∃ content, t.lstat p = some (.file content true) := by
  obtain ⟨bytes, hbytes⟩ := hfile
  have hserved : resolved t (filePath uriPath dir) base = join (render base) "index.html" →
      Serves t base index (serveSpa t uriPath dir) := by
    intro hpath
    refine serves_of_read hdir ?_ hinside hbytes
    rw [hpath]
    exact LinkTree.read_eq_some.2 ⟨index, hindex, hbytes⟩
  have hpath := resolved_eq t base (filePath uriPath dir)
  unfold ServesNamed
  cases hcanonical : t.canonicalize (filePath uriPath dir) with
  | none =>
    rw [hcanonical] at hpath
    refine iff_of_true ⟨fun p hp => ?_, fun _ => hserved hpath⟩ fun p hp => ?_
    · cases hp
    · cases hp
  | some p =>
    rw [hcanonical] at hpath
    dsimp only at hpath
    simp only [Option.some.injEq, forall_eq']
    by_cases hin : base <+: p
    · rw [if_pos hin] at hpath
      have hread : t.read (resolved t (filePath uriPath dir) base) =
          t.read (filePath uriPath dir) := by
        rw [hpath]
        exact LinkTree.read_render hcanonical
      rw [forall_prop_of_true hin]
      cases hcontent : t.read (filePath uriPath dir) with
      | none =>
        -- nothing is served, so that both sides fail
        rw [hcontent] at hread
        have hnot := not_serves_of_read hdir hread
        refine iff_of_false (fun h => ?_) fun ⟨content, hp⟩ => ?_
        · by_cases hregular : FileIn t base p
          · exact hnot p (h.1 hregular)
          · exact hnot index (h.2 hregular)
        · have hsome := LinkTree.read_eq_some.2 ⟨p, hcanonical, hp⟩
          rw [hcontent] at hsome
          cases hsome
      | some content =>
        rw [hcontent] at hread
        obtain ⟨q, hq, hp⟩ := LinkTree.read_eq_some.1 hcontent
        rw [hcanonical] at hq
        cases hq
        refine iff_of_true ⟨fun _ => serves_of_read hdir hread hin hp, fun hnot => ?_⟩ ⟨content, hp⟩
        exact absurd ⟨hin, content, true, hp⟩ hnot
    · rw [if_neg hin] at hpath
      exact iff_of_true ⟨fun h => absurd h.1 hin, fun _ => hserved hpath⟩ fun h => absurd h hin

/-- A site with an index, a directory of assets and a link that leads out of it. -/
def site : LinkTree where
  cwd := []
  entries := [(["srv"], LinkTree.Entry.dir), (["srv", "index.html"], .file [60] true),
    (["srv", "assets"], .dir), (["srv", "assets", "app.js"], .file [59] true),
    (["srv", "etc"], .link "../etc"), (["etc"], .dir),
    (["etc", "passwd"], .file [114] true)].foldl (fun d e => d.insert e.1 e.2) ∅
  closed := by decide
  cwdDir := rfl

/-- A path that a link leads out of the directory is answered with the index. -/
theorem serveSpa_link :
    Serves site ["srv"] ["srv", "index.html"] (serveSpa site "/etc/passwd" "/srv") := by
  have hout : site.canonicalize (filePath "/etc/passwd" "/srv") = some ["etc", "passwd"] := by
    decide +kernel
  have hnot : ¬["srv"] <+: ["etc", "passwd"] := by decide
  have hbase : site.canonicalize "/srv" = some ["srv"] := by decide +kernel
  have hindex : site.canonicalize (join (render ["srv"]) "index.html") =
      some ["srv", "index.html"] := by decide +kernel
  have h := serveSpa_iff "/etc/passwd" "/srv" hbase hindex (by decide) ⟨[60], rfl⟩
  refine (h.2 fun p hp hin => ?_).2 fun p hp hfile => ?_
  · rw [hout] at hp
    cases hp
    exact absurd hin hnot
  · rw [hout] at hp
    cases hp
    exact absurd hfile.1 hnot

/-- A path that names a directory is answered with 404, although it names no file. -/
theorem serveSpa_directory :
    (serveSpa site "/assets" "/srv").header.status = 404 ∧
      ¬ServesNamed site ["srv"] ["srv", "index.html"] (filePath "/assets" "/srv")
        (serveSpa site "/assets" "/srv") := by
  have hdir : site.canonicalize (filePath "/assets" "/srv") = some ["srv", "assets"] := by
    decide +kernel
  have hstatus : (serveSpa site "/assets" "/srv").header.status = 404 := by decide +kernel
  refine ⟨hstatus, fun h => ?_⟩
  obtain ⟨-, content, readable, -, hok, -⟩ := h.2 fun p hp hfile => by
    rw [hdir] at hp
    cases hp
    obtain ⟨-, content, readable, hentry⟩ := hfile
    exact absurd (show some LinkTree.Entry.dir = some (.file content readable) from hentry)
      (by simp)
  rw [hstatus] at hok
  exact absurd hok (by decide)

end Spa
