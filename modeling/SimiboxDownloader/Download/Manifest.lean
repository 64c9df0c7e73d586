import SimiboxDownloader.Download.Transport
import Mathlib.Algebra.Ring.Int.Defs

/-!
# The JSON documents

The file list of the server and the manifest of a package. Both are read with
cJSON, which is a parameter: `CJson` says what `cJSON_Parse` makes of a text.
`verifies` is what `verify_download_integrity` finds out about a directory when
no call fails.
-/

namespace SimiboxDownloader

namespace Download

/-- A parsed document. A number carries what it is as a `size_t` and as an
`int64_t`. -/
inductive Json
  | null
  | bool (b : Bool)
  | num (toSize : ℕ) (toInt64 : ℤ)
  | str (s : Str)
  | arr (items : List Json)
  | obj (fields : List (Str × Json))

/-- `cJSON_Parse` on a C string. -/
structure CJson where
  parse : Bytes → Option Json
  parse_nil : parse [] = none

/-- `cJSON_GetObjectItem`: names are compared without regard to case. -/
def getObjectItem : Json → Str → Option Json
  | .obj fields, name =>
      (fields.find? fun f => f.1.map Char.toLower = name.map Char.toLower).map Prod.snd
  | _, _ => none

/-- What `c_str()` shows of a string: the bytes before the first NUL. -/
def cString (text : Bytes) : Bytes := text.takeWhile (· ≠ 0)

/-- An entry of `file_list`. -/
structure FileItem where
  name : Str
  url : Str
  deriving DecidableEq

def fileItem (item : Json) : Option FileItem :=
  match getObjectItem item "filename".toList, getObjectItem item "url".toList with
  | some (.str name), some (.str url) => some ⟨name, url⟩
  | _, _ => none

/-- `file_list`: the elements without a string `filename` and a string `url` are
left out. -/
def fileList (items : List Json) : List FileItem := items.filterMap fileItem

/-- What an element of the list adds to `s_total_expected_bytes`. -/
def expectedSize (item : Json) : ℤ :=
  match fileItem item, getObjectItem item "size".toList with
  | some _, some (.num _ size) => size
  | _, _ => 0

def expectedBytes (items : List Json) : ℤ := (items.map expectedSize).sum

/-- What `http_event_list_handler` has appended to `ctx.body` in the end. -/
def listBody (r : ListResponse) : Bytes := if r.chunked then [] else r.data.flatten

/-- The elements of the array in the response to the list request. -/
def listedItems (J : CJson) (r : ListResponse) : Option (List Json) :=
  if r.ok then
    match J.parse (cString (listBody r)) with
    | some (.arr items) => some items
    | _ => none
  else none

/-- The name and the size of an element of the `files` array of a manifest that
is checked. -/
def manifestEntry (item : Json) : Option (Str × ℕ) :=
  match getObjectItem item "name".toList, getObjectItem item "size".toList with
  | some (.str name), some (.num size _) => some (name, size)
  | _, _ => none

/-- The `files` array of a manifest. -/
def manifestFiles (J : CJson) (text : Bytes) : Option (List Json) :=
  match J.parse (cString text) with
  | some root =>
      match getObjectItem root "files".toList with
      | some (.arr items) => some items
      | _ => none
  | none => none

/-- The return of `read_text_file`. -/
inductive ReadEnd
  | openFailed
  | failed
  | text (content : Bytes)

def readTextFile (path : Str) : Action ReadEnd := do
  let file? ← fs (.fopen path .rb)
  match file? with
  | none => return .openFailed
  | some file => do
      let _ ← fs (.fseek file true)
      let size? ← fs (.ftell file)
      let _ ← fs (.fseek file false)
      match size? with
      | none => do
          let _ ← fs (.fclose file)
          return .failed
      | some size => do
          let got ← fs (.fread file size)
          let _ ← fs (.fclose file)
          return if got.length = size then .text got else .failed

/-- `st_size` as a `size_t`. -/
def fileSizeBytes (path : Str) : Action (Option ℕ) := do
  let st ← fs (.stat path)
  return st.map fun st => st.size % 2 ^ 32

def verifyItem (dir : Str) (item : Json) : Action Bool :=
  match manifestEntry item with
  | some (name, size) => do
      let actual ← fileSizeBytes (sub dir name)
      return decide (actual = some size)
  | none => return true

def verifyItems (dir : Str) : List Json → Action Bool
  | [] => return true
  | item :: items => do
      let ok ← verifyItem dir item
      let rest ← verifyItems dir items
      return ok && rest

/-- The return of `verify_download_integrity`, which is `false` for all but the
last. -/
inductive VerifyEnd
  | openFailed
  | failed
  | ok
  deriving DecidableEq

def manifestName : Str := "manifest.json".toList

def verifyDownloadIntegrity (J : CJson) (dir : Str) : Action VerifyEnd := do
  let read ← readTextFile (sub dir manifestName)
  match read with
  | .openFailed => return .openFailed
  | .failed => return .failed
  | .text content =>
      match manifestFiles J content with
      | some items => do
          let ok ← verifyItems dir items
          return if ok then .ok else .failed
      | none => return .failed

end Download

end SimiboxDownloader
