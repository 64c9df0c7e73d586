import SimiboxDownloader.Download.File
import SimiboxDownloader.Download.Manifest

/-!
# Downloading a folder

`download_simi_folder`. It fetches the list, downloads the files into
`<folder>.tmp`, verifies that directory, deletes `<folder>` and puts the new
directory in its place. `FolderEnd` says at which statement it returned.
-/

namespace SimiboxDownloader

namespace Download

/-- The loop of `delete_tree` over the names `readdir` returns; `recurse` is
`delete_tree`. -/
def deleteEntries (recurse : Str → Action Unit) (dir : Str) : List Str → Action Unit
  | [] => return ()
  | name :: names =>
      if isDots name then deleteEntries recurse dir names
      else do
        let st ← fs (.stat (sub dir name))
        if st.any Stat.isDir then do
          recurse (sub dir name)
          deleteEntries recurse dir names
        else do
          let _ ← fs (.unlink (sub dir name))
          deleteEntries recurse dir names

/-- `delete_tree`, for directories nested less than the first argument deep. -/
def deleteTree : ℕ → Str → Action Unit
  | 0, _ => diverge
  | depth + 1, dir => do
      let names? ← fs (.opendir dir)
      match names? with
      | none => return ()
      | some names => do
          deleteEntries (deleteTree depth) dir names
          let _ ← fs (.rmdir dir)
          return ()

/-- `if (stat(dir) == 0) delete_tree(dir);` -/
def deleteExisting (depth : ℕ) (dir : Str) : Action Unit := do
  let st ← fs (.stat dir)
  if st.isSome then deleteTree depth dir else return ()

/-- Where `download_simi_folder` returned. `contents` are the bytes received for
the files of the list. -/
inductive FolderEnd
  /-- no response to the list request, or no JSON array -/
  | listFailed
  | noManifest
  | mkdirFailed
  | filesFailed (e : FileEnd)
  | verifyFailed (v : VerifyEnd)
  /-- the `rename` of the directory failed -/
  | renameFailed
  | installed (contents : List Bytes)

/-- What `download_simi_folder` returns. -/
def FolderEnd.ret : FolderEnd → Bool
  | .installed _ => true
  | _ => false

/-- `*out_sd_failed` afterwards, when it was false before. -/
def FolderEnd.outSdFailed : FolderEnd → Bool
  | .filesFailed e => decide (e.result = .sdFailed)
  | _ => false

/-- The list request: the elements of the array in the response. -/
def fetchList (J : CJson) (folder lambdaUrl : Str) : Action (Option (List Json)) := do
  let client? ← dev (.httpInit (lambdaUrl ++ "/?folder=".toList ++ folder))
  match client? with
  | none => return none
  | some client => do
      let response ← dev (.httpPerform client)
      dev (.httpCleanup client)
      return listedItems J response

/-- The loop over `file_list`: the bytes received for each file, or how the first
file that failed ended. -/
def downloadFiles (dir : Str) : List FileItem → Action (Except FileEnd (List Bytes))
  | [] => return .ok []
  | item :: items => do
      updateLedProgress
      let e ← downloadFile item.url (sub dir item.name)
      match e with
      | .ok received => do
          let _ ← fs (.stat (sub dir item.name))
          let rest ← downloadFiles dir items
          return rest.map (received :: ·)
      | e => return .error e

def okMarker : Str := ".ok".toList

/-- The bytes of `"OK\n"`. -/
def okContent : Bytes := [79, 75, 10]

def writeMarker (path : Str) : Action Unit := do
  let file? ← fs (.fopen path .wb)
  match file? with
  | some file => do
      let _ ← fs (.fputs okContent file)
      let _ ← fs (.fflush file)
      let _ ← fs (.fsync file)
      let _ ← fs (.fclose file)
      return ()
  | none => return ()

/-- From the swap of the directories on. -/
def swapFolder (depth : ℕ) (folder : Str) (contents : List Bytes) : Action FolderEnd := do
  deleteExisting depth (finalDir folder)
  let renamed ← fs (.rename (tmpDir folder) (finalDir folder))
  if renamed then do
    writeMarker (sub (finalDir folder) okMarker)
    return .installed contents
  else do
    deleteTree depth (tmpDir folder)
    return .renameFailed

/-- From the verification of the temporary directory on. -/
def verifyAndSwap (J : CJson) (depth : ℕ) (folder : Str) (contents : List Bytes) :
    Action FolderEnd := do
  let v ← verifyDownloadIntegrity J (tmpDir folder)
  match v with
  | .ok => swapFolder depth folder contents
  | v => do
      deleteTree depth (tmpDir folder)
      return .verifyFailed v

/-- The cleanup after the file loop. -/
def releaseAll : Action Unit := do
  cleanupHttpPool
  stopSdWriterTask
  freePingpongBuffers

/-- From the preparation of the temporary directory on. -/
def installFiles (J : CJson) (depth : ℕ) (folder : Str) (files : List FileItem) :
    Action FolderEnd := do
  deleteExisting depth (tmpDir folder)
  let made ← fs (.mkdir (tmpDir folder))
  if made then do
    let result ← downloadFiles (tmpDir folder) files
    releaseAll
    match result with
    | .ok contents => do
        dev (.ledShowDownloadProgress 100)
        verifyAndSwap J depth folder contents
    | .error e =>
        if e.result = .sdFailed then return .filesFailed e
        else do
          deleteTree depth (tmpDir folder)
          return .filesFailed e
  else return .mkdirFailed

/-- Without any size from the server 2 MB a file are expected, in a `size_t`. -/
def estimateBytes (files : List FileItem) (expected : ℤ) : ℤ :=
  if expected = 0 then ((files.length * 2 * 1024 * 1024 % 2 ^ 32 : ℕ) : ℤ) else expected

/-- From the received list on. -/
def installList (J : CJson) (depth : ℕ) (folder : Str) (items : List Json) :
    Action FolderEnd := do
  modify fun st => { st with totalExpectedBytes := expectedBytes items }
  if (fileList items).any fun item => item.name = manifestName then do
    modify fun st =>
      { st with totalExpectedBytes := estimateBytes (fileList items) st.totalExpectedBytes }
    installFiles J depth folder (fileList items)
  else return .noManifest

def downloadSimiFolder (J : CJson) (depth : ℕ) (folder lambdaUrl : Str) :
    Action FolderEnd := do
  modify fun st => { st with totalExpectedBytes := 0, totalDownloadedBytes := 0 }
  dev (.ledShowDownloadProgress 0)
  let items? ← fetchList J folder lambdaUrl
  match items? with
  | none => return .listFailed
  | some items => installList J depth folder items

end Download

end SimiboxDownloader
