import SimiboxDownloader.Card.Path
import SimiboxDownloader.Library.DirTree
import SimiboxDownloader.Library.Interaction
import SimiboxDownloader.PingPong.Outcome
import Mathlib.Data.List.Perm.Subperm

/-!
# The calls of the downloader and what they do

Everything `simibox_download.cpp` asks of the rest of the system is a `Call`: of
the file system of the card (`FsCall`), or of the HTTP client, the heap, the
semaphores, the clock of the card and the LED (`DevCall`). The loop of a file is
one call, `transfer`, whose reply is an outcome of the two tasks.

`fsDo` is the file system at work: it decides when a call succeeds. A call can
also fail for no such reason, and then (`FsFault`) it leaves the card alone, but
for what a write had already written. `machine` admits both.
-/

namespace SimiboxDownloader

namespace Download

abbrev Bytes := List UInt8

/-- The members of `struct stat` that are read. -/
structure Stat where
  isDir : Bool
  size : ℕ
  deriving DecidableEq

/-- The mode a file is opened in. -/
inductive Mode
  | rb
  | wb
  deriving DecidableEq

/-- The calls of the file system. `opendir` stands for itself and the `readdir`s
that follow. -/
inductive FsCall
  | stat (path : Str)
  | mkdir (path : Str)
  | opendir (path : Str)
  | unlink (path : Str)
  | rmdir (path : Str)
  | remove (path : Str)
  | rename (src dst : Str)
  | fopen (path : Str) (mode : Mode)
  | fputs (text : Bytes) (file : ℕ)
  | fflush (file : ℕ)
  | fsync (file : ℕ)
  | fclose (file : ℕ)
  | fseek (file : ℕ) (toEnd : Bool)
  | ftell (file : ℕ)
  | fread (file count : ℕ)
  deriving DecidableEq

/-- What the calls return: whether they succeeded, or what they were asked for. -/
@[reducible] def FsCall.Reply : FsCall → Type
  | .stat _ => Option Stat
  | .opendir _ => Option (List Str)
  | .fopen _ _ => Option ℕ
  | .ftell _ => Option ℕ
  | .fread _ _ => Bytes
  | _ => Bool

/-- The response to the list request: `data` are the bytes of the successive
`HTTP_EVENT_ON_DATA`. -/
structure ListResponse where
  ok : Bool
  chunked : Bool
  data : List Bytes

/-- The calls of everything else. -/
inductive DevCall
  | httpInit (url : Str)
  | httpSetUrl (client : ℕ) (url : Str)
  | httpOpen (client : ℕ)
  | httpFetchHeaders (client : ℕ)
  | httpGetStatusCode (client : ℕ)
  | httpClose (client : ℕ)
  | httpCleanup (client : ℕ)
  | httpPerform (client : ℕ)
  | heapCapsMalloc (size : ℕ)
  | free (buf : ℕ)
  | semaphoreCreateBinary
  | semaphoreGive (sem : ℕ)
  | semaphoreDelete (sem : ℕ)
  | taskCreate
  | setCardClk (freqKhz : ℤ)
  | ledShowDownloadProgress (percent : ℕ)
  deriving DecidableEq

@[reducible] def DevCall.Reply : DevCall → Type
  | .httpInit _ => Option ℕ
  | .httpSetUrl _ _ => Bool
  | .httpOpen _ => Bool
  | .httpFetchHeaders _ => ℤ
  | .httpGetStatusCode _ => ℤ
  | .httpPerform _ => ListResponse
  | .heapCapsMalloc _ => Option ℕ
  | .semaphoreCreateBinary => Option ℕ
  | .taskCreate => Bool
  | .setCardClk _ => Bool
  | _ => Unit

/-- A call. `diverge` is a loop that does not end; it has no reply. -/
inductive Call
  | dev (c : DevCall)
  | fs (c : FsCall)
  | transfer (client file capacity : ℕ) (downloaded expected : ℤ)
  | diverge
  deriving DecidableEq

@[reducible] def Call.Reply : Call → Type
  | .dev c => c.Reply
  | .fs c => c.Reply
  | .transfer _ _ _ _ _ => PingPong.Transfer
  | .diverge => Empty

/-- An open `FILE`: `pending` is in its buffer and not yet on the card. -/
structure Stream where
  path : List Name
  mode : Mode
  pos : ℕ
  pending : Bytes

/-- The card, the open files and the live HTTP clients with their URLs. Handles
are numbered in the order they are made; `next` is the next one. -/
structure World where
  card : DirTree.Tree Name Bytes
  streams : ℕ → Option Stream
  urls : ℕ → Option Str
  next : ℕ

/-- A call that was made. -/
abbrev Event := Interaction.Event Call Call.Reply World

namespace World

/-- After a boot: nothing is open. -/
def boot (card : DirTree.Tree Name Bytes) : World := ⟨card, fun _ => none, fun _ => none, 0⟩

/-- Append to the file at `p`. -/
def append (w : World) (p : List Name) (data : Bytes) : World :=
  match w.card.get p with
  | some (.file old) => { w with card := w.card.put p (.file (old ++ data)) }
  | _ => w

def setStream (w : World) (f : ℕ) (s : Option Stream) : World :=
  { w with streams := Function.update w.streams f s }

/-- The `FILE` `f`, when it is open for writing. -/
def writer (w : World) (f : ℕ) : Option Stream :=
  (w.streams f).filter fun s => s.mode == .wb

/-- Write the first `k` bytes of the buffer of `f` to the card and keep `rest` in
the buffer. -/
def flush (w : World) (f k : ℕ) (rest : Bytes) : World :=
  match w.writer f with
  | some s => (w.append s.path (s.pending.take k)).setStream f (some { s with pending := rest })
  | none => w

/-- Add `data` to the buffer of `f`. -/
def buffer (w : World) (f : ℕ) (data : Bytes) : World :=
  match w.writer f with
  | some s => w.setStream f (some { s with pending := s.pending ++ data })
  | none => w

/-- A new `FILE`. -/
def openStream (w : World) (p : List Name) (mode : Mode) : World :=
  { w with streams := Function.update w.streams w.next (some ⟨p, mode, 0, []⟩),
           next := w.next + 1 }

/-- The names in a directory. -/
def listing (w : World) (path : Str) : Option (List Str) :=
  match resolve path with
  | some p => if w.card.isDir p then some ((w.card.children p).map Name.val) else none
  | none => none

/-- `unlink`, `rmdir` and `remove`, all of them FatFs' `f_unlink`. -/
def unlink (w : World) (path : Str) : Bool × World :=
  match resolve path with
  | some p =>
      if w.card.CanRemove p then (true, { w with card := w.card.remove p }) else (false, w)
  | none => (false, w)

end World

/-- The two names a listing may have that are no entries. -/
def isDots (name : Str) : Bool := name == ['.'] || name == ['.', '.']

def statOf : DirTree.Entry Bytes → Stat
  | .file data => ⟨false, data.length⟩
  | .dir => ⟨true, 0⟩

/-- What a call of the file system does when nothing goes wrong. -/
def fsDo : (c : FsCall) → World → c.Reply × World
  | .stat path, w => (((resolve path).bind w.card.get).map statOf, w)
  | .mkdir path, w =>
      match resolve path with
      | some p =>
          if (w.card.get p).isNone ∧ w.card.CanPut p then
            (true, { w with card := w.card.put p .dir })
          else (false, w)
      | none => (false, w)
  | .opendir path, w => (w.listing path, w)
  | .unlink path, w => w.unlink path
  | .rmdir path, w => w.unlink path
  | .remove path, w => w.unlink path
  | .rename src dst, w =>
      match resolve src, resolve dst with
      | some p, some q =>
          if w.card.CanMove p q then (true, { w with card := w.card.move p q }) else (false, w)
      | _, _ => (false, w)
  | .fopen path .wb, w =>
      match resolve path with
      | some p =>
          if w.card.CanPut p then
            (some w.next, { w with card := w.card.put p (.file []) }.openStream p .wb)
          else (none, w)
      | none => (none, w)
  | .fopen path .rb, w =>
      match resolve path with
      | some p =>
          match w.card.get p with
          | some (.file _) => (some w.next, w.openStream p .rb)
          | _ => (none, w)
      | none => (none, w)
  | .fputs text file, w => ((w.writer file).isSome, w.buffer file text)
  | .fflush file, w =>
      match w.streams file with
      | some s => (true, w.flush file s.pending.length [])
      | none => (false, w)
  | .fsync file, w => ((w.streams file).isSome, w)
  | .fclose file, w =>
      match w.streams file with
      | some s => (true, (w.flush file s.pending.length []).setStream file none)
      | none => (false, w)
  | .fseek file toEnd, w =>
      match w.streams file with
      | some s =>
          match w.card.get s.path with
          | some (.file data) =>
              (true, w.setStream file (some { s with pos := if toEnd then data.length else 0 }))
          | _ => (false, w)
      | none => (false, w)
  | .ftell file, w =>
      -- `long` has 32 bits
      ((w.streams file).bind fun s => if s.pos < 2 ^ 31 then some s.pos else none, w)
  | .fread file count, w =>
      match w.streams file with
      | some s =>
          match w.card.get s.path with
          | some (.file data) =>
              let got := (data.drop s.pos).take count
              (got, w.setStream file (some { s with pos := s.pos + got.length }))
          | _ => ([], w)
      | none => ([], w)

/-- A reply and a state that `fsDo` allows; the order of a listing is open. -/
def FsOk : (c : FsCall) → World → c.Reply → World → Prop
  | .opendir path, w, r, t => t = w ∧
      match w.listing path with
      | some names => ∃ l, r = some l ∧ (l.filter fun n => !isDots n).Perm names
      | none => r = none
  | c, w, r, t => (r, t) = fsDo c w

/-- A failed call. A listing that breaks off looks like a shorter one. -/
def FsFault : (c : FsCall) → World → c.Reply → World → Prop
  | .stat _, w, r, t => r = none ∧ t = w
  | .opendir path, w, r, t => t = w ∧ (r = none ∨ ∃ l names, r = some l ∧
      w.listing path = some names ∧ (l.filter fun n => !isDots n).Subperm names)
  | .fopen _ _, w, r, t => r = none ∧ t = w
  | .ftell _, w, r, t => r = none ∧ t = w
  | .fread file count, w, r, t => ∃ s data, w.streams file = some s ∧
      w.card.get s.path = some (.file data) ∧ r <+: (data.drop s.pos).take count ∧
      t = w.setStream file (some { s with pos := s.pos + r.length })
  | .fputs text file, w, r, t => r = false ∧ ∃ k, t = w.buffer file (text.take k)
  | .fflush file, w, r, t => r = false ∧ ∃ k rest, t = w.flush file k rest ∧
      ∀ s, w.streams file = some s → rest <:+ s.pending.drop k
  | .fclose file, w, r, t => r = false ∧ ∃ k, t = (w.flush file k []).setStream file none
  | .mkdir _, w, r, t => r = false ∧ t = w
  | .unlink _, w, r, t => r = false ∧ t = w
  | .rmdir _, w, r, t => r = false ∧ t = w
  | .remove _, w, r, t => r = false ∧ t = w
  | .rename _ _, w, r, t => r = false ∧ t = w
  | .fsync _, w, r, t => r = false ∧ t = w
  | .fseek _ _, w, r, t => r = false ∧ t = w

/-- The replies of the devices, none of which touches the card. -/
def DevStep : (c : DevCall) → World → c.Reply → World → Prop
  | .httpInit url, w, r, t => r = none ∧ t = w ∨ r = some w.next ∧
      t = { w with urls := Function.update w.urls w.next (some url), next := w.next + 1 }
  | .httpSetUrl client url, w, r, t => r = false ∧ t = w ∨
      r = true ∧ t = { w with urls := Function.update w.urls client (some url) }
  | .httpCleanup client, w, _, t => t = { w with urls := Function.update w.urls client none }
  | .heapCapsMalloc _, w, r, t => r = none ∧ t = w ∨
      r = some w.next ∧ t = { w with next := w.next + 1 }
  | .semaphoreCreateBinary, w, r, t => r = none ∧ t = w ∨
      r = some w.next ∧ t = { w with next := w.next + 1 }
  | _, w, _, t => t = w

/-- All that can happen: any failure of any call. What a transfer writes goes
through the buffer of its file, and any part of it can be on the card. -/
def machine : Interaction.Machine Call Call.Reply World
  | .dev c, w, r, t => DevStep c w r t
  | .fs c, w, r, t => FsOk c w r t ∨ FsFault c w r t
  | .transfer _ file capacity downloaded expected, w, r, t =>
      PingPong.FileOutcome capacity downloaded expected r ∧ ∃ s k, w.writer file = some s ∧
        t = (w.buffer file r.accepted).flush file k ((s.pending ++ r.accepted).drop k)
  | .diverge, _, r, _ => r.elim

end Download

end SimiboxDownloader
