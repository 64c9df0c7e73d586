import SimiboxDownloader.Card.Frame
import SimiboxDownloader.Download.Folder

/-!
# An environment to run against

`serve` answers the calls of a run: the list and the bodies come from an `Env`,
the card does what `fsDo` says, and a `Fate` decides which calls fail and where
the power is lost. Its answers are ones the machine admits (`machine_of_serve`),
so what is played against it is a run.
-/

namespace SimiboxDownloader

namespace Download

/-- What the server has: the response to the list request, and for every URL its
body and the content length that comes with it. -/
structure Env where
  list : Bytes
  body : Str → Bytes
  clen : Str → ℤ

/-- What becomes of a call. -/
inductive Fate
  | ok
  | fails
  | cut

/-- A device call that succeeds. -/
def devDo (env : Env) : (c : DevCall) → World → c.Reply × World
  | .httpInit url, w =>
      (some w.next, { w with urls := Function.update w.urls w.next (some url), next := w.next + 1 })
  | .httpSetUrl client url, w =>
      (true, { w with urls := Function.update w.urls client (some url) })
  | .httpOpen _, w => (true, w)
  | .httpFetchHeaders client, w => (((w.urls client).map env.clen).getD 0, w)
  | .httpGetStatusCode _, w => (200, w)
  | .httpClose _, w => ((), w)
  | .httpCleanup client, w => ((), { w with urls := Function.update w.urls client none })
  | .httpPerform _, w => (⟨true, false, [env.list]⟩, w)
  | .heapCapsMalloc _, w => (some w.next, { w with next := w.next + 1 })
  | .free _, w => ((), w)
  | .semaphoreCreateBinary, w => (some w.next, { w with next := w.next + 1 })
  | .semaphoreGive _, w => ((), w)
  | .semaphoreDelete _, w => ((), w)
  | .taskCreate, w => (true, w)
  | .setCardClk _, w => (true, w)
  | .ledShowDownloadProgress _, w => ((), w)

/-- A call of the file system that fails, where that is one reply. -/
def fsFail : (c : FsCall) → World → Option (c.Reply × World)
  | .stat _, w => some (none, w)
  | .opendir _, w => some (none, w)
  | .fopen _ _, w => some (none, w)
  | .ftell _, w => some (none, w)
  | .mkdir _, w => some (false, w)
  | .unlink _, w => some (false, w)
  | .rmdir _, w => some (false, w)
  | .remove _, w => some (false, w)
  | .rename _ _, w => some (false, w)
  | .fsync _, w => some (false, w)
  | .fseek _ _, w => some (false, w)
  | .fflush file, w => some (false, w.flush file 0 (((w.writer file).map Stream.pending).getD []))
  | .fclose file, w => some (false, (w.flush file 0 []).setStream file none)
  | _, _ => none

/-- A transfer of the whole body. -/
def wholeBody (body : Bytes) : PingPong.Transfer :=
  ⟨body, body, PingPong.toInt32 body.length, false, false⟩

def serve (env : Env) (fate : Call → World → Fate) :
    (o : Call) → World → Option (o.Reply × World)
  | .dev c, w => some (devDo env c w)
  | .fs c, w =>
      match fate (.fs c) w with
      | .ok => some (fsDo c w)
      | .fails => fsFail c w
      | .cut => none
  | .transfer client file capacity _ _, w =>
      match w.urls client, w.writer file with
      | some url, some s =>
          if 0 < capacity then
            some (wholeBody (env.body url),
              (w.buffer file (env.body url)).flush file 0 (s.pending ++ env.body url))
          else none
      | _, _ => none
  | .diverge, _ => none

theorem devStep_devDo (env : Env) (c : DevCall) (w : World) :
    DevStep c w (devDo env c w).1 (devDo env c w).2 := by
  cases c with
  | httpInit | httpSetUrl | heapCapsMalloc | semaphoreCreateBinary => exact Or.inr ⟨rfl, rfl⟩
  | _ => rfl

theorem not_isDots_of_plain {name : Str} (h : Plain name) : isDots name = false := by
  simp [isDots, h.2.2.1, h.2.2.2]

theorem fsOk_fsDo (c : FsCall) (w : World) : FsOk c w (fsDo c w).1 (fsDo c w).2 := by
  cases c with
  | opendir path =>
      refine ⟨rfl, ?_⟩
      simp only [fsDo]
      split
      · next names hnames =>
          refine ⟨names, hnames, ?_⟩
          rw [List.filter_eq_self.2]
          intro n hn
          rw [not_isDots_of_plain (World.plain_of_mem_listing hnames hn)]
          rfl
      · next h => exact h
  | _ => rfl

theorem fsFault_fsFail {c : FsCall} {w t : World} {r : c.Reply} (h : fsFail c w = some (r, t)) :
    FsFault c w r t := by
  cases c with
  | opendir path =>
      cases h
      exact ⟨rfl, Or.inl rfl⟩
  | fclose file =>
      cases h
      exact ⟨rfl, 0, rfl⟩
  | fflush file =>
      cases h
      refine ⟨rfl, 0, _, rfl, ?_⟩
      intro s hs
      rw [World.writer, hs, List.drop_zero]
      by_cases hmode : (s.mode == .wb) = true
      · simp [Option.filter, hmode]
      · simp [Option.filter, hmode]
  | fputs | fread => cases h
  | _ =>
      cases h
      exact ⟨rfl, rfl⟩

/-- What is served can happen. -/
theorem machine_of_serve {env : Env} {fate : Call → World → Fate} (o : Call) (w : World)
    (r : o.Reply) (t : World) (h : serve env fate o w = some (r, t)) : machine o w r t := by
  cases o with
  | dev c =>
      obtain ⟨rfl, rfl⟩ := Prod.mk.inj (Option.some.inj h)
      exact devStep_devDo env c w
  | fs c =>
      simp only [serve] at h
      split at h
      · obtain ⟨rfl, rfl⟩ := Prod.mk.inj (Option.some.inj h)
        exact Or.inl (fsOk_fsDo c w)
      · exact Or.inr (fsFault_fsFail h)
      · cases h
  | transfer client file capacity downloaded expected =>
      simp only [serve] at h
      split at h
      · next url s hurl hs =>
          split at h
          · next hcap =>
              obtain ⟨rfl, rfl⟩ := Prod.mk.inj (Option.some.inj h)
              exact ⟨PingPong.fileOutcome_undisturbed hcap _ _ _, s, 0, hs, rfl⟩
          · cases h
      · cases h
  | diverge => cases h

section Sample

/-- The bytes of an ASCII text. -/
def ascii (s : Str) : Bytes := s.map fun c => c.val.toUInt8

/-- A JSON array of objects. -/
def renderArray (objects : List Str) : Str :=
  '[' :: (List.intercalate [','] objects ++ [']'])

/-- A package on the server: its files with their URLs and bodies, and what its
manifest lists. -/
structure Sample where
  files : List (Str × Str × Bytes)
  entries : List (Str × ℕ)

namespace Sample

variable (p : Sample)

/-- The response to the list request. -/
def listText : Bytes :=
  ascii (renderArray (p.files.map fun f => "\x7b\"filename\":\"".toList ++ f.1 ++
    "\",\"url\":\"".toList ++ f.2.1 ++ "\"\x7d".toList))

def listJson : Json :=
  .arr (p.files.map fun f =>
    .obj [("filename".toList, .str f.1), ("url".toList, .str f.2.1)])

/-- The body of `manifest.json`. -/
def manifestText : Bytes :=
  ascii ("\x7b\"files\":".toList ++ renderArray (p.entries.map fun f =>
    "\x7b\"name\":\"".toList ++ f.1 ++ "\",\"size\":".toList ++ Nat.toDigits 10 f.2 ++
    "\x7d".toList) ++ "\x7d".toList)

def manifestJson : Json :=
  .obj [("files".toList, .arr (p.entries.map fun f =>
    .obj [("name".toList, .str f.1), ("size".toList, .num f.2 f.2)]))]

/-- cJSON, on the two documents of the package. -/
def cjson : CJson where
  parse := fun text =>
    if text = p.listText then some p.listJson
    else if text = p.manifestText then some p.manifestJson
    else none
  parse_nil := by simp [listText, manifestText, renderArray, ascii]

def env : Env where
  list := p.listText
  body := fun url => ((p.files.find? fun f => f.2.1 = url).map fun f => f.2.2).getD []
  clen := fun url => ((p.files.find? fun f => f.2.1 = url).map fun f => (f.2.2.length : ℤ)).getD 0

end Sample

/-- A card with these directories and files. -/
def cardOf (entries : List (Str × DirTree.Entry Bytes)) : DirTree.Tree Name Bytes :=
  entries.foldl (fun t e => match resolve e.1 with
    | some p => t.put p e.2
    | none => t) DirTree.Tree.empty

/-- A run of `download_simi_folder` after a boot: what is left of it, the state it
reached and the calls it made. -/
def Sample.play (p : Sample) (fate : Call → World → Fate) (folder : Str)
    (card : DirTree.Tree Name Bytes) :=
  Interaction.play (serve p.env fate)
    ((downloadSimiFolder p.cjson 4 folder "https://api.example".toList).run
      (Statics.boot true 10000)) (World.boot card)

theorem Sample.steps_play (p : Sample) (fate : Call → World → Fate) (folder : Str)
    (card : DirTree.Tree Name Bytes) :
    Interaction.Steps machine
      ((downloadSimiFolder p.cjson 4 folder "https://api.example".toList).run
        (Statics.boot true 10000)) (World.boot card) (p.play fate folder card).2.2
      (p.play fate folder card).1 (p.play fate folder card).2.1 :=
  Interaction.steps_play (fun o w r t h => machine_of_serve o w r t h) _ _

/-- A package of a manifest and one song. -/
def mozart : Sample where
  files := [("manifest.json".toList, "https://a.example/0".toList,
      ascii "\x7b\"files\":[\x7b\"name\":\"a.mp3\",\"size\":2\x7d]\x7d".toList),
    ("a.mp3".toList, "https://a.example/1".toList, [7, 8])]
  entries := [("a.mp3".toList, 2)]

example : mozart.manifestText =
    ascii "\x7b\"files\":[\x7b\"name\":\"a.mp3\",\"size\":2\x7d]\x7d".toList := by
  decide +kernel

end Sample

end Download

end SimiboxDownloader
