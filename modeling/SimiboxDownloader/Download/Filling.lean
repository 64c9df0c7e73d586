import SimiboxDownloader.Card.Effects
import SimiboxDownloader.Download.Stages

/-!
# Filling the temporary directory

The file loop puts one file after the other into a directory, each by way of its
`.part`. A file that is there stays, unless it is what a later file has for a `.part`
(`Calls.keeps`), and no `FILE` stays open (`downloadFile_shuts`). `downloadFiles_puts`
says of every file of a list where it is in the end.
-/

namespace SimiboxDownloader

namespace Download

open Interaction Interaction.Stateful DirTree

variable {α : Type} {w t : World} {st : Statics} {tr : List Event}

section Shut

variable {s : World} {files : List ℕ} {file : ℕ}

/-- No call that opens a file for writing. -/
def OpensNone (o : Call) : Prop := ∀ path, o ≠ .fs (.fopen path .wb)

theorem opensNone_of_tame {o : Call} (h : o.tame = true) : OpensNone o := by
  rintro path rfl
  cases h

theorem opensNone_dev (c : DevCall) : OpensNone (.dev c) :=
  opensNone_of_tame rfl

theorem OpenOnly.tame {o : Call} {r : o.Reply} (h : s.OpenOnly files) (hm : machine o s r t)
    (ho : o.tame = true) : t.OpenOnly files :=
  h.step (opensNone_of_tame ho) hm

/-- However the calls go, only `files` are open for writing in the end. -/
abbrev Leaves (files : List ℕ) (p : Action α) (st : Statics) (s : World) : Prop :=
  Ensures machine (fun _ _ => True) (fun _ _ t => t.OpenOnly files) p st s

theorem Calls.leaves {p : Action α} (h : Calls OpensNone p) (hs : s.OpenOnly files) :
    Leaves files p st s := by
  have hsafe := (h st).safe (M := machine) (C := fun _ _ => True)
    (J := fun s => s.OpenOnly files) ?_
    (fun _ _ _ _ => trivial) hs
  · exact hsafe.forget
  · exact fun o s r t ho hs hm => ⟨lists_of_machine hm, hs.step ho hm⟩

theorem finishFile_shuts (clen : ℤ) (outPath : Str) (r : PingPong.Transfer)
    (hs : s.OpenOnly [file]) : Leaves [] (finishFile clen file outPath r) st s := by
  refine ensures_fs trivial fun _ s₁ hm₁ => ensures_fs trivial fun _ s₂ hm₂ => ?_
  refine ensures_fs trivial fun _ s₃ hm₃ => Calls.leaves ?_
    ((OpenOnly.tame (OpenOnly.tame hs hm₁ rfl) hm₂ rfl).fclose hm₃)
  split
  · exact (calls_fs (fun _ => nofun)).bind fun _ => calls_pure
  · refine (calls_fs (fun _ => nofun)).bind fun renamed => ?_
    split
    · exact (updateLedProgress_calls opensNone_dev).bind fun _ => calls_pure
    · exact (calls_fs (fun _ => nofun)).bind fun _ => calls_pure

theorem transferFile_shuts (client : ℕ) (clen : ℤ) (outPath : Str) (hs : s.OpenOnly [file]) :
    Leaves [] (transferFile client clen file outPath) st s := by
  apply ensures_get
  refine ensures_call trivial fun r s₁ hm₁ => ensures_modify ?_
  have hs₁ : s₁.OpenOnly [file] := OpenOnly.tame hs hm₁ rfl
  apply (((releaseHttpClient_frames client _).calls opensNone_dev).leaves hs₁).bind
  intro _ st s₂ hs₂
  split
  · exact ensures_fs trivial fun _ _ hm => ensures_pure (hs₂.fclose hm)
  · split
    · refine ensures_fs trivial fun _ s₃ hm₃ => ensures_fs trivial fun _ s₄ hm₄ => ?_
      have hs₄ : s₄.OpenOnly [] := World.OpenOnly.fclose (OpenOnly.tame hs₂ hm₃ rfl) hm₄
      exact Calls.leaves ((calls_fs (fun _ => nofun)).bind fun _ => calls_pure) hs₄
    · exact finishFile_shuts clen outPath r hs₂

theorem receiveFile_shuts (client : ℕ) (clen : ℤ) (outPath : Str) (hs : s.OpenOnly []) :
    Leaves [] (receiveFile client clen outPath) st s := by
  have hrelease (client : ℕ) : Calls OpensNone (releaseHttpClient client true) :=
    (releaseHttpClient_frames client true).calls opensNone_dev
  refine ensures_fs trivial fun file? s₁ hm₁ => ?_
  cases file? with
  | none =>
      rw [fopen_none hm₁]
      exact Calls.leaves ((hrelease client).bind fun _ => calls_pure) hs
  | some file =>
      have hs₁ := hs.fopen hm₁
      apply ((ensureSdWriterTask_frames.calls opensNone_dev).leaves hs₁).bind
      intro running st s₂ hs₂
      split
      · exact transferFile_shuts client clen outPath hs₂
      · refine ensures_fs trivial fun _ s₃ hm₃ => ?_
        exact Calls.leaves ((hrelease client).bind fun _ => calls_pure) (hs₂.fclose hm₃)

theorem downloadFileStandalone_shuts (url outPath : Str) (hs : s.OpenOnly []) :
    Leaves [] (downloadFileStandalone url outPath) st s := by
  apply (((httpAttempt_frames url 2).calls opensNone_dev).leaves hs).bind
  intro response st s₁ hs₁
  cases response with
  | none => exact ensures_pure hs₁
  | some response =>
      apply ((ensurePingpongBuffers_frames.calls opensNone_dev).leaves hs₁).bind
      intro _ st s₂ hs₂
      apply ensures_get
      split
      · exact receiveFile_shuts _ _ outPath hs₂
      · have hrelease : Calls OpensNone (releaseHttpClient response.1 true) :=
          (releaseHttpClient_frames _ true).calls opensNone_dev
        exact Calls.leaves (hrelease.bind fun _ => calls_pure) hs₂

theorem lowerClock_shuts (url outPath : Str) {again : FileEnd → Action FileEnd} (e : FileEnd)
    (hagain : ∀ e st s, s.OpenOnly [] → Leaves [] (again e) st s) (hs : s.OpenOnly []) :
    Leaves [] (lowerClock url outPath again e) st s := by
  unfold lowerClock
  split
  · apply ensures_get
    split
    · exact ensures_pure hs
    · apply ((setSdFreq_calls (opensNone_dev) _).leaves hs).bind
      intro changed st s₁ hs₁
      split
      · refine ensures_modify (ensures_fs trivial fun _ s₂ hm₂ => ?_)
        have hs₂ : s₂.OpenOnly [] :=
          hs₁.step (o := .fs (.remove (part outPath))) (fun _ => nofun) hm₂
        apply (downloadFileStandalone_shuts url outPath hs₂).bind
        exact fun e st s₃ hs₃ => hagain e st s₃ hs₃
      · exact ensures_pure hs₁
  · exact ensures_pure hs

theorem downloadFile_shuts (url outPath : Str) (hs : s.OpenOnly []) :
    Leaves [] (downloadFile url outPath) st s := by
  have hretry (n : ℕ) : ∀ e st s, s.OpenOnly [] → Leaves [] (retryFile url outPath n e) st s := by
    induction n with
    | zero =>
        intro e st s hs
        exact lowerClock_shuts url outPath e (fun _ _ _ _ => ⟨trivial, nofun⟩) hs
    | succ n ih =>
        intro e st s hs
        exact lowerClock_shuts url outPath e ih hs
  apply (downloadFileStandalone_shuts url outPath hs).bind
  exact fun e st s₁ hs₁ => hretry _ e st s₁ hs₁

end Shut

section Keep

variable {q : List Name} {dir name : Str} {s : World}

/-- The calls that put a file at `outPath`. -/
def PutsAt (outPath : Str) : Call → Prop
  | .fs (.fopen path .wb) => path = part outPath
  | .fs (.unlink path) => path = part outPath
  | .fs (.remove path) => path = part outPath
  | .fs (.rename src dst) => src = part outPath ∧ dst = outPath
  | o => o.tame = true

theorem putsAt_of_tame {outPath : Str} {o : Call} (h : o.tame = true) : PutsAt outPath o := by
  unfold PutsAt
  split
  · cases h
  · cases h
  · cases h
  · cases h
  · exact h

theorem putsFile_putsAt (outPath : Str) : PutsFile (PutsAt outPath) outPath :=
  ⟨rfl, rfl, rfl, rfl, rfl⟩

theorem PutsAt.writes {outPath : Str} {o : Call} (h : PutsAt outPath o)
    (hrename : ∀ src dst, o ≠ .fs (.rename src dst)) : ∀ path ∈ o.writes, path = part outPath := by
  unfold PutsAt at h
  split at h
  · exact fun path hpath => (List.mem_singleton.1 hpath).trans h
  · exact fun path hpath => (List.mem_singleton.1 hpath).trans h
  · exact fun path hpath => (List.mem_singleton.1 hpath).trans h
  · next src dst => exact absurd rfl (hrename src dst)
  · rw [writes_of_tame h]
    simp

/-- The directory `q`, in which there are only files. -/
structure Filling (q : List Name) (w : World) : Prop where
  dir : w.card.get q = some .dir
  files : ∀ x, Within q x → w.card.get x ≠ some .dir

/-- Nothing lies below what is in the directory. -/
theorem Filling.flat (h : Filling q s) {x y : List Name} (hx : Within q x) (hy : x <+: y)
    (hne : y ≠ x) : s.card.get y = none := by
  obtain ⟨r, rfl⟩ := hy
  apply Tree.get_none_below_file
  · rw [← Bool.not_eq_true, Tree.isDir_iff]
    exact h.files x hx
  · rintro rfl
    exact hne (List.append_nil x)

/-- The `rename` of a file in the directory. -/
theorem Filling.move {x y : List Name} (h : Filling q s) (hx : Within q x)
    (hmove : s.card.CanMove x y) :
    Filling q { s with card := s.card.move x y } ∧ ∀ z data, z ≠ x →
      s.card.get z = some (.file data) → (s.card.move x y).get z = some (.file data) := by
  have hnone := hmove.2.2.2.2.1
  have habsent {z : List Name} {e : Entry Bytes} (hz : s.card.get z = some e) : ¬ y <+: z := by
    intro hpre
    rw [Tree.get_none_below hnone hpre] at hz
    cases hz
  have hself : ¬ x <+: q := by
    intro hpre
    exact hx.2 (hpre.eq_of_length (Nat.le_antisymm hpre.length_le hx.1.length_le))
  refine ⟨⟨?_, fun z hz => ?_⟩, fun z data hne hz => ?_⟩
  · rw [Tree.get_move_elsewhere hself (habsent h.dir), h.dir]
  · rw [Tree.get_move hmove]
    split
    · exact h.files _ (hx.append _)
    · split
      · simp
      · exact h.files z hz
  · rw [Tree.get_move_elsewhere ?_ (habsent hz), hz]
    intro hpre
    rw [h.flat hx hpre hne] at hz
    cases hz

variable (hm : mountPrefix <+: dir) (hq : resolve dir = some q)

include hm hq

/-- What a call of the download of a file leaves as it is. -/
theorem PutsAt.step {o : Call} {r : o.Reply} (ho : PutsAt (sub dir name) o)
    (hstep : machine o s r t) (hopen : s.WritesIn fun x => resolve (part (sub dir name)) = some x)
    (hfill : Filling q s) :
    (t.WritesIn fun x => resolve (part (sub dir name)) = some x) ∧ Filling q t ∧
      ∀ x data, resolve (part (sub dir name)) ≠ some x → s.card.get x = some (.file data) →
        t.card.get x = some (.file data) := by
  by_cases hrename : ∃ src dst, o = .fs (.rename src dst)
  · obtain ⟨src, dst, rfl⟩ := hrename
    obtain ⟨rfl, rfl⟩ := ho
    rcases rename_cases hstep with ⟨rfl, rfl⟩ | ⟨rfl, x, y, hx, hy, hmove, rfl⟩
    · exact ⟨hopen, hfill, fun _ _ _ hx => hx⟩
    · obtain ⟨hfill', hkeep⟩ := hfill.move (within_part hm hq hx) hmove
      refine ⟨hopen, hfill', fun z data hz => hkeep z data ?_⟩
      rintro rfl
      exact hz hx
  · have hrename' : ∀ src dst, o ≠ .fs (.rename src dst) := fun src dst heq =>
      hrename ⟨src, dst, heq⟩
    have hwrites : ∀ path ∈ o.writes, ∀ x, resolve path = some x →
        resolve (part (sub dir name)) = some x := by
      intro path hpath x hx
      rwa [ho.writes hrename' path hpath] at hx
    obtain ⟨hopen', hsame⟩ := frame_at (fun src dst heq => absurd heq (hrename' src dst))
      hopen hwrites
      hstep
    have hmkdir : ∀ path, o ≠ .fs (.mkdir path) := by
      rintro path rfl
      cases ho
    refine ⟨hopen', ⟨?_, fun x hx hdir => ?_⟩, fun x data hx hfile => ?_⟩
    · rw [hsame q ?_, hfill.dir]
      exact fun hpart => (within_part hm hq hpart).2 rfl
    · exact hfill.files x hx (dir_of_step hmkdir hrename' hstep hdir)
    · rw [hsame x hx, hfile]

/-- What a run of the download of a file leaves as it is. -/
theorem Calls.keeps {p : Action α} {q' : Program Call Call.Reply (α × Statics)}
    (h : Calls (PutsAt (sub dir name)) p) (hrun : Steps machine (p.run st) w tr q' t)
    (hshut : w.OpenOnly []) (hfill : Filling q w) :
    Filling q t ∧ ∀ x data, resolve (part (sub dir name)) ≠ some x →
      w.card.get x = some (.file data) → t.card.get x = some (.file data) := by
  refine (hrun.invariant (J := fun s =>
    (s.WritesIn fun x => resolve (part (sub dir name)) = some x) ∧ Filling q s ∧
      ∀ x data, resolve (part (sub dir name)) ≠ some x → w.card.get x = some (.file data) →
        s.card.get x = some (.file data)) ?_ ⟨?_, hfill, fun _ _ _ hx => hx⟩).2
  · rintro e he ⟨hopen, hfill, hkeep⟩
    obtain ⟨hopen', hfill', hkeep'⟩ :=
      (h.events hrun e he).step hm hq (hrun.events e he) hopen hfill
    exact ⟨hopen', hfill', fun x data hx hfile => hkeep' x data hx (hkeep x data hx hfile)⟩
  · intro f s hs
    rw [World.openOnly_nil.1 hshut f] at hs
    cases hs

end Keep

section Attempts

variable {url outPath : Str}

/-- `seg` is a successful attempt at the file, with the bytes it received. -/
def Receives (url outPath : Str) (received : Bytes) (seg : List Event) : Prop :=
  ∃ st w x t, Steps machine ((downloadFileStandalone url outPath).run st) w seg (.pure x) t ∧
    x.1 = .ok received

/-- From an attempt on that ended in `e`: that was the last one, or a later one that
the run ends with, unless it was an error of the card. -/
def EndsWithAttempt (url outPath : Str) (p : FileEnd → Action FileEnd) : Prop :=
  ∀ e st w tr x t, Steps machine ((p e).run st) w tr (.pure x) t → x.1.result ≠ .sdFailed →
    tr = [] ∧ x = (e, st) ∧ t = w ∨ ∃ seg st' w', seg <:+ tr ∧
      Steps machine ((downloadFileStandalone url outPath).run st') w' seg (.pure x) t

theorem lowerClock_attempt {again : FileEnd → Action FileEnd}
    (hagain : EndsWithAttempt url outPath again) :
    EndsWithAttempt url outPath (lowerClock url outPath again) := by
  intro e st w tr x t hrun hend
  unfold lowerClock at hrun
  split at hrun
  · next hsd =>
      have hstop {st : Statics} {w : World} {tr : List Event}
          (hrun : Steps machine ((pure e : Action FileEnd).run st) w tr (.pure x) t) : False := by
        cases hrun
        exact hend hsd
      rw [run_get_bind] at hrun
      split at hrun
      · exact (hstop hrun).elim
      · obtain ⟨changed, st₁, w₁, tr₁, tr₂, rfl, -, hrest⟩ := steps_bind hrun
        cases changed with
        | false => exact (hstop hrest).elim
        | true =>
            change Steps machine ((fs (.remove (part outPath)) >>= fun _ =>
              downloadFileStandalone url outPath >>= again).run _) w₁ tr₂ _ t at hrest
            obtain ⟨r, w₂, tr₃, rfl, -, hrest⟩ := steps_call hrest
            obtain ⟨e₁, st₂, w₃, tr₄, tr₅, rfl, hfile, hrest⟩ := steps_bind hrest
            right
            have hsuffix {seg : List Event} (hseg : seg <:+ tr₄ ++ tr₅) :
                seg <:+ tr₁ ++ ⟨w₁, .fs (.remove (part outPath)), r, w₂⟩ :: (tr₄ ++ tr₅) :=
              (hseg.trans (List.suffix_cons _ _)).trans (List.suffix_append _ _)
            rcases hagain e₁ st₂ w₃ tr₅ x t hrest hend with ⟨rfl, rfl, rfl⟩ |
              ⟨seg, st', w', hseg, hrun⟩
            · exact ⟨tr₄, _, w₂, hsuffix (by simp), hfile⟩
            · exact ⟨seg, st', w', hsuffix (hseg.trans (List.suffix_append _ _)), hrun⟩
  · cases hrun
    exact Or.inl ⟨rfl, rfl, rfl⟩

theorem downloadFile_attempt {x : FileEnd × Statics}
    (hrun : Steps machine ((downloadFile url outPath).run st) w tr (.pure x) t)
    (hend : x.1.result ≠ .sdFailed) : ∃ seg st' w', seg <:+ tr ∧
      Steps machine ((downloadFileStandalone url outPath).run st') w' seg (.pure x) t := by
  have hretry (n : ℕ) : EndsWithAttempt url outPath (retryFile url outPath n) := by
    induction n with
    | zero =>
        refine lowerClock_attempt fun e st w tr x t hrun => ?_
        obtain ⟨r, -⟩ := hrun.of_call_pure
        exact r.elim
    | succ n ih => exact lowerClock_attempt ih
  obtain ⟨e, st₁, w₁, tr₁, tr₂, rfl, hfile, hrest⟩ := steps_bind hrun
  rcases hretry _ e st₁ w₁ tr₂ x t hrest hend with ⟨rfl, rfl, rfl⟩ | ⟨seg, st', w', hseg, hrun⟩
  · exact ⟨tr₁, st, w, by simp, hfile⟩
  · exact ⟨seg, st', w', hseg.trans (List.suffix_append _ _), hrun⟩

end Attempts

section Loop

variable {q : List Name} {dir : Str}

theorem stat_same {path : Str} {r : Option Stat} (hm : machine (.fs (.stat path)) w r t) :
    t = w := by
  rcases hm with hm | ⟨-, rfl⟩
  · exact (stat_ok hm).1
  · rfl

/-- The file of `item` is in the directory, with what a successful attempt received,
unless a flush, a sync or a close of that attempt has failed. -/
def IsPut (dir : Str) (item : FileItem) (tr : List Event) (t : World) : Prop :=
  ∃ received seg x data, seg <:+: tr ∧ Receives item.url (sub dir item.name) received seg ∧
    resolve (sub dir item.name) = some x ∧ t.card.get x = some (.file data) ∧
    (seg.any tailFails = false → data = received)

variable (hm : mountPrefix <+: dir) (hq : resolve dir = some q)

include hm hq

theorem downloadFile_puts {item : FileItem} {received : Bytes} {st' : Statics}
    (hrun : Steps machine ((downloadFile item.url (sub dir item.name)).run st) w tr
      (.pure (.ok received, st')) t) (hshut : w.OpenOnly []) (hfill : Filling q w) :
    (t.OpenOnly [] ∧ Filling q t ∧ ∀ x data, resolve (part (sub dir item.name)) ≠ some x →
      w.card.get x = some (.file data) → t.card.get x = some (.file data)) ∧
        IsPut dir item tr t := by
  have hcalls : Calls (PutsAt (sub dir item.name)) (downloadFile item.url (sub dir item.name)) :=
    downloadFile_calls (fun _ => putsAt_of_tame) (putsFile_putsAt _) _
  refine ⟨⟨(downloadFile_shuts _ _ hshut).result trivial hrun,
    hcalls.keeps hm hq hrun hshut hfill⟩, ?_⟩
  obtain ⟨seg, st₁, w₁, hseg, hfile⟩ := downloadFile_attempt hrun nofun
  obtain ⟨p, x, -, hx, hplaced⟩ := (downloadFileStandalone_spec hfile).placed received rfl
  obtain ⟨data, hdata, hsound⟩ := hplaced.file
  exact ⟨received, seg, x, data, hseg.isInfix, ⟨st₁, w₁, _, t, hfile, rfl⟩, hx, hdata, hsound⟩

/-- Where the files of a list are, after a loop that put all of them: a file is in the
directory unless a later one has its name for a `.part`. -/
theorem downloadFiles_puts {files : List FileItem} {contents : List Bytes} {st' : Statics}
    (hrun : Steps machine ((downloadFiles dir files).run st) w tr (.pure (.ok contents, st')) t)
    (hshut : w.OpenOnly []) (hfill : Filling q w) :
    (t.OpenOnly [] ∧ Filling q t ∧
      ∀ x data, (∀ item ∈ files, resolve (part (sub dir item.name)) ≠ some x) →
        w.card.get x = some (.file data) → t.card.get x = some (.file data)) ∧
    ∀ before item after, files = before ++ item :: after →
      (∀ later ∈ after, resolve (part (sub dir later.name)) ≠ resolve (sub dir item.name)) →
      IsPut dir item tr t := by
  induction files generalizing st w tr contents with
  | nil =>
      cases hrun
      exact ⟨⟨hshut, hfill, fun _ _ _ hx => hx⟩, by simp⟩
  | cons item items ih =>
      obtain ⟨_, st₁, w₁, tr₁, tr₂, rfl, hled, hrest⟩ := steps_bind hrun
      have hquiet := (quiet_of_calls (updateLedProgress_calls onlyDev_dev) st w []).result hled
      have hshut₁ : w₁.OpenOnly [] :=
        ((updateLedProgress_calls opensNone_dev).leaves hshut).result trivial hled
      have hfill₁ : Filling q w₁ := by
        obtain ⟨hdir, hfiles⟩ := hfill
        rw [← hquiet.card] at hdir hfiles
        exact ⟨hdir, hfiles⟩
      obtain ⟨e, st₂, w₂, tr₃, tr₄, rfl, hfile, hrest⟩ := steps_bind hrest
      cases e with
      | ok received =>
          obtain ⟨⟨hshut₂, hfill₂, hkeep₂⟩, hput⟩ := downloadFile_puts hm hq hfile hshut₁ hfill₁
          obtain ⟨info, w₃, tr₅, rfl, hstat, hrest⟩ := steps_call hrest
          obtain ⟨rest, st₃, w₄, tr₆, tr₇, rfl, hloop, hend⟩ := steps_bind hrest
          obtain rfl : w₃ = w₂ := stat_same hstat
          cases rest with
          | error e => cases hend
          | ok contents =>
              cases hend
              obtain ⟨⟨hshut₃, hfill₃, hkeep₃⟩, hputs⟩ := ih hloop hshut₂ hfill₂
              refine ⟨⟨hshut₃, hfill₃, fun x data hx hdata => ?_⟩,
                fun before file after heq hlater => ?_⟩
              · obtain ⟨hx, hrest⟩ := List.forall_mem_cons.1 hx
                rw [← hquiet.card] at hdata
                exact hkeep₃ x data hrest (hkeep₂ x data hx hdata)
              · rw [List.append_nil]
                cases before with
                | nil =>
                    obtain ⟨rfl, rfl⟩ := List.cons.inj heq
                    obtain ⟨received, seg, x, data, hseg, hreceives, hx, hdata, hsound⟩ := hput
                    refine ⟨received, seg, x, data, ?_, hreceives, hx, ?_, hsound⟩
                    · exact hseg.trans
                        ((List.prefix_append _ _).isInfix.trans (List.suffix_append _ _).isInfix)
                    · apply hkeep₃ x data ?_ hdata
                      intro later hlate
                      rw [← hx]
                      exact hlater later hlate
                | cons first before =>
                    obtain ⟨received, seg, x, data, hseg, hput⟩ :=
                      hputs before file after (List.cons.inj heq).2 hlater
                    refine ⟨received, seg, x, data, hseg.trans ?_, hput⟩
                    exact (((List.suffix_cons _ _).trans (List.suffix_append _ _)).trans
                      (List.suffix_append _ _)).isInfix
      | _ => cases hrest

end Loop

end Download

end SimiboxDownloader
