import SimiboxDownloader.Download.Clock
import SimiboxDownloader.Sd.Bus

/-!
# The clock of the card

`mount_sd` tries the clocks of its ladder downwards and remembers the one it has
mounted at (`mountSd_clock`). A download on the card it has mounted starts from there
and only slows the card down (`downloadSimiFolder_clock`).
-/

namespace SimiboxDownloader

namespace Sd

open Interaction Download

section Mount

variable {σ : Type} {M : Machine SdCall SdCall.Reply σ} {s t : σ} {st st' : Statics}
  {tr : List (Interaction.Event SdCall SdCall.Reply σ)}

/-- The clock of an attempt to mount, and whether it mounted. -/
def mountAttempt : Interaction.Event SdCall SdCall.Reply σ → Option (ℤ × Bool)
  | ⟨_, .sdspiMount freqKhz, r, _⟩ => some (freqKhz, r.isSome)
  | _ => none

theorem mountRungs_clock (prevFreq : ℤ) (rungs : List ℤ)
    (hrun : Steps M ((mountRungs prevFreq rungs).run st) s tr (.pure (true, st')) t) :
    ∃ failed, tr.filterMap mountAttempt =
        failed.map (fun freq => (freq, false)) ++ [(st'.download.sdFreqKhz, true)] ∧
      (prevFreq :: failed ++ [st'.download.sdFreqKhz]).Pairwise (· > ·) := by
  induction rungs generalizing prevFreq s tr with
  | nil =>
      obtain ⟨_, _, _, -, -, hend⟩ := hrun.of_call_pure
      cases hend
  | cons freq rungs ih =>
      unfold mountRungs at hrun
      split at hrun
      · exact ih _ hrun
      · next hlt =>
          have hfreq : freq < prevFreq := Int.not_le.1 hlt
          obtain ⟨card?, _, _, rfl, -, hrest⟩ := hrun.of_call_pure
          cases card? with
          | some card =>
              cases hrest
              exact ⟨[], rfl, by simpa using hfreq⟩
          | none =>
              obtain ⟨failed, hattempts, hsorted⟩ := ih _ hrest
              refine ⟨freq :: failed, congrArg ((freq, false) :: ·) hattempts, ?_⟩
              refine List.pairwise_cons.2 ⟨?_, hsorted⟩
              intro f hf
              rcases List.mem_cons.1 hf with rfl | hf
              · exact hfreq
              · exact Int.lt_trans ((List.pairwise_cons.1 hsorted).1 f hf) hfreq

/-- Where `mount_sd` mounts, `s_sd_freq_khz` is the clock it has mounted at, and the
clocks before were higher ones. -/
theorem mountSd_clock {sdSpiFreqKhz : ℤ}
    (hrun : Steps M ((mountSd sdSpiFreqKhz).run st) s tr (.pure (true, st')) t) :
    ∃ failed, tr.filterMap mountAttempt =
        failed.map (fun freq => (freq, false)) ++ [(st'.download.sdFreqKhz, true)] ∧
      (failed ++ [st'.download.sdFreqKhz]).Pairwise (· > ·) := by
  have hladder {s : σ} {tr} (h : Steps M ((mountRungs 1000000 (mountLadder sdSpiFreqKhz)).run
      { st with spiBusInitialized := true }) s tr (.pure (true, st')) t) :
      ∃ failed, tr.filterMap mountAttempt =
          failed.map (fun freq => (freq, false)) ++ [(st'.download.sdFreqKhz, true)] ∧
        (failed ++ [st'.download.sdFreqKhz]).Pairwise (· > ·) := by
    obtain ⟨failed, hattempts, hsorted⟩ := mountRungs_clock _ _ h
    exact ⟨failed, hattempts, (List.pairwise_cons.1 hsorted).2⟩
  obtain ⟨ret, _, tr₁, rfl, -, hrest⟩ := hrun.of_call_pure
  rw [List.filterMap_cons_none rfl]
  cases ret with
  | ok => exact hladder hrest
  | invalidState =>
      obtain ⟨_, _, tr₂, rfl, -, hrest⟩ := hrest.of_call_pure
      obtain ⟨ret, _, tr₃, rfl, -, hrest⟩ := hrest.of_call_pure
      rw [List.filterMap_cons_none rfl, List.filterMap_cons_none rfl]
      cases ret with
      | ok => exact hladder hrest
      | invalidState | failed => cases hrest
  | failed => cases hrest

end Mount

/-- For every configured clock and every rung `mount_sd` succeeds at, and for every
list, every end of the attempts and every answer to a request for a clock: the loop
ends, and after a run `s_sd_freq_khz` is the clock last accepted by the driver. The
marks say that the clock only goes down, after an SD failure and before one more
attempt of the same file, and bound the attempts. -/
theorem downloadSimiFolder_clock {J : CJson} {depth : ℕ} {folder lambdaUrl : Str}
    {sdSpiFreqKhz : ℤ} {σ : Type} {M : Machine SdCall SdCall.Reply σ} {s₀ s : σ}
    {st₀ st : Statics} {w t : Download.World} {x : FolderEnd × Download.Statics}
    {tr₀ : List (Interaction.Event SdCall SdCall.Reply σ)} {tr : List Download.Event}
    (hmount : Steps M ((mountSd sdSpiFreqKhz).run st₀) s₀ tr₀ (.pure (true, st)) s)
    (hrun : Steps Download.machine
      ((Download.downloadSimiFolder J depth folder lambdaUrl).run st.download) w tr (.pure x) t) :
    (∃ failed, tr₀.filterMap mountAttempt =
        failed.map (fun freq => (freq, false)) ++ [(st.download.sdFreqKhz, true)] ∧
      (failed ++ [st.download.sdFreqKhz]).Pairwise (· > ·)) ∧
    (∀ files st w tr k t, ¬ Steps Download.machine ((downloadFiles (tmpDir folder) files).run st)
      w tr (.call .diverge k) t) ∧
    ((∀ ev ∈ tr, Outside ev.op) ∧ x.2.sdFreqKhz = st.download.sdFreqKhz ∨
      ∃ items pre loop post marks, items ∈ pre.filterMap (listResponse J) ∧
        tr = pre ++ loop ++ post ∧ (∀ ev ∈ pre ++ post, Outside ev.op) ∧
        Record (tmpDir folder) (fileList items) st.download.sdFreqKhz loop marks x.2.sdFreqKhz ∧
        SlowsDown (fileList items).length 0 st.download.sdFreqKhz marks x.2.sdFreqKhz ∧
        marks.countP Mark.isAttempt ≤ (fileList items).length + rungsBelow st.download.sdFreqKhz ∧
        rungsBelow st.download.sdFreqKhz ≤ 3) :=
  ⟨mountSd_clock hmount, fun _ _ _ _ _ _ => downloadFiles_ends, downloadSimiFolder_slows hrun⟩

section Sample

/-- The song cannot be renamed. -/
def songFailing (o : Download.Call) (_ : Download.World) : Fate :=
  match o with
  | .fs (.rename _ dst) => if dst = sub (tmpDir "mozart".toList) "a.mp3".toList then .fails else .ok
  | _ => .ok

/-- A card that does not mount at 26 MHz. -/
theorem mountSd_slow (card : DirTree.Tree Name Bytes) :
    Steps machine ((mountSd 26000).run (Statics.boot 26000)) (World.boot card)
      [⟨World.boot card, .spiBusInitialize, .ok, { World.boot card with bus := true }⟩,
        ⟨{ World.boot card with bus := true }, .sdspiMount 26000, none,
          { World.boot card with bus := true }⟩,
        ⟨{ World.boot card with bus := true }, .sdspiMount 10000, some (0, true),
          { World.boot card with bus := true, mounted := some 0, next := 1 }⟩]
      (.pure (true, ⟨some 0, true, .boot true 10000⟩))
      { World.boot card with bus := true, mounted := some 0, next := 1 } := by
  refine Steps.call ?_ (Steps.call ?_ (Steps.call ?_ (Steps.refl _ _)))
  · exact Or.inr ⟨rfl, rfl⟩
  · exact Or.inl ⟨rfl, rfl⟩
  · exact Or.inr ⟨rfl, rfl, true, rfl, rfl⟩

theorem downloadSimiFolder_clock_mozart : ∃ tr x t,
    Steps Download.machine
      ((Download.downloadSimiFolder mozart.cjson 4 "mozart".toList "https://api.example".toList).run
      (.boot true 10000)) (.boot (cardOf [])) tr (.pure x) t ∧ x.2.sdFreqKhz = 4000 ∧
    ∃ items pre loop post marks, items ∈ pre.filterMap (listResponse mozart.cjson) ∧
      tr = pre ++ loop ++ post ∧ (∀ ev ∈ pre ++ post, Outside ev.op) ∧
      Record (tmpDir "mozart".toList) (fileList items) 10000 loop marks x.2.sdFreqKhz ∧
      SlowsDown (fileList items).length 0 10000 marks x.2.sdFreqKhz ∧
      marks.countP Mark.isAttempt ≤ (fileList items).length + rungsBelow 10000 ∧
      rungsBelow 10000 ≤ 3 := by
  have hend : (mozart.play songFailing "mozart".toList (cardOf [])).1.value.map
      (fun x => x.2.sdFreqKhz) = some 4000 := by
    decide +kernel
  obtain ⟨x, hrun, hclock⟩ :=
    (mozart.steps_play songFailing "mozart".toList (cardOf [])).returned hend
  obtain ⟨-, -, hsplit⟩ := downloadSimiFolder_clock (mountSd_slow (cardOf [])) hrun
  refine ⟨_, x, _, hrun, hclock, hsplit.resolve_left fun hquiet => ?_⟩
  rw [hclock] at hquiet
  exact absurd hquiet.2 (by decide)

end Sample

end Sd

end SimiboxDownloader
