import SimiboxDownloader.Download.Progress
import Mathlib.Data.List.Chain

/-!
# The clock of the card

The file loop of `download_simi_folder` slows the card down after an SD failure, along
a ladder of its own. `Record` says what a run of the loop does with the clock, as a list
of `Mark`s, and `SlowsDown` what holds of such a list (`downloadSimiFolder_slows`).
-/

namespace SimiboxDownloader

namespace Download

open Interaction Interaction.Stateful

section Marks

/-- What the loop does about its `i`-th file: an attempt, which ended in `e`, or a
request for a clock, which the driver accepted or not. -/
inductive Mark
  | attempt (i : ℕ) (e : FileEnd)
  | clock (i : ℕ) (freqKhz : ℤ) (accepted : Bool)

namespace Mark

/-- The clock the driver has accepted. -/
def lowered : Mark → Option ℤ
  | .clock _ freqKhz true => some freqKhz
  | _ => none

def isAttempt : Mark → Bool
  | .attempt _ _ => true
  | .clock _ _ _ => false

/-- What may follow what: the next file after a success, a request after an SD
failure of the same file, an attempt of the same file after an accepted clock. -/
def Follows : Mark → Mark → Prop
  | .attempt i e, .attempt j _ => e.result = .ok ∧ j = i + 1
  | .attempt i e, .clock j _ _ => e.result = .sdFailed ∧ j = i
  | .clock i _ accepted, .attempt j _ => accepted = true ∧ j = i
  | .clock _ _ _, .clock _ _ _ => False

/-- What the loop may end with, for `n` files: a failed attempt, a refused clock, or
the success of the last file. -/
def Ends (n : ℕ) : Mark → Prop
  | .attempt i e => e.result = .ok → i + 1 = n
  | .clock _ _ accepted => accepted = false

end Mark

/-- The `while` loop of the `i`-th file, after an attempt at the clock `c` that ended
in `e`: in the end the clock is `c'` and the last attempt ended in `e'`. -/
inductive Retried (i : ℕ) : ℤ → FileEnd → List Mark → ℤ → FileEnd → Prop
  | done (c : ℤ) (e : FileEnd) : Retried i c e [] c e
  | refused {c : ℤ} {e : FileEnd} (freqKhz : ℤ) :
      e.result = .sdFailed → Retried i c e [.clock i freqKhz false] c e
  | again {c c' : ℤ} {e e₁ e' : FileEnd} {marks : List Mark} :
      e.result = .sdFailed → 0 ≤ sdNextLowerFreq c →
      Retried i (sdNextLowerFreq c) e₁ marks c' e' →
      Retried i c e (.clock i (sdNextLowerFreq c) true :: .attempt i e₁ :: marks) c' e'

/-- The loop over `n` files from the `i`-th on. -/
inductive Loops (n : ℕ) : ℕ → ℤ → List Mark → ℤ → Prop
  | finished (c : ℤ) : Loops n n c [] c
  | stopped {i : ℕ} {c c' : ℤ} {e e' : FileEnd} {marks : List Mark} :
      i < n → Retried i c e marks c' e' → e'.result ≠ .ok →
      Loops n i c (.attempt i e :: marks) c'
  | file {i : ℕ} {c c' c'' : ℤ} {e e' : FileEnd} {marks marks' : List Mark} :
      i < n → Retried i c e marks c' e' → e'.result = .ok → Loops n (i + 1) c' marks' c'' →
      Loops n i c (.attempt i e :: marks ++ marks') c''

/-- The marks `marks` of a loop over `n` files from the `i`-th on take the clock from
`c` down to `c'`. -/
structure SlowsDown (n i : ℕ) (c : ℤ) (marks : List Mark) (c' : ℤ) : Prop where
  starts : ∀ m ∈ marks.head?, ∃ e, m = .attempt i e
  empty : marks = [] → i = n
  follows : marks.IsChain Mark.Follows
  ends : ∀ m ∈ marks.getLast?, m.Ends n
  decreasing : (c :: marks.filterMap Mark.lowered).Pairwise (· > ·)
  floor : ∀ f ∈ c :: marks.filterMap Mark.lowered, c' ≤ f
  attempts : i + marks.countP Mark.isAttempt + rungsBelow c' ≤ n + rungsBelow c

section Retried

variable {i : ℕ} {c c' : ℤ} {e e' : FileEnd} {marks : List Mark}

theorem Retried.follows (h : Retried i c e marks c' e') :
    (Mark.attempt i e :: marks).IsChain Mark.Follows := by
  induction h with
  | done => exact List.isChain_singleton _
  | refused _ hsd => exact List.isChain_cons_cons.2 ⟨⟨hsd, rfl⟩, List.isChain_singleton _⟩
  | again hsd _ _ ih =>
      exact List.isChain_cons_cons.2 ⟨⟨hsd, rfl⟩, List.isChain_cons_cons.2 ⟨⟨rfl, rfl⟩, ih⟩⟩

theorem Retried.last (h : Retried i c e marks c' e') :
    ∀ m ∈ (Mark.attempt i e :: marks).getLast?, m = .attempt i e' ∨
      e'.result = .sdFailed ∧ ∃ freqKhz, m = .clock i freqKhz false := by
  induction h with
  | done =>
      rintro m ⟨⟩
      exact Or.inl rfl
  | refused freqKhz hsd =>
      rintro m ⟨⟩
      exact Or.inr ⟨hsd, freqKhz, rfl⟩
  | again _ _ _ ih => simpa only [List.getLast?_cons_cons] using ih

/-- The clock goes down, and ends lowest. -/
theorem Retried.clocks (h : Retried i c e marks c' e') :
    (c :: marks.filterMap Mark.lowered).Pairwise (· > ·) ∧
      ∀ f ∈ c :: marks.filterMap Mark.lowered, c' ≤ f := by
  induction h with
  | done => simp
  | refused => simp [List.filterMap_cons, Mark.lowered]
  | @again c c' e e₁ e' marks _ hpos _ ih =>
      obtain ⟨hsorted, hfloor⟩ := ih
      have hlt := (rungsBelow_next hpos).1
      have hmarks : (Mark.clock i (sdNextLowerFreq c) true :: .attempt i e₁ :: marks).filterMap
          Mark.lowered = sdNextLowerFreq c :: marks.filterMap Mark.lowered := rfl
      rw [hmarks]
      constructor
      · refine List.pairwise_cons.2 ⟨?_, hsorted⟩
        intro f hf
        rcases List.mem_cons.1 hf with rfl | hf
        · exact hlt
        · exact Int.lt_trans ((List.pairwise_cons.1 hsorted).1 f hf) hlt
      · refine List.forall_mem_cons.2 ⟨?_, hfloor⟩
        exact Int.le_trans (hfloor _ List.mem_cons_self) (Int.le_of_lt hlt)

/-- Every further attempt takes a rung. -/
theorem Retried.attempts (h : Retried i c e marks c' e') :
    marks.countP Mark.isAttempt + rungsBelow c' ≤ rungsBelow c := by
  induction h with
  | done => simp
  | refused => simp [Mark.isAttempt]
  | again _ hpos _ ih =>
      have hrungs := (rungsBelow_next hpos).2
      rw [List.countP_cons_of_neg (by simp [Mark.isAttempt]), List.countP_cons_of_pos rfl]
      omega

end Retried

/-- The loop only slows the clock down. -/
theorem Loops.slowsDown {n i : ℕ} {c c' : ℤ} {marks : List Mark} (h : Loops n i c marks c') :
    SlowsDown n i c marks c' := by
  induction h with
  | finished c =>
      exact ⟨by simp, fun _ => rfl, List.isChain_nil, by simp, by simp, by simp, by simp⟩
  | @stopped i c c' e e' marks hi hretried hfailed =>
      obtain ⟨hsorted, hfloor⟩ := hretried.clocks
      have hattempts := hretried.attempts
      refine ⟨?_, by simp, hretried.follows, ?_, hsorted, hfloor, ?_⟩
      · rintro m ⟨⟩
        exact ⟨e, rfl⟩
      · intro m hm
        obtain rfl | ⟨-, freqKhz, rfl⟩ := hretried.last m hm
        · exact fun hok => absurd hok hfailed
        · rfl
      · rw [List.countP_cons_of_pos rfl]
        omega
  | @file i c c' c'' e e' marks marks' hi hretried hok hrest ih =>
      obtain ⟨hsorted, hfloor⟩ := hretried.clocks
      have hattempts := hretried.attempts
      have hlast : ∀ m ∈ (Mark.attempt i e :: marks).getLast?, m = .attempt i e' := by
        intro m hm
        obtain rfl | ⟨hsd, -⟩ := hretried.last m hm
        · rfl
        · rw [hok] at hsd
          cases hsd
      have hlowered : (Mark.attempt i e :: marks ++ marks').filterMap Mark.lowered =
          marks.filterMap Mark.lowered ++ marks'.filterMap Mark.lowered := List.filterMap_append
      refine ⟨?_, by simp, ?_, ?_, ?_, ?_, ?_⟩
      · rintro m ⟨⟩
        exact ⟨e, rfl⟩
      · refine List.isChain_append.2 ⟨hretried.follows, ih.follows, ?_⟩
        intro m hm m' hm'
        obtain rfl := hlast m hm
        obtain ⟨e₁, rfl⟩ := ih.starts m' hm'
        exact ⟨hok, rfl⟩
      · intro m hm
        rw [List.getLast?_append] at hm
        cases hmarks : marks'.getLast? with
        | none =>
            rw [hmarks] at hm
            obtain rfl := hlast m hm
            exact fun _ => ih.empty (List.getLast?_eq_none_iff.1 hmarks)
        | some m' =>
            rw [hmarks] at hm
            obtain rfl : m' = m := Option.some.inj hm
            exact ih.ends m' hmarks
      · rw [hlowered, ← List.cons_append]
        refine List.pairwise_append.2 ⟨hsorted, (List.pairwise_cons.1 ih.decreasing).2, ?_⟩
        intro f hf f' hf'
        have hlt := (List.pairwise_cons.1 ih.decreasing).1 f' hf'
        exact Int.lt_of_lt_of_le hlt (hfloor f hf)
      · rw [hlowered, ← List.cons_append]
        intro f hf
        rcases List.mem_append.1 hf with hf | hf
        · exact Int.le_trans (ih.floor c' List.mem_cons_self) (hfloor f hf)
        · exact ih.floor f (List.mem_cons_of_mem _ hf)
      · have hrest := ih.attempts
        rw [List.countP_append, List.countP_cons_of_pos rfl]
        omega

end Marks

section Record

/-- The calls of the loop that have nothing to do with attempts or the clock. -/
def Aside : Call → Prop
  | .dev (.ledShowDownloadProgress _) => True
  | .fs (.stat _) => True
  | .fs (.remove _) => True
  | _ => False

/-- From the clock `c` on, at which the card runs, the calls `tr` of the loop over
`files` are those of its attempts and requests `marks`, and the card then runs at
`c'`. An attempt is a run of `download_file_standalone`; before it and after it
`s_sd_freq_khz` is the clock the card runs at. -/
inductive Record (dir : Str) (files : List FileItem) : ℤ → List Event → List Mark → ℤ → Prop
  | nil (c : ℤ) : Record dir files c [] [] c
  | attempt {i : ℕ} {item : FileItem} {c c' : ℤ} {w t : World} {st st' : Statics} {e : FileEnd}
      {tr tr' : List Event} {marks : List Mark} : files[i]? = some item →
      Steps machine ((downloadFileStandalone item.url (sub dir item.name)).run st) w tr
        (.pure (e, st')) t →
      st.sdFreqKhz = c → st'.sdFreqKhz = c → (∀ ev ∈ tr, ∀ f, ev.op ≠ .dev (.setCardClk f)) →
      Record dir files c tr' marks c' →
      Record dir files c (tr ++ tr') (.attempt i e :: marks) c'
  | clock {i : ℕ} {c c' freqKhz : ℤ} {w t : World} {accepted : Bool} {tr : List Event}
      {marks : List Mark} : Record dir files (if accepted then freqKhz else c) tr marks c' →
      Record dir files c (⟨w, .dev (.setCardClk freqKhz), accepted, t⟩ :: tr)
        (.clock i freqKhz accepted :: marks) c'
  | aside {c c' : ℤ} {ev : Event} {tr : List Event} {marks : List Mark} : Aside ev.op →
      Record dir files c tr marks c' → Record dir files c (ev :: tr) marks c'

variable {dir : Str} {files : List FileItem} {c c' c'' : ℤ} {tr tr' : List Event}
  {marks marks' : List Mark} {w t : World} {st : Statics}

theorem Record.append (h : Record dir files c tr marks c')
    (h' : Record dir files c' tr' marks' c'') :
    Record dir files c (tr ++ tr') (marks ++ marks') c'' := by
  induction h with
  | nil c => exact h'
  | attempt hitem hrun hst hst' hquiet _ ih =>
      rw [List.append_assoc]
      exact Record.attempt hitem hrun hst hst' hquiet (ih h')
  | clock _ ih => exact Record.clock (ih h')
  | aside haside _ ih => exact Record.aside haside (ih h')

/-- `download_file_standalone` leaves the clock alone. -/
theorem downloadFileStandalone_clock {url outPath : Str} {x : FileEnd × Statics}
    (hrun : Steps machine ((downloadFileStandalone url outPath).run st) w tr (.pure x) t) :
    x.2.sdFreqKhz = st.sdFreqKhz ∧ ∀ ev ∈ tr, ∀ f, ev.op ≠ .dev (.setCardClk f) := by
  have hst : Reads st.totalExpectedBytes st.sdFreqKhz st ⟨st.totalDownloadedBytes, st.sdFreqKhz⟩ :=
    ⟨rfl, rfl, rfl, rfl⟩
  obtain ⟨hcalls, hend⟩ := Safe.tracks (N := gauging) (f := Gauge.next) (fun _ _ _ _ _ _ => rfl)
    (downloadFileStandalone_tracks url outPath hst) hrun
  refine ⟨hend.freq, fun ev hev f hf => ?_⟩
  obtain ⟨l, l', hl⟩ := List.append_of_mem hev
  have hcall := hcalls l ev l' hl
  rw [hf] at hcall
  exact hcall

section File

variable {i : ℕ} {item : FileItem}

/-- A run of the `while` loop, from an attempt on that ended in `e`. -/
def RetriedBy (dir : Str) (files : List FileItem) (i : ℕ) (p : FileEnd → Action FileEnd) : Prop :=
  ∀ e st w tr x t, Steps machine ((p e).run st) w tr (.pure x) t →
    ∃ marks, Record dir files st.sdFreqKhz tr marks x.2.sdFreqKhz ∧
      Retried i st.sdFreqKhz e marks x.2.sdFreqKhz x.1

theorem setSdFreq_clock {freqKhz : ℤ} {x : Bool × Statics}
    (hrun : Steps machine ((setSdFreq freqKhz).run st) w tr (.pure x) t) :
    x = (false, st) ∧ tr = [] ∨ x.2 = st ∧ tr = [⟨w, .dev (.setCardClk freqKhz), x.1, t⟩] := by
  unfold setSdFreq at hrun
  rw [Stateful.run_get_bind] at hrun
  split at hrun
  · obtain ⟨accepted, w₁, _, rfl, -, hend⟩ := hrun.of_call_pure
    cases hend
    exact Or.inr ⟨rfl, rfl⟩
  · cases hrun
    exact Or.inl ⟨rfl, rfl⟩

theorem lowerClock_record (hitem : files[i]? = some item) {again : FileEnd → Action FileEnd}
    (hagain : RetriedBy dir files i again) :
    RetriedBy dir files i (lowerClock item.url (sub dir item.name) again) := by
  intro e st w tr x t hrun
  have hend {w : World} {tr : List Event}
      (hrun : Steps machine ((pure e : Action FileEnd).run st) w tr (.pure x) t) :
      ∃ marks, Record dir files st.sdFreqKhz tr marks x.2.sdFreqKhz ∧
        Retried i st.sdFreqKhz e marks x.2.sdFreqKhz x.1 := by
    cases hrun
    exact ⟨[], Record.nil _, Retried.done _ _⟩
  unfold lowerClock at hrun
  split at hrun
  · next hsd =>
      rw [Stateful.run_get_bind] at hrun
      split at hrun
      · exact hend hrun
      · next hneg =>
          obtain ⟨changed, st₁, w₁, tr₁, tr₂, rfl, hset, hrest⟩ := steps_bind hrun
          obtain ⟨hx, rfl⟩ | ⟨hst₁, rfl⟩ := setSdFreq_clock hset
          · obtain ⟨rfl, rfl⟩ := Prod.mk.inj hx
            exact hend hrest
          obtain rfl : st₁ = st := hst₁
          cases changed with
          | false =>
              -- the request was refused
              cases hrest
              exact ⟨_, Record.clock (Record.nil _), Retried.refused _ hsd⟩
          | true =>
              change Steps machine ((fs (.remove (part (sub dir item.name))) >>= fun _ =>
                downloadFileStandalone item.url (sub dir item.name) >>= again).run
                  { st₁ with sdFreqKhz := sdNextLowerFreq st₁.sdFreqKhz }) w₁ tr₂ _ t at hrest
              obtain ⟨_, w₂, tr₃, rfl, -, hrest⟩ := steps_call hrest
              obtain ⟨e₁, st₂, w₃, tr₄, tr₅, rfl, hfile, hrest⟩ := steps_bind hrest
              obtain ⟨hst₂, hquiet⟩ := downloadFileStandalone_clock hfile
              obtain ⟨marks, hrecord, hretried⟩ := hagain e₁ st₂ w₃ tr₅ x t hrest
              have hclock : st₂.sdFreqKhz = sdNextLowerFreq st₁.sdFreqKhz := hst₂
              rw [hclock] at hrecord hretried
              refine ⟨_, Record.clock (Record.aside trivial ?_),
                Retried.again hsd (Int.not_lt.1 hneg) hretried⟩
              exact Record.attempt hitem hfile rfl hclock hquiet hrecord
  · exact hend hrun

theorem retryFile_record (hitem : files[i]? = some item) (n : ℕ) :
    RetriedBy dir files i (retryFile item.url (sub dir item.name) n) := by
  induction n with
  | zero =>
      refine lowerClock_record hitem fun e st w tr x t hrun => ?_
      obtain ⟨r, -⟩ := hrun.of_call_pure
      exact r.elim
  | succ n ih => exact lowerClock_record hitem ih

theorem downloadFile_record (hitem : files[i]? = some item) {x : FileEnd × Statics}
    (hrun : Steps machine ((downloadFile item.url (sub dir item.name)).run st) w tr (.pure x) t) :
    ∃ e marks, Record dir files st.sdFreqKhz tr (.attempt i e :: marks) x.2.sdFreqKhz ∧
      Retried i st.sdFreqKhz e marks x.2.sdFreqKhz x.1 := by
  rw [downloadFile] at hrun
  obtain ⟨e, st₁, w₁, tr₁, tr₂, rfl, hfile, hretry⟩ := steps_bind hrun
  obtain ⟨hst₁, hquiet⟩ := downloadFileStandalone_clock hfile
  have hclock : st₁.sdFreqKhz = st.sdFreqKhz := hst₁
  obtain ⟨marks, hrecord, hretried⟩ := retryFile_record hitem _ e st₁ w₁ tr₂ x t hretry
  rw [hclock] at hrecord hretried
  exact ⟨e, marks, Record.attempt hitem hfile rfl hclock hquiet hrecord, hretried⟩

end File

/-- The calls of `update_led_progress` are none of those. -/
theorem updateLedProgress_clock {x : Unit × Statics}
    (hrun : Steps machine (updateLedProgress.run st) w tr (.pure x) t) :
    x.2 = st ∧ ∀ ev ∈ tr, Aside ev.op := by
  unfold updateLedProgress at hrun
  rw [Stateful.run_get_bind] at hrun
  split at hrun
  · obtain ⟨_, w₁, _, rfl, -, hend⟩ := hrun.of_call_pure
    cases hend
    exact ⟨rfl, by simp [Aside]⟩
  · cases hrun
    exact ⟨rfl, by simp⟩

theorem Record.asides {tr₀ : List Event} (h : ∀ ev ∈ tr₀, Aside ev.op)
    (h' : Record dir files c tr marks c') : Record dir files c (tr₀ ++ tr) marks c' := by
  induction tr₀ with
  | nil => exact h'
  | cons ev tr₀ ih =>
      obtain ⟨hev, hrest⟩ := List.forall_mem_cons.1 h
      exact Record.aside hev (ih hrest)

/-- The file loop, from the `i`-th file on. -/
theorem downloadFiles_record {items : List FileItem} {i : ℕ} (hitems : files.drop i = items)
    (hi : i + items.length = files.length) {x : Except FileEnd (List Bytes) × Statics}
    (hrun : Steps machine ((downloadFiles dir items).run st) w tr (.pure x) t) :
    ∃ marks, Record dir files st.sdFreqKhz tr marks x.2.sdFreqKhz ∧
      Loops files.length i st.sdFreqKhz marks x.2.sdFreqKhz := by
  induction items generalizing i st w tr x with
  | nil =>
      cases hrun
      rw [← hi]
      exact ⟨[], Record.nil _, Loops.finished _⟩
  | cons item items ih =>
      have hitem : files[i]? = some item := by
        have hget := congrArg (·[0]?) hitems
        simpa using hget
      have hdrop : files.drop (i + 1) = items := by
        rw [← List.drop_drop, hitems]
        rfl
      rw [List.length_cons] at hi
      unfold downloadFiles at hrun
      obtain ⟨_, st₁, w₁, tr₁, tr₂, rfl, hled, hrest⟩ := steps_bind hrun
      obtain ⟨hst₁, hasides⟩ := updateLedProgress_clock hled
      obtain rfl : st₁ = st := hst₁
      obtain ⟨e', st₂, w₂, tr₃, tr₄, rfl, hfile, hrest⟩ := steps_bind hrest
      obtain ⟨e, marks, hrecord, hretried⟩ := downloadFile_record hitem hfile
      have hstop (he' : e'.result ≠ .ok) (hend : tr₄ = [] ∧ x.2 = st₂) :
          ∃ marks, Record dir files st₁.sdFreqKhz (tr₁ ++ (tr₃ ++ tr₄)) marks x.2.sdFreqKhz ∧
            Loops files.length i st₁.sdFreqKhz marks x.2.sdFreqKhz := by
        rw [hend.1, hend.2, List.append_nil]
        exact ⟨_, Record.asides hasides hrecord, Loops.stopped (by omega) hretried he'⟩
      cases e' with
      | ok received =>
          obtain ⟨_, w₃, tr₅, rfl, -, hrest⟩ := steps_call hrest
          obtain ⟨rest, st₃, w₄, tr₆, tr₇, rfl, hloop, hend⟩ := steps_bind hrest
          cases hend
          obtain ⟨marks', hrecord', hloops⟩ := ih hdrop (by omega) hloop
          refine ⟨_, Record.asides hasides (hrecord.append (Record.aside trivial ?_)),
            Loops.file (by omega) hretried rfl hloops⟩
          rwa [List.append_nil]
      | _ =>
          cases hrest
          exact hstop (by nofun) ⟨rfl, rfl⟩

/-- The loop ends: no run of it gets to its bound. -/
theorem downloadFiles_ends {k : Call.Reply .diverge → Program Call Call.Reply
      (Except FileEnd (List Bytes) × Statics)} :
    ¬ Steps machine ((downloadFiles dir files).run st) w tr (.call .diverge k) t := by
  intro hrun
  have hst : Reads st.totalExpectedBytes st.sdFreqKhz st ⟨st.totalDownloadedBytes, st.sdFreqKhz⟩ :=
    ⟨rfl, rfl, rfl, rfl⟩
  obtain ⟨-, hnext⟩ := Safe.tracks (N := gauging) (f := Gauge.next) (fun _ _ _ _ _ _ => rfl)
    (downloadFiles_tracks dir files hst) hrun
  exact hnext.1

end Record

/-- Outside its loop `download_simi_folder` does nothing about the clock, and what the
loop does is slow it down. -/
theorem downloadSimiFolder_slows {J : CJson} {depth : ℕ} {folder lambdaUrl : Str} {st : Statics}
    {w t : World} {x : FolderEnd × Statics} {tr : List Event}
    (hrun : Steps machine ((downloadSimiFolder J depth folder lambdaUrl).run st) w tr (.pure x) t) :
    (∀ ev ∈ tr, Outside ev.op) ∧ x.2.sdFreqKhz = st.sdFreqKhz ∨
      ∃ items pre loop post marks, items ∈ pre.filterMap (listResponse J) ∧
        tr = pre ++ loop ++ post ∧ (∀ ev ∈ pre ++ post, Outside ev.op) ∧
        Record (tmpDir folder) (fileList items) st.sdFreqKhz loop marks x.2.sdFreqKhz ∧
        SlowsDown (fileList items).length 0 st.sdFreqKhz marks x.2.sdFreqKhz ∧
        marks.countP Mark.isAttempt ≤ (fileList items).length + rungsBelow st.sdFreqKhz ∧
        rungsBelow st.sdFreqKhz ≤ 3 := by
  obtain ⟨houtside, hend⟩ | ⟨items, pre, loop, post, hitems, hloop⟩ := downloadSimiFolder_loop hrun
  · exact Or.inl ⟨houtside, hend x rfl⟩
  obtain ⟨st', w', q', t', hgauges, hrun', hlast⟩ := hloop.run
  obtain ⟨r, rfl, hx⟩ := hlast x rfl
  have hfirst : st'.sdFreqKhz = st.sdFreqKhz := congrArg (fun g => g.2.2.1) hgauges
  have hfinal : r.2.sdFreqKhz = x.2.sdFreqKhz := congrArg (fun g => g.2.2.1) hx.symm
  obtain ⟨marks, hrecord, hloops⟩ :=
    downloadFiles_record (List.drop_zero (l := fileList items)) (Nat.zero_add _) hrun'
  rw [hfirst, hfinal] at hrecord hloops
  have hslows := hloops.slowsDown
  have hattempts := hslows.attempts
  exact Or.inr ⟨items, pre, loop, post, marks, hitems, hloop.split, hloop.outside, hrecord, hslows,
    by omega, rungsBelow_le _⟩

end Download

end SimiboxDownloader
