import SimiboxDownloader.Download.Completion
import SimiboxDownloader.Download.Package

/-!
# Recovery

However the downloads before have failed or lost the power, all they can leave at
`/sdcard/<folder>` and `/sdcard/<folder>.tmp` is nothing or a directory
(`NoFiles`). That is all a download in which every call succeeds needs to install its
package (`download_recovers`).
-/

namespace SimiboxDownloader

namespace Download

open Interaction Interaction.Stateful DirTree

variable {J : CJson} {folder : Str} {p d : List Name} {m : Name}

section Places

/-- The temporary directory lies in a directory `d`, the folder is `d` or lies there as
well. -/
theorem places_of_resolve {q : List Name} (hp : resolve (finalDir folder) = some p)
    (hq : resolve (tmpDir folder) = some q) :
    ∃ d m, q = d ++ [m] ∧ (p = d ∨ ∃ n, n ≠ m ∧ p = d ++ [n]) ∧ m ≠ okName := by
  obtain ⟨d, last, hlast, -, hrel, hrelTmp⟩ :=
    @rel_append folder ".tmp".toList (by decide) (by decide)
  rw [resolve_finalDir, hrel] at hp
  rw [resolve_tmpDir, hrelTmp] at hq
  obtain ⟨d, rfl, hlastName⟩ := Option.bind_eq_some_iff.1 hp
  rw [Option.bind_some, Option.map_eq_some_iff] at hq
  obtain ⟨m, hm, rfl⟩ := hq
  obtain ⟨r, hr, rfl⟩ := Option.map_eq_some_iff.1 hlastName
  have hval := toName_eq_some.1 hm
  refine ⟨d, m, rfl, ?_, ?_⟩
  · by_cases hnil : last = []
    · rw [hnil, rel_nil] at hr
      cases hr
      exact Or.inl (List.append_nil d)
    · rw [rel_of_notMem hlast hnil] at hr
      obtain ⟨n, hn, rfl⟩ := Option.map_eq_some_iff.1 hr
      refine Or.inr ⟨n, ?_, rfl⟩
      rintro rfl
      rw [toName_eq_some.1 hn] at hval
      simp at hval
  · rintro rfl
    have hlen := congrArg List.length hval
    rw [List.length_append] at hlen
    have : 4 ≤ (3 : ℕ) := le_of_le_of_eq (Nat.le_add_left _ last.length) hlen
    omega

end Places

section Invariant

/-- No file is where the two directories are to be. `D` is to hold if their own
directory is there. -/
structure NoFiles (p d : List Name) (m : Name) (D : Prop) (c : Tree Name Bytes) : Prop where
  final : ∀ data, c.get p ≠ some (.file data)
  tmp : ∀ data, c.get (d ++ [m]) ≠ some (.file data)
  dir : D → c.get d = some .dir

variable {D : Prop} {c : Tree Name Bytes}

theorem NoFiles.of_same {c' : Tree Name Bytes} (h : NoFiles p d m D c)
    (hp : c'.get p = c.get p) (hq : c'.get (d ++ [m]) = c.get (d ++ [m]))
    (hd : c'.get d = c.get d) : NoFiles p d m D c' := by
  refine ⟨?_, ?_, ?_⟩
  · rw [hp]
    exact h.final
  · rw [hq]
    exact h.tmp
  · rw [hd]
    exact h.dir

/-- An entry of one of the two is removed. -/
theorem NoFiles.remove {x : List Name} (h : NoFiles p d m D c) (hd : D → x ≠ d) :
    NoFiles p d m D (c.remove x) := by
  have hsub {y : List Name} (hy : ∀ data, c.get y ≠ some (.file data)) (data : Bytes) :
      (c.remove x).get y ≠ some (.file data) := by
    by_cases hyx : y = x
    · by_cases hcan : c.CanRemove x
      · rw [Tree.get_remove hcan, if_pos hyx]
        exact nofun
      · rw [Tree.remove, dif_neg hcan]
        exact hy data
    · rw [Tree.get_remove_of_ne hyx]
      exact hy data
  refine ⟨hsub h.final, hsub h.tmp, fun hD => ?_⟩
  rw [Tree.get_remove_of_ne (Ne.symm (hd hD)), h.dir hD]

/-- What the places of the two directories come to. -/
structure Apart (p d : List Name) (m : Name) : Prop where
  final : p ≠ d ++ [m]
  finalOut : ¬ d ++ [m] <+: p
  tmpOut : ¬ p ++ [okName] <+: d ++ [m]
  dirOut : ¬ p ++ [okName] <+: d

theorem apart_of_places (hplaces : p = d ∨ ∃ n, n ≠ m ∧ p = d ++ [n]) (hm : m ≠ okName) :
    Apart p d m := by
  have hlong (x y : List Name) (r : Name) (hxy : y.length ≤ x.length) : ¬ x ++ [r] <+: y := by
    intro hpre
    have hlen := hpre.length_le
    rw [List.length_append, List.length_singleton] at hlen
    omega
  rcases hplaces with rfl | ⟨n, hn, rfl⟩
  · refine ⟨by simp, hlong _ _ _ le_rfl, ?_, hlong _ _ _ le_rfl⟩
    exact not_prefix_of_neighbours hm.symm
  · refine ⟨by simpa using hn, not_prefix_of_neighbours hn.symm, hlong _ _ _ (by simp),
      hlong _ _ _ (by simp)⟩

/-- It holds at every moment of a download. -/
theorem noFiles_phases (hplaces : p = d ∨ ∃ n, n ≠ m ∧ p = d ++ [n]) (hm : m ≠ okName)
    (hD : D → p ≠ d) :
    Phases (machine.restrict fun _ => True) J folder p (d ++ [m]) (NoFiles p d m D)
      (NoFiles p d m D) (NoFiles p d m D) (NoFiles p d m D) (NoFiles p d m D) := by
  obtain ⟨hpq, hqp, hmarkq, hmarkd⟩ := apart_of_places hplaces hm
  have hdm (x : List Name) (hx : d ++ [m] <+: x) : x ≠ d := by
    rintro rfl
    exact Nat.not_succ_le_self x.length (by simpa using hx.length_le)
  have hfill {c c' : Tree Name Bytes} (hsame : ∀ x, ¬ Within (d ++ [m]) x → c'.get x = c.get x)
      (h : NoFiles p d m D c) : NoFiles p d m D c' :=
    h.of_same (hsame p fun hx => hqp hx.1) (hsame _ fun hx => hx.2 rfl)
      (hsame d fun hx => hdm d hx.1 rfl)
  refine ⟨fun _ _ _ _ hm => hm.1, ?_, ?_, hfill, id, fun h _ => h, ?_, id, ?_, id, ?_, ?_, id⟩
  · exact fun _ _ hx h => h.remove fun _ => hdm _ hx
  · intro c hnone hput h
    refine ⟨?_, ?_, fun hD => ?_⟩
    · rw [Tree.get_put_of_ne _ hpq]
      exact h.final
    · rw [Tree.get_put _ hput, if_pos rfl]
      exact nofun
    · rw [Tree.get_put_of_ne _ (by simp), h.dir hD]
  · intro e x _ _ hx h
    refine h.remove fun hD' => ?_
    rintro rfl
    rcases hplaces with rfl | ⟨n, -, rfl⟩
    · exact hD hD' rfl
    · exact Nat.not_succ_le_self x.length (by simpa using hx.length_le)
  · intro c hmove h
    have hpq : ¬ p <+: d ++ [m] := Tree.apart_of_canMove hmove (List.prefix_refl _)
    refine ⟨?_, ?_, fun hD' => ?_⟩
    · have hmoved := Tree.get_move_append hmove []
      rw [List.append_nil, List.append_nil] at hmoved
      rw [hmoved]
      exact h.tmp
    · rw [Tree.get_move hmove, if_neg hpq, if_pos (List.prefix_refl _)]
      exact nofun
    · rw [Tree.get_move_elsewhere (fun hpre => hdm d hpre rfl)
        fun hpre => hpq (hpre.trans (List.prefix_append d [m])), h.dir hD']
  · intro s r t _ hsame _ h
    refine h.of_same (hsame p ?_) (hsame _ ?_) (hsame d ?_)
    · simp
    · intro heq
      exact hmarkq (heq ▸ List.prefix_refl _)
    · rintro rfl
      exact hmarkd (List.prefix_refl _)
  · intro c c' hsame h
    refine h.of_same (hsame p (fun hx => hqp hx.1) ?_) (hsame _ (fun hx => hx.2 rfl) hmarkq)
      (hsame d (fun hx => hdm d hx.1 rfl) hmarkd)
    intro hpre
    exact Nat.not_succ_le_self p.length (by simpa using hpre.length_le)

end Invariant

section Runs

/-- Nothing or a directory is at the path. -/
def NoFileAt (c : Tree Name Bytes) (path : Str) : Prop :=
  ∃ x, resolve path = some x ∧ ∀ data, c.get x ≠ some (.file data)

/-- The path lies in a directory of the card. -/
def InDirectory (c : Tree Name Bytes) (path : Str) : Prop :=
  ∃ x n, resolve path = some (x ++ [n]) ∧ c.get x = some .dir

variable {lambdaUrl : Str} {st : Statics} {s w : World} {v : Server} {items : List Json}

/-- For a name to which `".tmp"` can be appended the folder lies beside its temporary
directory. -/
theorem beside_of_folderName (hfolder : FolderName folder)
    (hp : resolve (finalDir folder) = some p) (hq : resolve (tmpDir folder) = some (d ++ [m])) :
    ∃ n, n ≠ m ∧ p = d ++ [n] := by
  obtain ⟨d', n, m', rfl, hq', hne⟩ := resolve_dirs hfolder hp
  rw [hq] at hq'
  obtain ⟨rfl, heq⟩ := List.append_inj' (Option.some.inj hq') rfl
  cases heq
  exact ⟨n, hne, rfl⟩

/-- However many downloads of a folder were made before, with whatever lists, each of
them run to its end or cut off anywhere, with any failures: if neither the folder nor
its temporary directory was a file in the beginning, then a download in which every
call succeeds, of a list that can be installed, returns true and leaves exactly the
files of the list and the marker in the folder, and no temporary directory. Such a
download always comes to its end, if the folder lies in a directory and `".tmp"` can be
appended to its name; it needs to be able to recurse as deep as the card is. -/
theorem download_recovers
    (hruns : Boots machine (Downloads J folder) Reboots (fun _ _ => True) s w)
    (hclosed : ∀ f, s.writer f = none) (hfinal : NoFileAt s.card (finalDir folder))
    (htmp : NoFileAt s.card (tmpDir folder)) (hst : Idle st)
    (hlist : listedItems J v.list = some items) (hfiles : Installable J v (fileList items)) :
    ∃ bound, ∀ depth, bound ≤ depth →
      (∀ tr x t, Steps (working v) ((downloadSimiFolder J depth folder lambdaUrl).run st) w tr
          (.pure x) t → x.1.ret = true ∧ HoldsExactly v (fileList items) folder t.card ∧
            isThere t.card (tmpDir folder) = false) ∧
      (FolderName folder → InDirectory s.card (finalDir folder) →
        ∀ tr q t, Steps (working v) ((downloadSimiFolder J depth folder lambdaUrl).run st)
          w tr q t →
          ∃ tr' x u, Steps (working v) q t tr' (.pure x) u) := by
  obtain ⟨p, hp, hpfile⟩ := hfinal
  obtain ⟨q, hq, hqfile⟩ := htmp
  obtain ⟨d, m, rfl, hplaces, hm⟩ := places_of_resolve hp hq
  obtain ⟨bound, hbound⟩ := w.card.exists_length_lt
  -- where the way to an end is shown, the two directories are neighbours
  have hbeside : FolderName folder ∧ s.card.get d = some .dir → ∃ n, n ≠ m ∧ p = d ++ [n] :=
    fun hR => beside_of_folderName hR.1 hp hq
  have hnoFiles : NoFiles p d m (FolderName folder ∧ s.card.get d = some .dir) w.card := by
    have hD : FolderName folder ∧ s.card.get d = some .dir → p ≠ d := by
      intro hR
      obtain ⟨n, -, rfl⟩ := hbeside hR
      simp
    have hhere : Downloaded J folder (fun _ => True) s w :=
      ⟨w, _, [], _, hruns.imp fun _ _ _ _ _ => trivial, ⟨0, [], st, rfl⟩, Steps.refl _ _, by simp⟩
    exact downloaded_phases (noFiles_phases hplaces hm hD) hp hq hhere hclosed
      ⟨hpfile, hqfile, And.right⟩
  refine ⟨bound, fun depth hdepth => ?_⟩
  have hsafe : Ensures (working v) (Answered v (FolderName folder ∧ s.card.get d = some .dir))
      (fun e _ t => e.ret = true ∧ HoldsExactly v (fileList items) folder t.card ∧
        isThere t.card (tmpDir folder) = false)
      (downloadSimiFolder J depth folder lambdaUrl) st w := by
    apply downloadSimiFolder_works hfiles ?_ hlist rfl
      ⟨hp, hq, hplaces, hnoFiles.final, hnoFiles.tmp⟩ hst.ready hnoFiles.dir
    · exact fun _ x hx => (hbound x hx).trans_le hdepth
    · intro hR
      obtain ⟨n, hn, rfl⟩ := hbeside hR
      exact not_prefix_of_neighbours hn
  refine ⟨fun tr x t hrun => hsafe.result trivial hrun, fun hfolder hdir tr q t hrun => ?_⟩
  refine (hsafe.steps trivial hrun).2.terminates fun o u hanswered => hanswered ⟨hfolder, ?_⟩
  obtain ⟨n, -, rfl⟩ := beside_of_folderName hfolder hp hq
  obtain ⟨x, n', hx, hget⟩ := hdir
  rw [hp] at hx
  obtain ⟨rfl, -⟩ := List.append_inj' (Option.some.inj hx) rfl
  exact hget

end Runs

section Sample

theorem reboots_boot (u : World) : Reboots u (World.boot u.card) :=
  ⟨rfl, fun _ => rfl⟩

def Sample.server (p : Sample) : Server :=
  ⟨⟨true, false, [p.env.list]⟩, p.env.body, p.env.clen⟩

/-- The power was lost while the old package of `mozart` was deleted: a part of it is left,
and the whole of the temporary directory. -/
def interrupted : World :=
  World.boot (mozart.play cutInDelete "mozart".toList markedCard).2.1.card

/-- The list of `mozart`. -/
def mozartFiles : List FileItem :=
  [⟨manifestName, "https://a.example/0".toList⟩, ⟨"a.mp3".toList, "https://a.example/1".toList⟩]

theorem installable_mozart : Installable mozart.cjson mozart.server mozartFiles where
  delivers := by
    intro item hitem
    rcases List.mem_pair.1 hitem with rfl | rfl
    · exact ⟨by decide +kernel, by decide +kernel, by decide +kernel⟩
    · exact ⟨by decide +kernel, by decide +kernel, by decide +kernel⟩
  plain := by decide
  unmarked := by decide
  distinct := by decide
  parts := by decide
  manifest := by
    refine ⟨⟨manifestName, "https://a.example/0".toList⟩, by decide, rfl, ?_⟩
    have hfiles : (manifestFiles mozart.cjson (mozart.server.body "https://a.example/0".toList)).map
        (fun entries => entries.map manifestEntry) = some [some ("a.mp3".toList, 2)] := by
      decide +kernel
    obtain ⟨entries, hentries, hlisted⟩ := Option.map_eq_some_iff.1 hfiles
    refine ⟨entries, hentries, fun entry hentry name size heq => ?_⟩
    have hmem := List.mem_map_of_mem (f := manifestEntry) hentry
    rw [hlisted, heq, List.mem_singleton] at hmem
    cases hmem
    exact ⟨⟨"a.mp3".toList, "https://a.example/1".toList⟩, by decide, rfl, by decide +kernel⟩

theorem download_recovers_mozart : ∃ bound, ∀ depth, bound ≤ depth → ∃ tr x t,
    Steps (working mozart.server) ((downloadSimiFolder mozart.cjson depth "mozart".toList
      "https://api.example".toList).run (Statics.boot true 10000)) interrupted tr (.pure x) t ∧
    x.1.ret = true ∧ HoldsExactly mozart.server mozartFiles "mozart".toList t.card ∧
      isThere t.card (tmpDir "mozart".toList) = false := by
  have hlist : (listedItems mozart.cjson mozart.server.list).map fileList = some mozartFiles := by
    decide +kernel
  obtain ⟨items, hitems, hfiles⟩ := Option.map_eq_some_iff.1 hlist
  have hruns : Boots machine (Downloads mozart.cjson "mozart".toList) Reboots (fun _ _ => True)
      (World.boot markedCard) interrupted :=
    .boot (.refl _) ⟨_, _, _, rfl⟩ (mozart.steps_play cutInDelete _ markedCard) trivial
      (reboots_boot _)
  have hfinal : NoFileAt markedCard (finalDir "mozart".toList) := by
    refine ⟨[⟨"mozart".toList, by decide⟩], by decide, fun data => ?_⟩
    have hdir : markedCard.get [⟨"mozart".toList, by decide⟩] = some .dir := by
      decide +kernel
    rw [hdir]
    exact nofun
  have htmp : NoFileAt markedCard (tmpDir "mozart".toList) := by
    refine ⟨[⟨"mozart.tmp".toList, by decide⟩], by decide, fun data => ?_⟩
    have hnone : markedCard.get [⟨"mozart.tmp".toList, by decide⟩] = none := by
      decide +kernel
    rw [hnone]
    exact nofun
  obtain ⟨bound, hbound⟩ := @download_recovers mozart.cjson "mozart".toList
    "https://api.example".toList (Statics.boot true 10000) (World.boot markedCard) interrupted
    mozart.server items hruns (fun _ => rfl) hfinal htmp ⟨rfl, rfl, rfl, rfl, rfl, rfl⟩ hitems
    (hfiles ▸ installable_mozart)
  refine ⟨bound, fun depth hdepth => ?_⟩
  obtain ⟨hresult, hfinish⟩ := hbound depth hdepth
  obtain ⟨tr, x, t, hrun⟩ := hfinish (by decide)
    ⟨[], ⟨"mozart".toList, by decide⟩, by decide, markedCard.root⟩ _ _ _ (Steps.refl _ _)
  rw [hfiles] at hresult
  exact ⟨tr, x, t, hrun, hresult tr x t hrun⟩

end Sample

end Download

end SimiboxDownloader
