import SimiboxDownloader.Boot.AppMain

/-!
# The calls of the boot sequence

`BootUses A p` bounds the calls a part of `app_main` makes, whatever they
return. The `Common` calls are taken to be in `A` throughout; what a part calls
beyond them is a hypothesis of its lemma.
-/

namespace SimiboxDownloader

namespace Boot

open Interaction

/-- The calls that neither erase the record, nor read a byte of it, nor read or write
a string of it, nor write a reason, a boot count or a retry count, nor start a
download, nor switch the boot partition. -/
def Common : BootCall → Prop
  | .nvsFlashErase => False
  | .nvsEraseAll _ => False
  | .nvsGetU8 _ => False
  | .nvsSetU8 .reason _ => False
  | .nvsSetU8 .bootCount _ => False
  | .nvsSetU8 .retry _ => False
  | .nvsGetStr _ => False
  | .nvsSetStr _ _ => False
  | .connectToWifi => False
  | .mountSd => False
  | .downloadSimiFolder _ => False
  | .otaSetBootPartition => False
  | _ => True

/-- The part of `app_main` only makes calls in `A`. -/
abbrev BootUses (A : BootCall → Prop) {α : Type} (p : BootM α) : Prop :=
  Stateful.Uses A (fun _ _ => True) p

open Stateful

variable {A : BootCall → Prop} {α : Type}

theorem uses_callBind {o : BootCall} {k : BootReply o → BootM α} (ho : A o)
    (hk : ∀ r, BootUses A (k r)) : BootUses A (call o >>= k) :=
  (uses_call ho).bind hk

section

variable (hA : ∀ o, Common o → A o)

include hA

theorem common_call {o : BootCall} {k : BootReply o → BootM α} (ho : Common o)
    (hk : ∀ r, BootUses A (k r)) : BootUses A (call o >>= k) :=
  uses_callBind (hA o ho) hk

theorem abort_uses : BootUses A (abort : BootM α) :=
  common_call hA trivial fun r => r.elim

theorem espErrorCheck_uses (ok : Bool) : BootUses A (espErrorCheck ok) :=
  uses_ite uses_pure (abort_uses hA)

theorem ledInit_uses : BootUses A ledInit :=
  common_call hA trivial (espErrorCheck_uses hA)

theorem eraseNamespace_uses {ns : Namespace} (hns : A (.nvsEraseAll ns)) :
    BootUses A (eraseNamespace ns) := by
  refine common_call hA trivial fun opened => uses_ite ?_ uses_pure
  exact uses_callBind hns fun _ => common_call hA trivial fun _ => uses_pure

theorem nvsInit_uses (hns : ∀ ns, A (.nvsEraseAll ns)) (hflash : A .nvsFlashErase) :
    BootUses A nvsInit := by
  refine common_call hA trivial fun err => uses_ite ?_ uses_pure
  refine (eraseNamespace_uses hA (hns _)).bind fun _ => ?_
  refine (eraseNamespace_uses hA (hns _)).bind fun _ => ?_
  refine (eraseNamespace_uses hA (hns _)).bind fun _ => ?_
  refine common_call hA trivial fun err => uses_ite ?_ uses_pure
  refine uses_callBind hflash fun ok => (espErrorCheck_uses hA ok).bind fun _ => ?_
  exact common_call hA trivial fun err => espErrorCheck_uses hA _

theorem countBoot_uses (hread : A (.nvsGetU8 .bootCount))
    (hcount : ∀ c, A (.nvsSetU8 .bootCount c)) : BootUses A countBoot := by
  refine common_call hA trivial fun opened => uses_ite ?_ uses_pure
  refine uses_callBind hread fun stored => uses_callBind (hcount _) fun _ => ?_
  exact common_call hA trivial fun _ => uses_pure

theorem resetBootCount_uses (hcount : A (.nvsSetU8 .bootCount 0)) :
    BootUses A resetBootCount := by
  refine common_call hA trivial fun opened => uses_ite ?_ uses_pure
  exact uses_callBind hcount fun _ => common_call hA trivial fun _ => uses_pure

theorem safeModeBoot_uses (hcount : A (.nvsSetU8 .bootCount 0)) : BootUses A safeModeBoot :=
  (resetBootCount_uses hA hcount).bind fun _ => (ledInit_uses hA).bind fun _ => uses_pure

theorem bootMgrLoadState_uses (hread : ∀ key, A (.nvsGetU8 key))
    (hget : ∀ key, A (.nvsGetStr key)) : BootUses A bootMgrLoadState := by
  refine uses_get.bind fun st => uses_ite ?_ uses_pure
  refine uses_callBind (hread _) fun _ => uses_callBind (hget _) fun _ => ?_
  iterate 4 refine uses_callBind (hread _) fun _ => ?_
  refine uses_callBind (hget _) fun _ => ?_
  refine common_call hA trivial fun _ => uses_callBind (hread _) fun _ => ?_
  exact uses_modify.bind fun _ => uses_pure

theorem bootMgrSaveState_uses {state : BootState} (hreason : ∀ value, A (.nvsSetU8 .reason value))
    (hset : ∀ key value, A (.nvsSetStr key value))
    (hretry : A (.nvsSetU8 .retry state.retryCount)) : BootUses A (bootMgrSaveState state) := by
  refine uses_get.bind fun st => uses_ite ?_ uses_pure
  refine uses_callBind (hreason _) fun _ => uses_callBind (hset _ _) fun _ => ?_
  refine uses_callBind hretry fun _ => ?_
  iterate 3 refine common_call hA trivial fun _ => ?_
  refine uses_callBind (hset _ _) fun _ => ?_
  refine common_call hA trivial fun _ => common_call hA trivial fun _ => ?_
  refine uses_ite (common_call hA trivial fun ret => uses_ite ?_ uses_pure) uses_pure
  exact uses_modify.bind fun _ => uses_pure

theorem bootMgrInit_uses (hread : ∀ key, A (.nvsGetU8 key)) (hget : ∀ key, A (.nvsGetStr key)) :
    BootUses A bootMgrInit := by
  refine common_call hA trivial fun opened => uses_ite ?_ uses_pure
  exact uses_modify.bind fun _ => (bootMgrLoadState_uses hA hread hget).bind fun _ => uses_pure

theorem bootMgrReportSuccess_uses (hreason : ∀ value, A (.nvsSetU8 .reason value))
    (hset : ∀ key value, A (.nvsSetStr key value)) (hretry : ∀ c, A (.nvsSetU8 .retry c)) :
    BootUses A bootMgrReportSuccess :=
  uses_modify.bind fun _ => uses_get.bind fun _ =>
    bootMgrSaveState_uses hA hreason hset (hretry _)

theorem bootMgrReportFailure_uses (hreason : ∀ value, A (.nvsSetU8 .reason value))
    (hset : ∀ key value, A (.nvsSetStr key value)) (hretry : ∀ c, A (.nvsSetU8 .retry c))
    (error : UInt32) : BootUses A (bootMgrReportFailure error) :=
  uses_modify.bind fun _ => uses_get.bind fun _ =>
    bootMgrSaveState_uses hA hreason hset (hretry _)

omit hA in
theorem connectToWifiWithFeedback_uses (hconnect : A .connectToWifi) :
    BootUses A connectToWifiWithFeedback := by
  refine uses_callBind hconnect fun r => ?_
  cases r with
  | none => exact uses_pure
  | some ssid => exact uses_modify.bind fun _ => uses_pure

theorem handleDownloadWithRetry_uses (hreason : ∀ value, A (.nvsSetU8 .reason value))
    (hset : ∀ key value, A (.nvsSetStr key value))
    (hretry : ∀ c, A (.nvsSetU8 .retry c)) (hmount : A .mountSd)
    (hdownload : ∀ folder, A (.downloadSimiFolder folder)) :
    BootUses A handleDownloadWithRetry := by
  have hfailed (error : UInt32) : BootUses A
      (do let _ ← bootMgrReportFailure error; return false : BootM Bool) :=
    (bootMgrReportFailure_uses hA hreason hset hretry error).bind fun _ => uses_pure
  refine uses_callBind hmount fun mounted => uses_ite ?_ ?_
  · refine uses_get.bind fun st => uses_callBind (hdownload _) fun r => ?_
    exact common_call hA trivial fun _ => uses_ite uses_pure (hfailed _)
  · exact common_call hA trivial fun _ => hfailed _

theorem afterLoad_uses (hreason : ∀ value, A (.nvsSetU8 .reason value))
    (hset : ∀ key value, A (.nvsSetStr key value))
    (hcount : A (.nvsSetU8 .bootCount 0)) (hretry : ∀ c, A (.nvsSetU8 .retry c))
    (hconnect : A .connectToWifi) (hmount : A .mountSd)
    (hdownload : ∀ folder, A (.downloadSimiFolder folder)) (state : BootState) :
    BootUses A (afterLoad state) := by
  have hfailed (error : UInt32) (route : Route) : BootUses A
      (do let _ ← bootMgrReportFailure error; return route : BootM Route) :=
    (bootMgrReportFailure_uses hA hreason hset hretry error).bind fun _ => uses_pure
  have hneeds : BootUses A bootMgrNeedsDownload := uses_get.bind fun _ => uses_pure
  refine uses_modify.bind fun _ => hneeds.bind fun needs => ?_
  refine uses_ite (uses_ite (hfailed _ _) ?_) uses_pure
  refine (connectToWifiWithFeedback_uses hconnect).bind fun connected => ?_
  refine uses_ite ?_ (hfailed _ _)
  refine (handleDownloadWithRetry_uses hA hreason hset hretry hmount hdownload).bind
    fun success => ?_
  refine uses_ite ((bootMgrReportSuccess_uses hA hreason hset hretry).bind fun _ => ?_) uses_pure
  exact (resetBootCount_uses hA hcount).bind fun _ => uses_pure

theorem normalBoot_uses (hread : ∀ key, A (.nvsGetU8 key)) (hget : ∀ key, A (.nvsGetStr key))
    (hreason : ∀ value, A (.nvsSetU8 .reason value))
    (hset : ∀ key value, A (.nvsSetStr key value)) (hcount : A (.nvsSetU8 .bootCount 0))
    (hretry : ∀ c, A (.nvsSetU8 .retry c)) (hconnect : A .connectToWifi) (hmount : A .mountSd)
    (hdownload : ∀ folder, A (.downloadSimiFolder folder)) : BootUses A normalBoot := by
  refine (ledInit_uses hA).bind fun _ => (bootMgrInit_uses hA hread hget).bind fun ok => ?_
  refine (espErrorCheck_uses hA ok).bind fun _ => ?_
  refine (bootMgrLoadState_uses hA hread hget).bind fun loaded => ?_
  cases loaded with
  | none => exact abort_uses hA
  | some state =>
      exact afterLoad_uses hA hreason hset hcount hretry hconnect hmount hdownload state

theorem bootMusicboxAndRestart_uses (hswitch : A .otaSetBootPartition) :
    BootUses A bootMusicboxAndRestart := by
  refine common_call hA trivial fun found => uses_ite ?_ ?_
  · refine uses_callBind hswitch fun ok => (espErrorCheck_uses hA ok).bind fun _ => ?_
    exact common_call hA trivial fun r => r.elim
  · exact common_call hA trivial fun r => r.elim

end

end Boot

end SimiboxDownloader
