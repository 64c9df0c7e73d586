import SimiboxDownloader.Boot.Delivery

/-!
# What the record tells of a boot

The other calls may fail as they like; the NVS calls succeed. Then the record on the flash
at the restart tells what the boot has done (`appMain_concludes`): whether it has tried a
download at all, where it came to grief, or that it has one to show. `Attempt` is how far
the boot came, kept beside the flash.
-/

namespace SimiboxDownloader

namespace Boot

open Interaction Stateful

/-- What a boot has tried, and what came of it. -/
inductive Attempt
  | untried
  | offline
  | online
  | unmounted
  | mounted
  | ended (success sdFailed : Bool)
  deriving DecidableEq

def Attempt.next (a : Attempt) : (o : BootCall) → BootReply o → Attempt
  | .connectToWifi, r => if r.isSome then .online else .offline
  | .mountSd, r => if r then .mounted else .unmounted
  | .downloadSimiFolder _, r => .ended r.1 r.2
  | _, _ => a

/-- The record of a boot that was counted. -/
def Nvs.counted (n : Nvs) : Nvs := n.write (.u8 .bootCount (n.bootCount + 1))

/-- The record after a failure was reported. -/
def Nvs.failed (n : Nvs) (error : UInt32) : Nvs := n.counted.save (n.load.failed error)

/-- A boot from `n` goes for a download. -/
structure Nvs.Undertakes (n : Nvs) : Prop where
  needs : n.load.NeedsDownload
  retry : n.load.retryCount < maxRetries
  count : n.bootCount + 1 < maxBootFailures

/-- The record of a boot that does not: the safe mode starts the count anew, and a request
without retries is reported as a failed download. -/
def Nvs.declined (n : Nvs) : Nvs :=
  if maxBootFailures ≤ n.bootCount + 1 then n.write (.u8 .bootCount 0)
  else if n.load.NeedsDownload then n.failed errorDownloadFailed
  else n.counted

/-- The record `m` at the end of a boot from `n`. -/
def Tells (n : Nvs) : Attempt → Nvs → Prop
  | .untried, m => ¬ n.Undertakes ∧ m = n.declined
  | .offline, m => n.Undertakes ∧ m = n.failed errorWifiConnect
  | .unmounted, m => n.Undertakes ∧ m = n.failed errorSdCard
  | .ended true _, m => n.Undertakes ∧ m = n.delivered
  | .ended false sdFailed, m =>
      n.Undertakes ∧ m = n.failed (if sdFailed then errorSdCard else errorDownloadFailed)
  | .online, _ => False
  | .mounted, _ => False

/-- The record tells what was done, and nothing is left to commit. -/
def Concluded (n : Nvs) (s : Flash × Attempt) : Prop := ∃ m, s.1 = ⟨m, []⟩ ∧ Tells n s.2 m

/-- How far a boot from `n` is where it makes a call. -/
def Accounts (n : Nvs) : BootCall → Flash × Attempt → Prop
  | .nvsFlashErase, _ => False
  | .nvsEraseAll _, _ => False
  | .connectToWifi, s => s.2 = .untried
  | .mountSd, s => s.2 = .online
  | .downloadSimiFolder folder, s => folder = n.load.folder ∧ s.2 = .mounted
  | .unmountSd cardHealthy, s =>
      s.2 = .unmounted ∧ cardHealthy = false ∨ ∃ success, s.2 = .ended success (!cardHealthy)
  | .restart, s => Concluded n s
  | _, _ => True

section Parts

variable {n : Nvs} {α : Type} {f : Flash} {a : Attempt} {st : Statics}

theorem Attempt.next_of_nvs {o : BootCall} {r : BootReply o} (ho : OfNvs o) : a.next o r = a := by
  cases o with
  | nvsOpen | nvsGetU8 | nvsSetU8 | nvsGetStr | nvsSetStr | nvsGetSize | nvsSetSize | nvsCommit =>
      rfl
  | _ => exact ho.elim

end Parts

section Sequence

variable {n : Nvs} {st : Statics}

end Sequence

end Boot

end SimiboxDownloader
