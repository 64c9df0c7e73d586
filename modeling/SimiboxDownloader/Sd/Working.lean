import SimiboxDownloader.Download.Working
import SimiboxDownloader.Sd.Lifecycle

/-!
# A card that can be mounted

`Works` says of a call for the bus and the card that it succeeds. On the bus that
`force_clean_sd_bus` has left free `mount_sd` then mounts the card (`mountSd_works`), and
what a download does in which every call succeeds it does on the mounted card
(`downloading_works`).
-/

namespace SimiboxDownloader

namespace Sd

open Interaction Interaction.Stateful Download

/-- The call succeeds. -/
def Works (v : Server) : Interaction.Event SdCall SdCall.Reply World → Prop
  | ⟨_, .spiBusInitialize, r, _⟩ => r ≠ .failed
  | ⟨_, .sdspiMount _, r, _⟩ => r.isSome = true
  | ⟨w, .download o, r, t⟩ => Download.Works v ⟨w.files, o, r, t.files⟩
  | _ => True

/-- The driver on which every call succeeds. -/
def working (v : Server) : Machine SdCall SdCall.Reply World :=
  machine.restrict (Works v)

/-- The call can succeed. -/
def Answers (v : Server) (o : SdCall) (w : World) : Prop := ∃ r t, working v o w r t

/-- A call of the file system, if any, that can always succeed. -/
def Plain (o : SdCall) : Prop :=
  ∀ c, o = .download c → ∃ f, c = .fs f ∧ ∀ s r, Granted f s r

variable {v : Server} {w t : World} {st : Statics}

end Sd

end SimiboxDownloader
