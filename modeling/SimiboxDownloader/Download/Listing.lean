import SimiboxDownloader.Download.Environment
import SimiboxDownloader.Download.Loop

/-!
# The list and its delivery

The client can deliver the body of the list response in any pieces, and with or
without chunked transfer encoding. `http_event_list_handler` drops the pieces of a
chunked response, so what is parsed is the body only of a response that is not
chunked (`fetchList_delivery`). How the body comes in pieces does not matter.
-/

namespace SimiboxDownloader

namespace Download

open Interaction Interaction.Stateful

/-- The response to the list request. -/
def performed : Event → Option ListResponse
  | ⟨_, .dev (.httpPerform _), r, _⟩ => some r
  | _ => none

/-- The response is a success, and its pieces make `body`. -/
structure ListResponse.Delivers (r : ListResponse) (body : Bytes) : Prop where
  ok : r.ok = true
  data : r.data.flatten = body

/-- What is handed to `cJSON_Parse`. -/
def parsedText (r : ListResponse) : Bytes := cString (listBody r)

/-- The file list and the expected size, with which the file loop starts. -/
def listing (items : List Json) : List FileItem × ℤ := (fileList items, expectedOf items)

theorem cString_eq_self {text : Bytes} : cString text = text ↔ 0 ∉ text := by
  rw [cString, List.takeWhile_eq_self_iff]
  constructor
  · intro h hmem
    exact absurd rfl (of_decide_eq_true (h 0 hmem))
  · intro h b hb
    exact decide_eq_true fun hzero => h (hzero ▸ hb)

/-- The text is the body of a response that is not chunked and has no NUL. -/
theorem parsedText_eq_iff {r : ListResponse} {body : Bytes} (hr : r.Delivers body) :
    parsedText r = body ↔ (r.chunked = true → body = []) ∧ 0 ∉ body := by
  rw [parsedText, listBody, hr.data]
  by_cases hchunked : r.chunked = true
  · rw [if_pos hchunked]
    constructor
    · rintro rfl
      exact ⟨fun _ => rfl, List.not_mem_nil⟩
    · intro h
      rw [h.1 hchunked]
      rfl
  · rw [if_neg hchunked, cString_eq_self]
    exact ⟨fun h => ⟨fun hc => absurd hc hchunked, h⟩, fun h => h.2⟩

/-- What is listed is a matter of the text. -/
theorem listedItems_congr {J : CJson} {r₁ r₂ : ListResponse} (h₁ : r₁.ok = true) (h₂ : r₂.ok = true)
    (h : parsedText r₁ = parsedText r₂) : listedItems J r₁ = listedItems J r₂ := by
  rw [parsedText, parsedText] at h
  rw [listedItems, listedItems, if_pos h₁, if_pos h₂, h]

section Runs

variable {J : CJson} {folder lambdaUrl : Str} {st : Statics} {w t : World} {tr : List Event}
  {x : Option (List Json) × Statics} {r : ListResponse}

/-- A run that has a response returns what it lists. -/
theorem fetchList_performed
    (hrun : Steps machine ((fetchList J folder lambdaUrl).run st) w tr (.pure x) t)
    (hr : tr.filterMap performed = [r]) : x.1 = listedItems J r := by
  obtain ⟨client?, u, tr₁, rfl, -, hrest⟩ := steps_call hrun
  cases client? with
  | none =>
      cases hrest
      cases hr
  | some client =>
      obtain ⟨response, v, tr₂, rfl, -, hrest⟩ := steps_call hrest
      obtain ⟨_, w', tr₃, rfl, -, hend⟩ := steps_call hrest
      cases hend
      obtain rfl : response = r := (List.cons.inj hr).1
      rfl

/-- For every body and every two ways to deliver it, in any pieces, chunked or not:
in both runs the text that is parsed is the body, and the file list, its order and
the expected size are the same, exactly if neither response is chunked, or the body
is empty, and the body has no NUL. -/
theorem fetchList_delivery {body : Bytes} {st₁ st₂ : Statics} {w₁ w₂ t₁ t₂ : World}
    {tr₁ tr₂ : List Event} {x₁ x₂ : Option (List Json) × Statics} {r₁ r₂ : ListResponse}
    (hrun₁ : Steps machine ((fetchList J folder lambdaUrl).run st₁) w₁ tr₁ (.pure x₁) t₁)
    (hrun₂ : Steps machine ((fetchList J folder lambdaUrl).run st₂) w₂ tr₂ (.pure x₂) t₂)
    (hr₁ : tr₁.filterMap performed = [r₁]) (hr₂ : tr₂.filterMap performed = [r₂])
    (hbody₁ : r₁.Delivers body) (hbody₂ : r₂.Delivers body) :
    parsedText r₁ = body ∧ parsedText r₂ = body ∧ x₁.1.map listing = x₂.1.map listing ↔
      (r₁.chunked = true → body = []) ∧ (r₂.chunked = true → body = []) ∧ 0 ∉ body := by
  constructor
  · rintro ⟨h₁, h₂, -⟩
    obtain ⟨hchunked₁, hnul⟩ := (parsedText_eq_iff hbody₁).1 h₁
    exact ⟨hchunked₁, ((parsedText_eq_iff hbody₂).1 h₂).1, hnul⟩
  · rintro ⟨hchunked₁, hchunked₂, hnul⟩
    have h₁ := (parsedText_eq_iff hbody₁).2 ⟨hchunked₁, hnul⟩
    have h₂ := (parsedText_eq_iff hbody₂).2 ⟨hchunked₂, hnul⟩
    refine ⟨h₁, h₂, ?_⟩
    rw [fetchList_performed hrun₁ hr₁, fetchList_performed hrun₂ hr₂,
      listedItems_congr hbody₁.ok hbody₂.ok (h₁.trans h₂.symm)]

end Runs

section Sample

/-- As `serve`, with this response to the list request. -/
def serveList (r : ListResponse) : (o : Call) → World → Option (o.Reply × World)
  | .dev (.httpPerform _), w => some (r, w)
  | o, w => serve mozart.env (fun _ _ => .ok) o w

theorem machine_of_serveList (r : ListResponse) (o : Call) (w : World) (reply : o.Reply) (t : World)
    (h : serveList r o w = some (reply, t)) : machine o w reply t := by
  have hserve (h : serve mozart.env (fun _ _ => .ok) o w = some (reply, t)) : machine o w reply t :=
    machine_of_serve o w reply t h
  cases o with
  | dev c =>
      cases c with
      | httpPerform client =>
          cases h
          rfl
      | _ => exact hserve h
  | _ => exact hserve h

/-- Fetch the list of `folder`. -/
def playList (r : ListResponse) (folder : Str) :=
  Interaction.play (serveList r)
    ((fetchList mozart.cjson folder "https://api.example".toList).run (Statics.boot true 10000))
    (World.boot (cardOf []))

theorem steps_playList (r : ListResponse) (folder : Str) :
    Steps machine ((fetchList mozart.cjson folder "https://api.example".toList).run
        (Statics.boot true 10000)) (World.boot (cardOf []))
      (playList r folder).2.2 (playList r folder).1 (playList r folder).2.1 :=
  steps_play (machine_of_serveList r) _ _

/-- The list of `mozart` in one piece. -/
def whole : ListResponse := ⟨true, false, [mozart.listText]⟩

/-- The list in two pieces. -/
def inTwo : ListResponse := ⟨true, false, [mozart.listText.take 5, mozart.listText.drop 5]⟩

/-- The list in a chunked response. -/
def inChunks : ListResponse := ⟨true, true, [mozart.listText]⟩

theorem whole_delivers : whole.Delivers mozart.listText := ⟨rfl, List.append_nil _⟩

theorem inTwo_delivers : inTwo.Delivers mozart.listText where
  ok := rfl
  data := by
    rw [inTwo, List.flatten_cons, List.flatten_singleton, List.take_append_drop]

theorem inChunks_delivers : inChunks.Delivers mozart.listText := ⟨rfl, List.append_nil _⟩

/-- The fetch ends, and this was its response. -/
theorem playList_performed (r : ListResponse) (folder : Str) :
    (playList r folder).1.value.isSome = true ∧
      (playList r folder).2.2.filterMap performed = [r] :=
  ⟨rfl, rfl⟩

theorem fetchList_delivery_mozart : ∃ tr₁ tr₂ x₁ x₂ t₁ t₂,
    Steps machine ((fetchList mozart.cjson "mozart".toList "https://api.example".toList).run
      (Statics.boot true 10000)) (World.boot (cardOf [])) tr₁ (.pure x₁) t₁ ∧
    Steps machine ((fetchList mozart.cjson "mozart".toList "https://api.example".toList).run
      (Statics.boot true 10000)) (World.boot (cardOf [])) tr₂ (.pure x₂) t₂ ∧
    parsedText whole = mozart.listText ∧ parsedText inTwo = mozart.listText ∧
      x₁.1.map listing = x₂.1.map listing := by
  obtain ⟨hend₁, hr₁⟩ := playList_performed whole "mozart".toList
  obtain ⟨hend₂, hr₂⟩ := playList_performed inTwo "mozart".toList
  obtain ⟨x₁, hx₁⟩ := Option.isSome_iff_exists.1 hend₁
  obtain ⟨x₂, hx₂⟩ := Option.isSome_iff_exists.1 hend₂
  have hrun₁ := steps_playList whole "mozart".toList
  have hrun₂ := steps_playList inTwo "mozart".toList
  rw [Program.eq_pure_of_value hx₁] at hrun₁
  rw [Program.eq_pure_of_value hx₂] at hrun₂
  have hnul : (0 : UInt8) ∉ mozart.listText := by decide +kernel
  obtain ⟨h₁, h₂, hsame⟩ := (fetchList_delivery hrun₁ hrun₂ hr₁ hr₂ whole_delivers inTwo_delivers).2
    ⟨nofun, nofun, hnul⟩
  exact ⟨_, _, x₁, x₂, _, _, hrun₁, hrun₂, h₁, h₂, hsame⟩

/-- A chunked response is dropped. -/
theorem fetchList_delivery_chunked : ∃ tr₁ tr₂ x₁ x₂ t₁ t₂,
    Steps machine ((fetchList mozart.cjson "mozart".toList "https://api.example".toList).run
      (Statics.boot true 10000)) (World.boot (cardOf [])) tr₁ (.pure x₁) t₁ ∧
    Steps machine ((fetchList mozart.cjson "mozart".toList "https://api.example".toList).run
      (Statics.boot true 10000)) (World.boot (cardOf [])) tr₂ (.pure x₂) t₂ ∧
    tr₁.filterMap performed = [whole] ∧ tr₂.filterMap performed = [inChunks] ∧
    whole.Delivers mozart.listText ∧ inChunks.Delivers mozart.listText ∧
    parsedText inChunks ≠ mozart.listText ∧ x₁.1.isSome = true ∧ x₂.1.isSome = false := by
  have hend₁ : (playList whole "mozart".toList).1.value.map (fun x => x.1.isSome) = some true := by
    decide +kernel
  have hend₂ : (playList inChunks "mozart".toList).1.value.map (fun x => x.1.isSome) =
      some false := by
    decide +kernel
  have htext : parsedText inChunks ≠ mozart.listText := by decide +kernel
  obtain ⟨x₁, hrun₁, hlist₁⟩ := (steps_playList whole "mozart".toList).returned hend₁
  obtain ⟨x₂, hrun₂, hlist₂⟩ := (steps_playList inChunks "mozart".toList).returned hend₂
  exact ⟨_, _, x₁, x₂, _, _, hrun₁, hrun₂, (playList_performed whole "mozart".toList).2,
    (playList_performed inChunks "mozart".toList).2, whole_delivers, inChunks_delivers,
    htext, hlist₁, hlist₂⟩

end Sample

end Download

end SimiboxDownloader
