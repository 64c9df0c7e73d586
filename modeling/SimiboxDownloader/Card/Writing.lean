import SimiboxDownloader.Card.Frame

/-!
# Writing a file

From `fopen` on the bytes of a file are in the buffer of its `FILE` or on the
card. `Writing` follows them from call to call. A failed flush can lose some of
them, so the content is known only as long as `sound` holds; each call says in
its reply whether it still does.
-/

namespace SimiboxDownloader

namespace Download

open DirTree

variable {base : Tree Name Bytes} {file : ℕ} {p q : List Name} {sound : Prop}
  {content : Bytes} {w t : World}

/-- `file` is open for writing at `p`, and `content` was written to it. Elsewhere
the card is as in `base`. -/
structure Writing (base : Tree Name Bytes) (file : ℕ) (p : List Name) (sound : Prop)
    (content : Bytes) (w : World) : Prop where
  elsewhere : ∀ x, x ≠ p → w.card.get x = base.get x
  stream : ∃ s data, w.writer file = some s ∧ s.path = p ∧
    w.card.get p = some (.file data) ∧ (sound → data ++ s.pending = content)

/-- The file at `p` was written and closed. -/
structure Written (base : Tree Name Bytes) (p : List Name) (sound : Prop) (content : Bytes)
    (w : World) : Prop where
  elsewhere : ∀ x, x ≠ p → w.card.get x = base.get x
  file : ∃ data, w.card.get p = some (.file data) ∧ (sound → data = content)

/-- The file written at `p` was moved to `q`, where nothing was. -/
structure Placed (base : Tree Name Bytes) (p q : List Name) (sound : Prop) (content : Bytes)
    (w : World) : Prop where
  elsewhere : ∀ x, x ≠ p → x ≠ q → w.card.get x = base.get x
  absent : base.get q = none
  gone : w.card.get p = none
  file : ∃ data, w.card.get q = some (.file data) ∧ (sound → data = content)

/-- Calls that touch neither the card nor the open files. -/
theorem Writing.of_eq (h : Writing base file p sound content w) (hcard : t.card = w.card)
    (hstreams : t.streams = w.streams) : Writing base file p sound content t := by
  obtain ⟨helse, s, data, hs, hp, hdata, hsound⟩ := h
  refine ⟨fun x hx => by rw [hcard, helse x hx], s, data, ?_, hp, ?_, hsound⟩
  · rw [World.writer, hstreams]
    exact hs
  · rw [hcard, hdata]

theorem Writing.mono {sound' : Prop} (h : Writing base file p sound content w)
    (hs : sound' → sound) : Writing base file p sound' content w := by
  obtain ⟨helse, s, data, hs', hp, hdata, hsound⟩ := h
  exact ⟨helse, s, data, hs', hp, hdata, fun h => hsound (hs h)⟩

theorem Placed.of_eq {sound' : Prop} (h : Placed base p q sound content w)
    (hcard : t.card = w.card) (hs : sound' → sound) : Placed base p q sound' content t := by
  obtain ⟨helse, habsent, hgone, data, hdata, hsound⟩ := h
  rw [← hcard] at helse hgone hdata
  exact ⟨helse, habsent, hgone, data, hdata, fun h => hsound (hs h)⟩

theorem World.append_get {data old : Bytes} (h : w.card.get p = some (.file old)) :
    (w.append p data).card.get p = some (.file (old ++ data)) := by
  simp only [World.append, h]
  rw [Tree.get_put _ (Tree.canPut_of_file h), if_pos rfl]

theorem World.writer_setStream {f : ℕ} {s : Stream} (h : s.mode = .wb) :
    (w.setStream f (some s)).writer f = some s :=
  World.writer_eq_some.2 ⟨Function.update_self _ _ _, h⟩

/-- What is written out of the buffer arrives in the file. -/
theorem Writing.flush (h : Writing base file p sound content w) {k : ℕ} {rest : Bytes}
    {sound' : Prop} (hs : sound' → sound)
    (hrest : ∀ s, w.writer file = some s → sound' → rest = s.pending.drop k) :
    Writing base file p sound' content (w.flush file k rest) := by
  obtain ⟨helse, s, data, hw, rfl, hdata, hsound⟩ := h
  simp only [World.flush, hw]
  refine ⟨fun x hx => ?_, { s with pending := rest }, data ++ s.pending.take k, ?_, rfl, ?_, ?_⟩
  · rw [World.setStream_card, World.append_get_of_ne _ hx, helse x hx]
  · exact World.writer_setStream (World.writer_eq_some.1 hw).2
  · rw [World.setStream_card, World.append_get hdata]
  · intro h
    rw [hrest s hw h, List.append_assoc, List.take_append_drop, hsound (hs h)]

theorem Writing.buffer (h : Writing base file p sound content w) (data : Bytes) :
    Writing base file p sound (content ++ data) (w.buffer file data) := by
  obtain ⟨helse, s, old, hw, rfl, hold, hsound⟩ := h
  simp only [World.buffer, hw]
  refine ⟨helse, { s with pending := s.pending ++ data }, old, ?_, rfl, hold, ?_⟩
  · exact World.writer_setStream (World.writer_eq_some.1 hw).2
  · intro h
    rw [← List.append_assoc, hsound h]

theorem Writing.close (h : Writing base file p sound content w)
    (hempty : ∀ s, w.writer file = some s → sound → s.pending = []) :
    Written base p sound content (w.setStream file none) := by
  obtain ⟨helse, s, data, hw, rfl, hdata, hsound⟩ := h
  refine ⟨helse, data, hdata, fun h => ?_⟩
  rw [← hsound h, hempty s hw h, List.append_nil]

theorem World.flush_pending {k : ℕ} {rest : Bytes} {s : Stream}
    (h : (w.flush file k rest).writer file = some s) : s.pending = rest := by
  simp only [World.flush] at h
  split at h
  · next s' hs' =>
      rw [@writer_setStream _ file { s' with pending := rest } (writer_eq_some.1 hs').2] at h
      cases h
      rfl
  · next hnone =>
      rw [hnone] at h
      cases h

/-- `fopen` in mode `wb`. -/
theorem writing_of_fopen {path : Str} {f : ℕ} (h : machine (.fs (.fopen path .wb)) w (some f) t) :
    ∃ p, resolve path = some p ∧ Writing w.card f p True [] t := by
  rcases h with h | ⟨h, -⟩
  · have hrt : (some f, t) = fsDo (.fopen path .wb) w := h
    cases hp : resolve path with
    | none =>
        simp only [fsDo, hp] at hrt
        cases hrt
    | some p =>
        simp only [fsDo, hp] at hrt
        split at hrt
        · next hput =>
            obtain ⟨hf, rfl⟩ := Prod.mk.inj hrt
            cases hf
            refine ⟨p, rfl, fun x hx => Tree.get_put_of_ne _ hx, ⟨p, .wb, 0, []⟩, [], ?_, rfl, ?_,
              fun _ => rfl⟩
            · exact World.writer_eq_some.2 ⟨Function.update_self _ _ _, rfl⟩
            · exact (Tree.get_put _ hput p).trans (if_pos rfl)
        · cases (Prod.mk.inj hrt).1
  · cases h

/-- The transfer. -/
theorem Writing.transfer {client capacity : ℕ} {downloaded expected : ℤ} {r : PingPong.Transfer}
    (h : Writing base file p sound content w)
    (hm : machine (.transfer client file capacity downloaded expected) w r t) :
    Writing base file p sound (content ++ r.accepted) t := by
  obtain ⟨-, s, k, hs, rfl⟩ := hm
  apply (h.buffer r.accepted).flush id
  intro s' hs' _
  simp only [World.buffer, hs] at hs'
  rw [@World.writer_setStream _ file { s with pending := s.pending ++ r.accepted }
    (World.writer_eq_some.1 hs).2] at hs'
  cases hs'
  rfl

theorem Writing.fputs {text : Bytes} {r : Bool} (h : Writing base file p sound content w)
    (hm : machine (.fs (.fputs text file)) w r t) :
    Writing base file p (sound ∧ r = true) (content ++ text) t := by
  rcases hm with hm | ⟨rfl, k, rfl⟩
  · have ht : t = (fsDo (.fputs text file) w).2 := FsOk.eq hm
    rw [ht]
    exact (h.buffer text).mono And.left
  · obtain ⟨helse, s, data, hs, hp, hdata, -⟩ := h.buffer (text.take k)
    exact ⟨helse, s, data, hs, hp, hdata, fun h => absurd h.2 Bool.false_ne_true⟩

theorem Writing.fflush {r : Bool} (h : Writing base file p sound content w)
    (hm : machine (.fs (.fflush file)) w r t) :
    Writing base file p (sound ∧ r = true) content t := by
  obtain ⟨s, -, hs, -⟩ := h.stream
  rcases hm with hm | ⟨rfl, k, rest, rfl, -⟩
  · have ht : t = (fsDo (.fflush file) w).2 := FsOk.eq hm
    simp only [fsDo, (World.writer_eq_some.1 hs).1] at ht
    rw [ht]
    apply h.flush And.left
    intro s' hs' _
    rw [hs] at hs'
    cases hs'
    rw [List.drop_length]
  · exact h.flush And.left (by simp)

theorem Writing.fsync {r : Bool} (h : Writing base file p sound content w)
    (hm : machine (.fs (.fsync file)) w r t) :
    Writing base file p (sound ∧ r = true) content t := by
  have ht : t = w := by
    rcases hm with hm | ⟨-, rfl⟩
    · exact FsOk.eq hm
    · rfl
  rw [ht]
  exact h.mono And.left

theorem Writing.fclose {r : Bool} (h : Writing base file p sound content w)
    (hm : machine (.fs (.fclose file)) w r t) :
    Written base p (sound ∧ r = true) content t := by
  obtain ⟨s, -, hs, -⟩ := h.stream
  rcases hm with hm | ⟨rfl, k, rfl⟩
  · have ht : t = (fsDo (.fclose file) w).2 := FsOk.eq hm
    simp only [fsDo, (World.writer_eq_some.1 hs).1] at ht
    rw [ht]
    refine (h.flush And.left fun s' hs' _ => ?_).close fun _ hs' _ => World.flush_pending hs'
    rw [hs] at hs'
    cases hs'
    rw [List.drop_length]
  · exact (h.flush And.left (by simp)).close fun _ hs' _ => World.flush_pending hs'

/-- The `rename` of a file that was written. -/
theorem Written.rename {src dst : Str} (h : Written base p sound content w)
    (hsrc : resolve src = some p) (hm : machine (.fs (.rename src dst)) w true t) :
    ∃ q, resolve dst = some q ∧ Placed base p q sound content t := by
  rcases hm with hm | ⟨h, -⟩
  · have hrt : (true, t) = fsDo (.rename src dst) w := hm
    simp only [fsDo, hsrc] at hrt
    split at hrt
    · next p' q hp' hq =>
        cases hp'
        split at hrt
        · next hmove =>
            obtain ⟨-, rfl⟩ := Prod.mk.inj hrt
            obtain ⟨helse, data, hdata, hsound⟩ := h
            have hnone := hmove.2.2.2.2.1
            have hpq := hmove.2.2.2.2.2
            have hqp : q ≠ p := by
              rintro rfl
              exact hpq (List.prefix_refl _)
            have hfile : w.card.isDir p = false := by
              rw [Tree.isDir, hdata]
            refine ⟨q, hq, ⟨fun x hxp hxq => ?_, ?_, ?_, data, ?_, hsound⟩⟩
            · rw [← helse x hxp]
              -- nothing lies below the file, and nothing below the absent target
              by_cases hqx : q <+: x
              · obtain ⟨r, rfl⟩ := hqx
                have hr : r ≠ [] := by
                  rintro rfl
                  simp at hxq
                rw [Tree.get_move_append hmove, Tree.get_none_below_file hfile hr,
                  Tree.get_none_below hnone ⟨r, rfl⟩]
              · by_cases hpx : p <+: x
                · obtain ⟨r, rfl⟩ := hpx
                  have hr : r ≠ [] := by
                    rintro rfl
                    simp at hxp
                  rw [Tree.get_move hmove, if_neg hqx, if_pos (List.prefix_append p r),
                    Tree.get_none_below_file hfile hr]
                · exact Tree.get_move_elsewhere hpx hqx
            · rw [← helse q hqp, hnone]
            · rw [Tree.get_move hmove, if_pos (List.prefix_refl p), if_neg]
              intro hqp'
              have := Tree.get_none_below hnone hqp'
              rw [hdata] at this
              cases this
            · have := Tree.get_move_append hmove []
              rwa [List.append_nil, List.append_nil, hdata] at this
        · cases (Prod.mk.inj hrt).1
    · cases (Prod.mk.inj hrt).1
  · cases h

end Download

end SimiboxDownloader
