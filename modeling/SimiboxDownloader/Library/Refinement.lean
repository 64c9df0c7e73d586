import SimiboxDownloader.Library.Interaction

/-!
# Programs whose calls are programs

`Program.expand impl p` is `p` with each of its calls carried out by a program of
another environment, with variables of its own. What is known of `p` on the machine
of its own calls is known of the expanded program on the other machine, when each
implementation does what that machine says of its call: as a judgement
(`Safe.expand`), and run by run (`Steps.of_expand`). An implementation that is one
call is an embedding; `Stateful.within` runs a program with variables that way in a
larger system.
-/

namespace Interaction

variable {Op Op' : Type} {Reply : Op → Type} {Reply' : Op' → Type} {σ σ' τ υ α β ν : Type}

/-- `p` with every call replaced by the program that implements it. -/
def Program.expand (impl : (o : Op) → Stateful Op' Reply' υ (Reply o)) :
    Program Op Reply α → Stateful Op' Reply' υ α
  | .pure a => Pure.pure a
  | .call o next => impl o >>= fun r => expand impl (next r)

/-- A program whose variables are part of those of a larger system, and whose calls
are implemented there. -/
def Stateful.within (get : υ → τ) (set : υ → τ → υ)
    (impl : (o : Op) → Stateful Op' Reply' υ (Reply o)) (p : Stateful Op Reply τ α) :
    Stateful Op' Reply' υ α := do
  let st ← MonadState.get
  let x ← Program.expand impl (p.run (get st))
  modify fun st => set st x.2
  return x.1

theorem Stateful.run_within {get : υ → τ} {set : υ → τ → υ}
    {impl : (o : Op) → Stateful Op' Reply' υ (Reply o)} {p : Stateful Op Reply τ α} (st : υ) :
    (Stateful.within get set impl p).run st =
      ((p.run (get st)).expand impl).run st >>= fun x => Program.pure (x.1.1, set x.2 x.1.2) := rfl

section Rules

variable {M : Machine Op Reply σ} {N : Machine Op' Reply' σ'} {C : Op → σ → Prop}
  {I : σ → Prop} {Q : α → σ → Prop} {C' : Op' → σ' → Prop} {I' : σ' → Prop}
  {R : υ → σ' → σ → Prop} {impl : (o : Op) → Stateful Op' Reply' υ (Reply o)}

/-- The same program on another machine, which is followed call by call in related
states. -/
theorem Safe.simulate {N : Machine Op Reply σ'} {C' : Op → σ' → Prop} {R : σ' → σ → Prop}
    {p : Program Op Reply α} {s : σ} {s' : σ'} (h : Safe M C I Q p s) (hR : R s' s)
    (hstep : ∀ o s' s, C o s → R s' s →
      C' o s' ∧ ∀ r t', N o s' r t' → I' t' ∧ ∃ t, M o s r t ∧ R t' t) :
    Safe N C' I' (fun a t' => ∃ t, Q a t ∧ R t' t) p s' := by
  induction p generalizing s s' with
  | pure a => exact ⟨s, h, hR⟩
  | call o next ih =>
      obtain ⟨hC, hnext⟩ := hstep o s' s h.1 hR
      refine ⟨hC, fun r t' hm => ?_⟩
      obtain ⟨hI, t, hm', hR'⟩ := hnext r t' hm
      exact ⟨hI, ih r (h.2 r t hm').2 hR'⟩

/-- A judgement about a program is one about its expansion: it is enough to look at
one call at a time, in related states. -/
theorem Safe.expand {p : Program Op Reply α} {s : σ} {st : υ} {s' : σ'} (h : Safe M C I Q p s)
    (hR : R st s' s)
    (himpl : ∀ o st s' s, C o s → (∀ r t, M o s r t → I t) → R st s' s →
      Safe N C' I' (fun x t' => ∃ t, M o s x.1 t ∧ R x.2 t' t) ((impl o).run st) s') :
    Safe N C' I' (fun x t' => ∃ t, Q x.1 t ∧ R x.2 t' t) ((p.expand impl).run st) s' := by
  induction p generalizing s st s' with
  | pure a => exact ⟨s, h, hR⟩
  | call o next ih =>
      refine Safe.bind (himpl o st s' s h.1 (fun r t hm => (h.2 r t hm).1) hR) ?_
      rintro x t' ⟨t, hm, hR⟩
      exact ih x.1 (h.2 x.1 t hm).2 hR

/-- The same for a program with variables of its own. -/
theorem Safe.within {get : υ → τ} {set : υ → τ → υ} {Q : α × τ → σ → Prop}
    {p : Stateful Op Reply τ α} {s : σ} {st : υ} {s' : σ'}
    (h : Safe M C I Q (p.run (get st)) s) (hR : R st s' s)
    (himpl : ∀ o st s' s, C o s → (∀ r t, M o s r t → I t) → R st s' s →
      Safe N C' I' (fun x t' => ∃ t, M o s x.1 t ∧ R x.2 t' t) ((impl o).run st) s') :
    Safe N C' I' (fun x t' => ∃ st₀ y t, Q (x.1, y) t ∧ R st₀ t' t ∧ x.2 = set st₀ y)
      ((Stateful.within get set impl p).run st) s' := by
  rw [Stateful.run_within]
  refine Safe.bind (Safe.expand h hR himpl) ?_
  rintro ⟨⟨a, y⟩, st₀⟩ t' ⟨t, hQ, hR⟩
  exact ⟨st₀, y, t, hQ, hR, rfl⟩

/-- What the implementations call the expanded program calls, when what they return is a
reply the program reckons with. -/
theorem Uses.expand {A : Op → Prop} {A' : Op' → Prop} {G : (o : Op) → Reply o → Prop}
    {G' : (o : Op') → Reply' o → Prop} {p : Program Op Reply α} (h : Uses A G p)
    (himpl : ∀ o st (k : Reply o × υ → Program Op' Reply' (α × υ)), A o →
      (∀ x, G o x.1 → Uses A' G' (k x)) → Uses A' G' ((impl o).run st >>= k)) (st : υ) :
    Uses A' G' ((p.expand impl).run st) := by
  induction p generalizing st with
  | pure a => trivial
  | call o next ih => exact himpl o st _ h.1 fun x hx => ih x.1 (h.2 x.1 hx) x.2

theorem Stateful.Uses.within {A : Op → Prop} {A' : Op' → Prop} {G : (o : Op) → Reply o → Prop}
    {G' : (o : Op') → Reply' o → Prop} {get : υ → τ} {set : υ → τ → υ}
    {p : Stateful Op Reply τ α} (h : Stateful.Uses A G p)
    (himpl : ∀ o st (k : Reply o × υ → Program Op' Reply' ((α × τ) × υ)), A o →
      (∀ x, G o x.1 → Interaction.Uses A' G' (k x)) →
        Interaction.Uses A' G' ((impl o).run st >>= k)) :
    Stateful.Uses A' G' (Stateful.within get set impl p) := by
  intro st
  rw [Stateful.run_within]
  exact Interaction.Uses.bind (Uses.expand (h (get st)) himpl st) fun _ => trivial

/-- What holds of every finished run is a judgement. -/
theorem safe_of_steps {Q : α → σ → Prop} {p : Program Op Reply α} {s : σ}
    (h : ∀ tr a t, Steps M p s tr (.pure a) t → Q a t) :
    Safe M (fun _ _ => True) (fun _ => True) Q p s := by
  induction p generalizing s with
  | pure a => exact h [] a s (Steps.refl _ s)
  | call o next ih =>
      refine ⟨trivial, fun r t hm => ⟨trivial, ih r fun tr a u hrun => ?_⟩⟩
      exact h _ a u (Steps.call hm hrun)

end Rules

section Runs

variable {M : Machine Op Reply σ} {N : Machine Op' Reply' σ'} {R : υ → σ' → σ → Prop}
  {impl : (o : Op) → Stateful Op' Reply' υ (Reply o)} {view : Event Op Reply σ → Option ν}
  {view' : Event Op' Reply' σ' → Option ν}

/-- Every finished run of an implementation is a step of the machine it implements,
seen in the same way from outside. -/
def Implements (M : Machine Op Reply σ) (N : Machine Op' Reply' σ') (R : υ → σ' → σ → Prop)
    (view : Event Op Reply σ → Option ν) (view' : Event Op' Reply' σ' → Option ν)
    (impl : (o : Op) → Stateful Op' Reply' υ (Reply o)) : Prop :=
  ∀ o st s' s tr x t', R st s' s → Steps N ((impl o).run st) s' tr (.pure x) t' →
    ∃ t, M o s x.1 t ∧ R x.2 t' t ∧ tr.filterMap view' = (view ⟨s, o, x.1, t⟩).toList

/-- Every run of an expanded program is one of the program. It is finished, or the
implementation of a call is cut. -/
theorem Steps.of_expand (himpl : Implements M N R view view' impl) {p : Program Op Reply α}
    {st : υ} {s : σ} {s' t' : σ'} {tr : List (Event Op' Reply' σ')}
    {q : Program Op' Reply' (α × υ)} (hR : R st s' s)
    (h : Steps N ((p.expand impl).run st) s' tr q t') :
    (∃ x tr' t, q = .pure x ∧ Steps M p s tr' (.pure x.1) t ∧ R x.2 t' t ∧
        tr.filterMap view' = tr'.filterMap view) ∨
      ∃ o next st₁ s₁ t tr' whole cut rest, tr = whole ++ cut ∧ Steps M p s tr' (.call o next) t ∧
        R st₁ s₁ t ∧ Steps N ((impl o).run st₁) s₁ cut rest t' ∧ rest.value = none ∧
        q.value = none ∧ whole.filterMap view' = tr'.filterMap view := by
  induction p generalizing st s s' tr with
  | pure a =>
      cases h
      exact Or.inl ⟨(a, st), [], s, rfl, Steps.refl _ s, hR, rfl⟩
  | call o next ih =>
      obtain ⟨o', rest, rfl, hcut⟩ | ⟨x, u, tr₁, tr₂, rfl, hfirst, hrest⟩ := Steps.of_bind h
      · exact Or.inr
          ⟨o, next, st, s', s, [], [], tr, _, rfl, Steps.refl _ s, hR, hcut, rfl, rfl, rfl⟩
      · obtain ⟨t, hm, hR, hview⟩ := himpl o st s' s tr₁ x u hR hfirst
        have hcons (tr' : List (Event Op Reply σ)) (seg : List (Event Op' Reply' σ'))
            (hseg : seg.filterMap view' = tr'.filterMap view) :
            (tr₁ ++ seg).filterMap view' = (⟨s, o, x.1, t⟩ :: tr').filterMap view := by
          rw [List.filterMap_append, hview, hseg, List.filterMap_cons]
          cases view ⟨s, o, x.1, t⟩ <;> rfl
        obtain ⟨y, tr', v, hq, hsteps, hR, hseg⟩ |
          ⟨o', next', st₁, s₁, v, tr', whole, cut, rest, rfl, hsteps, hR, hcut, hrest, hq, hseg⟩ :=
            ih x.1 hR hrest
        · exact Or.inl ⟨y, _, v, hq, Steps.call hm hsteps, hR, hcons _ _ hseg⟩
        · exact Or.inr ⟨o', next', st₁, s₁, v, _, tr₁ ++ whole, cut, rest,
            (List.append_assoc _ _ _).symm, Steps.call hm hsteps, hR, hcut, hrest, hq,
            hcons _ _ hseg⟩

end Runs

end Interaction
