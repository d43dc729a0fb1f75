import Mathlib.Tactic

/-!
# Machines that take one action at a time

A machine applies an action to a state, or refuses it. What holds at the start and is kept by
every action holds after every run (`run_keeps`); where only some steps keep it, it holds along
the runs whose steps are all of that kind (`along_of_meets`), and where the other steps break it
at once, along no others (`along_iff_meets`).
-/

namespace Crewquarters

open Option

/-- Actions on states; `none` where the action is not enabled. -/
structure Machine (σ α : Type*) where
  step : α → σ → Option σ

namespace Machine

variable {σ α : Type*} (M : Machine σ α)

/-- The state after the actions in order, if each of them is enabled. -/
def run : List α → σ → Option σ
  | [], s => some s
  | a :: as, s => (M.step a s).bind (run as)

/-- `P` holds at every state the run passes through, the first included. -/
def Along (P : σ → Prop) : List α → σ → Prop
  | [], s => P s
  | a :: as, s => P s ∧ ∀ t, M.step a s = some t → Along P as t

/-- Every step the run takes meets `ok`, a condition on the action and the state before it. -/
def Meets (ok : α → σ → Prop) : List α → σ → Prop
  | [], _ => True
  | a :: as, s => ∀ t, M.step a s = some t → ok a s ∧ Meets ok as t

instance decidableAlong (P : σ → Prop) [DecidablePred P] :
    ∀ (as : List α) (s : σ), Decidable (M.Along P as s)
  | [], s => inferInstanceAs (Decidable (P s))
  | a :: as, s =>
    have (o : Option σ) : Decidable (∀ t, o = some t → M.Along P as t) :=
      match o with
      | none => isTrue nofun
      | some t => have := decidableAlong P as t
        decidable_of_iff (M.Along P as t) (by simp)
    inferInstanceAs (Decidable (P s ∧ _))

instance decidableMeets (ok : α → σ → Prop) [∀ a s, Decidable (ok a s)] :
    ∀ (as : List α) (s : σ), Decidable (M.Meets ok as s)
  | [], _ => isTrue trivial
  | a :: as, s =>
    have (o : Option σ) : Decidable (∀ t, o = some t → ok a s ∧ M.Meets ok as t) :=
      match o with
      | none => isTrue nofun
      | some t => have := decidableMeets ok as t
        decidable_of_iff (ok a s ∧ M.Meets ok as t) (by simp)
    inferInstanceAs (Decidable (∀ t, M.step a s = some t → _))

variable {M}
variable {s : σ} {I P : σ → Prop} {ok : α → σ → Prop}

theorem run_cons {a : α} {as : List α} {t : σ} :
    M.run (a :: as) s = some t ↔ ∃ u, M.step a s = some u ∧ M.run as u = some t := by
  simp only [run, bind_eq_some_iff]

theorem run_append {as bs : List α} {t : σ} :
    M.run (as ++ bs) s = some t ↔ ∃ u, M.run as s = some u ∧ M.run bs u = some t := by
  induction as generalizing s with
  | nil => simp [run]
  | cons a as ih =>
    simp only [List.cons_append, run_cons, ih]
    constructor
    · rintro ⟨u, hu, v, hv, ht⟩
      exact ⟨v, ⟨u, hu, hv⟩, ht⟩
    · rintro ⟨v, ⟨u, hu, hv⟩, ht⟩
      exact ⟨u, hu, v, hv, ht⟩

theorem meets_cons {a : α} {as : List α} {t : σ} (h : M.step a s = some t) :
    M.Meets ok (a :: as) s ↔ ok a s ∧ M.Meets ok as t := by
  simp [Meets, h]

/-- What every step keeps, every run keeps. -/
theorem run_keeps (hstep : ∀ a s t, I s → M.step a s = some t → I t) :
    ∀ (as : List α) {s t : σ}, I s → M.run as s = some t → I t
  | [], s, t, hs, h => by
    simp only [run, some.injEq] at h
    exact h ▸ hs
  | a :: as, s, t, hs, h => by
    obtain ⟨u, hu, ht⟩ := run_cons.1 h
    exact run_keeps hstep as (hstep a s u hs hu) ht

/-- What holds along a run holds where it ends. -/
theorem Along.last :
    ∀ {as : List α} {s t : σ}, M.Along P as s → M.run as s = some t → P t
  | [], s, t, h, hr => by
    simp only [run, some.injEq] at hr
    exact hr ▸ h
  | a :: as, s, t, h, hr => by
    obtain ⟨u, hu, ht⟩ := run_cons.1 hr
    exact Along.last (h.2 u hu) ht

theorem Along.mono {Q : σ → Prop} (hPQ : ∀ s, P s → Q s) :
    ∀ {as : List α} {s : σ}, M.Along P as s → M.Along Q as s
  | [], _, h => hPQ _ h
  | _ :: _, _, h => ⟨hPQ _ h.1, fun t ht => Along.mono hPQ (h.2 t ht)⟩

/-- Every step of a run meets what follows from what holds along it. -/
theorem Along.meets (hok : ∀ a s, P s → ok a s) :
    ∀ {as : List α} {s : σ}, M.Along P as s → M.Meets ok as s
  | [], _, _ => trivial
  | a :: _, s, h => fun t ht => ⟨hok a s h.1, Along.meets hok (h.2 t ht)⟩

/-- What every step keeps holds all along a run. -/
theorem along_of_step (hstep : ∀ a s t, I s → M.step a s = some t → I t) :
    ∀ (as : List α) {s : σ}, I s → M.Along I as s
  | [], _, hs => hs
  | a :: as, s, hs => ⟨hs, fun t ht => along_of_step hstep as (hstep a s t hs ht)⟩

/-- A run holds `I` along it if the steps that meet `ok` keep `I` and the run takes no others. -/
theorem along_of_meets (hstep : ∀ a s t, I s → ok a s → M.step a s = some t → I t) :
    ∀ (as : List α) {s : σ}, I s → M.Meets ok as s → M.Along I as s
  | [], _, hs, _ => hs
  | a :: as, s, hs, hm => by
    refine ⟨hs, fun t ht => ?_⟩
    obtain ⟨hok, hm'⟩ := hm t ht
    exact along_of_meets hstep as (hstep a s t hs hok ht) hm'

theorem Meets.and {ok' : α → σ → Prop} :
    ∀ {as : List α} {s : σ}, M.Meets ok as s → M.Meets ok' as s →
      M.Meets (fun a s => ok a s ∧ ok' a s) as s
  | [], _, _, _ => trivial
  | _ :: _, _, h, h' => fun t ht => ⟨⟨(h t ht).1, (h' t ht).1⟩, (h t ht).2.and (h' t ht).2⟩

theorem Meets.append :
    ∀ {as bs : List α} {s t : σ}, M.Meets ok (as ++ bs) s → M.run as s = some t →
      M.Meets ok as s ∧ M.Meets ok bs t
  | [], _, s, t, h, hr => by
    simp only [run, some.injEq] at hr
    exact ⟨trivial, hr ▸ h⟩
  | a :: as, bs, s, t, h, hr => by
    obtain ⟨u, hu, ht⟩ := run_cons.1 hr
    obtain ⟨hok, hm⟩ := h u hu
    obtain ⟨has, hbs⟩ := hm.append ht
    refine ⟨fun v hv => ?_, hbs⟩
    obtain rfl := some.inj (hu.symm.trans hv)
    exact ⟨hok, has⟩

/-- A run whose steps meet `ok` relates its first state to its last as each step does. -/
theorem run_relates {R : σ → σ → Prop} (hrefl : ∀ s, R s s)
    (htrans : ∀ {s t u}, R s t → R t u → R s u)
    (hstep : ∀ a s t, I s → ok a s → M.step a s = some t → I t ∧ R s t) :
    ∀ (as : List α) {s t : σ}, I s → M.Meets ok as s → M.run as s = some t → I t ∧ R s t
  | [], s, t, hs, _, h => by
    simp only [run, some.injEq] at h
    exact h ▸ ⟨hs, hrefl s⟩
  | a :: as, s, t, hs, hm, h => by
    obtain ⟨u, hu, ht⟩ := run_cons.1 h
    obtain ⟨hok, hm'⟩ := hm u hu
    obtain ⟨hIu, hRu⟩ := hstep a s u hs hok hu
    obtain ⟨hIt, hRt⟩ := run_relates hrefl htrans hstep as hIu hm' ht
    exact ⟨hIt, htrans hRu hRt⟩

/-- If what gives `P` is kept by the steps that meet `ok`, and the others break `P`, then `P` holds
along exactly the runs whose steps all meet `ok`. -/
theorem along_iff_meets_of {J : σ → Prop} (hJ : ∀ s, J s → P s)
    (hgood : ∀ a s t, J s → ok a s → M.step a s = some t → J t)
    (hbad : ∀ a s t, J s → ¬ ok a s → M.step a s = some t → ¬ P t) :
    ∀ (as : List α) {s : σ}, J s → (M.Along P as s ↔ M.Meets ok as s)
  | [], s, hs => ⟨fun _ => trivial, fun _ => hJ s hs⟩
  | a :: as, s, hs => by
    constructor
    · intro h t ht
      have hPt : P t := by
        cases as with
        | nil => exact h.2 t ht
        | cons => exact (h.2 t ht).1
      have hok : ok a s := by
        by_contra hn
        exact hbad a s t hs hn ht hPt
      exact ⟨hok, (along_iff_meets_of hJ hgood hbad as (hgood a s t hs hok ht)).1 (h.2 t ht)⟩
    · intro hm
      refine ⟨hJ s hs, fun t ht => ?_⟩
      obtain ⟨hok, hm'⟩ := hm t ht
      exact (along_iff_meets_of hJ hgood hbad as (hgood a s t hs hok ht)).2 hm'

/-- The same with `P` kept next to an invariant `I` of every step. -/
theorem along_iff_meets (hI : ∀ a s t, I s → M.step a s = some t → I t)
    (hgood : ∀ a s t, I s → P s → ok a s → M.step a s = some t → P t)
    (hbad : ∀ a s t, I s → P s → ¬ ok a s → M.step a s = some t → ¬ P t) (as : List α) (hs : I s)
    (hP : P s) : M.Along P as s ↔ M.Meets ok as s := by
  have hJ : ∀ u, (I u ∧ P u) → P u := fun _ h => h.2
  refine along_iff_meets_of hJ (fun a u t h hok ht => ?_) (fun a u t h hn ht => ?_) as ⟨hs, hP⟩
  · exact ⟨hI a u t h.1 ht, hgood a u t h.1 h.2 hok ht⟩
  · exact hbad a u t h.1 h.2 hn ht

end Machine

end Crewquarters
