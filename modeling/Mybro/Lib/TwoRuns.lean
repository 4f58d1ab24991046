import Mybro.Lib.Prog

/-!
# Two runs of interaction programs

What an observer sees of an effect is its `face`, and of an effect with its answer, its `view`.

* `Alike face view Q p p'`: answered in ways that look the same, the programs `p` and `p'` perform
  effects that look the same, and return values related by `Q`.

A program is related to itself as long as its effects are answered openly (`alike_of_ensures`).
`Alike.run` is what this says about two runs: as long as equal questions get equal answers, the
observer cannot tell one run from the other.
-/

namespace Prog

variable {E V W : Type} {R : E → Type} {α α' β β' : Type}

/-- As long as the answers look the same, so do the effects, and the values returned are related.
-/
def Alike (face : E → W) (view : (Σ e, R e) → V) (Q : α → β → Prop) :
    Prog E R α → Prog E R β → Prop
  | ret a, ret b => Q a b
  | vis e k, vis e' k' =>
    face e = face e' ∧ ∀ r r', view ⟨e, r⟩ = view ⟨e', r'⟩ → Alike face view Q (k r) (k' r')
  | _, _ => False

variable {face : E → W} {view : (Σ e, R e) → V} {Q : α → β → Prop} {Q' : α' → β' → Prop}

theorem alike_ret {a : α} {b : β} (h : Q a b) :
    Alike face view Q (pure a : Prog E R α) (pure b) := h

/-- **The consequence rule.** -/
theorem Alike.mono {Q' : α → β → Prop} {p : Prog E R α} {p' : Prog E R β}
    (h : Alike face view Q p p') (hQ : ∀ a b, Q a b → Q' a b) : Alike face view Q' p p' := by
  induction p generalizing p' with
  | ret a =>
    cases p' with
    | ret b => exact hQ a b h
    | vis e' k' => exact h.elim
  | vis e k ih =>
    cases p' with
    | ret b => exact h.elim
    | vis e' k' => exact ⟨h.1, fun r r' hr => ih r (h.2 r r' hr)⟩

/-- **The sequence rule.** -/
theorem alike_bind {p : Prog E R α} {p' : Prog E R β} {f : α → Prog E R α'} {f' : β → Prog E R β'}
    (h : Alike face view Q p p') (hf : ∀ a b, Q a b → Alike face view Q' (f a) (f' b)) :
    Alike face view Q' (p >>= f) (p' >>= f') := by
  induction p generalizing p' with
  | ret a =>
    cases p' with
    | ret b => exact hf a b h
    | vis e' k' => exact h.elim
  | vis e k ih =>
    cases p' with
    | ret b => exact h.elim
    | vis e' k' => exact ⟨h.1, fun r r' hr => ih r (h.2 r r' hr)⟩

/-- One effect, then the rest. -/
theorem alike_perform {e e' : E} {f : R e → Prog E R α} {f' : R e' → Prog E R β}
    (he : face e = face e')
    (hf : ∀ r r', view ⟨e, r⟩ = view ⟨e', r'⟩ → Alike face view Q (f r) (f' r')) :
    Alike face view Q (perform e >>= f) (perform e' >>= f') := ⟨he, hf⟩

/-- A program whose effects are answered openly is like itself. -/
theorem alike_of_ensures {I : E → Prop} {P : α → Prop} {p : Prog E R α}
    (hI : ∀ e, I e → ∀ r r', view ⟨e, r⟩ = view ⟨e, r'⟩ → r = r') (h : Ensures I P p) :
    Alike face view (fun a b => a = b ∧ P a) p p := by
  induction p with
  | ret a => exact ⟨rfl, h⟩
  | vis e k ih =>
    refine ⟨rfl, fun r r' hr => ?_⟩
    obtain rfl := hI e h.1 r r' hr
    exact ih r (h.2 r)

/-- **The rule for a part that both programs have in common.** -/
theorem alike_part {I : E → Prop} {P : α → Prop} {p : Prog E R α} {f : α → Prog E R α'}
    {f' : α → Prog E R β'} (hI : ∀ e, I e → ∀ r r', view ⟨e, r⟩ = view ⟨e, r'⟩ → r = r')
    (hp : Ensures I P p) (hf : ∀ a, P a → Alike face view Q' (f a) (f' a)) :
    Alike face view Q' (p >>= f) (p >>= f') := by
  refine alike_bind (alike_of_ensures hI hp) ?_
  rintro a _ ⟨rfl, ha⟩
  exact hf a ha

/-- **Two runs**: when effects that look the same are answered in ways that look the same, the whole
runs look the same, and what is left is alike. -/
theorem Alike.run {p q : Prog E R α} {p' q' : Prog E R β} {tr tr' : Trace R}
    (h : Alike face view Q p p') (hr : Run p tr q) (hr' : Run p' tr' q')
    (hsame : List.Forall₂ (fun x y => face x.1 = face y.1 → view x = view y) tr tr') :
    tr.map view = tr'.map view ∧ Alike face view Q q q' := by
  induction hr generalizing p' tr' with
  | nil p =>
    cases hsame
    cases hr'
    exact ⟨rfl, h⟩
  | @cons e k r tr q hr ih =>
    cases hsame with
    | cons hhead htail =>
      cases hr' with
      | cons r' hr' =>
        obtain ⟨he, hk⟩ := h
        have hview := hhead he
        obtain ⟨hmap, hq⟩ := ih (hk _ _ hview) hr' htail
        refine ⟨?_, hq⟩
        rw [List.map_cons, List.map_cons, hview, hmap]

/-- What is left shows the same: the same effect next, or the value that has been returned. -/
theorem Alike.next {p p' : Prog E R α} (h : Alike face view (fun a b => a = b) p p') :
    (∀ a, p = ret a ↔ p' = ret a) ∧
      ∀ e k, p = vis e k → ∃ e' k', p' = vis e' k' ∧ face e' = face e := by
  cases p with
  | ret a =>
    cases p' with
    | ret b =>
      obtain rfl : a = b := h
      exact ⟨fun _ => Iff.rfl, fun _ _ hp => (by cases hp)⟩
    | vis e' k' => exact h.elim
  | vis e k =>
    cases p' with
    | ret b => exact h.elim
    | vis e' k' =>
      refine ⟨fun a => ⟨fun hp => (by cases hp), fun hp => (by cases hp)⟩, ?_⟩
      rintro e k ⟨⟩
      exact ⟨e', k', rfl, h.1.symm⟩

end Prog
