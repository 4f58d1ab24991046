import Mathlib.Tactic

/-!
# Interaction programs

A `Prog E R α` is a program that performs effects `e : E`, each answered by an `R e`, and returns an
`α`. The effects have no meaning of their own: the environment answers them, in any way
(`Run`, `Sat`), or through a state that interprets them (`exec`).

* `Run p tr q`: with the answers recorded in the trace `tr`, the program `p` has become `q`;
* `Sat add I Q p s`: whatever the answers, with a monitor that starts in `s` and takes in every
  answer by `add`, the program performs an effect only when `I` holds of the monitor's state and the
  effect, and returns only when `Q` holds of the state and the value. It unfolds along every run;
* `exec h p s`: the value and the final state when the effects are interpreted by `h`;
* `Wp h Q p s`: when the program, interpreted by `h` from `s`, comes to an end, `Q` holds of the
  value and the state;
* `Performs h p s e u`: interpreted by `h` from `s`, the program performs the effect `e` in the
  state `u`.
-/

/-- A program over the effects `E` with answers `R`. -/
inductive Prog (E : Type) (R : E → Type) (α : Type) : Type
  | ret (a : α) : Prog E R α
  | vis (e : E) (k : R e → Prog E R α) : Prog E R α

namespace Prog

variable {E : Type} {R : E → Type} {α β σ : Type}

/-- Run `p`, then `f` on its value. -/
def bind : Prog E R α → (α → Prog E R β) → Prog E R β
  | ret a, f => f a
  | vis e k, f => vis e fun r => (k r).bind f

instance : Monad (Prog E R) where
  pure := ret
  bind := bind

/-- Perform one effect. -/
def perform (e : E) : Prog E R (R e) := vis e ret

@[simp] theorem vis_bind (e : E) (k : R e → Prog E R α) (f : α → Prog E R β) :
    (vis e k >>= f) = vis e fun r => k r >>= f := rfl

/-! ### Runs -/

/-- The effects performed so far, oldest first, with their answers. -/
abbrev Trace (R : E → Type) := List (Σ e, R e)

/-- `p` becomes `q` by the answers of the trace. -/
inductive Run : Prog E R α → Trace R → Prog E R α → Prop
  | nil (p : Prog E R α) : Run p [] p
  | cons {e : E} {k : R e → Prog E R α} (r : R e) {tr : Trace R} {q : Prog E R α} :
      Run (k r) tr q → Run (vis e k) (⟨e, r⟩ :: tr) q

theorem Run.append {p q s : Prog E R α} {tr tr' : Trace R} (h : Run p tr q) (h' : Run q tr' s) :
    Run p (tr ++ tr') s := by
  induction h with
  | nil p => exact h'
  | cons r _ ih => exact .cons r (ih h')

/-- A run of the first part of a sequence is a run of the sequence. -/
theorem Run.bind {p q : Prog E R α} {tr : Trace R} (h : Run p tr q) (f : α → Prog E R β) :
    Run (p >>= f) tr (q >>= f) := by
  induction h with
  | nil p => exact .nil _
  | cons r _ ih => exact .cons r ih

/-- A run of a sequence ends in the first part, or in the second after the first has returned. -/
theorem run_bind {p : Prog E R α} {f : α → Prog E R β} {tr : Trace R} {q : Prog E R β}
    (h : Run (p >>= f) tr q) : (∃ p', Run p tr p' ∧ q = p' >>= f) ∨
      ∃ a tr₁ tr₂, tr = tr₁ ++ tr₂ ∧ Run p tr₁ (ret a) ∧ Run (f a) tr₂ q := by
  induction p generalizing tr with
  | ret a => exact Or.inr ⟨a, [], tr, rfl, .nil _, h⟩
  | vis e k ih =>
    rw [vis_bind] at h
    cases h with
    | nil => exact Or.inl ⟨_, .nil _, rfl⟩
    | cons r h =>
      rcases ih r h with ⟨p', hp, rfl⟩ | ⟨a, tr₁, tr₂, rfl, hp, hq⟩
      · exact Or.inl ⟨p', .cons r hp, rfl⟩
      · exact Or.inr ⟨a, _, tr₂, rfl, .cons r hp, hq⟩

/-- A run of a sequence to its end runs both parts to their ends. -/
theorem run_bind_ret {p : Prog E R α} {f : α → Prog E R β} {tr : Trace R} {b : β}
    (h : Run (p >>= f) tr (ret b)) :
    ∃ a tr₁ tr₂, tr = tr₁ ++ tr₂ ∧ Run p tr₁ (ret a) ∧ Run (f a) tr₂ (ret b) := by
  rcases run_bind h with ⟨p', hp, hq⟩ | h
  · cases p' with
    | ret a => exact ⟨a, tr, [], by simp, hp, hq ▸ .nil _⟩
    | vis e k => cases hq
  · exact h

/-- An answer to the first effect, and a run of the rest. -/
theorem run_perform {e : E} {f : R e → Prog E R α} {tr : Trace R} {q : Prog E R α} (r : R e)
    (h : Run (f r) tr q) : Run (perform e >>= f) (⟨e, r⟩ :: tr) q :=
  .cons r h

/-- A run to the end begins by an answer to the first effect. -/
theorem run_perform_ret {e : E} {f : R e → Prog E R α} {tr : Trace R} {a : α}
    (h : Run (perform e >>= f) tr (ret a)) :
    ∃ r tr', tr = ⟨e, r⟩ :: tr' ∧ Run (f r) tr' (ret a) := by
  cases h with
  | cons r h => exact ⟨r, _, rfl, h⟩

/-- Some answers lead from `p` to `q`. -/
def Reaches (p q : Prog E R α) : Prop := ∃ tr, Run p tr q

theorem Reaches.refl (p : Prog E R α) : Reaches p p := ⟨[], .nil p⟩

theorem Reaches.answer {e : E} {k : R e → Prog E R α} {q : Prog E R α} (r : R e)
    (h : Reaches (k r) q) : Reaches (vis e k) q := by
  obtain ⟨tr, hr⟩ := h
  exact ⟨_, .cons r hr⟩

theorem Reaches.trans {p q s : Prog E R α} (h : Reaches p q) (h' : Reaches q s) : Reaches p s := by
  obtain ⟨tr, hr⟩ := h
  obtain ⟨tr', hr'⟩ := h'
  exact ⟨_, hr.append hr'⟩

theorem Reaches.bind {p q : Prog E R α} (h : Reaches p q) (f : α → Prog E R β) :
    Reaches (p >>= f) (q >>= f) := by
  obtain ⟨tr, hr⟩ := h
  exact ⟨_, hr.bind f⟩

/-- Run with the answers of a partial function, up to the first effect it does not answer. -/
def play (f : (e : E) → Option (R e)) : Prog E R α → Trace R × Prog E R α
  | ret a => ([], ret a)
  | vis e k =>
    match f e with
    | some r => (⟨e, r⟩ :: (play f (k r)).1, (play f (k r)).2)
    | none => ([], vis e k)

theorem run_play (f : (e : E) → Option (R e)) (p : Prog E R α) :
    Run p (play f p).1 (play f p).2 := by
  induction p with
  | ret a => exact .nil _
  | vis e k ih =>
    unfold play
    cases f e with
    | some r => exact .cons r (ih r)
    | none => exact .nil _

/-- The answers on the way are those of the partial function. -/
theorem mem_play {f : (e : E) → Option (R e)} {p : Prog E R α} {e : E} {r : R e}
    (h : ⟨e, r⟩ ∈ (play f p).1) : f e = some r := by
  induction p with
  | ret a => cases h
  | vis e' k ih =>
    unfold play at h
    cases hf : f e' with
    | some r' =>
      rw [hf] at h
      rcases List.mem_cons.1 h with heq | h
      · cases heq
        exact hf
      · exact ih r' h
    | none =>
      rw [hf] at h
      cases h

/-- Run with the answers of an interpretation, up to the first effect it does not answer. -/
def playIn (h : (e : E) → σ → Option (R e × σ)) : Prog E R α → σ → Trace R × Prog E R α
  | ret a, _ => ([], ret a)
  | vis e k, s =>
    match h e s with
    | some (r, s) => (⟨e, r⟩ :: (playIn h (k r) s).1, (playIn h (k r) s).2)
    | none => ([], vis e k)

theorem run_playIn (h : (e : E) → σ → Option (R e × σ)) (p : Prog E R α) (s : σ) :
    Run p (playIn h p s).1 (playIn h p s).2 := by
  induction p generalizing s with
  | ret a => exact .nil _
  | vis e k ih =>
    unfold playIn
    cases h e s with
    | some x => exact .cons x.1 (ih x.1 x.2)
    | none => exact .nil _

/-! ### Assertions over all runs -/

/-- The state of a monitor after a trace. -/
def after (add : σ → (e : E) → R e → σ) (s : σ) (tr : Trace R) : σ :=
  tr.foldl (fun s x => add s x.1 x.2) s

/-- Whatever the answers, effects are performed only when `I` holds of the monitor's state and the
effect, and values returned only when `Q` does; the monitor starts in `s` and takes in every answer
by `add`. -/
def Sat (add : σ → (e : E) → R e → σ) (I : σ → E → Prop) (Q : σ → α → Prop) : Prog E R α → σ → Prop
  | ret a, s => Q s a
  | vis e k, s => I s e ∧ ∀ r, Sat add I Q (k r) (add s e r)

section Sat

variable {add : σ → (e : E) → R e → σ} {I J : σ → E → Prop} {Q Q' : σ → α → Prop} {s : σ}

@[simp] theorem after_nil : after add s [] = s := rfl

@[simp] theorem after_cons (x : Σ e, R e) (tr : Trace R) :
    after add s (x :: tr) = after add (add s x.1 x.2) tr := rfl

@[simp] theorem after_append (tr tr' : Trace R) :
    after add s (tr ++ tr') = after add (after add s tr) tr' := List.foldl_append

/-- **The sequence rule.** -/
theorem sat_bind (p : Prog E R α) (f : α → Prog E R β) {Q : σ → β → Prop} :
    Sat add I Q (p >>= f) s ↔ Sat add I (fun s a => Sat add I Q (f a) s) p s := by
  induction p generalizing s with
  | ret a => exact Iff.rfl
  | vis e k ih => exact and_congr_right fun _ => forall_congr' fun r => ih r

/-- One effect, then the rest. -/
theorem sat_perform {e : E} {f : R e → Prog E R α} (he : I s e)
    (hf : ∀ r, Sat add I Q (f r) (add s e r)) : Sat add I Q (perform e >>= f) s :=
  ⟨he, hf⟩

/-- Where nothing is asserted of the effects, and `Q` holds of every state and value. -/
theorem sat_of_true (p : Prog E R α) (hQ : ∀ s a, Q s a) : Sat add (fun _ _ => True) Q p s := by
  induction p generalizing s with
  | ret a => exact hQ s a
  | vis e k ih => exact ⟨trivial, fun r => ih r⟩

/-- **The consequence rule.** -/
theorem Sat.mono {p : Prog E R α} (h : Sat add I Q p s) (hI : ∀ s e, I s e → J s e)
    (hQ : ∀ s a, Q s a → Q' s a) : Sat add J Q' p s := by
  induction p generalizing s with
  | ret a => exact hQ s a h
  | vis e k ih => exact ⟨hI s e h.1, fun r => ih r (h.2 r)⟩

/-- `Sat` speaks about every run: it holds of what is left, with the monitor after the trace. -/
theorem Sat.run {p q : Prog E R α} {tr : Trace R} (h : Sat add I Q p s) (hr : Run p tr q) :
    Sat add I Q q (after add s tr) := by
  induction hr generalizing s with
  | nil p => exact h
  | cons r _ ih => exact ih (h.2 r)

/-- Every effect the program can perform satisfies `I`, and every value it can return `Q`. -/
def Ensures (I : E → Prop) (Q : α → Prop) : Prog E R α → Prop
  | ret a => Q a
  | vis e k => I e ∧ ∀ r, Ensures I Q (k r)

theorem ensures_bind {I : E → Prop} {Q : α → Prop} {Q' : β → Prop} {p : Prog E R α}
    {f : α → Prog E R β} (hp : Ensures I Q p) (hf : ∀ a, Q a → Ensures I Q' (f a)) :
    Ensures I Q' (p >>= f) := by
  induction p with
  | ret a => exact hf a hp
  | vis e k ih => exact ⟨hp.1, fun r => ih r (hp.2 r)⟩

/-- Every program performs effects and returns values. -/
theorem ensures_true (p : Prog E R α) : Ensures (fun _ => True) (fun _ => True) p := by
  induction p with
  | ret a => exact trivial
  | vis e k ih => exact ⟨trivial, ih⟩

theorem Ensures.run {I : E → Prop} {Q : α → Prop} {p q : Prog E R α} {tr : Trace R}
    (h : Ensures I Q p) (hr : Run p tr q) : Ensures I Q q := by
  induction hr with
  | nil p => exact h
  | cons r _ ih => exact ih (h.2 r)

/-- A run of a sequence up to an effect that the first part does not perform is in the second. -/
theorem Ensures.run_bind {I : E → Prop} {Q : α → Prop} {p : Prog E R α} {f : α → Prog E R β}
    {tr : Trace R} {e : E} {k : R e → Prog E R β} (hp : Ensures I Q p) (he : ¬ I e)
    (h : Run (p >>= f) tr (vis e k)) :
    ∃ a tr₁ tr₂, tr = tr₁ ++ tr₂ ∧ Run p tr₁ (ret a) ∧ Run (f a) tr₂ (vis e k) := by
  rcases Prog.run_bind h with ⟨p', hr, hq⟩ | h
  · cases p' with
    | ret a => exact ⟨a, tr, [], by simp, hr, hq ▸ .nil _⟩
    | vis e' k' =>
      cases hq
      exact absurd (hp.run hr).1 he
  · exact h

/-- `Ensures` speaks about all runs. -/
theorem ensures_iff {I : E → Prop} {Q : α → Prop} (p : Prog E R α) :
    Ensures I Q p ↔ (∀ a, Reaches p (ret a) → Q a) ∧ ∀ e k, Reaches p (vis e k) → I e := by
  constructor
  · intro h
    exact ⟨fun a ⟨_, hr⟩ => h.run hr, fun e k ⟨_, hr⟩ => (h.run hr).1⟩
  · rintro ⟨hQ, hI⟩
    induction p with
    | ret a => exact hQ a (.refl _)
    | vis e k ih =>
      refine ⟨hI e k (.refl _), fun r => ih r ?_ ?_⟩
      · intro a hr
        exact hQ a (.answer r hr)
      · intro e' k' hr
        exact hI e' k' (.answer r hr)

/-- A part whose effects leave the monitor alone. -/
theorem sat_of_ensures {L : E → Prop} {Q : α → Prop} {p : Prog E R α}
    (hL : ∀ e, L e → I s e ∧ ∀ r, add s e r = s) (h : Ensures L Q p) :
    Sat add I (fun t a => t = s ∧ Q a) p s := by
  induction p with
  | ret a => exact ⟨rfl, h⟩
  | vis e k ih =>
    obtain ⟨hI, hadd⟩ := hL e h.1
    refine ⟨hI, fun r => ?_⟩
    rw [hadd r]
    exact ih r (h.2 r)

/-- **The rule for a part whose effects leave the monitor alone.** -/
theorem sat_bind_of_ensures {L : E → Prop} {P : α → Prop} {Q : σ → β → Prop} {p : Prog E R α}
    {f : α → Prog E R β} (hL : ∀ e, L e → I s e ∧ ∀ r, add s e r = s) (hp : Ensures L P p)
    (h : ∀ a, P a → Sat add I Q (f a) s) : Sat add I Q (p >>= f) s := by
  rw [sat_bind]
  refine (sat_of_ensures hL hp).mono (fun _ _ h => h) ?_
  rintro _ a ⟨rfl, ha⟩
  exact h a ha

theorem Ensures.mono {I J : E → Prop} {Q Q' : α → Prop} {p : Prog E R α} (h : Ensures I Q p)
    (hI : ∀ e, I e → J e) (hQ : ∀ a, Q a → Q' a) : Ensures J Q' p := by
  induction p with
  | ret a => exact hQ a h
  | vis e k ih => exact ⟨hI e h.1, fun r => ih r (h.2 r)⟩

end Sat

/-! ### Interpretation in a state -/

/-- The value and the final state of a program whose effects are interpreted by `h`; there is none
when an effect has no interpretation in the state it is performed in. -/
def exec (h : (e : E) → σ → Option (R e × σ)) : Prog E R α → σ → Option (α × σ)
  | ret a, s => some (a, s)
  | vis e k, s => (h e s).bind fun x => exec h (k x.1) x.2

section Exec

variable (h : (e : E) → σ → Option (R e × σ))

@[simp] theorem exec_ret (a : α) (s : σ) : exec h (ret a) s = some (a, s) := rfl

@[simp] theorem exec_pure (a : α) (s : σ) : exec h (pure a) s = some (a, s) := rfl

theorem exec_vis (e : E) (k : R e → Prog E R α) (s : σ) :
    exec h (vis e k) s = (h e s).bind fun x => exec h (k x.1) x.2 := rfl

/-- **The sequence rule of the interpretation.** -/
theorem exec_bind (p : Prog E R α) (f : α → Prog E R β) (s : σ) :
    exec h (p >>= f) s = (exec h p s).bind fun x => exec h (f x.1) x.2 := by
  induction p generalizing s with
  | ret a => rfl
  | vis e k ih =>
    rw [vis_bind, exec_vis, exec_vis, Option.bind_assoc]
    exact congrArg (Option.bind (h e s)) (funext fun x => ih x.1 x.2)

theorem exec_perform_bind (e : E) (f : R e → Prog E R α) (s : σ) :
    exec h (perform e >>= f) s = (h e s).bind fun x => exec h (f x.1) x.2 := rfl

/-- An effect with an interpretation, followed by the rest of the program. -/
theorem exec_perform_of {e : E} {f : R e → Prog E R α} {s t : σ} {r : R e}
    (he : h e s = some (r, t)) : exec h (perform e >>= f) s = exec h (f r) t := by
  rw [exec_perform_bind, he]
  rfl

/-- A program that is interpreted to its end is interpreted to the end of each of its parts. -/
theorem exec_bind_eq_some {p : Prog E R α} {f : α → Prog E R β} {s u : σ} {b : β} :
    exec h (p >>= f) s = some (b, u) ↔
      ∃ a t, exec h p s = some (a, t) ∧ exec h (f a) t = some (b, u) := by
  rw [exec_bind, Option.bind_eq_some_iff, Prod.exists]

/-- What the effects a program may perform all keep, its interpretation keeps. -/
theorem exec_of_ensures {I : E → Prop} {K : σ → Prop}
    (hK : ∀ e s r t, I e → K s → h e s = some (r, t) → K t) {Q : α → Prop} {p : Prog E R α}
    (hp : Ensures I Q p) {s t : σ} {a : α} (hs : K s) (hx : exec h p s = some (a, t)) :
    K t ∧ Q a := by
  induction p generalizing s with
  | ret b => cases hx; exact ⟨hs, hp⟩
  | vis e k ih =>
    obtain ⟨x, hx, hk⟩ := Option.bind_eq_some_iff.1 hx
    exact ih x.1 (hp.2 x.1) (hK e s x.1 x.2 hp.1 hs hx) hk

/-- What all effects keep, every interpretation keeps. -/
theorem exec_inv {K : σ → Prop} (hK : ∀ e s r t, K s → h e s = some (r, t) → K t)
    {p : Prog E R α} {s t : σ} {a : α} (hs : K s) (hx : exec h p s = some (a, t)) : K t :=
  (exec_of_ensures h (fun e s r t _ => hK e s r t) (ensures_true p) hs hx).1

end Exec

/-! ### Assertions over the interpretation -/

/-- If the effects have an interpretation up to the end, `Q` holds there. -/
def Wp (h : (e : E) → σ → Option (R e × σ)) (Q : α → σ → Prop) : Prog E R α → σ → Prop
  | ret a, s => Q a s
  | vis e k, s => ∀ r t, h e s = some (r, t) → Wp h Q (k r) t

section Wp

variable {h : (e : E) → σ → Option (R e × σ)} {Q Q' : α → σ → Prop} {s : σ}

/-- **The sequence rule.** -/
theorem wp_bind (p : Prog E R α) (f : α → Prog E R β) {Q : β → σ → Prop} :
    Wp h Q (p >>= f) s ↔ Wp h (fun a t => Wp h Q (f a) t) p s := by
  induction p generalizing s with
  | ret a => exact Iff.rfl
  | vis e k ih => exact forall_congr' fun r => forall_congr' fun t => imp_congr_right fun _ => ih r

/-- One effect, then the rest. -/
theorem wp_perform {e : E} {f : R e → Prog E R α}
    (hf : ∀ r t, h e s = some (r, t) → Wp h Q (f r) t) :
    Wp h Q (perform e >>= f) s :=
  hf

/-- **The consequence rule.** -/
theorem Wp.mono {p : Prog E R α} (hp : Wp h Q p s) (hQ : ∀ a t, Q a t → Q' a t) : Wp h Q' p s := by
  induction p generalizing s with
  | ret a => exact hQ a s hp
  | vis e k ih => exact fun r t he => ih r (hp r t he)

theorem Wp.exec {p : Prog E R α} {a : α} {t : σ} (hp : Wp h Q p s)
    (hx : exec h p s = some (a, t)) : Q a t := by
  induction p generalizing s with
  | ret b =>
    cases hx
    exact hp
  | vis e k ih =>
    obtain ⟨x, hx, hk⟩ := Option.bind_eq_some_iff.1 hx
    exact ih x.1 (hp x.1 x.2 hx) hk

end Wp

/-! ### The effects of the interpretation -/

/-- On its way, interpreted by `h` from `s`, the program performs `e` in the state `u`. -/
inductive Performs (h : (e : E) → σ → Option (R e × σ)) : Prog E R α → σ → E → σ → Prop
  | here (e : E) (k : R e → Prog E R α) (s : σ) : Performs h (vis e k) s e s
  | later {e e' : E} {k : R e → Prog E R α} {s t u : σ} {r : R e} (he : h e s = some (r, t))
      (hk : Performs h (k r) t e' u) : Performs h (vis e k) s e' u

section Performs

variable {h : (e : E) → σ → Option (R e × σ)} {s t u : σ} {e : E}

/-- **The sequence rule.** -/
theorem performs_bind {p : Prog E R α} {f : α → Prog E R β} :
    Performs h (p >>= f) s e u ↔
      Performs h p s e u ∨ ∃ a t, exec h p s = some (a, t) ∧ Performs h (f a) t e u := by
  induction p generalizing s with
  | ret a =>
    constructor
    · intro hf
      exact Or.inr ⟨a, s, rfl, hf⟩
    · rintro (hp | ⟨_, _, hx, hf⟩)
      · cases hp
      · cases hx
        exact hf
  | vis e' k ih =>
    rw [vis_bind]
    constructor
    · intro hp
      cases hp with
      | here => exact Or.inl (.here _ _ _)
      | later he hk =>
        rcases (ih _).1 hk with hk | ⟨a, t, hx, hf⟩
        · exact Or.inl (.later he hk)
        · exact Or.inr ⟨a, t, by rw [exec_vis, he]; exact hx, hf⟩
    · rintro (hp | ⟨a, t, hx, hf⟩)
      · cases hp with
        | here => exact .here _ _ _
        | later he hk => exact .later he ((ih _).2 (Or.inl hk))
      · rw [exec_vis, Option.bind_eq_some_iff] at hx
        obtain ⟨x, he, hx⟩ := hx
        exact .later he ((ih _).2 (Or.inr ⟨a, t, hx, hf⟩))

theorem Ensures.performs {I : E → Prop} {Q : α → Prop} {p : Prog E R α} (hp : Ensures I Q p)
    (h' : Performs h p s e u) : I e := by
  induction h' with
  | here => exact hp.1
  | later _ _ ih => exact ih (hp.2 _)

end Performs

end Prog
