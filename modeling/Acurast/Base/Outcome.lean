import Mathlib.Tactic.Common

/-! Fallible computations over `Except`, and how a successful run of one is taken apart. -/

namespace Base

universe u
variable {ε : Type*} {α β : Type u}

def okOr (o : Option α) (e : ε) : Except ε α :=
  match o with
  | some a => .ok a
  | none => .error e

def ensure (p : Prop) [Decidable p] (e : ε) : Except ε Unit :=
  if p then .ok () else .error e

def whenSome (o : Option α) (b : β) (f : α → Except ε β) : Except ε β :=
  match o with
  | some a => f a
  | none => .ok b

def errorOf : Except ε α → Option ε
  | .ok _ => none
  | .error e => some e

variable {b b' : β} {f : α → Except ε β} {x : Except ε α} {e : ε} {a : α} {o : Option α}
  {l : List α} {P : α → Prop} {ok : β → α → Prop}

theorem bind_eq_ok : (x >>= f) = .ok b ↔ ∃ a, x = .ok a ∧ f a = .ok b := by
  cases x with
  | ok a => simp [bind, Except.bind]
  | error e => simp [bind, Except.bind]

theorem bind_eq_error : (x >>= f) = .error e ↔ x = .error e ∨ ∃ a, x = .ok a ∧ f a = .error e := by
  cases x with
  | ok a => simp [bind, Except.bind]
  | error e => simp [bind, Except.bind]

theorem pure_eq_ok {b : α} : (pure a : Except ε α) = .ok b ↔ a = b := by
  simp [pure, Except.pure]

theorem ok_eq_ok {b : α} : (Except.ok a : Except ε α) = .ok b ↔ a = b := by simp

theorem isOk_iff : x.isOk = true ↔ ∃ a, x = .ok a := by
  cases x with
  | ok a => simp [Except.isOk, Except.toBool]
  | error e => simp [Except.isOk, Except.toBool]

theorem mapError_eq_ok {ε' : Type*} {f : ε → ε'} : x.mapError f = .ok a ↔ x = .ok a := by
  cases x with
  | ok b => simp [Except.mapError]
  | error e => simp [Except.mapError]

theorem toOption_eq_some : x.toOption = some a ↔ x = .ok a := by
  cases x <;> simp [Except.toOption]

theorem okOr_eq_ok : okOr o e = .ok a ↔ o = some a := by
  cases o with
  | none => simp [okOr]
  | some b => simp [okOr]

theorem ensure_eq_ok {p : Prop} [Decidable p] {u : Unit} : ensure p e = .ok u ↔ p := by
  unfold ensure
  split_ifs with h <;> simp [h]

/-- The rules for taking a successful sequence of steps apart, for a simplifier. -/
theorem ok_iff : (∀ {α β : Type} {x : Except ε α} {f : α → Except ε β} {b : β},
      (x >>= f) = .ok b ↔ ∃ a, x = .ok a ∧ f a = .ok b) ∧
    (∀ {α : Type} {o : Option α} {e : ε} {a : α}, okOr o e = .ok a ↔ o = some a) ∧
    (∀ {p : Prop} [Decidable p] {e : ε} {u : Unit}, ensure p e = .ok u ↔ p) ∧
    (∀ {α : Type} {a b : α}, (pure a : Except ε α) = .ok b ↔ a = b) :=
  ⟨bind_eq_ok, okOr_eq_ok, ensure_eq_ok, pure_eq_ok⟩

theorem whenSome_eq_ok {c : β} :
    whenSome o b f = .ok c ↔ (o = none ∧ b = c) ∨ ∃ a, o = some a ∧ f a = .ok c := by
  cases o with
  | none => simp [whenSome]
  | some a => simp [whenSome]

theorem forM_eq_ok {α : Type*} {f : α → Except ε PUnit.{u + 1}} {l : List α} :
    l.forM f = .ok ⟨⟩ ↔ ∀ a ∈ l, f a = .ok ⟨⟩ := by
  induction l with
  | nil => simp [List.forM, pure, Except.pure]
  | cons a l ih =>
    rw [List.forall_mem_cons, ← ih]
    show (f a >>= fun _ => l.forM f) = .ok ⟨⟩ ↔ _
    rw [bind_eq_ok]
    exact ⟨fun ⟨⟨⟩, ha, hl⟩ => ⟨ha, hl⟩, fun ⟨ha, hl⟩ => ⟨⟨⟩, ha, hl⟩⟩

theorem forM_ensure_eq_error {α : Type*} {p : α → Prop} [DecidablePred p] {l : List α} {a : α}
    (ha : a ∈ l) (hp : ¬ p a) : l.forM (fun a => ensure (p a) e) = .error e := by
  induction l with
  | nil => cases ha
  | cons b l ih =>
    show (ensure (p b) e >>= fun _ => l.forM fun a => ensure (p a) e) = .error e
    by_cases hb : p b
    · have hm : a ∈ l := by
        rcases List.mem_cons.mp ha with rfl | hm
        · exact absurd hb hp
        · exact hm
      rw [bind_eq_error]
      exact .inr ⟨⟨⟩, ensure_eq_ok.mpr hb, ih hm⟩
    · rw [ensure, if_neg hb]
      rfl

theorem exists_mem_of_mapM_eq_ok {l' : List β} (h : l.mapM f = .ok l') (ha : a ∈ l) :
    ∃ b ∈ l', f a = .ok b := by
  induction l generalizing l' with
  | nil => cases ha
  | cons c l ih =>
    simp only [List.mapM_cons, bind_eq_ok, pure_eq_ok] at h
    obtain ⟨b, hb, bs, hs, rfl⟩ := h
    rcases List.mem_cons.mp ha with rfl | ha
    · exact ⟨b, List.mem_cons_self .., hb⟩
    · obtain ⟨b', hm, hb'⟩ := ih hs ha
      exact ⟨b', List.mem_cons_of_mem _ hm, hb'⟩

theorem foldlM_invariant {P : β → Prop} {f : β → α → Except ε β}
    (hf : ∀ b a b', f b a = .ok b' → P b → P b') (h : l.foldlM f b = .ok b') (hb : P b) : P b' := by
  induction l generalizing b with
  | nil =>
    rw [List.foldlM_nil, pure_eq_ok] at h
    exact h ▸ hb
  | cons a l ih =>
    rw [List.foldlM_cons, bind_eq_ok] at h
    obtain ⟨c, hc, hl⟩ := h
    exact ih hl (hf b a c hc hb)

def Avoids (e : ε) (x : Except ε α) : Prop := x ≠ .error e

section Avoids

variable {e e' : ε}

@[simp] theorem avoids_ok (a : α) : Avoids e (.ok a : Except ε α) := nofun

@[simp] theorem avoids_pure (a : α) : Avoids e (pure a : Except ε α) := nofun

@[simp] theorem avoids_throw : Avoids e (throw e' : Except ε α) ↔ e' ≠ e := by
  simp [Avoids, throw, throwThe, MonadExceptOf.throw]

variable {f : α → Except ε β} {x : Except ε α} {o : Option α}

@[simp] theorem avoids_bind :
    Avoids e (x >>= f) ↔ Avoids e x ∧ ∀ a, x = .ok a → Avoids e (f a) := by
  unfold Avoids
  rw [ne_eq, bind_eq_error, not_or, not_exists]
  simp only [not_and]

@[simp] theorem avoids_map {f : α → β} : Avoids e (f <$> x) ↔ Avoids e x := by
  cases x <;> simp [Avoids]

@[simp] theorem avoids_okOr : Avoids e (okOr o e') ↔ (o = none → e' ≠ e) := by
  cases o <;> simp [Avoids, okOr]

@[simp] theorem avoids_ensure {p : Prop} [Decidable p] : Avoids e (ensure p e') ↔ (¬ p → e' ≠ e) := by
  unfold Avoids ensure
  split_ifs with h <;> simp [h]

@[simp] theorem avoids_ite {c : Prop} [Decidable c] {y : Except ε α} :
    Avoids e (if c then x else y) ↔ (c → Avoids e x) ∧ (¬ c → Avoids e y) := by
  split_ifs with h <;> simp [h]

@[simp] theorem avoids_whenSome {b : β} :
    Avoids e (whenSome o b f) ↔ ∀ a, o = some a → Avoids e (f a) := by
  cases o <;> simp [Avoids, whenSome]

theorem avoids_foldlM_iff {f : β → α → Except ε β} {l : List α} {b : β} :
    Avoids e (l.foldlM f b) ↔ ∀ l₁ a l₂ b₁, l = l₁ ++ a :: l₂ → l₁.foldlM f b = .ok b₁ →
      Avoids e (f b₁ a) := by
  induction l generalizing b with
  | nil => simp
  | cons x l ih =>
    rw [List.foldlM_cons, avoids_bind]
    constructor
    · rintro ⟨hx, hl⟩ (- | ⟨y, l₁⟩) a l₂ b₁ heq hb
      · obtain ⟨rfl, -⟩ := List.cons.inj heq
        rw [← Except.ok.inj hb]
        exact hx
      · obtain ⟨rfl, hrest⟩ := List.cons.inj heq
        rw [List.foldlM_cons, bind_eq_ok] at hb
        obtain ⟨b', hf, hb⟩ := hb
        exact ih.mp (hl b' hf) l₁ a l₂ b₁ hrest hb
    · intro h
      refine ⟨h [] x l b rfl rfl, fun b' hf => ih.mpr fun l₁ a l₂ b₁ heq hb => ?_⟩
      refine h (x :: l₁) a l₂ b₁ (by rw [heq, List.cons_append]) ?_
      rw [List.foldlM_cons, bind_eq_ok]
      exact ⟨b', hf, hb⟩

theorem avoids_foldlM {f : β → α → Except ε β} (hf : ∀ b a, Avoids e (f b a)) (l : List α) (b : β) :
    Avoids e (l.foldlM f b) :=
  avoids_foldlM_iff.mpr fun _ a _ b₁ _ _ => hf b₁ a

theorem avoids_forM {α : Type*} {f : α → Except ε PUnit.{u + 1}} (hf : ∀ a, Avoids e (f a)) (l : List α) :
    Avoids e (l.forM f) := by
  induction l with
  | nil => exact avoids_pure _
  | cons a l ih =>
    show Avoids e (f a >>= fun _ => l.forM f)
    rw [avoids_bind]
    exact ⟨hf a, fun _ _ => ih⟩

end Avoids

def WhenOk (x : Except ε α) (P : α → Prop) : Prop :=
  match x with
  | .ok a => P a
  | .error _ => True

instance decidableWhenOk (x : Except ε α) (P : α → Prop) [∀ a, Decidable (P a)] :
    Decidable (WhenOk x P) :=
  match x with
  | .ok a => inferInstanceAs (Decidable (P a))
  | .error _ => isTrue trivial

theorem WhenOk.of_eq_ok (h : WhenOk x P) (hx : x = .ok a) : P a := by
  rw [hx] at h
  exact h

theorem WhenOk.of_forall (h : ∀ a, P a) (x : Except ε α) : WhenOk x P := by
  cases x with
  | ok a => exact h a
  | error e => trivial

def AlongM (f : β → α → Except ε β) (ok : β → α → Prop) : β → List α → Prop
  | _, [] => True
  | b, a :: l => ok b a ∧ WhenOk (f b a) fun b' => AlongM f ok b' l

instance decidableAlongM (f : β → α → Except ε β) (ok : β → α → Prop) [∀ b a, Decidable (ok b a)] :
    (b : β) → (l : List α) → Decidable (AlongM f ok b l)
  | _, [] => isTrue trivial
  | b, a :: l =>
    have := fun b' => decidableAlongM f ok b' l
    inferInstanceAs (Decidable (ok b a ∧ WhenOk (f b a) fun b' => AlongM f ok b' l))

theorem alongM_cons {f : β → α → Except ε β} (h : AlongM f ok b (a :: l)) (hf : f b a = .ok b') :
    ok b a ∧ AlongM f ok b' l :=
  ⟨h.1, h.2.of_eq_ok hf⟩

theorem foldlM_relates {R : β → β → Prop} {f : β → α → Except ε β} (hr : ∀ b, R b b)
    (ht : ∀ {b c d}, R b c → R c d → R b d) (hf : ∀ b a b', f b a = .ok b' → ok b a → R b b')
    (h : l.foldlM f b = .ok b') (hk : AlongM f ok b l) : R b b' := by
  induction l generalizing b with
  | nil =>
    rw [List.foldlM_nil, pure_eq_ok] at h
    exact h ▸ hr b
  | cons a l ih =>
    rw [List.foldlM_cons, bind_eq_ok] at h
    obtain ⟨c, hc, hl⟩ := h
    obtain ⟨ha, ho⟩ := alongM_cons hk hc
    exact ht (hf b a c hc ha) (ih hl ho)

theorem AlongM.of_forall {f : β → α → Except ε β} (h : ∀ b a, ok b a) (b : β) (l : List α) :
    AlongM f ok b l := by
  induction l generalizing b with
  | nil => trivial
  | cons a l ih => exact ⟨h b a, .of_forall ih _⟩

end Base
