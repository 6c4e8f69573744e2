/-
Loops that return at the first error.

A `for` loop with an accumulator that may return an error is `foldlM` in `Except`.
`foldlM_eq_ok_of_fresh` is about the loops that reject an element whose key they have seen
before: such a loop succeeds exactly if every element is good, the keys are distinct and
none has been seen before the loop, and its result is then that of the loop without the
checks.
-/
import Mathlib.Data.List.Nodup

namespace GideonDB.Go

open List

universe v

variable {ε α β K : Type*} {f : β → α → Except ε β} {b r : β}

lemma exists_error {x : Except ε α} (h : ¬ x.isOk) : ∃ e, x = .error e := by
  cases x with
  | error e => exact ⟨e, rfl⟩
  | ok a => exact absurd rfl h

lemma bind_eq_ok {γ δ : Type v} {x : Except ε γ} {g : γ → Except ε δ} {r : δ} :
    (x >>= g) = .ok r ↔ ∃ a, x = .ok a ∧ g a = .ok r := by
  cases x with
  | error e => simp [Bind.bind, Except.bind]
  | ok a => simp [Bind.bind, Except.bind]

lemma map_eq_ok {γ δ : Type*} {x : Except ε γ} {g : γ → δ} {r : δ} :
    x.map g = .ok r ↔ ∃ a, x = .ok a ∧ g a = r := by
  cases x with
  | error e => simp [Except.map]
  | ok a => simp [Except.map]

lemma map_eq_error {γ δ : Type*} {x : Except ε γ} {g : γ → δ} {e : ε} :
    x.map g = .error e ↔ x = .error e := by
  cases x <;> simp [Except.map]

lemma mapError_eq_ok {ε' γ : Type*} {x : Except ε γ} {g : ε → ε'} {r : γ} :
    x.mapError g = .ok r ↔ x = .ok r := by
  cases x with
  | error e => simp [Except.mapError]
  | ok a => simp [Except.mapError]

lemma foldlM_cons_eq_ok {x : α} {l : List α} :
    (x :: l).foldlM f b = .ok r ↔ ∃ mid, f b x = .ok mid ∧ l.foldlM f mid = .ok r := by
  rw [foldlM_cons, bind_eq_ok]

/-- What every step keeps holds after the loop. -/
lemma foldlM_invariant {P : β → Prop} {l : List α}
    (hstep : ∀ x ∈ l, ∀ {b b'}, P b → f b x = .ok b' → P b') (hb : P b) (h : l.foldlM f b = .ok r) :
    P r := by
  induction l generalizing b with
  | nil =>
    cases h
    exact hb
  | cons x l ih =>
    obtain ⟨mid, hmid, h⟩ := foldlM_cons_eq_ok.1 h
    rw [forall_mem_cons] at hstep
    exact ih hstep.2 (hstep.1 hb hmid) h

/-- A loop that follows another one step by step. -/
lemma foldlM_simulation {ε' γ : Type*} {g : γ → α → Except ε' γ} {R : β → γ → Prop} {l : List α}
    {c : γ} (hstep : ∀ x ∈ l, ∀ {b c b'}, R b c → f b x = .ok b' → ∃ c', g c x = .ok c' ∧ R b' c')
    (hbc : R b c) (h : l.foldlM f b = .ok r) : ∃ c', l.foldlM g c = .ok c' ∧ R r c' := by
  induction l generalizing b c with
  | nil =>
    cases h
    exact ⟨c, rfl, hbc⟩
  | cons x l ih =>
    obtain ⟨mid, hmid, h⟩ := foldlM_cons_eq_ok.1 h
    rw [forall_mem_cons] at hstep
    obtain ⟨c₁, hc₁, hbc₁⟩ := hstep.1 hbc hmid
    obtain ⟨c', hc', hr⟩ := ih hstep.2 hbc₁ h
    exact ⟨c', foldlM_cons_eq_ok.2 ⟨c₁, hc₁, hc'⟩, hr⟩

/-- A loop that rejects keys it has seen. -/
lemma foldlM_eq_ok_of_fresh [DecidableEq K] {good : α → Prop} {push : β → α → β}
    (seen : β → K → Bool) (key : α → K)
    (hstep : ∀ b x r, f b x = .ok r ↔ good x ∧ seen b (key x) = false ∧ r = push b x)
    (hseen : ∀ b x k, seen (push b x) k = (decide (k = key x) || seen b k)) {l : List α} :
    l.foldlM f b = .ok r ↔
      (∀ x ∈ l, good x) ∧ (l.map key).Nodup ∧ (∀ x ∈ l, seen b (key x) = false) ∧
        r = l.foldl push b := by
  induction l generalizing b with
  | nil => simp [Pure.pure, Except.pure, eq_comm (a := r)]
  | cons x l ih =>
    simp only [foldlM_cons_eq_ok, hstep, ih, forall_mem_cons, map_cons,
      nodup_cons, foldl_cons]
    constructor
    · rintro ⟨mid, ⟨hx, hnew, rfl⟩, hall, hnodup, hfree, rfl⟩
      refine ⟨⟨hx, hall⟩, ⟨fun hmem => ?_, hnodup⟩, ⟨hnew, fun y hy => ?_⟩, rfl⟩
      · obtain ⟨y, hy, heq⟩ := mem_map.1 hmem
        simpa [hseen, heq] using hfree y hy
      · have hy := hfree y hy
        rw [hseen, Bool.or_eq_false_iff] at hy
        exact hy.2
    · rintro ⟨⟨hx, hall⟩, ⟨hnot, hnodup⟩, ⟨hnew, hfree⟩, rfl⟩
      refine ⟨_, ⟨hx, hnew, rfl⟩, hall, hnodup, fun y hy => ?_, rfl⟩
      have hne : key y ≠ key x := fun heq => hnot (heq ▸ mem_map_of_mem hy)
      simp [hseen, hne, hfree y hy]

/-- Elements that are good and new are appended. -/
lemma foldlM_eq_append {γ : Type*} {f : List γ → α → Except ε (List γ)} {g : α → γ} {key : γ → K}
    {l : List α} {acc : List γ}
    (hstep : ∀ acc, ∀ x ∈ l, key (g x) ∉ acc.map key → f acc x = .ok (acc ++ [g x]))
    (hnodup : (acc.map key ++ l.map (key ∘ g)).Nodup) : l.foldlM f acc = .ok (acc ++ l.map g) := by
  induction l generalizing acc with
  | nil => simp [Pure.pure, Except.pure]
  | cons x l ih =>
    have hfresh : key (g x) ∉ acc.map key := fun hmem =>
      (nodup_append.1 hnodup).2.2 _ hmem _ mem_cons_self rfl
    rw [foldlM_cons, hstep acc x mem_cons_self hfresh]
    refine (ih (fun acc y hy => hstep acc y (mem_cons_of_mem _ hy)) ?_).trans ?_
    · simpa using hnodup
    · simp

lemma foldl_pair {γ : Type*} (f : β → α → β) (g : γ → α → γ) (l : List α) (b : β) (c : γ) :
    l.foldl (fun acc x => (f acc.1 x, g acc.2 x)) (b, c) = (l.foldl f b, l.foldl g c) := by
  induction l generalizing b c with
  | nil => rfl
  | cons x l ih => exact ih _ _

end GideonDB.Go
