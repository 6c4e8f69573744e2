/-
Programs on a part of a state.

A program on a part of a larger state runs on the larger state and leaves the rest as it is.  A
program on the larger state follows one on the part if it does there what the other does, step
by step and up to the texts of errors; what is known of the second, with its faults and crashes,
is then known of the first.
-/
import GideonDB.Store.Program

namespace GideonDB.Store

/-- A part of a state: how it is read, how it is replaced, and when two states are the same
outside of it. -/
structure Part (S T : Type) where
  get : S → T
  put : S → T → S
  same : S → S → Prop
  get_put : ∀ s t, get (put s t) = t
  put_get : ∀ s, put s (get s) = s
  put_put : ∀ s t t', put (put s t) t' = put s t'
  same_put : ∀ s t, same s (put s t)
  same_refl : ∀ s, same s s
  same_trans : ∀ {s₁ s₂ s₃}, same s₁ s₂ → same s₂ s₃ → same s₁ s₃

namespace Prog

variable {S T ε α β : Type}

/-- The program on the larger state. -/
def zoom (part : Part S T) : Prog T ε α → Prog S ε α
  | done result => done result
  | mem f next => mem (fun s => part.put s (f (part.get s))) (next.zoom part)
  | io f next => io (fun s => part.put s (f (part.get s))) fun ok => (next ok).zoom part
  | look next => look fun s => (next (part.get s)).zoom part

/-- Errors with another text. -/
def mapError (f : ε → ε) : Prog S ε α → Prog S ε α
  | done (.ok a) => done (.ok a)
  | done (.error e) => done (.error (f e))
  | mem g next => mem g (next.mapError f)
  | io g next => io g fun ok => (next ok).mapError f
  | look next => look fun s => (next s).mapError f

variable {part : Part S T} {faulty : Prop}

variable {q : Prog T ε α}

lemma wp_zoom {Q : Except ε α → T → Prop} {C : T → Prop} {s : S}
    (h : q.wp faulty Q C (part.get s)) :
    (q.zoom part).wp faulty (fun result s' => ∃ t, s' = part.put s t ∧ Q result t)
      (fun s' => ∃ t, s' = part.put s t ∧ C t) s := by
  -- The induction goes through the states in which the part has been replaced already.
  suffices hput : ∀ t, q.wp faulty Q C t → (q.zoom part).wp faulty
      (fun result s' => ∃ t, s' = part.put s t ∧ Q result t)
      (fun s' => ∃ t, s' = part.put s t ∧ C t) (part.put s t) by
    have hget := hput (part.get s) h
    rwa [part.put_get] at hget
  clear h
  induction q with
  | done result => exact fun t h => ⟨t, rfl, h⟩
  | mem f next ih =>
    intro t h
    have hnext := ih (f t) h
    rw [zoom, wp, part.get_put, part.put_put]
    exact hnext
  | look next ih =>
    intro t h
    rw [zoom, wp, part.get_put]
    exact ih t t h
  | io f next ih =>
    intro t h
    rw [zoom, wp, part.get_put, part.put_put]
    exact ⟨⟨t, rfl, h.1⟩, ih true (f t) h.2.1, fun hfaulty =>
      ⟨ih false t (h.2.2 hfaulty).1, ih false (f t) (h.2.2 hfaulty).2⟩⟩

lemma Attains.zoom {q : Prog T ε Unit} {Up Down : T → Prop} {s : S}
    (h : q.Attains faulty (part.get s) Up Down) :
    (q.zoom part).Attains faulty s (fun s' => ∃ t, s' = part.put s t ∧ Up t)
      fun s' => ∃ t, s' = part.put s t ∧ Down t := by
  refine wp_mono (wp_zoom h) ?_ fun _ => id
  rintro (e | _) s' ⟨t, rfl, ht⟩
  · exact ⟨ht.1, t, rfl, ht.2⟩
  · exact ⟨t, rfl, ht⟩

variable {R : S → S → Prop}

lemma within_zoom (h : ∀ s t, R s (part.put s t)) (q : Prog T ε α) : (q.zoom part).Within R := by
  induction q with
  | done result => trivial
  | mem f next ih => exact ⟨fun s => h s _, ih⟩
  | look next ih => exact fun s => ih (part.get s)
  | io f next ih => exact ⟨fun s => h s _, ih⟩

variable {p : Prog S ε α}

lemma within_mapError (h : p.Within R) (f : ε → ε) : (p.mapError f).Within R := by
  induction p with
  | done result => cases result <;> trivial
  | mem g next ih => exact ⟨h.1, ih h.2⟩
  | look next ih => exact fun s => ih s (h s)
  | io g next ih => exact ⟨h.1, fun ok => ih ok (h.2 ok)⟩

lemma wp_mapError {f : ε → ε} {Q : Except ε α → S → Prop} {C : S → Prop} {s : S}
    (h : p.wp faulty (fun result s' => Q (result.mapError f) s') C s) :
    (p.mapError f).wp faulty Q C s := by
  induction p generalizing s with
  | done result => cases result <;> exact h
  | mem g next ih => exact ih h
  | look next ih => exact ih s h
  | io g next ih =>
    exact ⟨h.1, ih true h.2.1, fun hfaulty => ⟨ih false (h.2.2 hfaulty).1,
      ih false (h.2.2 hfaulty).2⟩⟩

/-- The program on the larger state does on the part what the other does, and nothing outside
of it. -/
def Follows (part : Part S T) (p : Prog S ε α) (q : Prog T ε α) : Prop :=
  ∀ (faulty : Prop) (Q : Except ε α → T → Prop) (C : T → Prop) (s : S),
    q.wp faulty Q C (part.get s) →
      p.wp faulty (fun result s' => part.same s s' ∧
        ∃ result', result'.toOption = result.toOption ∧ Q result' (part.get s'))
        (fun s' => part.same s s' ∧ C (part.get s')) s

namespace Follows

lemma of_done {result result' : Except ε α} (h : result'.toOption = result.toOption) :
    Follows part (done result : Prog S ε α) (done result') :=
  fun _ _ _ _ hQ => ⟨part.same_refl _, result', h, hQ⟩

lemma pure (a : α) : Follows part (pure a : Prog S ε α) (pure a) := of_done rfl

lemma throw (e e' : ε) : Follows part (throw e : Prog S ε α) (throw e') := of_done rfl

lemma zoom (q : Prog T ε α) : Follows part (q.zoom part) q := by
  intro faulty Q C s h
  refine wp_mono (wp_zoom h) ?_ ?_
  · rintro result s' ⟨t, rfl, hQ⟩
    exact ⟨part.same_put s t, result, rfl, (part.get_put s t).symm ▸ hQ⟩
  · rintro s' ⟨t, rfl, hC⟩
    exact ⟨part.same_put s t, (part.get_put s t).symm ▸ hC⟩

lemma mapError (h : Follows part p q) (f : ε → ε) : Follows part (p.mapError f) q := by
  intro faulty Q C s hq
  refine wp_mapError (wp_mono (h _ _ _ _ hq) (fun result s' hs' => ?_) fun _ => id)
  obtain ⟨hsame, result', hres', hQ⟩ := hs'
  refine ⟨hsame, result', hres'.trans ?_, hQ⟩
  cases result <;> rfl

lemma bind {k : α → Prog S ε β} {l : α → Prog T ε β} (h : Follows part p q)
    (hk : ∀ a, Follows part (k a) (l a)) : Follows part (p >>= k) (q >>= l) := by
  intro faulty Q C s hq
  rw [wp_bind] at hq
  refine wp_seq (h _ _ _ _ hq) (fun a s' hs' => ?_) fun e s' hs' => ?_
  · obtain ⟨hsame, result', hres', hafter⟩ := hs'
    cases result' with
    | error e => cases hres'
    | ok a' =>
      obtain rfl : a' = a := Option.some.inj hres'
      refine wp_mono (hk a' _ _ _ _ hafter) (fun _ s'' hs'' => ?_) fun s'' hs'' => ?_
      · exact ⟨part.same_trans hsame hs''.1, hs''.2⟩
      · exact ⟨part.same_trans hsame hs''.1, hs''.2⟩
  · obtain ⟨hsame, result', hres', hafter⟩ := hs'
    cases result' with
    | error e' => exact ⟨hsame, .error e', rfl, hafter⟩
    | ok a' => cases hres'

lemma ofExcept (x : Except ε α) : Follows part (ofExcept x : Prog S ε α) (Prog.ofExcept x) :=
  of_done rfl

lemma bind_state {k : S → Prog S ε α} {l : T → Prog T ε α}
    (h : ∀ s, Follows part (k s) (l (part.get s))) : Follows part (state >>= k) (state >>= l) :=
  fun _ _ _ s hq => h s _ _ _ s hq

lemma update {f : S → S} (hget : ∀ s, part.get (f s) = part.get s) (hsame : ∀ s, part.same s (f s))
    {k : Unit → Prog S ε α} (h : Follows part (k ()) q) : Follows part (update f >>= k) q := by
  intro faulty Q C s hq
  refine wp_mono (h _ Q C (f s) (by rwa [hget])) (fun _ s' hs' => ?_) fun s' hs' => ?_
  · exact ⟨part.same_trans (hsame s) hs'.1, hs'.2⟩
  · exact ⟨part.same_trans (hsame s) hs'.1, hs'.2⟩

end Follows

end Prog

end GideonDB.Store
