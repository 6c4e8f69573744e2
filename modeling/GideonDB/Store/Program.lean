/-
Programs of file operations.

A program changes its memory, which always succeeds, and issues file operations.  A file
operation can fail, before or after it has taken effect, and the process can crash between
any two of them.  `wp` is the weakest precondition of a program: beside the condition on the
result it takes one on every state in which a crash can leave the files.

A run without faults is the case in which no operation fails; the crash points remain.
-/
import Mathlib.Tactic.Common

namespace GideonDB.Store

/-- A program over states `S` with errors `ε` and results `α`. -/
inductive Prog (S ε α : Type)
  | done (result : Except ε α)
  /-- A step in memory. -/
  | mem (f : S → S) (next : Prog S ε α)
  /-- A file operation; the program goes on with whether it succeeded. -/
  | io (f : S → S) (next : Bool → Prog S ε α)
  /-- The state, read. -/
  | look (next : S → Prog S ε α)

/-- How a file operation ends. -/
inductive Fault
  | ok
  /-- It fails and has no effect. -/
  | fail
  /-- It takes effect and fails all the same. -/
  | failAfter
  /-- The process crashes before it. -/
  | crash
deriving DecidableEq, Repr

/-- How a program ends: with a result and the faults that are left, or in a crash. -/
inductive Outcome (S ε α : Type)
  | finished (s : S) (rest : List Fault) (result : Except ε α)
  | crashed (s : S)

namespace Outcome

variable {S ε α : Type}

/-- The state it leaves. -/
def state : Outcome S ε α → S
  | finished s _ _ => s
  | crashed s => s

/-- The run has crashed. -/
def isCrash : Outcome S ε α → Bool
  | finished _ _ _ => false
  | crashed _ => true

lemma eq_crashed {outcome : Outcome S ε α} (h : outcome.isCrash) :
    outcome = crashed outcome.state := by
  cases outcome with
  | finished s rest result => cases h
  | crashed s => rfl

/-- `Q` holds of a result, `C` of a crash. -/
def Meets (Q : Except ε α → S → Prop) (C : S → Prop) : Outcome S ε α → Prop
  | .finished s _ result => Q result s
  | .crashed s => C s

lemma Meets.mono {outcome : Outcome S ε α} {Q Q' : Except ε α → S → Prop} {C C' : S → Prop}
    (h : outcome.Meets Q C) (hQ : ∀ result s, Q result s → Q' result s) (hC : ∀ s, C s → C' s) :
    outcome.Meets Q' C' := by
  cases outcome with
  | finished s rest result => exact hQ result s h
  | crashed s => exact hC s h

end Outcome

namespace Prog

variable {S ε α β : Type}

/-- Sequential composition; an error ends the program. -/
def bind : Prog S ε α → (α → Prog S ε β) → Prog S ε β
  | done (.ok a), k => k a
  | done (.error e), _ => done (.error e)
  | mem f next, k => mem f (next.bind k)
  | io f next, k => io f fun ok => (next ok).bind k
  | look next, k => look fun s => (next s).bind k

instance : Monad (Prog S ε) where
  pure a := done (.ok a)
  bind := bind

/-- Fails at once. -/
def throw (e : ε) : Prog S ε α := done (.error e)

/-- Returns the state. -/
def state : Prog S ε S := look fun s => done (.ok s)

/-- A change of memory. -/
def update (f : S → S) : Prog S ε Unit := mem f (done (.ok ()))

/-- A file operation and whether it succeeded. -/
def attempt (f : S → S) : Prog S ε Bool := io f fun ok => done (.ok ok)

/-- A file operation whose failure ends the program with an error. -/
def file (e : ε) (f : S → S) : Prog S ε Unit :=
  io f fun ok => done (if ok then .ok () else .error e)

/-- A computation that does not touch the state. -/
def ofExcept (x : Except ε α) : Prog S ε α := done x

/-! ### Execution -/

/-- Execution with the given faults; where the list ends, all further operations succeed. -/
def run : Prog S ε α → List Fault → S → Outcome S ε α
  | done result, faults, s => .finished s faults result
  | mem f next, faults, s => next.run faults (f s)
  | look next, faults, s => (next s).run faults s
  | io f next, [], s => (next true).run [] (f s)
  | io f next, .ok :: faults, s => (next true).run faults (f s)
  | io _ next, .fail :: faults, s => (next false).run faults s
  | io f next, .failAfter :: faults, s => (next false).run faults (f s)
  | io _ _, .crash :: _, s => .crashed s

/-- A run without faults. -/
def eval : Prog S ε α → S → S × Except ε α
  | done result, s => (s, result)
  | mem f next, s => next.eval (f s)
  | look next, s => (next s).eval s
  | io f next, s => (next true).eval (f s)

/-- The weakest precondition for a result with `Q` and, at every crash, a state with `C`.
Operations can fail only if `faulty`. -/
def wp (faulty : Prop) (Q : Except ε α → S → Prop) (C : S → Prop) : Prog S ε α → S → Prop
  | done result, s => Q result s
  | mem f next, s => next.wp faulty Q C (f s)
  | look next, s => (next s).wp faulty Q C s
  | io f next, s => C s ∧ (next true).wp faulty Q C (f s) ∧
      (faulty → (next false).wp faulty Q C s ∧ (next false).wp faulty Q C (f s))

variable {faulty : Prop} {Q Q' : Except ε α → S → Prop} {C C' : S → Prop}

/-- The weakest precondition covers every execution. -/
theorem run_of_wp {p : Prog S ε α} {s : S} (h : p.wp faulty Q C s) {faults : List Fault}
    (hfaults : ∀ fault ∈ faults, fault = .fail ∨ fault = .failAfter → faulty) :
    (p.run faults s).Meets Q C := by
  induction p generalizing s faults with
  | done result => exact h
  | mem f next ih => exact ih h hfaults
  | look next ih => exact ih s h hfaults
  | io f next ih =>
    obtain ⟨hcrash, hok, hfail⟩ := h
    cases faults with
    | nil => exact ih true hok hfaults
    | cons fault faults =>
      have hrest := (List.forall_mem_cons.1 hfaults).2
      cases fault with
      | ok => exact ih true hok hrest
      | fail => exact ih false (hfail (hfaults _ List.mem_cons_self (.inl rfl))).1 hrest
      | failAfter => exact ih false (hfail (hfaults _ List.mem_cons_self (.inr rfl))).2 hrest
      | crash => exact hcrash

variable {p : Prog S ε α} {s : S}

lemma meets_of_wp (h : p.wp True Q C s) (faults : List Fault) : (p.run faults s).Meets Q C :=
  run_of_wp h fun _ _ _ => trivial

lemma finished_of_wp (h : p.wp True Q C s) {faults rest : List Fault} {s' : S}
    {result : Except ε α} (hrun : p.run faults s = .finished s' rest result) : Q result s' := by
  have hmeets := meets_of_wp h faults
  rwa [hrun] at hmeets

/-- The execution without faults is one of them. -/
theorem eval_of_wp (h : p.wp faulty Q C s) : Q (p.eval s).2 (p.eval s).1 := by
  induction p generalizing s with
  | done result => exact h
  | mem f next ih => exact ih h
  | look next ih => exact ih s h
  | io f next ih => exact ih true h.2.1

lemma wp_mono (h : p.wp faulty Q C s) (hQ : ∀ result s, Q result s → Q' result s)
    (hC : ∀ s, C s → C' s) : p.wp faulty Q' C' s := by
  induction p generalizing s with
  | done result => exact hQ _ _ h
  | mem f next ih => exact ih h
  | look next ih => exact ih s h
  | io f next ih =>
    exact ⟨hC s h.1, ih true h.2.1, fun hf => ⟨ih false (h.2.2 hf).1, ih false (h.2.2 hf).2⟩⟩

lemma wp_of_faulty {faulty' : Prop} (h : p.wp faulty' Q C s)
    (himp : faulty → faulty') : p.wp faulty Q C s := by
  induction p generalizing s with
  | done result => exact h
  | mem f next ih => exact ih h
  | look next ih => exact ih s h
  | io f next ih =>
    exact ⟨h.1, ih true h.2.1, fun hf =>
      ⟨ih false (h.2.2 (himp hf)).1, ih false (h.2.2 (himp hf)).2⟩⟩

lemma wp_trivial (p : Prog S ε α) (s : S) : p.wp faulty (fun _ _ => True) (fun _ => True) s := by
  induction p generalizing s with
  | done result => trivial
  | mem f next ih => exact ih (f s)
  | look next ih => exact ih s s
  | io f next ih => exact ⟨trivial, ih true _, fun _ => ⟨ih false _, ih false _⟩⟩

lemma wp_and (h : p.wp faulty Q C s) (h' : p.wp faulty Q' C' s) :
    p.wp faulty (fun result s => Q result s ∧ Q' result s) (fun s => C s ∧ C' s) s := by
  induction p generalizing s with
  | done result => exact ⟨h, h'⟩
  | mem f next ih => exact ih h h'
  | look next ih => exact ih s h h'
  | io f next ih =>
    exact ⟨⟨h.1, h'.1⟩, ih true h.2.1 h'.2.1, fun hf =>
      ⟨ih false (h.2.2 hf).1 (h'.2.2 hf).1, ih false (h.2.2 hf).2 (h'.2.2 hf).2⟩⟩

/-! ### The rules -/

@[simp] lemma wp_pure (a : α) (s : S) : wp faulty Q C (pure a) s ↔ Q (.ok a) s := Iff.rfl

@[simp] lemma wp_ofExcept (x : Except ε α) (s : S) : wp faulty Q C (ofExcept x) s ↔ Q x s :=
  Iff.rfl

@[simp] lemma wp_state {Q : Except ε S → S → Prop} (s : S) :
    wp faulty Q C state s ↔ Q (.ok s) s := Iff.rfl

@[simp] lemma wp_update {Q : Except ε Unit → S → Prop} (f : S → S) (s : S) :
    wp faulty Q C (update f) s ↔ Q (.ok ()) (f s) := Iff.rfl

@[simp] lemma wp_attempt {Q : Except ε Bool → S → Prop} (f : S → S) (s : S) :
    wp faulty Q C (attempt f) s ↔ C s ∧ Q (.ok true) (f s) ∧
      (faulty → Q (.ok false) s ∧ Q (.ok false) (f s)) := Iff.rfl

@[simp] lemma wp_file {Q : Except ε Unit → S → Prop} (e : ε) (f : S → S) (s : S) :
    wp faulty Q C (file e f) s ↔ C s ∧ Q (.ok ()) (f s) ∧
      (faulty → Q (.error e) s ∧ Q (.error e) (f s)) := Iff.rfl

/-- The postcondition of the first part of a composition. -/
def after (k : α → Prog S ε β) (faulty : Prop) (Q : Except ε β → S → Prop) (C : S → Prop) :
    Except ε α → S → Prop
  | .ok a, s => wp faulty Q C (k a) s
  | .error e, s => Q (.error e) s

variable {k : α → Prog S ε β}

@[simp] lemma after_ok {Q : Except ε β → S → Prop} (a : α) (s : S) :
    after k faulty Q C (.ok a) s ↔ wp faulty Q C (k a) s := Iff.rfl

@[simp] lemma after_error {Q : Except ε β → S → Prop} (e : ε) (s : S) :
    after k faulty Q C (.error e) s ↔ Q (.error e) s := Iff.rfl

@[simp] lemma wp_bind {Q : Except ε β → S → Prop} :
    wp faulty Q C (p >>= k) s ↔ wp faulty (after k faulty Q C) C p s := by
  change wp faulty Q C (p.bind k) s ↔ _
  induction p generalizing s with
  | done result => cases result <;> exact Iff.rfl
  | mem f next ih => exact ih
  | look next ih => exact ih s
  | io f next ih => exact and_congr_right' (and_congr (ih true) (imp_congr_right fun _ =>
    and_congr (ih false) (ih false)))

lemma wp_seq {P : Except ε α → S → Prop} {Q : Except ε β → S → Prop} (h : p.wp faulty P C s)
    (hok : ∀ a s, P (.ok a) s → (k a).wp faulty Q C s)
    (herror : ∀ e s, P (.error e) s → Q (.error e) s) : (p >>= k).wp faulty Q C s := by
  rw [wp_bind]
  refine wp_mono h (fun result s hP => ?_) fun _ => id
  cases result with
  | ok a => exact hok a s hP
  | error e => exact herror e s hP

@[simp] lemma eval_bind (p : Prog S ε α) (k : α → Prog S ε β) (s : S) :
    eval (p >>= k) s = match (p.eval s).2 with
      | .ok a => (k a).eval (p.eval s).1
      | .error e => ((p.eval s).1, .error e) := by
  change eval (p.bind k) s = _
  induction p generalizing s with
  | done result => cases result <;> rfl
  | mem f next ih => exact ih (f s)
  | look next ih => exact ih s s
  | io f next ih => exact ih true (f s)

lemma run_bind (p : Prog S ε α) (k : α → Prog S ε β) (faults : List Fault) (s : S) :
    run (p >>= k) faults s = match p.run faults s with
      | .finished s' rest (.ok a) => (k a).run rest s'
      | .finished s' rest (.error e) => .finished s' rest (.error e)
      | .crashed s' => .crashed s' := by
  change run (p.bind k) faults s = _
  induction p generalizing faults s with
  | done result => cases result <;> rfl
  | mem f next ih => exact ih faults (f s)
  | look next ih => exact ih s faults s
  | io f next ih =>
    cases faults with
    | nil => exact ih true [] (f s)
    | cons fault faults =>
      cases fault with
      | ok => exact ih true faults (f s)
      | fail => exact ih false faults s
      | failAfter => exact ih false faults (f s)
      | crash => rfl

lemma run_bind_state (k : S → Prog S ε α) (faults : List Fault) (s : S) :
    (state >>= k).run faults s = (k s).run faults s := rfl

lemma wp_bind_state {k : S → Prog S ε α} (h : (k s).wp faulty Q C s) :
    (state >>= k).wp faulty Q C s := h

lemma bind_assoc {γ : Type} (p : Prog S ε α) (k : α → Prog S ε β) (l : β → Prog S ε γ) :
    p >>= k >>= l = p >>= fun a => k a >>= l := by
  change (p.bind k).bind l = p.bind fun a => (k a).bind l
  induction p with
  | done result => cases result <;> rfl
  | mem f next ih => exact congrArg (mem f) ih
  | look next ih => exact congrArg look (funext ih)
  | io f next ih => exact congrArg (io f) (funext ih)

lemma bind_unit (p : Prog S ε Unit) : (p >>= fun _ => pure ()) = p := by
  change p.bind (fun _ => done (.ok ())) = p
  induction p with
  | done result => cases result <;> rfl
  | mem f next ih => exact congrArg (mem f) ih
  | look next ih => exact congrArg look (funext ih)
  | io f next ih => exact congrArg (io f) (funext ih)

lemma run_nil (p : Prog S ε α) (s : S) : p.run [] s = .finished (p.eval s).1 [] (p.eval s).2 := by
  induction p generalizing s with
  | done result => rfl
  | mem f next ih => exact ih (f s)
  | look next ih => exact ih s s
  | io f next ih => exact ih true (f s)

lemma run_nil_of_eval {p : Prog S ε α} {s : S} {result : Except ε α} (h : (p.eval s).2 = result) :
    p.run [] s = .finished (p.eval s).1 [] result := by
  rw [run_nil, h]

/-! ### Partial results -/

/-- If the program returns a value, the value and the state have the property. -/
def Ensures (p : Prog S ε α) (s : S) (Q : α → S → Prop) : Prop :=
  p.wp True (fun result s' => ∀ a, result = .ok a → Q a s') (fun _ => True) s

variable {f : S → S} {e : ε}

namespace Ensures

variable {Q : α → S → Prop} {s : S}

lemma pure {a : α} (h : Q a s) : Ensures (pure a : Prog S ε α) s Q := by
  intro a' ha'
  cases ha'
  exact h

lemma throw (e : ε) : Ensures (throw e : Prog S ε α) s Q := by
  intro a ha
  cases ha

lemma any (p : Prog S ε α) : p.Ensures s fun _ _ => True :=
  wp_mono (wp_trivial p s) (fun _ _ _ _ _ => trivial) fun _ => id

lemma bind_state {k : S → Prog S ε α} (h : (k s).Ensures s Q) : Ensures (state >>= k) s Q := h

lemma bind_update {k : Unit → Prog S ε α} (h : (k ()).Ensures (f s) Q) :
    Ensures (update f >>= k) s Q := h

lemma bind_ofExcept {x : Except ε β} {k : β → Prog S ε α} (h : ∀ b, x = .ok b → (k b).Ensures s Q) :
    Ensures (Prog.ofExcept x >>= k) s Q := by
  cases x with
  | ok b => exact h b rfl
  | error e => exact throw e

lemma file {Q : Unit → S → Prop} (h : Q () (f s)) : Ensures (file e f) s Q := by
  refine ⟨trivial, fun _ _ => h, fun _ => ⟨?_, ?_⟩⟩ <;> intro a ha <;> cases ha

lemma mono {Q' : α → S → Prop} (h : p.Ensures s Q)
    (hQ : ∀ a s', Q a s' → Q' a s') : p.Ensures s Q' :=
  wp_mono h (fun _ s' hs' a ha => hQ a s' (hs' a ha)) fun _ => id

lemma and {Q' : α → S → Prop} (h : p.Ensures s Q) (h' : p.Ensures s Q') :
    p.Ensures s fun a s' => Q a s' ∧ Q' a s' :=
  wp_mono (wp_and h h') (fun _ _ hs' a ha => ⟨hs'.1 a ha, hs'.2 a ha⟩) fun _ _ => trivial

lemma bind {Q' : β → S → Prop} (h : p.Ensures s Q)
    (hk : ∀ a s', Q a s' → (k a).Ensures s' Q') : Ensures (p >>= k) s Q' :=
  wp_seq h (fun a s' hs' => hk a s' (hs' a rfl)) nofun

end Ensures

/-- Without failures the program returns a value. -/
def Succeeds (p : Prog S ε α) (s : S) : Prop :=
  p.wp False (fun result _ => ∃ a, result = .ok a) (fun _ => True) s

namespace Succeeds

variable {s : S}

lemma pure (a : α) : Succeeds (pure a : Prog S ε α) s := ⟨a, rfl⟩

lemma file : Succeeds (file e f) s := ⟨trivial, ⟨(), rfl⟩, False.elim⟩

lemma bind (h : p.Succeeds s) (hk : ∀ a s', (k a).Succeeds s') : Succeeds (p >>= k) s :=
  wp_seq h (fun a s' _ => hk a s') fun e _ ⟨a, ha⟩ => by cases ha

lemma wp {p : Prog S ε α} (h : p.Succeeds s) {Q : α → S → Prop} (hQ : p.Ensures s Q) :
    p.wp False (fun result s' => ∃ a, result = .ok a ∧ Q a s') (fun _ => True) s :=
  wp_mono (wp_and h (wp_of_faulty hQ fun _ => trivial))
    (fun _ _ ⟨⟨a, ha⟩, hs'⟩ => ⟨a, ha, hs' a ha⟩) fun _ _ => trivial

end Succeeds

/-! ### Programs that only faults end -/

/-- What a program leads to, by its result. -/
def Ends (Up Down : S → Prop) : Except ε Unit → S → Prop
  | .ok _ => Up
  | .error _ => Down

/-- The program ends well, with `Up`.  It fails only if there are faults, and what it leaves then
and at every crash has `Down`. -/
def Attains (faulty : Prop) (p : Prog S ε Unit) (s : S) (Up Down : S → Prop) : Prop :=
  p.wp faulty (Ends Up fun s' => faulty ∧ Down s') Down s

namespace Attains

variable {p : Prog S ε Unit} {Up Up' Down Down' : S → Prop} {s : S}

lemma mono (h : p.Attains faulty s Up Down) (hup : ∀ s', Up s' → Up' s')
    (hdown : ∀ s', Down s' → Down' s') : p.Attains faulty s Up' Down' := by
  refine wp_mono h (fun result s' hs' => ?_) hdown
  cases result with
  | ok => exact hup s' hs'
  | error e => exact ⟨hs'.1, hdown s' hs'.2⟩

lemma bind {k : Unit → Prog S ε Unit} (h : p.Attains faulty s Up Down)
    (hk : ∀ s', Up s' → (k ()).Attains faulty s' Up' Down) : Attains faulty (p >>= k) s Up' Down :=
  wp_seq h (fun _ => hk) fun _ _ => id

lemma wp (h : p.Attains faulty s Up Up) : p.wp faulty (fun _ => Up) Up s := by
  refine wp_mono h (fun result s' hs' => ?_) fun _ => id
  cases result with
  | ok => exact hs'
  | error e => exact hs'.2

lemma meets (h : p.Attains True s Up Down) (faults : List Fault) :
    (p.run faults s).Meets (Ends Up Down) Down := by
  refine (meets_of_wp h faults).mono (fun result s' hs' => ?_) fun _ => id
  cases result with
  | ok => exact hs'
  | error e => exact hs'.2

lemma ok (h : p.Attains False s Up Down) :
    p.wp False (fun result s' => result = .ok () ∧ Up s') Down s := by
  refine wp_mono h (fun result s' hs' => ?_) fun _ => id
  cases result with
  | ok => exact ⟨rfl, hs'⟩
  | error e => exact hs'.1.elim

lemma run_nil (h : p.Attains False s Up Down) :
    ∃ s', p.run [] s = .finished s' [] (.ok ()) ∧ Up s' := by
  obtain ⟨hres, hup⟩ := eval_of_wp h.ok
  exact ⟨_, run_nil_of_eval hres, hup⟩

end Attains

/-! ### Frames -/

/-- Every step of the program moves the state along `R`, whatever the state is. -/
def Within (R : S → S → Prop) : Prog S ε α → Prop
  | done _ => True
  | mem f next => (∀ s, R s (f s)) ∧ next.Within R
  | io f next => (∀ s, R s (f s)) ∧ ∀ ok, (next ok).Within R
  | look next => ∀ s, (next s).Within R

namespace Within

variable {R : S → S → Prop}

@[simp] lemma pure (a : α) : Within R (pure a : Prog S ε α) := trivial

@[simp] lemma throw (e : ε) : Within R (throw e : Prog S ε α) := trivial

@[simp] lemma ofExcept (x : Except ε α) : Within R (ofExcept x : Prog S ε α) := trivial

@[simp] lemma state : Within R (state : Prog S ε S) := fun _ => trivial

lemma update (h : ∀ s, R s (f s)) : Within R (update f : Prog S ε Unit) := ⟨h, trivial⟩

lemma attempt (h : ∀ s, R s (f s)) : Within R (attempt f : Prog S ε Bool) :=
  ⟨h, fun _ => trivial⟩

lemma file (h : ∀ s, R s (f s)) : Within R (file e f) := ⟨h, fun _ => trivial⟩

lemma mono {R' : S → S → Prop} (h : p.Within R) (hR : ∀ s s', R s s' → R' s s') : p.Within R' := by
  induction p with
  | done result => trivial
  | mem f next ih => exact ⟨fun s => hR _ _ (h.1 s), ih h.2⟩
  | look next ih => exact fun s => ih s (h s)
  | io f next ih => exact ⟨fun s => hR _ _ (h.1 s), fun ok => ih ok (h.2 ok)⟩

lemma bind (hp : p.Within R) (hk : ∀ a, (k a).Within R) : Within R (p >>= k) := by
  change Within R (p.bind k)
  induction p with
  | done result =>
    cases result with
    | ok a => exact hk a
    | error e => trivial
  | mem f next ih => exact ⟨hp.1, ih hp.2⟩
  | look next ih => exact fun s => ih s (hp s)
  | io f next ih => exact ⟨hp.1, fun ok => ih ok (hp.2 ok)⟩

/-- A program whose steps move along a preorder does so as a whole, wherever it is cut off. -/
lemma wp {p : Prog S ε α} (h : p.Within R) (htrans : ∀ s₁ s₂ s₃, R s₁ s₂ → R s₂ s₃ → R s₁ s₃)
    {s₀ s : S} (hs : R s₀ s) : p.wp faulty (fun _ s' => R s₀ s') (fun s' => R s₀ s') s := by
  induction p generalizing s with
  | done result => exact hs
  | mem f next ih => exact ih h.2 (htrans _ _ _ hs (h.1 s))
  | look next ih => exact ih s (h s) hs
  | io f next ih =>
    have hf := htrans _ _ _ hs (h.1 s)
    exact ⟨hs, ih true (h.2 true) hf, fun _ => ⟨ih false (h.2 false) hs, ih false (h.2 false) hf⟩⟩

/-- Such a program first: what follows starts further along the preorder. -/
lemma wp_seq {Q : Except ε β → S → Prop} (h : p.Within R)
    (htrans : ∀ s₁ s₂ s₃, R s₁ s₂ → R s₂ s₃ → R s₁ s₃) (hs : R s s)
    (hk : ∀ a s', R s s' → (k a).wp faulty Q C s') (herror : ∀ e s', R s s' → Q (.error e) s')
    (hcrash : ∀ s', R s s' → C s') : (p >>= k).wp faulty Q C s :=
  Prog.wp_seq (wp_mono (h.wp htrans hs) (fun _ _ => id) hcrash) hk herror

/-- What a program of such steps returns, it returns in a state further along the preorder. -/
lemma ensures {p : Prog S ε α} (h : p.Within R) (htrans : ∀ s₁ s₂ s₃, R s₁ s₂ → R s₂ s₃ → R s₁ s₃)
    {s : S} (hs : R s s) : p.Ensures s fun _ s' => R s s' :=
  wp_mono (h.wp htrans hs) (fun _ _ hs' _ _ => hs') fun _ _ => trivial

end Within

/-! ### Invariants -/

/-- The program keeps the property, wherever it is cut off and whatever fails. -/
def Keeps (I : S → Prop) (p : Prog S ε α) : Prop := ∀ s, I s → p.wp True (fun _ s' => I s') I s

namespace Keeps

variable {I : S → Prop}

lemma of_within {R : S → S → Prop} (h : p.Within R)
    (hR : ∀ s s', R s s' → I s → I s') : p.Keeps I := by
  intro s hs
  induction p generalizing s with
  | done result => exact hs
  | mem f next ih => exact ih h.2 (f s) (hR _ _ (h.1 s) hs)
  | look next ih => exact ih s (h s) s hs
  | io f next ih =>
    have hf := hR _ _ (h.1 s) hs
    exact ⟨hs, ih true (h.2 true) _ hf, fun _ => ⟨ih false (h.2 false) _ hs,
      ih false (h.2 false) _ hf⟩⟩

lemma bind (hp : p.Keeps I) (hk : ∀ a, (k a).Keeps I) : Keeps I (p >>= k) :=
  fun s hs => wp_seq (hp s hs) (fun a s' hs' => hk a s' hs') fun _ _ => id

lemma pure (a : α) : Keeps I (pure a : Prog S ε α) := fun _ => id

lemma throw (e : ε) : Keeps I (throw e : Prog S ε α) := fun _ => id

lemma bind_state {k : S → Prog S ε α} (h : ∀ s, I s → (k s).wp True (fun _ s' => I s') I s) :
    Keeps I (state >>= k) := h

lemma run (h : p.Keeps I) (hs : I s) (faults : List Fault) :
    (p.run faults s).Meets (fun _ => I) I := meets_of_wp (h s hs) faults

end Keeps

end Prog

end GideonDB.Store
