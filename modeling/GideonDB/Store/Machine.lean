/-
Machines that crash and start again.

A machine executes operations on a state, part of which survives a crash.  Seen from outside it
is always up: an operation that crashes, or a stop between two operations, is followed by
attempts to start, of which the last one succeeds.
-/
import GideonDB.Store.Program
import Mathlib.Logic.Relation

namespace GideonDB.Store

/-- The programs of the operations and the one that starts the machine. -/
structure Machine (S ε Op : Type) where
  prog : Op → Prog S ε Unit
  boot : Prog S ε Unit

/-- What happens to a machine. -/
inductive Happening (Op : Type)
  | call (op : Op) (faults : List Fault)
  | crash (op : Op) (faults : List Fault)
  | restart

namespace Machine

variable {S ε Op : Type}

/-- The machine starts, after some attempts that failed or crashed. -/
inductive Boots (m : Machine S ε Op) : S → S → Prop
  | ok {s s' : S} {faults rest : List Fault} (h : m.boot.run faults s = .finished s' rest (.ok ())) :
      Boots m s s'
  | failed {s s' s'' : S} {faults rest : List Fault} {e : ε}
      (h : m.boot.run faults s = .finished s' rest (.error e)) (h' : Boots m s' s'') : Boots m s s''
  | crashed {s s' s'' : S} {faults : List Fault} (h : m.boot.run faults s = .crashed s')
      (h' : Boots m s' s'') : Boots m s s''

/-- From one state in which the machine is up to the next. -/
inductive Step (m : Machine S ε Op) : S → Happening Op → S → Prop
  | call {s s' : S} {op : Op} {faults rest : List Fault} {result : Except ε Unit}
      (h : (m.prog op).run faults s = .finished s' rest result) : Step m s (.call op faults) s'
  | crash {s s' s'' : S} {op : Op} {faults : List Fault}
      (h : (m.prog op).run faults s = .crashed s') (hboots : m.Boots s' s'') :
      Step m s (.crash op faults) s''
  | restart {s s' : S} (hboots : m.Boots s s') : Step m s .restart s'

/-- Runs of allowed happenings. -/
def Reaches (m : Machine S ε Op) (allowed : S → Happening Op → Prop) : S → S → Prop :=
  Relation.ReflTransGen fun s s' => ∃ happening, allowed s happening ∧ m.Step s happening s'

variable {m : Machine S ε Op} {allowed : S → Happening Op → Prop} {s s' : S}

/-- What holds while the machine is down, and what starting it makes of that. -/
lemma Boots.spec {Down Up : S → Prop} (hboot : ∀ s, Down s → m.boot.Attains True s Up Down)
    (h : m.Boots s s') (hs : Down s) : Up s' := by
  have hrun : ∀ faults s, Down s → _ := fun faults s hs => (hboot s hs).meets faults
  induction h with
  | @ok s s' faults rest h =>
    have hend := hrun faults s hs
    rw [h] at hend
    exact hend
  | @failed s s' s'' faults rest e h _ ih =>
    have hend := hrun faults s hs
    rw [h] at hend
    exact ih hend
  | @crashed s s' s'' faults h _ ih =>
    have hend := hrun faults s hs
    rw [h] at hend
    exact ih hend

lemma Reaches.invariant {I : S → Prop} (h : m.Reaches allowed s s') (hs : I s)
    (hstep : ∀ s happening s', I s → allowed s happening → m.Step s happening s' → I s') : I s' := by
  induction h with
  | refl => exact hs
  | tail _ hlast ih =>
    obtain ⟨happening, hallow, hlast⟩ := hlast
    exact hstep _ happening _ ih hallow hlast

lemma Reaches.call (h : m.Reaches allowed s s') {op : Op} (hallow : allowed s' (.call op [])) :
    m.Reaches allowed s ((m.prog op).eval s').1 :=
  Relation.ReflTransGen.tail h ⟨_, hallow, .call (Prog.run_nil _ _)⟩

lemma Reaches.restart (h : m.Reaches allowed s s') (hallow : allowed s' .restart)
    (hok : (m.boot.eval s').2 = .ok ()) : m.Reaches allowed s (m.boot.eval s').1 :=
  Relation.ReflTransGen.tail h ⟨_, hallow, .restart (.ok (Prog.run_nil_of_eval hok))⟩

end Machine

end GideonDB.Store
