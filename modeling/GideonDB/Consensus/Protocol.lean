/-
A leader-based consensus protocol over whole logs, with its history.

Nodes keep a term and a log in memory and a copy of both in a file.  They stand
for election, grant votes, adopt initial segments of a leader's log, acknowledge
what they hold, and restart from the file at any time.  Beside the nodes the
state records what has happened: the candidacies, the votes with the voter's log
at the time, the reign of every term (the log its leader was elected with and
what it appended since) and the acknowledgements.

`Rules.quorum ℓ` are the quorums a log `ℓ` stands for, and the entries with
`Rules.reconf` are those that may change them.  Such an entry is appended only to
a log that is committed as a whole in the leader's own term.
-/
import GideonDB.Consensus.Log

namespace GideonDB.Consensus

/-- The parameters of the protocol: the term of an entry, the quorums a log stands
for, and the entries that may change them. -/
structure Rules (N E : Type*) where
  /-- The term an entry was appended in. -/
  term : E → ℕ
  /-- The sets of nodes whose agreement decides, for a node with this log. -/
  quorum : List E → Set N → Prop
  /-- The entries that may change the quorums. -/
  reconf : E → Prop

/-- What the rules have to satisfy. -/
structure Rules.Lawful {N E : Type*} (P : Rules N E) : Prop where
  /-- Two quorums of one log meet. -/
  meets : ∀ {ℓ : List E} {S T : Set N}, P.quorum ℓ S → P.quorum ℓ T → (S ∩ T).Nonempty
  /-- Only reconfigurations change the quorums. -/
  append : ∀ {ℓ : List E} {e : E} {S : Set N}, ¬ P.reconf e →
    (P.quorum (ℓ ++ [e]) S ↔ P.quorum ℓ S)

/-- The quorums before and after `e` meet. -/
def Rules.Adjacent {N E : Type*} (P : Rules N E) (ℓ : List E) (e : E) : Prop :=
  ∀ S T : Set N, P.quorum ℓ S → P.quorum (ℓ ++ [e]) T → (S ∩ T).Nonempty

/-- What a node keeps: a term and a log. -/
@[ext] structure Cell (E : Type*) where
  term : ℕ
  log : List E

/-- The log of the leader of a term: what it was elected with and what it appended. -/
@[ext] structure Reign (N E : Type*) where
  owner : N
  /-- The log the leader stood for election with. -/
  base : List E
  /-- The entries the leader appended in its term. -/
  own : List E

/-- The leader's whole log. -/
def Reign.full {N E : Type*} (r : Reign N E) : List E := r.base ++ r.own

/-- A granted vote, with the log the voter had. -/
structure Vote (N E : Type*) where
  voter : N
  term : ℕ
  candidate : N
  /-- The voter's log at that moment. -/
  log : List E

/-- `node` told the leader of `term` that it holds the leader's log up to `index`. -/
structure Ack (N : Type*) where
  node : N
  term : ℕ
  index : ℕ

/-- The nodes and the history of a run. -/
structure Sys (N E : Type*) where
  /-- The reign of each term, if a leader has come forward. -/
  reign : ℕ → Option (Reign N E)
  /-- The log each node stood for election with, by term. -/
  cand : ℕ → N → Option (List E)
  /-- The votes granted so far. -/
  votes : Set (Vote N E)
  /-- The acknowledgements given so far. -/
  acks : Set (Ack N)
  /-- What each node has in memory. -/
  memory : N → Cell E
  /-- What each node has in its file. -/
  file : N → Cell E

namespace Sys

variable {N E : Type*} (P : Rules N E) (s : Sys N E)

/-- The log of the leader of term `t`, empty when there is none. -/
def full (t : ℕ) : List E := (s.reign t).elim [] Reign.full

/-- The log the leader of term `t` was elected with, empty when there is none. -/
def base (t : ℕ) : List E := (s.reign t).elim [] Reign.base

lemma full_of_reign {s : Sys N E} {t : ℕ} {r : Reign N E} (h : s.reign t = some r) :
    s.full t = r.base ++ r.own := by
  simp [full, h, Reign.full]

lemma base_of_reign {s : Sys N E} {t : ℕ} {r : Reign N E} (h : s.reign t = some r) :
    s.base t = r.base := by
  simp [base, h]

lemma base_prefix_full (t : ℕ) : s.base t <+: s.full t := by
  cases h : s.reign t with
  | none => simp [base, full, h]
  | some r =>
    rw [full_of_reign h, base_of_reign h]
    exact List.prefix_append _ _

/-- Every entry of `ℓ` comes from the leader of its term, together with all that
precedes it. -/
def Traced (ℓ : List E) : Prop :=
  ∀ i e, ℓ[i]? = some e → ℓ.take (i + 1) <+: s.full (P.term e)

/-- `ℓ` still has the leader's log of term `t` up to `i`, or a leader of a term
after `t` and not after `b` was elected without it. -/
def Kept (t i : ℕ) (ℓ : List E) (b : ℕ) : Prop :=
  (s.full t).take i <+: ℓ ∨
    ∃ u, t < u ∧ u ≤ b ∧ s.reign u ≠ none ∧ ¬ (s.full t).take i <+: s.base u

/-- Index `i` is committed in term `t`: it holds an entry of that term and a quorum
acknowledged it to the leader of that term. -/
def Committed (t i : ℕ) : Prop :=
  0 < i ∧ i ≤ (s.full t).length ∧ termAt P.term (s.full t) i = t ∧
    ∃ S, P.quorum ((s.full t).take i) S ∧
      ∀ v ∈ S, ∃ a ∈ s.acks, a.node = v ∧ a.term = t ∧ i ≤ a.index

/-- Node `n` stood in term `t` and a quorum granted it its vote. -/
def Won (n : N) (t : ℕ) : Prop :=
  ∃ L, s.cand t n = some L ∧ ∃ S, P.quorum L S ∧
    ∀ v ∈ S, ∃ w ∈ s.votes, w.voter = v ∧ w.term = t ∧ w.candidate = n

/-- The votes behind a reign, as they were when the leader came forward: no voter
had given up an acknowledged segment except to a leader of an earlier term. -/
def Certified (t : ℕ) (n : N) (L : List E) : Prop :=
  ∃ S, P.quorum L S ∧ ∀ v ∈ S, ∃ w ∈ s.votes, w.voter = v ∧ w.term = t ∧ w.candidate = n ∧
    ∀ a ∈ s.acks, a.node = v → a.term < t → ∀ i ≤ a.index, ∃ b < t, s.Kept a.term i w.log b

/-! ### The steps -/

variable [DecidableEq N]

/-- A node raises its term. -/
def observe (n : N) (t : ℕ) : Sys N E :=
  { s with memory := Function.update s.memory n ⟨t, (s.memory n).log⟩ }

/-- A node writes its file. -/
def persist (n : N) : Sys N E :=
  { s with file := Function.update s.file n (s.memory n) }

/-- A node restarts. -/
def restart (n : N) : Sys N E :=
  { s with memory := Function.update s.memory n (s.file n) }

/-- A node stands for election in term `t`, votes for itself and writes its file. -/
def stand (n : N) (t : ℕ) : Sys N E :=
  { s with
    cand := fun u m => if u = t ∧ m = n then some (s.memory n).log else s.cand u m
    votes := insert ⟨n, t, n, (s.memory n).log⟩ s.votes
    memory := Function.update s.memory n ⟨t, (s.memory n).log⟩
    file := Function.update s.file n ⟨t, (s.memory n).log⟩ }

/-- A node votes. -/
def grant (v : N) (t : ℕ) (n : N) : Sys N E :=
  { s with
    votes := insert ⟨v, t, n, (s.memory v).log⟩ s.votes
    memory := Function.update s.memory v ⟨t, (s.memory v).log⟩
    file := Function.update s.file v ⟨t, (s.memory v).log⟩ }

/-- A node that won an election comes forward as the leader of the term. -/
def elect (n : N) (t : ℕ) (L : List E) : Sys N E :=
  { s with reign := Function.update s.reign t (some ⟨n, L, []⟩) }

/-- A leader appends an entry to its log and writes its file. -/
def append (t : ℕ) (r : Reign N E) (e : E) : Sys N E :=
  { s with
    reign := Function.update s.reign t (some ⟨r.owner, r.base, r.own ++ [e]⟩)
    memory := Function.update s.memory r.owner ⟨t, r.full ++ [e]⟩
    file := Function.update s.file r.owner ⟨t, r.full ++ [e]⟩ }

/-- A log made to contain `m`: unchanged when it does already, else cut back to `m`. -/
noncomputable def conform (ℓ m : List E) : List E :=
  open Classical in if m <+: ℓ then ℓ else m

/-- A node takes over the log of the leader of term `t` up to index `k`. -/
noncomputable def adopt (n : N) (t k : ℕ) : Sys N E :=
  { s with
    memory := Function.update s.memory n
      ⟨t, conform (s.memory n).log ((s.full t).take k)⟩ }

/-- A node acknowledges the log of the leader of term `t` up to index `m`. -/
def acknowledge (n : N) (t m : ℕ) : Sys N E :=
  { s with acks := insert ⟨n, t, m⟩ s.acks }

/-- The system with other copies of the term and log at one node. -/
def setCells (n : N) (c d : Cell E) : Sys N E :=
  { s with
    memory := Function.update s.memory n c
    file := Function.update s.file n d }

/-- The steps of the protocol with their guards. -/
inductive Step : Sys N E → Sys N E → Prop
  | observe {s : Sys N E} {n : N} {t : ℕ} (h : (s.memory n).term ≤ t) : Step s (s.observe n t)
  | persist {s : Sys N E} {n : N} : Step s (s.persist n)
  | restart {s : Sys N E} {n : N} : Step s (s.restart n)
  | stand {s : Sys N E} {n : N} {t : ℕ} (h : (s.memory n).term < t) : Step s (s.stand n t)
  | grant {s : Sys N E} {v n : N} {t : ℕ} {L : List E} (h : (s.memory v).term ≤ t)
      (hcand : s.cand t n = some L) (hlog : UpToDate P.term L (s.memory v).log)
      (hone : ∀ w ∈ s.votes, w.voter = v → w.term = t → w.candidate = n) :
      Step s (s.grant v t n)
  | elect {s : Sys N E} {n : N} {t : ℕ} {L : List E} (hnone : s.reign t = none)
      (hcand : s.cand t n = some L) (hwon : s.Won P n t) : Step s (s.elect n t L)
  | append {s : Sys N E} {t : ℕ} {r : Reign N E} {e : E} (hr : s.reign t = some r)
      (hmem : (s.memory r.owner).term = t) (he : P.term e = t)
      (hcfg : P.reconf e → s.Committed P t r.full.length ∧ P.Adjacent r.full e) :
      Step s (s.append t r e)
  | adopt {s : Sys N E} {n : N} {t k : ℕ} (hr : s.reign t ≠ none)
      (h : (s.memory n).term ≤ t) (hk : k ≤ (s.full t).length) : Step s (s.adopt n t k)
  | acknowledge {s : Sys N E} {n : N} {t m : ℕ} (hr : s.reign t ≠ none)
      (hmem : (s.memory n).term = t) (hfile : (s.file n).term = t)
      (hm : m ≤ (s.full t).length) (hmem' : (s.full t).take m <+: (s.memory n).log)
      (hfile' : (s.full t).take m <+: (s.file n).log) : Step s (s.acknowledge n t m)

/-- Nothing has happened. -/
def init : Sys N E where
  reign _ := none
  cand _ _ := none
  votes := ∅
  acks := ∅
  memory _ := ⟨0, []⟩
  file _ := ⟨0, []⟩

end Sys

end GideonDB.Consensus
