/-
Voter sets: how they are normalised, searched and counted.

The source keeps a voter set as a sorted list of distinct node identifiers.
`Canonical` says that a list has that form, which is what `normalizeVoterSet`
establishes; the binary search of `containsString` and the counting behind two
majorities rest on it.
-/
import GideonDB.Cluster.View

namespace GideonDB.Cluster

open Go List

/-- The errors of the Raft store. -/
inductive RaftError
  /-- An error the store builds itself, with its text. -/
  | text (message : String)
  /-- An error of the file system while persisting. -/
  | io
  /-- A slice index out of range. -/
  | panic
deriving DecidableEq, Repr

/-- The loop of `normalizeVoterSet` over the sorted list. -/
def checkVoters : Option GoString → List GoString → Except RaftError Unit
  | _, [] => .ok ()
  | previous, voter :: voters =>
    if !validNodeID voter then .error (.text "invalid Raft voter ID")
    else if previous = some voter then .error (.text "duplicate Raft voter ID")
    else checkVoters (some voter) voters

def normalizeVoterSet (voters : List GoString) : Except RaftError (List GoString) :=
  if voters = [] then .error (.text "Raft voter set must not be empty")
  else
    match checkVoters none (sortStrings voters) with
    | .error err => .error err
    | .ok () => .ok (sortStrings voters)

/-- `containsString`. -/
def containsString (values : List GoString) (wanted : GoString) : Bool :=
  values[searchStrings values wanted]? == some wanted

def normalizeVoters (voters : List GoString) (localNodeID : GoString) :
    Except RaftError (List GoString) :=
  match normalizeVoterSet voters with
  | .error err => .error err
  | .ok normalized =>
    if !containsString normalized localNodeID then
      .error (.text "Raft voter set excludes local node")
    else .ok normalized

/-- `voterMajority`. -/
def voterMajority (voters acknowledgements : List GoString) : Bool :=
  voters.length > 0 &&
    voters.countP (fun voter => acknowledgements.contains voter) ≥ voters.length / 2 + 1

def voterSetDifference (oldVoters newVoters : List GoString) : ℕ :=
  (stringSet oldVoters).countP (fun voter => !(stringSet newVoters).contains voter) +
    (stringSet newVoters).countP (fun voter => !(stringSet oldVoters).contains voter)

/-! ### Canonical voter lists -/

/-- A list `normalizeVoterSet` accepts and leaves as it is. -/
def Canonical (voters : List GoString) : Prop := normalizeVoterSet voters = .ok voters
deriving Decidable

variable {voters : List GoString}

lemma checkVoters_ok {previous : Option GoString} (h : checkVoters previous voters = .ok ()) :
    (∀ v ∈ voters, validNodeID v) ∧ (previous.toList ++ voters).IsChain (fun x y => x ≠ y) := by
  induction voters generalizing previous with
  | nil => cases previous <;> simp
  | cons voter voters ih =>
    rw [checkVoters] at h
    split at h
    · simp at h
    · rename_i hvalid
      split at h
      · simp at h
      · rename_i hdup
        obtain ⟨hall, hchain⟩ := ih h
        constructor
        · simp only [mem_cons, forall_eq_or_imp]
          exact ⟨by simpa using hvalid, hall⟩
        · cases previous with
          | none => simpa using hchain
          | some p =>
            simp only [Option.toList_some, singleton_append] at hchain ⊢
            exact isChain_cons_cons.2 ⟨by simpa using hdup, hchain⟩

variable {normalized : List GoString}

lemma normalizeVoterSet_ok (h : normalizeVoterSet voters = .ok normalized) :
    normalized = sortStrings voters ∧ voters ≠ [] ∧
      checkVoters none (sortStrings voters) = .ok () := by
  rw [normalizeVoterSet] at h
  split at h
  · simp at h
  · rename_i hne
    split at h
    · simp at h
    · rename_i hcheck
      exact ⟨by simpa using h.symm, hne, hcheck⟩

lemma canonical_of_normalizeVoterSet
    (h : normalizeVoterSet voters = .ok normalized) : Canonical normalized := by
  obtain ⟨rfl, hne, hcheck⟩ := normalizeVoterSet_ok h
  have hsort := sortStrings_of_pairwise (pairwise_sortStrings voters)
  have hne' : sortStrings voters ≠ [] := by
    intro hnil
    obtain ⟨x, hx⟩ := exists_mem_of_ne_nil _ hne
    rw [← mem_sortStrings, hnil] at hx
    simp at hx
  simp [Canonical, normalizeVoterSet, hne', hsort, hcheck]

lemma canonical_of_normalizeVoters {nodeID : GoString}
    (h : normalizeVoters voters nodeID = .ok normalized) : Canonical normalized := by
  rw [normalizeVoters] at h
  split at h
  · simp at h
  · rename_i v hv
    split at h
    · simp at h
    · cases h
      exact canonical_of_normalizeVoterSet hv

namespace Canonical

variable {voters : List GoString}

lemma pairwise (h : Canonical voters) : voters.Pairwise StringLE := by
  rw [(normalizeVoterSet_ok h).1]
  exact pairwise_sortStrings _

lemma ne_nil (h : Canonical voters) : voters ≠ [] := (normalizeVoterSet_ok h).2.1

lemma nodup (h : Canonical voters) : voters.Nodup := by
  obtain ⟨heq, -, hcheck⟩ := normalizeVoterSet_ok h
  rw [← heq] at hcheck
  have hchain := (checkVoters_ok hcheck).2
  rw [Option.toList_none, nil_append] at hchain
  have hlt : voters.IsChain (fun x y => StringLE x y ∧ x ≠ y) := by
    have hle := h.pairwise.isChain
    rw [isChain_iff_getElem] at hle hchain ⊢
    exact fun i hi => ⟨hle i hi, hchain i hi⟩
  have : IsTrans GoString (fun x y => StringLE x y ∧ x ≠ y) :=
    ⟨fun x y z hxy hyz => ⟨leString_trans hxy.1 hyz.1, by
      rintro rfl
      exact hxy.2 (leString_antisymm hxy.1 hyz.1)⟩⟩
  exact hlt.pairwise.imp (fun hxy => hxy.2)

end Canonical

/-! ### Majorities -/

/-- A set that contains every voter of some majority. -/
def Majority (voters : List GoString) (S : Set GoString) : Prop :=
  ∃ acks, voterMajority voters acks = true ∧ ∀ v ∈ voters, v ∈ acks → v ∈ S

lemma countP_add_countP_le {α : Type*} (p q : α → Bool) (l : List α) :
    l.countP p + l.countP q ≤ l.length + l.countP (fun x => p x && q x) := by
  induction l with
  | nil => simp
  | cons a l ih =>
    simp only [countP_cons, length_cons]
    cases p a <;> cases q a <;> simp <;> omega

variable {acks acks' : List GoString}

lemma voterMajority_meet_self (h : voterMajority voters acks)
    (h' : voterMajority voters acks') : ∃ v ∈ voters, v ∈ acks ∧ v ∈ acks' := by
  simp only [voterMajority, Bool.and_eq_true, decide_eq_true_eq] at h h'
  have hsum := countP_add_countP_le (fun v => acks.contains v) (fun v => acks'.contains v) voters
  have hpos : 0 < voters.countP (fun v => acks.contains v && acks'.contains v) := by
    omega
  obtain ⟨v, hv, hacks⟩ := countP_pos_iff.1 hpos
  simp only [Bool.and_eq_true, contains_iff_mem] at hacks
  exact ⟨v, hv, hacks⟩

variable {more : List GoString}

/-- A majority of a list and a majority of the same list with at most one member more
have a voter in common. -/
lemma voterMajority_meet (hnodup : voters.Nodup) (hsub : voters ⊆ more)
    (hlen : more.length ≤ voters.length + 1) (h : voterMajority voters acks)
    (h' : voterMajority more acks') : ∃ v ∈ voters, v ∈ acks ∧ v ∈ acks' := by
  simp only [voterMajority, Bool.and_eq_true, decide_eq_true_eq] at h h'
  have hle : voters.countP (fun v => acks.contains v) ≤
      more.countP (fun v => voters.contains v && acks.contains v) := by
    have : voters.countP (fun v => acks.contains v) =
        voters.countP (fun v => voters.contains v && acks.contains v) :=
      countP_congr (fun v hv => by simp [hv])
    rw [this]
    exact (subperm_of_subset hnodup hsub).countP_le _
  have hmore := countP_add_countP_le (fun v => voters.contains v && acks.contains v)
    (fun v => acks'.contains v) more
  have hpos : 0 < more.countP
      (fun v => (voters.contains v && acks.contains v) && acks'.contains v) := by
    omega
  obtain ⟨v, -, hv⟩ := countP_pos_iff.1 hpos
  simp only [Bool.and_eq_true, contains_iff_mem] at hv
  exact ⟨v, hv.1.1, hv.1.2, hv.2⟩

lemma subset_of_countP_eq_zero
    (h : (stringSet voters).countP (fun v => !(stringSet more).contains v) = 0) :
    voters ⊆ more := by
  intro v hv
  have := countP_eq_zero.1 h v (mem_stringSet.2 hv)
  simpa using this

lemma length_le_of_countP_le_one (hmore : more.Nodup)
    (h : (stringSet more).countP (fun v => !(stringSet voters).contains v) ≤ 1) :
    more.length ≤ voters.length + 1 := by
  rw [stringSet, stringSet, hmore.dedup] at h
  have hin : (more.filter (fun v => voters.contains v)).length ≤ voters.length := by
    refine (subperm_of_subset (hmore.filter _) ?_).length_le
    intro v hv
    simpa using (mem_filter.1 hv).2
  have hsum := more.length_eq_countP_add_countP (fun v => voters.contains v)
  rw [← countP_eq_length_filter] at hin
  have hout : more.countP (fun v => !decide (voters.contains v = true)) ≤ 1 := by
    refine le_trans (le_of_eq (countP_congr fun v _ => ?_)) h
    simp
  simp only [decide_not] at hsum
  omega

/-- Majorities of two voter sets that differ in one node have a voter in common. -/
lemma voterMajority_meet_of_difference {oldVoters newVoters : List GoString}
    (hold : oldVoters.Nodup) (hnew : newVoters.Nodup)
    (hdiff : voterSetDifference oldVoters newVoters = 1) (h : voterMajority oldVoters acks)
    (h' : voterMajority newVoters acks') :
    ∃ v, (v ∈ oldVoters ∧ v ∈ newVoters) ∧ v ∈ acks ∧ v ∈ acks' := by
  rw [voterSetDifference] at hdiff
  rcases Nat.eq_zero_or_pos
    ((stringSet oldVoters).countP fun v => !(stringSet newVoters).contains v) with hzero | hpos
  · have hsub := subset_of_countP_eq_zero hzero
    obtain ⟨v, hv, ha, ha'⟩ := voterMajority_meet hold hsub
      (length_le_of_countP_le_one hnew (by omega)) h h'
    exact ⟨v, ⟨hv, hsub hv⟩, ha, ha'⟩
  · have hsub : newVoters ⊆ oldVoters := subset_of_countP_eq_zero (by omega)
    obtain ⟨v, hv, ha', ha⟩ := voterMajority_meet hnew hsub
      (length_le_of_countP_le_one hold (by omega)) h' h
    exact ⟨v, ⟨hsub hv, hv⟩, ha, ha'⟩

end GideonDB.Cluster
