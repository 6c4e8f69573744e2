/-
Compaction (`internal/storage/compaction`): which neighbouring segments are merged.

The policy takes the oldest run of segments of about the same size, or, if there are too many
segments, as many of the oldest as fit.  Either way its inputs are neighbours, at least two.
-/
import GideonDB.Engine.Files

namespace GideonDB.Engine.Compaction

open List

/-- `compaction.Segment`. -/
structure Segment where
  id : FileName
  maxLSN : ℕ
  sizeBytes : ℕ
deriving DecidableEq

/-- `compaction.Policy`. -/
structure Policy where
  fanIn : ℕ
  sizeRatio : ℕ
  maxInputBytes : ℕ
  maxSegments : ℕ

/-- `DefaultPolicy`. -/
def defaultPolicy : Policy := ⟨4, 4, 2 ^ 26, 8⟩

/-- `exceedsRatio`. -/
def exceedsRatio (value minimum ratio : ℕ) : Bool :=
  ratio < value / minimum || (value / minimum = ratio && value % minimum ≠ 0)

namespace Policy

variable (p : Policy)

/-- The inner loop of `Select`: a run of the given length at the start of the list. -/
def runOf (minimum : ℕ) : ℕ → ℕ → List Segment → Option (List Segment)
  | 0, _, _ => some []
  | _ + 1, _, [] => none
  | k + 1, bytes, segment :: rest =>
    if exceedsRatio segment.sizeBytes minimum p.sizeRatio ||
        p.maxInputBytes - bytes < segment.sizeBytes then none
    else (runOf minimum k (bytes + segment.sizeBytes) rest).map (segment :: ·)

/-- The outer loop of `Select`. -/
def oldestRun : List Segment → Option (List Segment)
  | [] => none
  | segment :: rest =>
    match p.runOf (max 1 segment.sizeBytes) p.fanIn 0 (segment :: rest) with
    | some inputs => some inputs
    | none => oldestRun rest

/-- The last loop of `Select`. -/
def forced : ℕ → ℕ → List Segment → List Segment
  | 0, _, _ => []
  | _ + 1, _, [] => []
  | k + 1, bytes, segment :: rest =>
    if p.maxInputBytes - bytes < segment.sizeBytes then []
    else segment :: forced k (bytes + segment.sizeBytes) rest

/-- `Select`: the inputs of the plan, none if there is nothing to do. -/
def select (segments : List Segment) : Except Error (List Segment) :=
  if p.fanIn < 2 ∨ p.sizeRatio < 1 ∨ p.maxInputBytes = 0 ∨ p.maxSegments < p.fanIn then
    .error (.text "invalid compaction policy")
  else
    let ordered := segments.insertionSort fun a b => a.maxLSN ≤ b.maxLSN
    match p.oldestRun ordered with
    | some inputs => .ok inputs
    | none =>
      if ordered.length < p.maxSegments then .ok []
      else if (p.forced p.fanIn 0 ordered).length < 2 then
        .error (.text "segment limit reached without a bounded compaction plan")
      else .ok (p.forced p.fanIn 0 ordered)

/-! ### The inputs are neighbours -/

variable {p}

lemma runOf_spec {minimum k bytes : ℕ} {segments inputs : List Segment}
    (h : p.runOf minimum k bytes segments = some inputs) :
    inputs <+: segments ∧ inputs.length = k := by
  induction k generalizing bytes segments inputs with
  | zero =>
    rw [runOf] at h
    cases h
    exact ⟨prefix_append [] segments, rfl⟩
  | succ k ih =>
    cases segments with
    | nil => cases h
    | cons segment rest =>
      rw [runOf] at h
      split at h
      · cases h
      · obtain ⟨inputs, hinputs, rfl⟩ := Option.map_eq_some_iff.1 h
        obtain ⟨hpre, hlength⟩ := ih hinputs
        exact ⟨(prefix_cons_inj segment).2 hpre, congrArg (· + 1) hlength⟩

lemma oldestRun_spec {segments inputs : List Segment} (h : p.oldestRun segments = some inputs) :
    inputs <:+: segments ∧ inputs.length = p.fanIn := by
  induction segments with
  | nil => cases h
  | cons segment rest ih =>
    rw [oldestRun] at h
    split at h
    · rename_i hrun
      cases h
      obtain ⟨hpre, hlength⟩ := runOf_spec hrun
      exact ⟨hpre.isInfix, hlength⟩
    · obtain ⟨hin, hlength⟩ := ih h
      exact ⟨hin.trans (suffix_cons segment rest).isInfix, hlength⟩

lemma forced_isPrefix (k bytes : ℕ) (segments : List Segment) :
    p.forced k bytes segments <+: segments := by
  induction k generalizing bytes segments with
  | zero => exact nil_prefix
  | succ k ih =>
    cases segments with
    | nil => exact nil_prefix
    | cons segment rest =>
      rw [forced]
      split
      · exact nil_prefix
      · exact (prefix_cons_inj segment).2 (ih _ rest)

/-- A plan for segments in the order of their LSNs: nothing, if there are fewer segments than
allowed, or at least two neighbours. -/
lemma select_spec {segments inputs : List Segment}
    (hsort : segments.Pairwise fun a b => a.maxLSN ≤ b.maxLSN)
    (h : p.select segments = .ok inputs) : inputs <:+: segments ∧
      ((inputs = [] ∧ segments.length < p.maxSegments) ∨ 2 ≤ inputs.length) := by
  rw [select] at h
  split at h
  · cases h
  rename_i hpolicy
  simp only [hsort.insertionSort_eq] at h
  split at h
  · rename_i hrun
    cases h
    obtain ⟨hin, hlength⟩ := oldestRun_spec hrun
    exact ⟨hin, .inr (by omega)⟩
  · split at h
    · rename_i hlength
      cases h
      exact ⟨List.nil_infix, .inl ⟨rfl, hlength⟩⟩
    · split at h
      · cases h
      · rename_i hlength
        cases h
        exact ⟨(forced_isPrefix _ _ _).isInfix, .inr (not_lt.1 hlength)⟩

end Policy

end GideonDB.Engine.Compaction
