/-
The write barriers of a rebalance (`cluster/rebalance_barrier.go`).

`Freeze` puts a barrier in memory first and writes the JSON file after; where it finds the
barrier in memory already it answers at once.  So a barrier whose first write failed is
reported frozen by the second call although no file has it, and a restart forgets it
(`freeze_retry_forgotten`).  The file cannot hold a collection name that is not UTF-8 either
(`RebalanceWriteBarrier.stored`).  Any other barrier that `Freeze` reports frozen is in the
file as well, and stays in both places until a call that releases it (`freeze_durable`).
-/
import GideonDB.Cluster.View
import GideonDB.Go.Format
import GideonDB.Go.Utf8
import Mathlib.Data.List.Pairwise

namespace GideonDB.Cluster

open Go List

/-- `RebalanceWriteBarrier`. -/
structure RebalanceWriteBarrier where
  /-- The digest of the plan that froze the shard. -/
  planDigest : GoString
  collection : GoString
  /-- The shard, a `uint32`. -/
  shardID : ℕ
  /-- The metadata epoch at which the plan is done, a `uint64`. -/
  targetEpoch : ℕ
deriving DecidableEq, Repr

namespace RebalanceWriteBarrier

/-- The check of `Freeze` and of the file's entries. -/
def valid (barrier : RebalanceWriteBarrier) : Bool :=
  validDigest barrier.planDigest && barrier.collection != [] && 2 ≤ barrier.targetEpoch

/-- The order of the file: by collection, then by shard. -/
def LE (left right : RebalanceWriteBarrier) : Prop :=
  left.collection = right.collection ∧ left.shardID ≤ right.shardID ∨
    left.collection ≠ right.collection ∧ StringLE left.collection right.collection
deriving Decidable

/-- For different shards. -/
def Apart (left right : RebalanceWriteBarrier) : Prop :=
  ¬(left.collection = right.collection ∧ left.shardID = right.shardID)

instance : Std.Symm Apart := ⟨fun _ _ h hyx => h ⟨hyx.1.symm, hyx.2.symm⟩⟩

/-- The entry as it is read back from the file. -/
def stored (barrier : RebalanceWriteBarrier) : RebalanceWriteBarrier :=
  { barrier with
    planDigest := coerceUTF8 barrier.planDigest
    collection := coerceUTF8 barrier.collection }

end RebalanceWriteBarrier

/-- `rebalanceBarrierState`. -/
structure RebalanceBarrierState where
  /-- The version of the format, always one. -/
  format : ℕ
  barriers : List RebalanceWriteBarrier
deriving DecidableEq, Repr

/-- `RebalanceBarrierStore`: what is in memory and what `RebalanceBarrierFile` decodes to,
`none` if there is no file. -/
structure RebalanceBarrierStore where
  barriers : List RebalanceWriteBarrier
  file : Option RebalanceBarrierState
deriving DecidableEq, Repr

/-- The errors of the store. -/
inductive BarrierError
  /-- "decode rebalance barriers" -/
  | decode
  /-- "invalid rebalance barrier format" -/
  | format
  /-- "invalid rebalance write barrier" -/
  | invalidEntry
  /-- "duplicate rebalance write barrier" -/
  | duplicateEntry
  /-- "valid rebalance write barrier is required" -/
  | barrierRequired
  /-- "shard already frozen by a different rebalance plan" -/
  | alreadyFrozen
  /-- "valid rebalance plan digest is required" -/
  | digestRequired
  /-- An error of the file system. -/
  | write
deriving DecidableEq, Repr

/-- How far a write got. -/
inductive WriteOutcome
  /-- It fails before the rename: the file is as before. -/
  | failed
  /-- The rename is done but the directory is not synced: an error with the new file. -/
  | unsynced
  /-- It succeeds. -/
  | written
deriving DecidableEq, Repr

/-- `barrierKey`. -/
def barrierKey (collection : GoString) (shardID : ℕ) : GoString :=
  collection ++ 0 :: formatUint shardID

lemma barrierKey_inj {collection collection' : GoString} {shardID shardID' : ℕ}
    (h : barrierKey collection shardID = barrierKey collection' shardID') :
    collection = collection' ∧ shardID = shardID' := by
  obtain ⟨hcollection, hshard⟩ :=
    append_cons_inj (zero_notMem_formatUint _) (zero_notMem_formatUint _) h
  exact ⟨hcollection, formatUint_inj hshard⟩

/-- The loop of `OpenRebalanceBarrierStore` over the entries, with the keys seen so far. -/
def checkBarriers (seen : List GoString) : List RebalanceWriteBarrier → Option BarrierError
  | [] => none
  | barrier :: barriers =>
    if !barrier.valid then some .invalidEntry
    else if barrierKey barrier.collection barrier.shardID ∈ seen then some .duplicateEntry
    else checkBarriers (barrierKey barrier.collection barrier.shardID :: seen) barriers

/-- `OpenRebalanceBarrierStore`.  At most 8 MiB of the file are read; `size` is the length
of the JSON text of its entries. -/
def openRebalanceBarrierStore (size : List RebalanceWriteBarrier → ℕ) :
    Option RebalanceBarrierState → Except BarrierError RebalanceBarrierStore
  | none => .ok ⟨[], none⟩
  | some state =>
    if 8 <<< 20 < size state.barriers then .error .decode
    else if state.format ≠ 1 then .error .format
    else
      match checkBarriers [] state.barriers with
      | some e => .error e
      | none => .ok ⟨state.barriers, some state⟩

namespace RebalanceBarrierStore

/-- `persistLocked`. -/
def persistLocked (s : RebalanceBarrierStore) :
    WriteOutcome → RebalanceBarrierStore × Option BarrierError
  | .failed => (s, some .write)
  | .unsynced =>
    ({ s with file := some ⟨1, s.barriers.map RebalanceWriteBarrier.stored⟩ }, some .write)
  | .written => ({ s with file := some ⟨1, s.barriers.map RebalanceWriteBarrier.stored⟩ }, none)

/-- `Freeze`. -/
def freeze (barrier : RebalanceWriteBarrier) (outcome : WriteOutcome)
    (s : RebalanceBarrierStore) : RebalanceBarrierStore × Option BarrierError :=
  if !barrier.valid then (s, some .barrierRequired)
  else
    match s.barriers.find? fun existing =>
      existing.collection == barrier.collection && existing.shardID == barrier.shardID with
    | some existing => (s, if existing = barrier then none else some .alreadyFrozen)
    | none =>
      persistLocked
        { s with
          barriers := (s.barriers ++ [barrier]).insertionSort RebalanceWriteBarrier.LE }
        outcome

/-- `IsFrozen`. -/
def isFrozen (collection : GoString) (shardID : ℕ) (s : RebalanceBarrierStore) :
    Option RebalanceWriteBarrier :=
  s.barriers.find? fun barrier => barrier.collection == collection && barrier.shardID == shardID

def releaseCommitted (committedEpoch : ℕ) (outcome : WriteOutcome) (s : RebalanceBarrierStore) :
    RebalanceBarrierStore × Option BarrierError :=
  persistLocked
    { s with barriers := s.barriers.filter fun barrier => committedEpoch < barrier.targetEpoch }
    outcome

/-- `ReleasePlan`. -/
def releasePlan (planDigest : GoString) (outcome : WriteOutcome) (s : RebalanceBarrierStore) :
    RebalanceBarrierStore × Option BarrierError :=
  if !validDigest planDigest then (s, some .digestRequired)
  else
    persistLocked
      { s with barriers := s.barriers.filter fun barrier => barrier.planDigest != planDigest }
      outcome

end RebalanceBarrierStore

/-- What can happen to a store: its calls, with the way their write goes, and a restart
of the process, which opens the file again. -/
inductive BarrierCall
  | freeze (barrier : RebalanceWriteBarrier) (outcome : WriteOutcome)
  | isFrozen (collection : GoString) (shardID : ℕ)
  | releaseCommitted (committedEpoch : ℕ) (outcome : WriteOutcome)
  | releasePlan (planDigest : GoString) (outcome : WriteOutcome)
  | restart

/-- The call asks for the release of the barrier, with success or without. -/
def BarrierCall.Releases (barrier : RebalanceWriteBarrier) : BarrierCall → Prop
  | .releaseCommitted committedEpoch _ => barrier.targetEpoch ≤ committedEpoch
  | .releasePlan planDigest _ => planDigest = barrier.planDigest
  | _ => False

/-- A barrier is frozen under a collection name that the file can hold. -/
def BarrierCall.WellFormed : BarrierCall → Prop
  | .freeze barrier _ => validUTF8 barrier.collection = true
  | _ => True

/-- The store after a call; `none` if a restart cannot open the file. -/
def BarrierCall.run (size : List RebalanceWriteBarrier → ℕ) (s : RebalanceBarrierStore) :
    BarrierCall → Option RebalanceBarrierStore
  | .freeze barrier outcome => some (s.freeze barrier outcome).1
  | .isFrozen _ _ => some s
  | .releaseCommitted committedEpoch outcome => some (s.releaseCommitted committedEpoch outcome).1
  | .releasePlan planDigest outcome => some (s.releasePlan planDigest outcome).1
  | .restart => (openRebalanceBarrierStore size s.file).toOption

/-- Call by call. -/
def runBarrierCalls (size : List RebalanceWriteBarrier → ℕ) (s : RebalanceBarrierStore) :
    List BarrierCall → Option RebalanceBarrierStore
  | [] => some s
  | call :: calls => (call.run size s).bind fun s' => runBarrierCalls size s' calls

/-! ### Lists of barriers that a file can hold -/

/-- The entries are valid, come back from the file as they are, and are for different
shards. -/
structure Storable (barriers : List RebalanceWriteBarrier) : Prop where
  valid : ∀ barrier ∈ barriers, barrier.valid = true
  stored : ∀ barrier ∈ barriers, barrier.stored = barrier
  apart : barriers.Pairwise RebalanceWriteBarrier.Apart

variable {barriers : List RebalanceWriteBarrier}

lemma Storable.filter (h : Storable barriers)
    (p : RebalanceWriteBarrier → Bool) : Storable (barriers.filter p) where
  valid barrier hmem := h.valid barrier (mem_of_mem_filter hmem)
  stored barrier hmem := h.stored barrier (mem_of_mem_filter hmem)
  apart := h.apart.sublist filter_sublist

variable {barrier : RebalanceWriteBarrier}

lemma mem_insertionSort_append {x : RebalanceWriteBarrier} :
    x ∈ (barriers ++ [barrier]).insertionSort RebalanceWriteBarrier.LE ↔
      x ∈ barriers ∨ x = barrier := by
  rw [(perm_insertionSort _ _).mem_iff]
  simp

lemma Storable.insert (h : Storable barriers) (hvalid : barrier.valid)
    (hstored : barrier.stored = barrier) (hnew : ∀ existing ∈ barriers, existing.Apart barrier) :
    Storable ((barriers ++ [barrier]).insertionSort RebalanceWriteBarrier.LE) where
  valid x hx := by
    rcases mem_insertionSort_append.1 hx with hx | rfl
    · exact h.valid x hx
    · exact hvalid
  stored x hx := by
    rcases mem_insertionSort_append.1 hx with hx | rfl
    · exact h.stored x hx
    · exact hstored
  apart := by
    refine (perm_insertionSort _ _).symm.pairwise ?_ (Std.Symm.symm _ _)
    refine pairwise_append.2 ⟨h.apart, pairwise_singleton .., ?_⟩
    simpa using hnew

lemma Storable.map_stored (h : Storable barriers) :
    barriers.map RebalanceWriteBarrier.stored = barriers :=
  map_congr_left h.stored |>.trans (map_id _)

lemma RebalanceWriteBarrier.stored_eq (hvalid : barrier.valid)
    (hname : validUTF8 barrier.collection) : barrier.stored = barrier := by
  have hdigest : validUTF8 barrier.planDigest := by
    refine validUTF8_of_ascii fun b hb => ?_
    simp only [valid, validDigest, Bool.and_eq_true, all_eq_true] at hvalid
    have := hvalid.1.1.2 b hb
    simp only [isLowerHex, Bool.or_eq_true, Bool.and_eq_true, decide_eq_true_eq] at this
    rcases this with ⟨-, h⟩ | ⟨-, h⟩ <;> exact UInt8.le_trans h (by decide)
  rw [stored, coerceUTF8_eq_self hdigest, coerceUTF8_eq_self hname]

variable {seen : List GoString}

/-- The entries an opened store accepted are valid and for different shards, and none of
them is for a shard seen before. -/
lemma of_checkBarriers (h : checkBarriers seen barriers = none) :
    (∀ barrier ∈ barriers, barrier.valid ∧ barrierKey barrier.collection barrier.shardID ∉ seen) ∧
      barriers.Pairwise RebalanceWriteBarrier.Apart := by
  induction barriers generalizing seen with
  | nil => simp
  | cons barrier barriers ih =>
    rw [checkBarriers] at h
    split at h
    · cases h
    split at h
    · cases h
    rename_i hvalid hseen
    obtain ⟨hrest, hpairwise⟩ := ih h
    refine ⟨?_, pairwise_cons.2 ⟨?_, hpairwise⟩⟩
    · rintro other (- | ⟨_, hother⟩)
      · exact ⟨by simpa using hvalid, hseen⟩
      · exact ⟨(hrest other hother).1, fun hmem =>
          (hrest other hother).2 (mem_cons_of_mem _ hmem)⟩
    · rintro other hother ⟨hcollection, hshard⟩
      refine (hrest other hother).2 ?_
      rw [← hcollection, ← hshard]
      exact mem_cons_self ..

lemma checkBarriers_eq_none (hvalid : ∀ barrier ∈ barriers, barrier.valid)
    (hapart : barriers.Pairwise RebalanceWriteBarrier.Apart)
    (hseen : ∀ barrier ∈ barriers, barrierKey barrier.collection barrier.shardID ∉ seen) :
    checkBarriers seen barriers = none := by
  induction barriers generalizing seen with
  | nil => rfl
  | cons barrier barriers ih =>
    obtain ⟨hfirst, hrest⟩ := pairwise_cons.1 hapart
    rw [checkBarriers, if_neg (by simp [hvalid barrier (mem_cons_self ..)]),
      if_neg (hseen barrier (mem_cons_self ..))]
    refine ih (forall_mem_cons.1 hvalid).2 hrest fun b hb hmem => ?_
    rcases mem_cons.1 hmem with hkey | hmem
    · obtain ⟨hcollection, hshard⟩ := barrierKey_inj hkey
      exact hfirst b hb ⟨hcollection.symm, hshard.symm⟩
    · exact hseen b (mem_cons_of_mem _ hb) hmem

variable {size : List RebalanceWriteBarrier → ℕ} {file : Option RebalanceBarrierState}
  {s : RebalanceBarrierStore}

lemma openRebalanceBarrierStore_ok (h : openRebalanceBarrierStore size file = .ok s) :
    s.file = file ∧ checkBarriers [] s.barriers = none ∧
      (file = none ∧ s.barriers = [] ∨ file = some ⟨1, s.barriers⟩) := by
  cases file with
  | none =>
    obtain rfl : ⟨[], none⟩ = s := Except.ok.inj h
    exact ⟨rfl, rfl, .inl ⟨rfl, rfl⟩⟩
  | some state =>
    simp only [openRebalanceBarrierStore] at h
    split at h
    · cases h
    split at h
    · cases h
    rename_i hformat
    split at h
    · cases h
    · rename_i hcheck
      cases h
      obtain ⟨format, barriers⟩ := state
      obtain rfl : format = 1 := by simpa using hformat
      exact ⟨rfl, hcheck, .inr rfl⟩

/-! ### The invariant of a store and a barrier it holds -/

variable {held : RebalanceWriteBarrier}

namespace RebalanceBarrierStore

/-- What is written. -/
def saved (s : RebalanceBarrierStore) : List RebalanceWriteBarrier :=
  (s.file.map RebalanceBarrierState.barriers).getD []

/-- Memory and file hold what a file can hold. -/
structure Sound (s : RebalanceBarrierStore) : Prop where
  memory : Storable s.barriers
  file : s.file = none ∨ s.file = some ⟨1, s.saved⟩
  saved : Storable s.saved

/-- The barrier is in memory and in the file. -/
structure Held (barrier : RebalanceWriteBarrier) (s : RebalanceBarrierStore) : Prop where
  memory : barrier ∈ s.barriers
  file : barrier ∈ s.saved

@[simp] lemma persistLocked_barriers (s : RebalanceBarrierStore) (outcome : WriteOutcome) :
    (s.persistLocked outcome).1.barriers = s.barriers := by
  cases outcome <;> rfl

lemma persistLocked_file (s : RebalanceBarrierStore) (outcome : WriteOutcome) :
    (s.persistLocked outcome).1.file = s.file ∧ (s.persistLocked outcome).2 = some .write ∨
      (s.persistLocked outcome).1.file = some ⟨1, s.barriers.map RebalanceWriteBarrier.stored⟩ := by
  cases outcome
  · exact .inl ⟨rfl, rfl⟩
  · exact .inr rfl
  · exact .inr rfl

lemma Sound.write (h : s.Sound) (hbars : Storable barriers) (outcome : WriteOutcome) :
    ({ s with barriers := barriers }.persistLocked outcome).1.Sound := by
  rcases persistLocked_file { s with barriers := barriers } outcome with ⟨hfile, -⟩ | hfile
  · have hsaved : ({ s with barriers := barriers }.persistLocked outcome).1.saved = s.saved := by
      rw [RebalanceBarrierStore.saved, hfile, RebalanceBarrierStore.saved]
    exact ⟨by simpa using hbars, by rw [hfile, hsaved]; exact h.file, hsaved ▸ h.saved⟩
  · have hsaved : ({ s with barriers := barriers }.persistLocked outcome).1.saved = barriers := by
      rw [RebalanceBarrierStore.saved, hfile]
      exact hbars.map_stored
    refine ⟨by simpa using hbars, .inr ?_, hsaved.symm ▸ hbars⟩
    rw [hfile, hsaved]
    exact congrArg (fun l => some (RebalanceBarrierState.mk 1 l)) hbars.map_stored

lemma Held.write (h : Held held s) (hbars : Storable barriers) (hmem : held ∈ barriers)
    (outcome : WriteOutcome) :
    Held held ({ s with barriers := barriers }.persistLocked outcome).1 := by
  refine ⟨by simpa using hmem, ?_⟩
  rcases persistLocked_file { s with barriers := barriers } outcome with ⟨hfile, -⟩ | hfile
  · rw [RebalanceBarrierStore.saved, hfile]
    exact h.file
  · rw [RebalanceBarrierStore.saved, hfile]
    exact hbars.map_stored.symm ▸ hmem

lemma Sound.isFrozen (h : s.Sound) (hmem : barrier ∈ s.barriers) :
    s.isFrozen barrier.collection barrier.shardID = some barrier := by
  cases hfind : s.isFrozen barrier.collection barrier.shardID with
  | none => simpa using List.find?_eq_none.1 hfind barrier hmem
  | some found =>
    have hkey : found.collection = barrier.collection ∧ found.shardID = barrier.shardID := by
      simpa using List.find?_some hfind
    by_contra hne
    exact List.Pairwise.forall h.memory.apart (mem_of_find?_eq_some hfind) hmem
      (fun heq => hne (by rw [heq])) hkey

lemma Sound.opens (h : s.Sound) (hsize : size s.saved ≤ 8 <<< 20) :
    ∃ opened, openRebalanceBarrierStore size s.file = .ok opened := by
  rcases h.file with hfile | hfile <;> rw [hfile]
  · exact ⟨_, rfl⟩
  · have hcheck : checkBarriers [] s.saved = none :=
      checkBarriers_eq_none h.saved.valid h.saved.apart (by simp)
    simp only [openRebalanceBarrierStore, if_neg (Nat.not_lt.2 hsize), ne_eq, not_true_eq_false,
      if_false, hcheck]
    exact ⟨_, rfl⟩

lemma Sound.of_open (h : openRebalanceBarrierStore size file = .ok s)
    (hstored : ∀ barrier ∈ s.barriers, barrier.stored = barrier) :
    s.Sound ∧ s.saved = s.barriers := by
  obtain ⟨hfile, hcheck, hcases⟩ := openRebalanceBarrierStore_ok h
  obtain ⟨hvalid, hapart⟩ := of_checkBarriers hcheck
  have hstorable : Storable s.barriers := ⟨fun b hb => (hvalid b hb).1, hstored, hapart⟩
  have hsaved : s.saved = s.barriers := by
    rw [RebalanceBarrierStore.saved, hfile]
    rcases hcases with ⟨rfl, hnil⟩ | rfl
    · exact hnil.symm
    · rfl
  refine ⟨⟨hstorable, ?_, hsaved ▸ hstorable⟩, hsaved⟩
  rw [hfile, hsaved]
  exact hcases.imp And.left id

lemma freeze_ok {outcome : WriteOutcome} (h : (s.freeze barrier outcome).2 = none) :
    barrier.valid ∧ barrier ∈ (s.freeze barrier outcome).1.barriers ∧
      (barrier ∈ s.barriers ∧ (s.freeze barrier outcome).1 = s ∨
        barrier.stored ∈ (s.freeze barrier outcome).1.saved) := by
  rw [freeze] at h ⊢
  split at h
  · cases h
  · rename_i hvalid
    refine ⟨by simpa using hvalid, ?_⟩
    rw [if_neg hvalid]
    split at h
    · rename_i existing hfind
      obtain rfl : existing = barrier := by
        by_contra hne
        simp [hne] at h
      have hmem := mem_of_find?_eq_some hfind
      exact ⟨hmem, .inl ⟨hmem, rfl⟩⟩
    · have hadded : barrier ∈
          (s.barriers ++ [barrier]).insertionSort RebalanceWriteBarrier.LE :=
        mem_insertionSort_append.2 (.inr rfl)
      refine ⟨by rwa [persistLocked_barriers], .inr ?_⟩
      rcases persistLocked_file _ outcome with ⟨-, herror⟩ | hfile
      · rw [herror] at h
        cases h
      · rw [RebalanceBarrierStore.saved, hfile]
        exact mem_map_of_mem hadded

end RebalanceBarrierStore

/-! ### One call -/

variable {call : BarrierCall}

namespace BarrierCall

open RebalanceBarrierStore

variable {size : List RebalanceWriteBarrier → ℕ} {s s' : RebalanceBarrierStore}

/-- What a call does to a sound store: nothing, a new memory followed by a write, or the
opening of the file. -/
lemma run_cases (h : s.Sound) (hcall : call.WellFormed) (hrun : call.run size s = some s') :
    s' = s ∨
      (∃ barriers outcome, Storable barriers ∧
        (∀ held ∈ s.barriers, ¬ call.Releases held → held ∈ barriers) ∧
        s' = ({ s with barriers := barriers }.persistLocked outcome).1) ∨
      openRebalanceBarrierStore size s.file = .ok s' := by
  cases call with
  | freeze barrier outcome =>
    cases hrun
    rw [RebalanceBarrierStore.freeze]
    split
    · exact .inl rfl
    split
    · exact .inl rfl
    rename_i hvalid _ hfind
    have hvalid : barrier.valid = true := by simpa using hvalid
    refine .inr (.inl ⟨_, outcome, h.memory.insert hvalid
      (RebalanceWriteBarrier.stored_eq hvalid hcall) fun existing hexist hsame => ?_,
      fun held hheld _ => mem_insertionSort_append.2 (.inl hheld), rfl⟩)
    simpa [hsame.1, hsame.2] using List.find?_eq_none.1 hfind existing hexist
  | isFrozen => exact .inl (Option.some.inj hrun).symm
  | releaseCommitted committedEpoch outcome =>
    cases hrun
    refine .inr (.inl ⟨_, outcome, h.memory.filter _, fun held hheld hkeep => ?_, rfl⟩)
    exact mem_filter.2 ⟨hheld, by simpa using Nat.lt_of_not_le hkeep⟩
  | releasePlan planDigest outcome =>
    cases hrun
    rw [RebalanceBarrierStore.releasePlan]
    split
    · exact .inl rfl
    refine .inr (.inl ⟨_, outcome, h.memory.filter _, fun held hheld hkeep => ?_, rfl⟩)
    exact mem_filter.2 ⟨hheld, by simpa using Ne.symm hkeep⟩
  | restart =>
    refine .inr (.inr ?_)
    cases hopen : openRebalanceBarrierStore size s.file with
    | error e => simp [run, hopen, Except.toOption] at hrun
    | ok opened => simpa [run, hopen, Except.toOption] using hrun

lemma sound_of_open (h : s.Sound) (hopen : openRebalanceBarrierStore size s.file = .ok s') :
    s'.Sound ∧ s'.barriers = s.saved ∧ s'.saved = s.saved := by
  obtain ⟨hfile, -, hcases⟩ := openRebalanceBarrierStore_ok hopen
  have hsaved : s'.saved = s.saved := by rw [RebalanceBarrierStore.saved, hfile]; rfl
  have hbars : s'.barriers = s.saved := by
    rw [RebalanceBarrierStore.saved]
    rcases hcases with ⟨hnone, hnil⟩ | hsome
    · rw [hnone, hnil]
      rfl
    · rw [hsome]
      rfl
  exact ⟨(Sound.of_open hopen fun b hb => h.saved.stored b (hbars ▸ hb)).1, hbars, hsaved⟩

lemma sound_run (call : BarrierCall) (h : s.Sound) (hcall : call.WellFormed)
    (hrun : call.run size s = some s') : s'.Sound := by
  rcases run_cases h hcall hrun with rfl | ⟨barriers, outcome, hbars, -, rfl⟩ | hopen
  · exact h
  · exact h.write hbars outcome
  · exact (sound_of_open h hopen).1

lemma held_run (h : s.Sound) (hheld : Held held s) (hcall : call.WellFormed)
    (hkeep : ¬ call.Releases held) (hrun : call.run size s = some s') : Held held s' := by
  rcases run_cases h hcall hrun with rfl | ⟨barriers, outcome, hbars, hmem, rfl⟩ | hopen
  · exact hheld
  · exact hheld.write hbars (hmem held hheld.memory hkeep) outcome
  · obtain ⟨-, hbars, hsaved⟩ := sound_of_open h hopen
    exact ⟨hbars ▸ hheld.file, hsaved ▸ hheld.file⟩

end BarrierCall

/-! ### Whole runs -/

section Runs

open RebalanceBarrierStore

variable {size : List RebalanceWriteBarrier → ℕ} {s s' : RebalanceBarrierStore}
  {calls : List BarrierCall}

lemma runBarrierCalls_induct {P : RebalanceBarrierStore → Prop} {Q : BarrierCall → Prop}
    (hstep : ∀ {call s s'}, Q call → P s → BarrierCall.run size s call = some s' → P s')
    (hcalls : ∀ call ∈ calls, Q call) (h : P s) (hrun : runBarrierCalls size s calls = some s') :
    P s' := by
  induction calls generalizing s with
  | nil => exact Option.some.inj hrun ▸ h
  | cons call calls ih =>
    obtain ⟨next, hnext, hrest⟩ := Option.bind_eq_some_iff.1 hrun
    exact ih (forall_mem_cons.1 hcalls).2
      (hstep (hcalls call (mem_cons_self ..)) h hnext) hrest

/-- A store that calls with well-formed names have led to from the opening of a file.  The
strings that `json.Unmarshal` reads from a file are always well-formed. -/
def RebalanceBarrierStore.Reachable (size : List RebalanceWriteBarrier → ℕ)
    (s : RebalanceBarrierStore) : Prop :=
  ∃ file opened calls, openRebalanceBarrierStore size file = .ok opened ∧
    (∀ barrier ∈ opened.barriers, barrier.stored = barrier) ∧
    (∀ call ∈ calls, BarrierCall.WellFormed call) ∧ runBarrierCalls size opened calls = some s

lemma RebalanceBarrierStore.Reachable.sound (h : s.Reachable size) : s.Sound := by
  obtain ⟨file, opened, calls, hopen, hstored, hcalls, hrun⟩ := h
  exact runBarrierCalls_induct (fun hcall h hrun => BarrierCall.sound_run _ h hcall hrun) hcalls
    (Sound.of_open hopen hstored).1 hrun

/-- **Barriers are durable.** A barrier for a well-formed collection name that `Freeze`
reports frozen, and that it did not find in memory while the file lacks it, is found by
`IsFrozen` after any later calls, failing writes and restarts, as long as none of the calls
asks for its release; and the process can restart at any point unless the file has grown
over 8 MiB. -/
theorem freeze_durable (hreach : s.Reachable size) {barrier : RebalanceWriteBarrier}
    {outcome : WriteOutcome} (hfreeze : (s.freeze barrier outcome).2 = none)
    (hname : validUTF8 barrier.collection = true)
    (hfile : barrier ∈ s.barriers → barrier ∈ s.saved)
    (hcalls : ∀ call ∈ calls, call.WellFormed ∧ ¬ call.Releases barrier)
    (hrun : runBarrierCalls size (s.freeze barrier outcome).1 calls = some s') :
    s'.isFrozen barrier.collection barrier.shardID = some barrier ∧
      (size s'.saved ≤ 8 <<< 20 →
        ∃ opened, openRebalanceBarrierStore size s'.file = .ok opened) := by
  obtain ⟨hvalid, hmemory, hsaved⟩ := freeze_ok hfreeze
  have hsound : (s.freeze barrier outcome).1.Sound :=
    @BarrierCall.sound_run size _ _ (.freeze barrier outcome) hreach.sound hname rfl
  have hheld : Held barrier (s.freeze barrier outcome).1 := by
    refine ⟨hmemory, ?_⟩
    rcases hsaved with ⟨hmem, hsame⟩ | hwrit
    · rw [hsame]
      exact hfile hmem
    · rwa [RebalanceWriteBarrier.stored_eq hvalid hname] at hwrit
  obtain ⟨hsound', hheld'⟩ := runBarrierCalls_induct (P := fun s => s.Sound ∧ Held barrier s)
    (fun hcall h hrun => ⟨BarrierCall.sound_run _ h.1 hcall.1 hrun,
      BarrierCall.held_run h.1 h.2 hcall.1 hcall.2 hrun⟩) hcalls ⟨hsound, hheld⟩ hrun
  exact ⟨hsound'.isFrozen hheld'.memory, hsound'.opens⟩

def sampleBarrier : RebalanceWriteBarrier := ⟨List.replicate 64 48, bytes "c", 0, 2⟩

/-- The theorem at a store without a file: the barrier survives a failed write of another
barrier and a restart. -/
theorem freeze_durable_restart :
    ∃ s', runBarrierCalls (fun _ => 0) ((⟨[], none⟩ : RebalanceBarrierStore).freeze
        sampleBarrier .written).1
      [.freeze { sampleBarrier with shardID := 1 } .failed, .restart] = some s' ∧
      s'.isFrozen sampleBarrier.collection sampleBarrier.shardID = some sampleBarrier := by
  obtain ⟨s', hrun⟩ := Option.isSome_iff_exists.1 (show (runBarrierCalls (fun _ => 0)
    ((⟨[], none⟩ : RebalanceBarrierStore).freeze sampleBarrier .written).1
    [.freeze { sampleBarrier with shardID := 1 } .failed, .restart]).isSome from by decide +kernel)
  refine ⟨s', hrun, (freeze_durable ⟨none, _, [], rfl, by simp, by simp, rfl⟩ (by decide +kernel)
    (by decide +kernel) (by decide +kernel) ?_ hrun).1⟩
  rintro call (- | ⟨_, - | ⟨_, ⟨⟩⟩⟩)
  · exact ⟨show validUTF8 (bytes "c") = true by decide +kernel, id⟩
  · exact ⟨trivial, id⟩

/-- A `Freeze` whose write fails leaves the barrier in memory; the second `Freeze` reports
it frozen without a write, and a restart forgets it. -/
theorem freeze_retry_forgotten :
    ∃ s s' : RebalanceBarrierStore,
      (⟨[], none⟩ : RebalanceBarrierStore).freeze sampleBarrier .failed = (s, some .write) ∧
      s.freeze sampleBarrier .written = (s, none) ∧
      runBarrierCalls (fun _ => 0) s [.restart] = some s' ∧
      s'.isFrozen sampleBarrier.collection sampleBarrier.shardID = none :=
  ⟨⟨[sampleBarrier], none⟩, ⟨[], none⟩, by decide +kernel, by decide +kernel, by decide +kernel,
    by decide +kernel⟩

end Runs

end GideonDB.Cluster
