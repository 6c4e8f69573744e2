/-
Versions.

`PrepareUpsert` assigns the versions from a counter that lives in memory.  While the collection
is up the counter only grows, and it is at least the version of every record.  Opening counts
again from the records that the segments and the log have, so a version is assigned twice if the
record that had it is gone from both.  A batch that was reserved keeps the versions it was
prepared with, however late it is committed.
-/
import GideonDB.Engine.CollectionRun

namespace GideonDB.Engine

open Go GideonDB.Core Store Collection Request List
open Prog hiding bind throw

/-! ### The counter in a request -/

/-- The versions that are assigned between two states. -/
def Assigns (c c' : Collection) : Prop :=
  ∃ count, c'.assigned = c.assigned ++ List.range' (c.version + 1) count ∧
    c.version + count ≤ c'.version

variable {count : ℕ}

section Counts

variable {env : Env} {faulty : Prop} {c c' : Collection}

lemma Counts.assigns (h : Counts (c.assign count) c') : Assigns c c' :=
  ⟨count, h.assigned, h.version⟩

lemma Counts.assigns_self (h : Counts c c') : Assigns c c' := by
  rw [← c.assign_zero] at h
  exact h.assigns

lemma within_onShard {α : Type} (shardID : ℕ) (p : Action α) : (onShard shardID p).Within Counts :=
  within_zoom (fun _ _ => ⟨le_rfl, rfl⟩) p

lemma within_commitGroups (prepared : List Record) (shardIDs : List ℕ) :
    (commitGroups env prepared shardIDs).Within Counts := by
  induction shardIDs with
  | nil => exact .pure ()
  | cons shardID shardIDs ih =>
    refine .bind ?_ fun _ => ih
    refine (within_mapError (within_onShard _ _) _).bind fun _ => ?_
    exact (within_onShard _ _).bind fun _ => within_onShard _ _

lemma within_delete (ns id : GoString) : (Collection.delete env ns id).Within Counts := by
  refine Within.state.bind fun c => ?_
  split
  · exact .throw _
  · refine (within_onShard _ _).bind fun _ => (within_onShard _ _).bind fun _ => ?_
    refine (Within.update fun c => ⟨Nat.le_succ _, rfl⟩).bind fun _ => ?_
    exact (within_onShard _ _).bind fun _ => .pure _

lemma within_restoreAll' (shardID : ℕ) (records : List Record) :
    (Collection.restoreAll env shardID records).Within Counts := by
  induction records with
  | nil => exact .pure ()
  | cons record records ih =>
    refine (Within.ofExcept _).bind fun _ => ?_
    refine (Within.update fun c => ⟨le_max_left _ _, rfl⟩).bind fun _ => ?_
    exact (within_onShard _ _).bind fun _ => ih

section

variable (shardID : ℕ) (key : GoString) (entry : LedgerEntry)

include shardID key entry

lemma within_persist (sequence : ℕ) :
    (onShard shardID (Prog.update fun n => { n with
        ledger := n.ledger.set key { entry with completed := true, sequence := sequence } }) >>=
      fun _ => onShard shardID (persistIdempotency (env.ofShard shardID)) >>= fun ok =>
      if ok then onShard shardID (afterMutation (env.ofShard shardID) entry.records.length) >>=
        fun _ => (pure (entry.records, sequence) : Task _) else .throw .io).Within Counts := by
  refine (within_onShard _ _).bind fun _ => (within_onShard _ _).bind fun ok => ?_
  split
  · exact (within_onShard _ _).bind fun _ => .pure _
  · exact .throw _

lemma within_commitReservedBatch :
    (Collection.commitReservedBatch env shardID key entry).Within Counts :=
  (within_onShard _ _).bind fun sequence => (within_onShard _ _).bind fun _ =>
    (within_restoreAll' _ _).bind fun _ => within_persist shardID key entry sequence

lemma within_reserveBatch : (Collection.reserveBatch env shardID key entry).Within Counts := by
  refine (within_onShard _ _).bind fun _ => (within_onShard _ _).bind fun ok => ?_
  split
  · exact within_commitReservedBatch shardID key entry
  · exact (within_onShard _ _).bind fun _ => .throw _

end

lemma within_checkpointAll (shardIDs : List ℕ) : (checkpointAll env shardIDs).Within Counts := by
  induction shardIDs with
  | nil => exact .pure ()
  | cons shardID shardIDs ih => exact (within_onShard _ _).bind fun _ => ih

lemma wp_counts {α : Type} {p : Task α} (h : p.Within Counts) (c : Collection) :
    p.wp faulty (fun _ c' => Counts c c') (fun c' => Counts c c') c :=
  h.wp (fun _ _ _ => .trans) (.refl c)

end Counts

/-! ### The versions of a request -/

/-- The counter has reached the versions of the mutations. -/
def Raises (steps : Steps) (c : Collection) : Prop :=
  ∀ step ∈ steps, ∀ record ∈ step.2.records, record.version ≤ c.version

variable {version : ℕ} {items : List Item} {record : Record}

lemma mem_storeAll (h : record ∈ storeAll version items) :
    version < record.version ∧ record.version ≤ version + items.length := by
  induction items generalizing version with
  | nil => cases h
  | cons item items ih =>
    rw [length_cons]
    rcases mem_cons.1 h with rfl | h
    · exact ⟨Nat.lt_succ_self _, by change version + 1 ≤ _; omega⟩
    · have := ih h
      omega

/-- The request leaves the shards alone, or the counter reaches the versions of its mutations. -/
def CountsSteps {α : Type} (faulty : Prop) (steps : Steps) (p : Task α) (c₀ c : Collection) : Prop :=
  p.wp faulty (fun _ c' => Assigns c₀ c' ∧ (c'.shards = c₀.shards ∨ Raises steps c')) (Assigns c₀) c

variable {shardID : ℕ} {records : List Record} {key : GoString}

section Requests

variable {env : Env} {faulty : Prop} {c : Collection} {steps : Steps} {α : Type}

variable {p : Task α}

namespace CountsSteps

lemma failed (steps : Steps) (c : Collection) (count : ℕ) :
    Assigns c (c.assign count) ∧ ((c.assign count).shards = c.shards ∨
      Raises steps (c.assign count)) := ⟨(Counts.refl _).assigns, Or.inl rfl⟩

lemma throw (err : Error) : CountsSteps faulty steps (Prog.throw err : Task α) c c :=
  ⟨(Counts.refl c).assigns_self, .inl rfl⟩

lemma discard {c₀ : Collection} (h : CountsSteps faulty steps p c₀ c) :
    CountsSteps faulty steps (p >>= fun _ => (pure () : Task Unit)) c₀ c :=
  wp_seq h (fun _ _ => id) fun _ _ => id

lemma prepared (h : p.Within Counts)
    (hsteps : ∀ step ∈ steps, ∀ record ∈ step.2.records, record.version ≤ c.version + count) :
    CountsSteps faulty steps p c (c.assign count) :=
  wp_mono (wp_counts h _) (fun _ _ hc' => ⟨hc'.assigns, .inr fun step hmem record hrec =>
    (hsteps step hmem record hrec).trans hc'.version⟩) fun _ hc' => hc'.assigns

lemma of_within (h : p.Within Counts)
    (hsteps : ∀ step ∈ steps, step.2.records = []) : CountsSteps faulty steps p c c :=
  wp_mono (wp_counts h _) (fun _ _ hc' => ⟨hc'.assigns_self, .inr fun step hmem record
    hrec => by rw [hsteps step hmem] at hrec; cases hrec⟩) fun _ hc' => hc'.assigns_self

end CountsSteps

lemma wp_restoreAll_raises (hheal : Healthy (env.ofShard shardID) (c.shards shardID).shard)
    (hsound : ∀ record ∈ records, Engine.Sound (env.ofShard shardID) record) :
    (Collection.restoreAll env shardID records).wp faulty (fun result c' => result = .ok () ∧
      Counts c c' ∧ ∀ record ∈ records, record.version ≤ c'.version) (fun _ => True) c := by
  induction records generalizing c with
  | nil => exact ⟨rfl, Counts.refl c, nofun⟩
  | cons record records ih =>
    have hvalid : validateRecord env.config record = .ok () :=
      (hsound record mem_cons_self).valid
    rw [Collection.restoreAll, hvalid, wp_bind, wp_ofExcept, after_ok,
      wp_bind, wp_update, after_ok]
    have happlies := @applies_upsert (env.ofShard shardID) (c.shards shardID) hheal record
      (hsound record mem_cons_self) faulty
      (fun result n => result = .ok () ∧ Healthy (env.ofShard shardID) n.shard) (fun _ => True)
      fun sh happ => ⟨rfl, happ.healthy⟩
    refine wp_seq (wp_mono (wp_zoom (s := c.raise record) happlies)
      (fun _ _ => id) fun _ _ => trivial) ?_ ?_
    · rintro _ c₁ ⟨n, rfl, -, hheal'⟩
      refine wp_mono (ih (c := (Collection.shard shardID).put (c.raise record) n) ?_
        (forall_mem_cons.1 hsound).2) (fun result c₂ hc₂ => ?_)
        fun _ => id
      · rw [shards_put]
        exact hheal'
      · obtain ⟨hok, hcnt, hall⟩ := hc₂
        have hraise : max c.version record.version ≤ c₂.version := hcnt.version
        exact ⟨hok, ⟨(le_max_left _ _).trans hraise, hcnt.assigned⟩,
          forall_mem_cons.2 ⟨(le_max_right _ _).trans hraise, hall⟩⟩
    · rintro err c₁ ⟨n, rfl, herr, -⟩
      cases herr

/-- Committing a reserved batch appends nothing, or it raises the counter to its versions. -/
lemma Collection.Ready.counts_commitReservedBatch (h : c.Ready env) (hlt : shardID < env.shardCount)
    {entry : LedgerEntry} (key : GoString)
    (hsound : (Mutation.batchUpsert entry.records).Sound (env.ofShard shardID)) :
    CountsSteps faulty [(shardID, .batchUpsert entry.records)]
      (Collection.commitReservedBatch env shardID key entry) c c := by
  obtain ⟨base, hcoh⟩ := h shardID hlt
  have hcnt := @wp_counts faulty _ _ (@within_commitReservedBatch env shardID key entry) c
  have hraises : (commitReservedBatch env shardID key entry).wp faulty
      (fun _ c' => c'.shards = c.shards ∨ ∀ record ∈ entry.records, record.version ≤ c'.version)
      (fun _ => True) c := by
    refine wp_seq (wp_mono (wp_zoom (wp_append_sound hsound (c.shards shardID)))
      (fun _ _ => id) fun _ _ => trivial) ?_ ?_
    · rintro sequence c₁ ⟨n, rfl, ⟨-, rfl⟩ | ⟨⟨err, herr⟩, -⟩⟩
      swap
      · cases herr
      have hcmts : (Prog.update fun n : Node => { n with
          commits := n.commits ++ [⟨key, entry.records, sequence⟩] } : Action Unit).wp faulty
          (fun result n => result = .ok () ∧ Healthy (env.ofShard shardID) n.shard) (fun _ => True)
          ((Collection.shard shardID).get ((Collection.shard shardID).put c
            ((c.shards shardID).logged (.batchUpsert entry.records)))) := by
        rw [wp_update, (Collection.shard shardID).get_put]
        exact ⟨rfl, hcoh.healthy⟩
      refine wp_seq (wp_mono (wp_zoom hcmts) (fun _ _ => id) fun _ _ => trivial)
        ?_ ?_
      · rintro _ c₂ ⟨n, rfl, -, hheal⟩
        rw [← shards_put shardID ((Collection.shard shardID).put c _) n] at hheal
        refine wp_seq (wp_restoreAll_raises hheal hsound.2.2) ?_ ?_
        · rintro _ c₃ ⟨-, -, hall⟩
          refine wp_mono (wp_counts (within_persist shardID key entry sequence) c₃)
            (fun _ c₄ hc₄ => .inr fun record hmem => ?_) fun _ _ => trivial
          exact (hall record hmem).trans hc₄.version
        · rintro err c₃ ⟨herr, -⟩
          cases herr
      · rintro err c₂ ⟨n, rfl, herr, -⟩
        cases herr
    · rintro err c₁ ⟨n, rfl, ⟨herr, -⟩ | ⟨-, rfl⟩⟩
      · cases herr
      · exact .inl (congrArg shards ((Collection.shard shardID).put_get c))
  refine wp_mono (wp_and hcnt hraises) (fun _ c' hc' => ?_) fun c' hc' =>
    hc'.1.assigns_self
  refine ⟨hc'.1.assigns_self, hc'.2.imp_right fun hall step hmem record hrec => ?_⟩
  rw [mem_singleton.1 hmem] at hrec
  exact hall record hrec

lemma raises_storeAll (h : ∀ record ∈ records, record ∈ storeAll version items) :
    ∀ record ∈ records, record.version ≤ version + items.length :=
  fun record hmem => (mem_storeAll (h record hmem)).2

lemma CountsSteps.prepareShardBatch {k : List Record → Task α}
    (hk : (k (storeAll c.version items)).Within Counts)
    (hsteps : ∀ step ∈ steps, ∀ record ∈ step.2.records, record ∈ storeAll c.version items) :
    CountsSteps faulty (if Request.Prepares env items then steps else [])
      (prepareShardBatch env shardID items >>= k) c c := by
  rw [Engine.prepareShardBatch, bind_assoc, CountsSteps, wp_bind, wp_ofExcept]
  cases items.zipIdx.forM (checkShardRecord env shardID) with
  | error err => exact @CountsSteps.throw faulty c _ α err
  | ok _ =>
    rw [after_ok, wp_bind]
    refine wp_prepareAll (fun hpreps => ?_) fun err count hpreps => ?_
    · rw [if_pos hpreps]
      exact CountsSteps.prepared hk fun step hmem => raises_storeAll (hsteps step hmem)
    · exact CountsSteps.failed _ c count

lemma Collection.Ready.counts_batchUpsertShardIdempotent (h : c.Ready env)
    (hsound : (Request.batchUpsertShardIdempotent shardID items key).Sound env c) :
    CountsSteps faulty ((Request.batchUpsertShardIdempotent shardID items key).plan env c)
      (Engine.batchUpsertShardIdempotent env shardID items key) c c := by
  have hstored : ∀ step ∈ [(shardID, Mutation.batchUpsert (storeAll c.version items))],
      ∀ record ∈ step.2.records, record ∈ storeAll c.version items := by
    intro step hmem record hrec
    rwa [mem_singleton.1 hmem] at hrec
  exact batchUpsertShardIdempotent_cases (P := fun p steps =>
    (∀ step ∈ steps, step.2.Sound (env.ofShard step.1)) → CountsSteps faulty steps p c c) id
    (fun err _ _ => .throw err) (fun a _ => .of_within (.pure a) fun _ hmem => by cases hmem)
    (fun _ _ => .prepareShardBatch (within_onShard _ _) hstored)
    (fun hlt _ retained _ hsound => h.counts_commitReservedBatch hlt key (hsound _ mem_cons_self))
    (fun _ _ _ _ => .prepareShardBatch (within_reserveBatch _ _ _) hstored) hsound

lemma records_deletion {ns id : GoString} {step : ℕ × Mutation}
    (h : step ∈ deletion env c ns id) : step.2.records = [] := by
  rw [deletion] at h
  split at h
  · rw [mem_singleton.1 h]
    rfl
  · cases h

/-- What a request does to the counter. -/
theorem Collection.Ready.countsSteps (h : c.Ready env) {request : Request}
    (hsound : request.Sound env c) :
    CountsSteps faulty (request.plan env c) (request.task env) c c := by
  cases request with
  | upsert item =>
    refine .discard ?_
    rw [Request.plan, upsert, CountsSteps, wp_bind]
    refine wp_prepareUpsert (fun hcheck => ?_) fun err hcheck => ?_
    · refine CountsSteps.prepared (within_onShard _ _) fun step hmem record hrec => ?_
      split at hmem
      · rw [mem_singleton.1 hmem] at hrec
        rw [mem_singleton.1 hrec]
        exact le_rfl
      · cases hmem
    · exact @CountsSteps.throw faulty c _ Record err
  | batchUpsert items =>
    refine .discard ?_
    rw [Request.plan, batchUpsert]
    by_cases hsize : items = [] ∨ 10000 < items.length
    · rw [if_pos hsize]
      exact .throw _
    rw [if_neg hsize, CountsSteps, wp_bind]
    refine wp_prepareAll (fun hpreps => ?_) fun err count hpreps => ?_
    · rw [if_pos hpreps]
      refine CountsSteps.prepared ((within_commitGroups _ _).bind fun _ => Within.pure _)
        fun step hmem => raises_storeAll fun record hrec => ?_
      obtain ⟨shardID, -, rfl⟩ := mem_map.1 hmem
      exact mem_of_mem_filter hrec
    · exact CountsSteps.failed _ c count
  | delete ns id =>
    exact (CountsSteps.of_within (within_delete ns id) fun _ => records_deletion).discard
  | deleteShardWithSequence shardID ns id =>
    refine (CountsSteps.of_within ?_ fun _ => records_deletion).discard
    rw [Engine.deleteShardWithSequence]
    split
    · exact .throw _
    · split
      · exact .throw _
      · exact within_delete ns id
  | batchUpsertShardIdempotent shardID items key =>
    exact (h.counts_batchUpsertShardIdempotent hsound).discard
  | checkpoint =>
    exact CountsSteps.of_within (within_checkpointAll _) fun _ hmem => by cases hmem

end Requests

/-! ### Runs -/

/-- The records that the collection opens with, or that it replays, have versions as high as those
that were assigned. -/
def Collection.Remembers (env : Env) (c : Collection) : Prop :=
  ∀ version ∈ c.assigned, ∃ shardID < env.shardCount, ∃ record, version ≤ record.version ∧
    ((∃ key, (((openCollection env).eval c).1.shards shardID).shard.lookup key = some record) ∨
      InLog (c.shards shardID).disk record)

/-- If the request commits a batch that has been reserved, no record of the batch has been
written with a higher version since. -/
def Request.Fresh (c : Collection) : Request → Prop
  | .batchUpsertShardIdempotent shardID _ key =>
    ∀ retained, (if key = [] then none else (c.shards shardID).ledger.get key) = some retained →
      retained.completed = false → ∀ record ∈ retained.records, ∀ old,
        (c.shards shardID).shard.lookup record.key = some old → old.version ≤ record.version
  | _ => True

/-- What happens in a run in which the versions survive. -/
def Remembering (env : Env) (c : Collection) : Happening Request → Prop
  | .call request faults => request.Steady env c faults ∧ request.Fresh c
  | .crash request faults => request.Steady env c faults ∧ request.Fresh c ∧
      ∀ d, (request.task env).run faults c = .crashed d → d.Remembers env
  | .restart => c.Remembers env

/-- The counter is at least every version. -/
structure Versioned (env : Env) (c : Collection) : Prop where
  ready : c.Ready env
  sorted : c.assigned.Pairwise (· < ·)
  assigned : ∀ version ∈ c.assigned, version ≤ c.version
  live : ∀ shardID < env.shardCount, ∀ key record,
    (c.shards shardID).shard.lookup key = some record → record.version ≤ c.version

variable {live : ℕ → Live} {request : Request}

section Runs

variable {env : Env} {c c' : Collection}

lemma Remembering.steady {happening : Happening Request} (h : Remembering env c happening) :
    Steady env c happening := by
  cases happening with
  | call request faults => exact h.1
  | crash request faults => exact h.1
  | restart => trivial

lemma Assigns.sorted (h : Assigns c c') (hsort : c.assigned.Pairwise (· < ·))
    (hle : ∀ version ∈ c.assigned, version ≤ c.version) :
    c'.assigned.Pairwise (· < ·) ∧ ∀ version ∈ c'.assigned, version ≤ c'.version := by
  obtain ⟨count, hasg, hversion⟩ := h
  rw [hasg]
  constructor
  · refine pairwise_append.2 ⟨hsort, pairwise_lt_range', fun version hmem version'
      hmem' => ?_⟩
    have hlower := (mem_range'_1.1 hmem').1
    have hupper := hle version hmem
    omega
  · intro version hmem
    rcases mem_append.1 hmem with hmem | hmem
    · have := hle version hmem
      omega
    · have := (mem_range'_1.1 hmem).2
      omega

lemma mem_records_of_applySteps {steps : Steps} {live : Live}
    (h : applySteps shardID live steps key = some record) :
    live key = some record ∨ ∃ step ∈ steps, step.1 = shardID ∧ record ∈ step.2.records := by
  induction steps generalizing live with
  | nil => exact .inl h
  | cons step steps ih =>
    rw [applySteps, foldl_cons] at h
    rcases ih h with h | ⟨other, hmem, hother⟩
    · split_ifs at h with hshard
      · exact (Mutation.mem_records_of_apply h).imp_right fun hrec =>
          ⟨step, mem_cons_self, hshard, hrec⟩
      · exact .inl h
    · exact .inr ⟨other, mem_cons_of_mem _ hmem, hother⟩

lemma Collection.Holds.boots_versions (h : c.Holds env live) (hboots : (engine env).Boots c c') :
    c'.Shows env live ∧ c'.assigned = c.assigned ∧ ∀ shardID < env.shardCount, ∀ record,
      (∃ key, live shardID key = some record) ∨ InLog (c.shards shardID).disk record →
        record.version ≤ c'.version := by
  refine ⟨h.boots hboots, ?_⟩
  refine @Machine.Boots.spec _ _ _ _ _ _ (fun d => d.Holds env live ∧ d.assigned = c.assigned ∧
    ∀ shardID < env.shardCount, SameView (c.shards shardID).disk (d.shards shardID).disk)
    (fun c' => c'.assigned = c.assigned ∧ ∀ shardID < env.shardCount, ∀ record,
      (∃ key, live shardID key = some record) ∨ InLog (c.shards shardID).disk record →
        record.version ≤ c'.version) ?_ hboots ⟨h, rfl, fun _ _ => sameView_refl _⟩
  rintro d ⟨hholds, hasg, hview⟩
  have hdown : ∀ d', CollectionReopens env d d' → d'.Holds env live ∧ d'.assigned = c.assigned ∧
      ∀ shardID < env.shardCount, SameView (c.shards shardID).disk (d'.shards shardID).disk := by
    intro d' hd'
    refine ⟨fun shardID hlt => ?_, hd'.assigned.trans hasg, fun shardID hlt =>
      (hview shardID hlt).trans (hd'.reopens shardID hlt)⟩
    obtain ⟨base, next, hdur⟩ := hholds shardID hlt
    exact ⟨base, next, hdur.congr (hd'.reopens shardID hlt)⟩
  choose! base next hdur using hholds
  refine (attains_openCollection hdur).mono (fun d' hopened => ?_) hdown
  refine ⟨hopened.assigned.trans hasg, fun shardID hlt record hrec => ?_⟩
  refine hopened.version shardID hlt record ?_
  rcases hrec with ⟨key, hkey⟩ | ⟨entry, hmem, hlsn, hrec⟩
  · exact (hdur shardID hlt).stored hkey
  · rw [← (hview shardID hlt).wal] at hmem
    rw [← (hview shardID hlt).checkpoint] at hlsn
    exact .inr ⟨entry, hmem, hlsn, hrec⟩

/-- What opening makes of the counter if it remembers the versions. -/
lemma Collection.Remembers.boots (h : c.Remembers env) (hholds : c.Holds env live)
    (hsort : c.assigned.Pairwise (· < ·)) (hboots : (engine env).Boots c c') :
    Versioned env c' := by
  obtain ⟨hshows, hasg, hversions⟩ := hholds.boots_versions hboots
  refine ⟨hshows.ready, hasg.symm ▸ hsort, fun version hmem => ?_,
    fun shardID hlt key record hlook => ?_⟩
  · rw [hasg] at hmem
    obtain ⟨shardID, hlt, record, hle, hrec⟩ := h version hmem
    refine hle.trans (hversions shardID hlt record (hrec.imp_left fun ⟨key, hkey⟩ => ⟨key, ?_⟩))
    choose! base next hdur using id hholds
    obtain ⟨d, hrun, -⟩ := (attains_openCollection hdur).run_nil
    rw [← (hholds.boots (.ok hrun)).lookup shardID hlt]
    rw [run_nil, Outcome.finished.injEq] at hrun
    exact hrun.1 ▸ hkey
  · rw [hshows.lookup shardID hlt] at hlook
    exact hversions shardID hlt record (.inl ⟨key, hlook⟩)

lemma Versioned.run_task (h : Versioned env c) (hsound : request.Sound env c)
    (faults : List Fault) :
    ((request.task env).run faults c).Meets
      (fun _ c' => Assigns c c' ∧ (c'.shards = c.shards ∨ Raises (request.plan env c) c'))
      (Assigns c) :=
  meets_of_wp (h.ready.countsSteps hsound) faults

lemma Versioned.step (h : Versioned env c) (hcount : 0 < env.shardCount)
    {happening : Happening Request} (hallow : Remembering env c happening)
    (hstep : (engine env).Step c happening c') : Versioned env c' := by
  cases hstep with
  | @call _ request faults rest result hrun =>
    replace hrun : (request.task env).run faults c = _ := hrun
    have hasgs := h.run_task hallow.1.sound faults
    have hprog := h.ready.run_task hcount hallow.1
    rw [hrun] at hasgs hprog
    obtain ⟨hasgs, hraises⟩ := hasgs
    obtain ⟨made, hmade, -, hadv⟩ := hprog
    obtain ⟨hsort, hle⟩ := hasgs.sorted h.sorted h.assigned
    have hversion : c.version ≤ c'.version := by
      obtain ⟨count, -, hversion⟩ := hasgs
      omega
    refine ⟨hadv.ready, hsort, hle, fun shardID hlt key record hlook => ?_⟩
    rcases hraises with hshards | hraises
    · rw [hshards] at hlook
      exact (h.live shardID hlt key record hlook).trans hversion
    · rw [hadv.lookup shardID hlt] at hlook
      rcases mem_records_of_applySteps hlook with hold | ⟨step, hmem, -, hrec⟩
      · exact (h.live shardID hlt key record hold).trans hversion
      · exact hraises step (hmade.subset hmem) record hrec
  | @crash d _ request faults hrun hboots =>
    replace hrun : (request.task env).run faults c = _ := hrun
    have hasgs := h.run_task hallow.1.sound faults
    have hint := h.ready.run_task hcount hallow.1
    rw [hrun] at hasgs hint
    obtain ⟨made, -, hleft⟩ := hint
    exact (hallow.2.2 d hrun).boots hleft (hasgs.sorted h.sorted h.assigned).1 hboots
  | restart hboots => exact Collection.Remembers.boots hallow h.ready.holds h.sorted hboots

/-- The mutations of a request have versions that are not lower than those of the records they
replace. -/
lemma Versioned.le_of_mem_plan (h : Versioned env c) (hfresh : request.Fresh c)
    {step : ℕ × Mutation} (hmem : step ∈ request.plan env c) (hlt : step.1 < env.shardCount)
    {old : Record} (hrec : record ∈ step.2.records)
    (hold : (c.shards step.1).shard.lookup record.key = some old) : old.version ≤ record.version := by
  have hle := h.live step.1 hlt _ old hold
  have hstored : ∀ {items : List Item}, record ∈ storeAll c.version items →
      old.version ≤ record.version := fun hmem => hle.trans (mem_storeAll hmem).1.le
  cases request with
  | upsert item =>
    rw [Request.plan] at hmem
    split at hmem
    · rw [mem_singleton.1 hmem] at hrec
      rw [mem_singleton.1 hrec]
      exact hle.trans (Nat.le_succ _)
    · cases hmem
  | batchUpsert items =>
    rw [Request.plan] at hmem
    split at hmem
    · obtain ⟨shardID, -, rfl⟩ := mem_map.1 hmem
      exact hstored (mem_of_mem_filter hrec)
    · cases hmem
  | delete ns id =>
    rw [records_deletion hmem] at hrec
    cases hrec
  | deleteShardWithSequence shardID ns id =>
    rw [records_deletion hmem] at hrec
    cases hrec
  | checkpoint => cases hmem
  | batchUpsertShardIdempotent shardID items key =>
    rw [Request.plan] at hmem
    split at hmem
    · rename_i retained hretained
      rw [retried] at hmem
      split_ifs at hmem with hcomp
      · cases hmem
      · obtain rfl := mem_singleton.1 hmem
        exact hfresh retained hretained (Bool.eq_false_iff.2 hcomp) record hrec old hold
    · split at hmem
      · obtain rfl := mem_singleton.1 hmem
        exact hstored hrec
      · cases hmem

/-- In a run on sound records without a checkpoint of nothing, in which every restart finds a record
with a version as high as any that was assigned, and in which no reserved batch is committed after
newer writes of its records, the versions that `PrepareUpsert` assigns grow strictly, and the
version that `Get` shows of a record never decreases while the record is there. -/
theorem versions_only_grow (hcount : 0 < env.shardCount)
    (h : (engine env).Reaches (Remembering env) (.new env) c) :
    c.assigned.Pairwise (· < ·) ∧
    ∀ happening c', Remembering env c happening → (engine env).Step c happening c' →
      ∀ ns id record record', c.get env ns id = .ok record → c'.get env ns id = .ok record' →
        record.version ≤ record'.version := by
  have hvers : Versioned env c := by
    refine h.invariant ⟨ready_new env, List.Pairwise.nil, fun _ hmem => (by cases hmem), ?_⟩
      fun _ _ _ h => h.step hcount
    intro shardID _ key record hlook
    cases hlook
  refine ⟨hvers.sorted, fun happening c' hallow hstep ns id record record' hget hget' => ?_⟩
  obtain ⟨made, hmade, hadv⟩ := hvers.ready.step hcount hallow.steady hstep
  have hlt := env.route_lt hcount ns id
  have hlook := lookup_of_get hget
  have hlook' := lookup_of_get hget'
  obtain ⟨base, hcoh⟩ := hadv.ready _ hlt
  have hkey : record'.key = recordKey ns id := hcoh.healthy.key_of_lookup hlook'
  rw [hadv.lookup _ hlt] at hlook'
  rcases mem_records_of_applySteps hlook' with hsame | ⟨step, hmem, hshard, hrec⟩
  · rw [Option.mem_unique hlook hsame]
  · have hmem := hmade.subset hmem
    rw [← hkey, ← hshard] at hlook
    rw [← hshard] at hlt
    cases happening with
    | call request faults => exact hvers.le_of_mem_plan hallow.2 hmem hlt hrec hlook
    | crash request faults =>
      exact hvers.le_of_mem_plan hallow.2.1 hmem hlt hrec hlook
    | restart => cases hmem

/-- The theorem for the small collection and a record that is written before and after a
restart. -/
theorem versions_only_grow_restarted : ∃ c c' : Collection,
    (engine smallEnv).Reaches (Remembering smallEnv) (.new smallEnv) c ∧
    (engine smallEnv).Step c (.call (smallUpsert (bytes "a")) []) c' ∧
    c'.assigned = [1, 2] ∧ c.assigned.Pairwise (· < ·) ∧ ∀ record record',
      c.get smallEnv [] (bytes "a") = .ok record → c'.get smallEnv [] (bytes "a") = .ok record' →
        record.version ≤ record'.version := by
  have hallow : ∀ c, Remembering smallEnv c (.call (smallUpsert (bytes "a")) []) := fun c =>
    ⟨steady_smallUpsert (by decide +kernel) c, trivial⟩
  have hwrite := Machine.Reaches.call (.refl : (engine smallEnv).Reaches (Remembering smallEnv)
    (.new smallEnv) _) (hallow _)
  have hremembers : (((engine smallEnv).prog (smallUpsert (bytes "a"))).eval
      (.new smallEnv)).1.Remembers smallEnv := by
    intro version hmem
    rw [show Collection.assigned _ = [1] by decide +kernel, mem_singleton] at hmem
    rw [hmem]
    exact ⟨0, Nat.one_pos, { smallRecord (bytes "a") with version := 1 }, le_rfl,
      .inl ⟨recordKey [] (bytes "a"), by with_unfolding_all rfl⟩⟩
  have hreach := hwrite.restart hremembers (by decide +kernel)
  have hstep : (engine smallEnv).Step _ (.call (smallUpsert (bytes "a")) []) _ :=
    .call (run_nil _ ((engine smallEnv).boot.eval (((engine smallEnv).prog
      (smallUpsert (bytes "a"))).eval (.new smallEnv)).1).1)
  obtain ⟨hsort, hgrow⟩ := versions_only_grow Nat.one_pos hreach
  exact ⟨_, _, hreach, hstep, by decide +kernel, hsort, hgrow _ _ (hallow _) hstep [] _⟩

def deletedWrite : Collection :=
  (((engine smallEnv).prog (.delete [] (bytes "b"))).eval (((engine smallEnv).prog
    (smallUpsert (bytes "b"))).eval (((engine smallEnv).prog (smallUpsert (bytes "a"))).eval
      (.new smallEnv)).1).1).1

def forgottenVersion : Collection :=
  (((engine smallEnv).prog (smallUpsert (bytes "c"))).eval ((engine smallEnv).boot.eval
    (((engine smallEnv).prog .checkpoint).eval deletedWrite).1).1).1

/-- The version of the deleted record is assigned again. -/
theorem version_is_assigned_twice :
    (engine smallEnv).Reaches (Steady smallEnv) (.new smallEnv) forgottenVersion ∧
      forgottenVersion.assigned = [1, 2, 2] := by
  have hdelete : ∀ c, Steady smallEnv c (.call (.delete [] (bytes "b")) []) := by
    refine fun c => ⟨fun step hmem => ?_, fun hempt => absurd hempt.1.1 (by decide),
      fun _ _ hmem => by cases hmem⟩
    change step ∈ deletion smallEnv c [] (bytes "b") at hmem
    rw [deletion] at hmem
    split at hmem
    · rw [mem_singleton.1 hmem]
      exact ⟨by decide +kernel, by decide +kernel, by decide +kernel, by decide +kernel⟩
    · cases hmem
  refine ⟨?_, by decide +kernel⟩
  refine .call (.restart (.call (.call
    (.call (.call .refl ?_) ?_) ?_) ?_) trivial ?_) ?_
  · exact steady_smallUpsert (by decide +kernel) _
  · exact steady_smallUpsert (by decide +kernel) _
  · exact hdelete _
  · exact steady_smallCheckpoint (by decide +kernel)
  · decide +kernel
  · exact steady_smallUpsert (by decide +kernel) _

end Runs

end GideonDB.Engine
