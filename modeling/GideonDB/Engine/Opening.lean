/-
Opening a collection.

Opening loads the segments of all shards and then replays their logs.  If the files of each
shard stand for some records, the collection opens with these records, and the counter of
versions is at least the version of each record that was loaded or replayed.  An attempt that
fails leaves the files standing for the same records.
-/
import GideonDB.Engine.Requests
import GideonDB.Store.Machine

namespace GideonDB.Engine

open Go GideonDB.Core Store Collection List
open Prog hiding bind throw

/-- The records it writes. -/
def Mutation.records : Mutation → List Record
  | .upsert record => [record]
  | .delete _ _ => []
  | .batchUpsert records => records

section Counter

variable {env : Env}

lemma le_raised (records : List Record) (version : ℕ) : version ≤ raised version records ∧
      ∀ record ∈ records, record.version ≤ raised version records := by
  induction records generalizing version with
  | nil => exact ⟨le_rfl, nofun⟩
  | cons record records ih =>
    obtain ⟨hle, hall⟩ := ih (max version record.version)
    exact ⟨(le_max_left _ _).trans hle, forall_mem_cons.2 ⟨(le_max_right _ _).trans hle, hall⟩⟩

lemma le_replayVersion (sh : Shard) (version : ℕ) (mutation : Mutation) :
    version ≤ replayVersion env sh version mutation ∧
      ∀ record ∈ mutation.records, record.version ≤ replayVersion env sh version mutation := by
  cases mutation with
  | upsert record =>
    refine ⟨le_max_left _ _, fun other hmem => ?_⟩
    rw [mem_singleton.1 hmem]
    exact le_max_right _ _
  | delete ns id =>
    refine ⟨?_, nofun⟩
    rw [replayVersion]
    split
    · exact Nat.le_succ _
    · exact le_rfl
  | batchUpsert records => exact le_raised records version

lemma le_recoverVersion {sh : Shard} (h : Healthy env sh) {after : ℕ} {wal : List WalRecord}
    (hsound : ∀ entry ∈ wal, after < entry.lsn → entry.mutation.Sound env) (version : ℕ) :
    version ≤ recoverVersion env after sh version wal ∧
      ∀ entry ∈ wal, after < entry.lsn → ∀ record ∈ entry.mutation.records,
        record.version ≤ recoverVersion env after sh version wal := by
  induction wal generalizing sh version with
  | nil => exact ⟨le_rfl, nofun⟩
  | cons entry wal ih =>
    obtain ⟨hhead, htail⟩ := forall_mem_cons.1 hsound
    rw [recoverVersion]
    by_cases hafter : after < entry.lsn
    · obtain ⟨sh', hreplay, happ⟩ := h.replay (hhead hafter)
      rw [if_pos hafter, hreplay]
      obtain ⟨hle, hall⟩ := ih happ.healthy htail (replayVersion env sh version entry.mutation)
      obtain ⟨hle', hrecs⟩ := @le_replayVersion env sh version entry.mutation
      exact ⟨hle'.trans hle,
        forall_mem_cons.2 ⟨fun _ record hrec => (hrecs record hrec).trans hle, hall⟩⟩
    · rw [if_neg hafter]
      obtain ⟨hle, hall⟩ := ih h htail version
      exact ⟨hle, forall_mem_cons.2 ⟨fun hlt => absurd hlt hafter, hall⟩⟩

lemma foldl_raise (records : List Record) (c : Collection) :
    records.foldl Collection.raise c = { c with version := raised c.version records } := by
  induction records generalizing c with
  | nil => rfl
  | cons record records ih => exact ih (c.raise record)

end Counter

/-! ### One shard after the other -/

/-- What happens outside of the shards while they are opened. -/
structure Counts (c c' : Collection) : Prop where
  version : c.version ≤ c'.version
  assigned : c'.assigned = c.assigned

lemma Counts.refl (c : Collection) : Counts c c := ⟨le_rfl, rfl⟩

lemma Counts.trans {c c' c'' : Collection} (h : Counts c c') (h' : Counts c' c'') : Counts c c'' :=
  ⟨h.version.trans h'.version, h'.assigned.trans h.assigned⟩

section Loop

variable {faulty : Prop} {P Q : ℕ → Node → ℕ → Prop} {E : ℕ → Node → Prop}

/-- A step for one shard: it turns `P` into `Q`, or it fails and leaves `E`. -/
def Turns (faulty : Prop) (P Q : ℕ → Node → ℕ → Prop) (E : ℕ → Node → Prop) (shardID : ℕ)
    (step : Task Unit) : Prop :=
  ∀ c : Collection, P shardID (c.shards shardID) c.version → step.Attains faulty c
    (fun c' => (Collection.shard shardID).same c c' ∧ Counts c c' ∧
      Q shardID (c'.shards shardID) c'.version)
    (fun c' => (Collection.shard shardID).same c c' ∧ Counts c c' ∧ E shardID (c'.shards shardID))

lemma attains_eachShard {step : ℕ → Task Unit} (loop : List ℕ → Task Unit) (hnil : loop [] = pure ())
    (hcons : ∀ shardID shardIDs,
      loop (shardID :: shardIDs) = step shardID >>= fun _ => loop shardIDs)
    (hstep : ∀ shardID, Turns faulty P Q E shardID (step shardID))
    (hP : ∀ shardID n v v', P shardID n v → v ≤ v' → P shardID n v')
    (hQ : ∀ shardID n v v', Q shardID n v → v ≤ v' → Q shardID n v')
    (hPE : ∀ shardID n v, P shardID n v → E shardID n)
    (hQE : ∀ shardID n v, Q shardID n v → E shardID n) {shardIDs : List ℕ} (hnodup : shardIDs.Nodup)
    {c : Collection} (h : ∀ shardID ∈ shardIDs, P shardID (c.shards shardID) c.version) :
    (loop shardIDs).Attains faulty c
      (fun c' => (∀ shardID, shardID ∉ shardIDs → c'.shards shardID = c.shards shardID) ∧
        Counts c c' ∧ ∀ shardID ∈ shardIDs, Q shardID (c'.shards shardID) c'.version)
      (fun c' => (∀ shardID, shardID ∉ shardIDs → c'.shards shardID = c.shards shardID) ∧
        Counts c c' ∧ ∀ shardID ∈ shardIDs, E shardID (c'.shards shardID)) := by
  induction shardIDs generalizing c with
  | nil =>
    rw [hnil]
    exact ⟨fun _ _ => rfl, Counts.refl c, nofun⟩
  | cons shardID shardIDs ih =>
    obtain ⟨hnot, hnodup⟩ := nodup_cons.1 hnodup
    have hne : ∀ other ∈ shardIDs, other ≠ shardID := fun other hmem heq => hnot (heq ▸ hmem)
    rw [hcons]
    refine ((hstep shardID c (h shardID mem_cons_self)).mono (fun _ => id) ?_).bind ?_
    · -- The step has failed or crashed.
      rintro c' ⟨hsame, hcnt, hE⟩
      refine ⟨fun other hmem => hsame other (ne_of_not_mem_cons hmem), hcnt,
        forall_mem_cons.2 ⟨hE, fun other hmem => ?_⟩⟩
      rw [hsame other (hne other hmem)]
      exact hPE other _ _ (h other (mem_cons_of_mem _ hmem))
    · rintro c' ⟨hsame, hcnt, hdone⟩
      have hrest : ∀ other ∈ shardIDs, P other (c'.shards other) c'.version := by
        intro other hmem
        rw [hsame other (hne other hmem)]
        exact hP other _ _ _ (h other (mem_cons_of_mem _ hmem)) hcnt.version
      have hothers : ∀ {c'' : Collection}, (∀ other, other ∉ shardIDs → c''.shards other = c'.shards other) →
          ∀ other, other ∉ shardID :: shardIDs → c''.shards other = c.shards other :=
        fun hsame' other hmem => (hsame' other (not_mem_of_not_mem_cons hmem)).trans
          (hsame other (ne_of_not_mem_cons hmem))
      refine (ih hnodup hrest).mono ?_ ?_
      · rintro c'' ⟨hsame', hcnt', hall⟩
        refine ⟨hothers hsame', hcnt.trans hcnt', forall_mem_cons.2 ⟨?_, hall⟩⟩
        rw [hsame' shardID hnot]
        exact hQ shardID _ _ _ hdone hcnt'.version
      · rintro c'' ⟨hsame', hcnt', hall⟩
        refine ⟨hothers hsame', hcnt.trans hcnt', forall_mem_cons.2 ⟨?_, hall⟩⟩
        rw [hsame' shardID hnot]
        exact hQE shardID _ _ hdone

end Loop

/-! ### The records on disk -/

/-- The record is in the part of the log that is replayed. -/
def InLog (disk : Disk) (record : Record) : Prop :=
  ∃ entry ∈ disk.wal, disk.checkpoint < entry.lsn ∧ record ∈ entry.mutation.records

/-- The record is in the segments or in that part of the log. -/
def Stored (base : List Record) (disk : Disk) (record : Record) : Prop :=
  record ∈ base ∨ InLog disk record

lemma Mutation.mem_records_of_apply {mutation : Mutation} {live : Live} {key : GoString}
    {record : Record} (h : mutation.apply live key = some record) :
    live key = some record ∨ record ∈ mutation.records := by
  have hupdate : ∀ (live : Live) (other : Record),
      Function.update live other.key (some other) key = some record →
        live key = some record ∨ record = other := by
    intro live other hother
    rw [Function.update_apply] at hother
    split at hother
    · exact .inr (Option.some.inj hother).symm
    · exact .inl hother
  cases mutation with
  | upsert other => exact (hupdate live other h).imp_right mem_singleton.2
  | delete ns id =>
    rw [apply, Function.update_apply] at h
    split at h
    · cases h
    · exact .inl h
  | batchUpsert records =>
    induction records generalizing live with
    | nil => exact .inl h
    | cons other records ih =>
      rcases ih h with h | hmem
      · exact (hupdate live other h).imp_right fun heq => mem_cons.2 (.inl heq)
      · exact .inr (mem_cons_of_mem _ hmem)

section Stored

variable {env : Env} {base : List Record} {live : Live} {next : ℕ} {disk : Disk} {record : Record}

lemma stored_of_tailApply {wal : List WalRecord} {after : ℕ} {key : GoString}
    (h : tailApply wal after live key = some record) : live key = some record ∨
      ∃ entry ∈ wal, after < entry.lsn ∧ record ∈ entry.mutation.records := by
  induction wal generalizing live with
  | nil => exact .inl h
  | cons entry wal ih =>
    rw [tailApply_cons] at h
    rcases ih h with hlive | ⟨other, hmem, hother⟩
    · split_ifs at hlive with hlt
      · refine (Mutation.mem_records_of_apply hlive).imp_right fun hmem => ?_
        exact ⟨entry, mem_cons_self, hlt, hmem⟩
      · exact .inl hlive
    · exact .inr ⟨other, mem_cons_of_mem _ hmem, hother⟩

lemma Durable.nodup (h : Durable env disk base live next) : (base.map Record.key).Nodup := by
  have hman := h.manifest
  cases hdisk : disk.manifest with
  | none =>
    rw [hdisk] at hman
    obtain rfl : base = [] := hman
    exact nodup_nil
  | some manifest =>
    rw [hdisk] at hman
    exact Describes.nodup hman

lemma Durable.stored (h : Durable env disk base live next) {key : GoString}
    (hlive : live key = some record) : Stored base disk record := by
  rw [← h.replayed] at hlive
  refine (stored_of_tailApply hlive).imp_left fun hbase => ?_
  exact ((lookup_entriesOf_eq_some h.nodup).1 hbase).1

end Stored

/-! ### The collection -/

section Open

variable {env : Env} {faulty : Prop} {c : Collection} {base : ℕ → List Record} {live : ℕ → Live}
  {next : ℕ → ℕ}

/-- The collection after it has been opened. -/
structure CollectionOpened (env : Env) (base : ℕ → List Record) (live : ℕ → Live)
    (next : ℕ → ℕ) (c c' : Collection) : Prop where
  opened : ∀ shardID < env.shardCount, Opened (env.ofShard shardID) (base shardID) (live shardID)
    (next shardID) (c.shards shardID) (c'.shards shardID)
  version : ∀ shardID < env.shardCount, ∀ record,
    Stored (base shardID) (c.shards shardID).disk record → record.version ≤ c'.version
  assigned : c'.assigned = c.assigned

/-- The collection after an attempt to open it. -/
structure CollectionReopens (env : Env) (c c' : Collection) : Prop where
  reopens : ∀ shardID < env.shardCount,
    SameView (c.shards shardID).disk (c'.shards shardID).disk
  assigned : c'.assigned = c.assigned

/-- Not open yet. -/
def Closed (env : Env) (base : ℕ → List Record) (live : ℕ → Live) (next : ℕ → ℕ) (c : Collection)
    (shardID : ℕ) (n : Node) (_ : ℕ) : Prop :=
  n = (c.shards shardID).restarted (env.ofShard shardID) ∧
    Durable (env.ofShard shardID) (c.shards shardID).disk (base shardID) (live shardID) (next shardID)

/-- Segments are loaded. -/
def HalfOpen (env : Env) (base : ℕ → List Record) (live : ℕ → Live) (next : ℕ → ℕ) (c : Collection)
    (shardID : ℕ) (n : Node) (version : ℕ) : Prop :=
  Restored (env.ofShard shardID) (base shardID)
      ((c.shards shardID).restarted (env.ofShard shardID)) n ∧
    Durable (env.ofShard shardID) (c.shards shardID).disk (base shardID) (live shardID)
      (next shardID) ∧ ∀ record ∈ base shardID, record.version ≤ version

/-- The log is replayed. -/
def Open (env : Env) (base : ℕ → List Record) (live : ℕ → Live) (next : ℕ → ℕ) (c : Collection)
    (shardID : ℕ) (n : Node) (version : ℕ) : Prop :=
  Opened (env.ofShard shardID) (base shardID) (live shardID) (next shardID) (c.shards shardID) n ∧
    ∀ record, Stored (base shardID) (c.shards shardID).disk record → record.version ≤ version

lemma turns_load (shardID : ℕ) : Turns faulty (Closed env base live next c)
    (HalfOpen env base live next c) (fun shardID n => SameView (c.shards shardID).disk n.disk) shardID
    (onShard shardID (loadSegments (env.ofShard shardID)) >>= fun _ =>
      Prog.update fun c => (c.shards shardID).shard.list.foldl Collection.raise c) := by
  rintro c₁ ⟨hstart, hdur⟩
  have hget : (Collection.shard shardID).get c₁ =
      (c.shards shardID).restarted (env.ofShard shardID) := hstart
  have hload := @attains_loadSegments (env.ofShard shardID) faulty _
    ((c.shards shardID).restarted (env.ofShard shardID)) hdur.manifest rfl rfl
  rw [← hget] at hload
  refine (hload.zoom.mono (fun _ => id) ?_).bind ?_
  · rintro c₂ ⟨n, rfl, hreop⟩
    rw [hget] at hreop
    refine ⟨(Collection.shard shardID).same_put c₁ n, ⟨le_rfl, rfl⟩, ?_⟩
    rw [shards_put]
    exact hreop
  · rintro c₂ ⟨n, rfl, hrestored⟩
    rw [hget] at hrestored
    rw [Attains, wp_update, foldl_raise]
    obtain ⟨hle, hall⟩ := le_raised n.shard.list c₁.version
    refine ⟨(Collection.shard shardID).same_put c₁ n, ⟨?_, rfl⟩, ?_, hdur, ?_⟩
    · dsimp only
      rw [shards_put]
      exact hle
    · dsimp only
      rw [shards_put]
      exact hrestored
    · dsimp only
      rw [shards_put]
      refine fun record hmem => hall record (hrestored.healthy.enumerates.mem.2 ?_)
      rw [hrestored.lookup]
      exact (lookup_entriesOf_eq_some hdur.nodup).2 ⟨hmem, rfl⟩

lemma turns_replay (shardID : ℕ) : Turns faulty (HalfOpen env base live next c)
    (Open env base live next c) (fun shardID n => SameView (c.shards shardID).disk n.disk) shardID
    (Prog.update (recount env shardID) >>= fun _ =>
      onShard shardID (openLog (env.ofShard shardID))) := by
  rintro c₁ ⟨hrestored, hdur, hversions⟩
  have hopen := @Restored.openLog _ faulty _ _ _ _ _ hrestored hdur
  have hckp : (c₁.shards shardID).checkpointLSN = (c.shards shardID).disk.checkpoint :=
    hrestored.checkpointLSN
  have hwal : (c₁.shards shardID).disk.wal = (c.shards shardID).disk.wal := hrestored.view.wal
  obtain ⟨hle, hall⟩ := le_recoverVersion hrestored.healthy hdur.sound c₁.version
  rw [← hwal, ← hckp] at hle hall
  rw [Attains, wp_bind, wp_update, after_ok]
  refine (Attains.zoom (s := c₁.recount env shardID) hopen).mono ?_ ?_
  · rintro c₂ ⟨n, rfl, hopened⟩
    refine ⟨(Collection.shard shardID).same_put (c₁.recount env shardID) n, ⟨hle, rfl⟩, ?_,
      fun record hstored => ?_⟩
    · rw [shards_put]
      exact ⟨hopened.view, hopened.coherent, hopened.lookup, hopened.nextLSN⟩
    · rcases hstored with hmem | ⟨entry, hentry, hlt, hmem⟩
      · exact (hversions record hmem).trans hle
      · rw [← hwal] at hentry
        rw [← hckp] at hlt
        exact hall entry hentry hlt record hmem
  · rintro c₂ ⟨n, rfl, hreop⟩
    refine ⟨(Collection.shard shardID).same_put (c₁.recount env shardID) n, ⟨hle, rfl⟩, ?_⟩
    rw [shards_put]
    exact hreop

/-- The collection opens with the records that its files stand for, and every attempt leaves
files that stand for them. -/
theorem attains_openCollection (h : ∀ shardID < env.shardCount, Durable (env.ofShard shardID)
      (c.shards shardID).disk (base shardID) (live shardID) (next shardID)) :
    (openCollection env).Attains faulty c (CollectionOpened env base live next c)
      (CollectionReopens env c) := by
  have hclosed : ∀ shardID ∈ List.range env.shardCount, Closed env base live next c shardID
      ((c.restarted env).shards shardID) (c.restarted env).version :=
    fun shardID hmem => ⟨rfl, h shardID (mem_range.1 hmem)⟩
  have hreop : ∀ {c' : Collection}, Counts (c.restarted env) c' →
      (∀ shardID ∈ List.range env.shardCount,
        SameView (c.shards shardID).disk (c'.shards shardID).disk) →
      CollectionReopens env c c' := fun hcnt hall =>
    ⟨fun shardID hlt => hall shardID (mem_range.2 hlt), hcnt.assigned⟩
  rw [openCollection, Attains, wp_bind, wp_update, after_ok]
  have hload := @attains_eachShard faulty _ _ _ _ (loadAll env) rfl
    (fun shardID shardIDs => by rw [loadAll, bind_assoc]) turns_load
    (fun _ _ _ _ h _ => h) (fun _ _ _ _ h hle => ⟨h.1, h.2.1, fun r hr => (h.2.2 r hr).trans hle⟩)
    (fun _ _ _ h => by rw [h.1]; exact ⟨rfl, rfl, fun _ _ _ _ => rfl⟩)
    (fun _ _ _ h => h.1.view) _ nodup_range _ hclosed
  refine (hload.mono (fun _ => id) fun c' hc' => hreop hc'.2.1 hc'.2.2).bind ?_
  rintro c₁ ⟨-, hcnt, hhalf⟩
  have hreplay := @attains_eachShard faulty _ _ _ _ (openLogs env) rfl
    (fun shardID shardIDs => by rw [openLogs, bind_assoc]) turns_replay
    (fun _ _ _ _ h hle => ⟨h.1, h.2.1, fun r hr => (h.2.2 r hr).trans hle⟩)
    (fun _ _ _ _ h hle => ⟨h.1, fun r hr => (h.2 r hr).trans hle⟩)
    (fun _ _ _ h => h.1.view) (fun _ _ _ h => h.1.view) _ nodup_range _ hhalf
  refine hreplay.mono ?_ fun c₂ hc₂ => hreop (hcnt.trans hc₂.2.1) hc₂.2.2
  rintro c₂ ⟨-, hcnt', hopen⟩
  exact ⟨fun shardID hlt => (hopen shardID (mem_range.2 hlt)).1,
    fun shardID hlt => (hopen shardID (mem_range.2 hlt)).2, (hcnt.trans hcnt').assigned⟩

end Open

end GideonDB.Engine
