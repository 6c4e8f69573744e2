/-
Idempotency keys.

A batch with a key is reserved in the ledger, appended to the log, and completed in the ledger,
in three steps.  Once an entry is completed a call with its key answers from the ledger and does
nothing.  The file of the ledger is written after the log, so a process that stops between the
two comes back with a batch in its log that its ledger does not know as completed.
-/
import GideonDB.Engine.Restart
import GideonDB.Engine.Sequence

namespace GideonDB.Engine

open Go GideonDB.Core Store GoMap List
open Prog hiding bind throw

/-! ### Programs that leave the ledger alone -/

/-- The ledger and the commits are the same. -/
def SameLedger (n n' : Node) : Prop :=
  n'.ledger = n.ledger ∧ n'.disk.ledger = n.disk.ledger ∧ n'.commits = n.commits

/-- The ledger is the same, and the shard still takes the writes that it took. -/
def Apart (n n' : Node) : Prop := SameLedger n n' ∧ SameShape n n'

lemma Apart.trans {n₁ n₂ n₃ : Node} (h : Apart n₁ n₂) (h' : Apart n₂ n₃) : Apart n₁ n₃ :=
  ⟨⟨h'.1.1.trans h.1.1, h'.1.2.1.trans h.1.2.1, h'.1.2.2.trans h.1.2.2⟩,
    fun config hshape => h'.2 config (h.2 config hshape)⟩

lemma Apart.refl (n : Node) : Apart n n := ⟨⟨rfl, rfl, rfl⟩, fun _ => id⟩

lemma Installs.apart {n n' : Node} (h : Installs n n') : Apart n n' := by
  refine ⟨?_, h.2⟩
  rw [SameLedger, h.1]
  exact ⟨rfl, rfl, rfl⟩

section Within

variable {env : Env}

lemma apart_append (mutation : Mutation) : (append env mutation).Within Apart := by
  rw [append]
  split
  · exact .throw _
  split
  · exact .throw _
  refine Within.state.bind fun n => (Within.attempt Apart.refl).bind
    fun ok => ?_
  split
  · exact (Within.update Apart.refl).bind fun _ => Within.pure _
  · exact (Within.update Apart.refl).bind fun _ => Within.throw _

lemma apart_saveManifest (manifest : Manifest) : (saveManifest manifest).Within Apart :=
  Within.file Apart.refl

lemma apart_reset (nextLSN : ℕ) : (reset nextLSN).Within Apart := by
  have hwal : (Prog.file .io (Node.setWal []) : Action Unit).Within Apart :=
    Within.file Apart.refl
  have hsync : (Prog.file .io id : Action Unit).Within Apart :=
    Within.file Apart.refl
  cases nextLSN with
  | zero => exact .throw _
  | succ last => exact hwal.bind fun _ => hsync.bind fun _ => Within.update Apart.refl

lemma apart_checkpointShard : (checkpointShard env).Within Apart := by
  refine ((within_prepareCheckpoint env).mono fun _ _ h => h.installs.apart).bind fun plan => ?_
  cases plan with
  | none => exact .pure _
  | some plan =>
    exact (apart_saveManifest _).bind fun _ => (apart_reset _).bind fun _ =>
      (within_installCheckpoint env plan).mono fun _ _ => Installs.apart

lemma apart_afterMutation (count : ℕ) : (afterMutation env count).Within Apart := by
  refine (Within.update Apart.refl).bind fun _ => Within.state.bind
    fun n => ?_
  split
  · exact apart_checkpointShard
  · exact .pure _

lemma apart_commit {α : Type} (mutation : Mutation) {apply : Action Unit}
    (happly : apply.Within ShardOnly) (count : ℕ) (result : ℕ → α) :
    (append env mutation >>= fun sequence => apply >>= fun _ => afterMutation env count >>= fun _ =>
      (pure (result sequence) : Action α)).Within Apart :=
  (apart_append mutation).bind fun _ => (happly.mono fun _ _ h => h.installs.apart).bind
    fun _ => (apart_afterMutation count).bind fun _ => .pure _

lemma apart_applyReplica (sequence : ℕ) (mutation : Mutation) {apply : Action Unit}
    (happly : apply.Within ShardOnly) (count : ℕ) :
    (applyReplica env sequence mutation apply count).Within Apart := by
  rw [applyReplica]
  split
  · exact .throw _
  refine Within.state.bind fun n => ?_
  split
  · split
    · exact .throw _
    · split
      · exact .throw _
      · exact .pure _
  split
  · exact .throw _
  · exact (apart_append mutation).bind fun _ => (happly.mono fun _ _ h =>
      h.installs.apart).bind fun _ => Within.update Apart.refl

lemma apart_installReplicaSnapshot (sequence : ℕ) (records : List Record) :
    (installReplicaSnapshot env sequence records).Within Apart := by
  refine ((within_prepareSnapshot env _ _).mono fun _ _ h => h.1.installs.apart).bind fun _ => ?_
  exact ((apart_saveManifest _).bind fun _ => apart_reset _).bind fun _ =>
    (within_installSnapshot env _ _ _).mono fun _ _ => Installs.apart

/-- Only a keyed batch touches the ledger. -/
theorem apart_prog {op : Op}
    (hop : ∀ key request prepared, op ≠ .batchUpsertIdempotent key request prepared) :
    (op.prog env).Within Apart := by
  cases op with
  | upsert record =>
    exact (apart_commit _ (within_shardUpsert env _) 1 fun _ => record).bind fun _ =>
      Within.pure _
  | batchUpsert records =>
    exact (apart_commit _ (within_upsertAll env _) _ fun sequence => (records, sequence)).bind
      fun _ => .pure _
  | delete ns id =>
    refine Within.bind (Within.state.bind fun n => ?_) fun _ => Within.pure _
    split
    · exact .throw _
    · exact apart_commit _ (within_shardDelete env _ _) 1 fun sequence => sequence
  | batchUpsertIdempotent key request prepared => exact absurd rfl (hop key request prepared)
  | checkpoint => exact apart_checkpointShard
  | applyReplicaBatch sequence records =>
    change (applyReplicaBatch env sequence records).Within Apart
    rw [applyReplicaBatch]
    split
    · exact .throw _
    · exact (Within.ofExcept _).bind fun _ =>
        apart_applyReplica _ _ (within_restoreAll env _) _
  | applyReplicaDelete sequence ns id =>
    change (applyReplicaDelete env sequence ns id).Within Apart
    rw [applyReplicaDelete]
    split
    · exact .throw _
    · split
      · exact .throw _
      · exact apart_applyReplica _ _ (within_deleteIfPresent env _ _) _
  | installReplicaSnapshot sequence records => exact apart_installReplicaSnapshot _ _

end Within

/-! ### Opening -/

section Opening

variable {env : Env} {config : CollectionConfig} {sh sh' : Shard}

lemma shaped_restore {record : Record} (h : sh.Shaped config)
    (hrestore : restore env sh record = .ok sh') : sh'.Shaped config := by
  obtain ⟨_, -, happlied⟩ := bind_eq_ok.1 hrestore
  have hupsert := h.upsert env.lib record
  rcases heq : sh.upsert env.lib record with ⟨sh₁, _ | err⟩ <;> rw [heq] at happlied hupsert <;>
    cases happlied
  exact hupsert

lemma shaped_replay {mutation : Mutation} (h : sh.Shaped config)
    (hreplay : replay env sh mutation = .ok sh') : sh'.Shaped config := by
  cases mutation with
  | upsert record =>
    rw [replay] at hreplay
    split at hreplay
    · exact shaped_restore h hreplay
    · cases hreplay
  | delete ns id =>
    have hdelete := h.delete env.lib ns id
    rw [replay, applyDelete] at hreplay
    split at hreplay
    · cases hreplay
    rcases heq : sh.delete env.lib ns id with ⟨sh₁, _ | err⟩ <;> rw [heq] at hreplay hdelete
    · cases hreplay
      exact hdelete
    · cases err <;> cases hreplay
      exact hdelete
  | batchUpsert records =>
    rw [replay] at hreplay
    split at hreplay
    · cases hreplay
    refine foldlM_invariant (fun record _ {_ _} h hstep => ?_) h hreplay
    split at hstep
    · exact shaped_restore h hstep
    · cases hstep

lemma apart_loadSegments : (loadSegments env).Within Apart := by
  refine Within.state.bind fun n => ?_
  split
  · exact .throw _
  · exact .pure _
  · refine (Within.ofExcept _).bind fun loaded => (Within.update fun _ => ?_).bind fun _ =>
      .bind ((within_restoreRouted env _).mono fun _ _ h => h.installs.apart) fun _ =>
        .bind ((within_cleanupOrphans _).mono fun _ _ h => h.installs.apart) fun _ =>
          Within.update Apart.refl
    refine ⟨⟨rfl, rfl, rfl⟩, fun config h => ?_⟩
    dsimp only [Node.setShard]
    split
    · exact h.installImmutable _
    · exact h

/-- An opening takes the ledger from its file and makes a shard that takes writes. -/
lemma wp_openShard_ledger (n : Node) : (openShard env).wp True
    (fun result n' => n'.commits = n.commits ∧
      (result = .ok () → n'.ledger = n.disk.ledger ∧ n'.shard.Shaped env.config))
    (fun n' => n'.commits = n.commits) n := by
  rw [openShard, wp_bind, wp_update, after_ok]
  refine apart_loadSegments.wp_seq (fun _ _ _ => Apart.trans) (Apart.refl _) (fun _ n' h => ?_)
    (fun _ n' h => ⟨h.1.2.2, fun hok => by cases hok⟩) fun n' h => h.1.2.2
  rw [openLog, wp_bind, wp_state, after_ok, wp_bind, wp_ofExcept]
  cases hrecover : n'.disk.wal.foldlM (recoverStep env n'.checkpointLSN)
      ⟨0, n'.shard, n'.digests⟩ with
  | error err => exact ⟨h.1.2.2, fun hok => by cases hok⟩
  | ok recovered =>
    refine ⟨h.1.2.2, fun _ => ⟨h.1.1, ?_⟩⟩
    have hloaded : n'.shard.Shaped env.config := h.2 _ ⟨rfl, Segment.Shaped.new _⟩
    refine foldlM_invariant (fun record _ {acc acc'} hacc hstep => ?_) hloaded
      (recover_cases env hrecover).2
    exact shaped_replay hacc hstep

end Opening

/-! ### Keyed batches -/

/-- A keyed batch without a commit: at most an entry that is not completed is new. -/
structure Unrecorded (key : GoString) (records : List Record) (n n' : Node) : Prop where
  commits : n'.commits = n.commits
  kept : ∀ k entry, n.ledger.get k = some entry → n'.ledger.get k = some entry
  fresh : ∀ k entry, n'.ledger.get k = some entry → n.ledger.get k = some entry ∨
    (k = key ∧ entry.completed = false ∧ entry.records = records)
  shape : SameShape n n'

/-- The commit of an entry under the next LSN. -/
structure Recorded (key : GoString) (entry : LedgerEntry) (n n' : Node) : Prop where
  commits : n'.commits = n.commits ++ [⟨key, entry.records, n.nextLSN⟩]
  ledger : n'.ledger = n.ledger.set key { entry with completed := true, sequence := n.nextLSN }
  nextLSN : n'.nextLSN = n.nextLSN + 1
  shape : SameShape n n'

lemma Apart.unrecorded {n n' : Node} (h : Apart n n') (key : GoString)
    (records : List Record) : Unrecorded key records n n' where
  commits := h.1.2.2
  kept k entry hget := by rwa [h.1.1]
  fresh k entry hget := Or.inl (by rwa [h.1.1] at hget)
  shape := h.2

section Keyed

variable {env : Env} {n n' : Node} {key : GoString} {entry : LedgerEntry}

/-- A program that leaves the next LSN at a value. -/
def KeepsNext (next : ℕ) (n n' : Node) : Prop := n.nextLSN = next → n'.nextLSN = next

lemma keepsNext_publishCheckpoint (plan : Plan) :
    (publishCheckpoint env plan).Within (KeepsNext (plan.maxLSN + 1)) := by
  refine (Within.file fun _ => id).bind fun _ => Within.bind ?_ fun _ =>
    (within_installCheckpoint env plan).mono fun _ _ h hnext => h.sameLog.2.2.trans hnext
  exact (Within.file fun _ => id).bind fun _ => (Within.file fun _ => id).bind fun _ =>
    Within.update fun _ _ => rfl

/-- The checkpoint that may be due goes on with the same LSN. -/
lemma wp_afterMutation_nextLSN (hpos : 0 < n.nextLSN) (count : ℕ) :
    (afterMutation env count).wp True (fun _ n' => n'.nextLSN = n.nextLSN) (fun _ => True) n := by
  rw [afterMutation, wp_bind, wp_update, after_ok, wp_bind, wp_state, after_ok]
  split
  · refine wp_seq (wp_mono (wp_and ((within_prepareCheckpoint env).wp (fun _ _ _ => .trans)
      (.refl _)) (ensures_prepareCheckpoint _)) (fun _ _ => id) fun _ _ => trivial)
      (fun plan n' h => ?_) fun _ n' h => h.1.sameLog.2.2
    cases plan with
    | none => exact h.1.sameLog.2.2
    | some plan =>
      have hnext : n.nextLSN = plan.maxLSN + 1 := by
        rw [(h.2 _ rfl).2.2 plan rfl]
        exact (Nat.sub_add_cancel hpos).symm
      exact wp_mono ((keepsNext_publishCheckpoint plan).wp (fun _ _ _ h h' hn => h' (h hn))
        (fun hn => hn)) (fun _ n'' h'' => (h'' (h.1.sameLog.2.2.trans hnext)).trans hnext.symm)
        fun _ _ => trivial
  · rfl

lemma Recorded.wp_afterMutation (h : Recorded key entry n n') (count : ℕ) :
    (afterMutation env count >>= fun _ => (pure (entry.records, n.nextLSN) : Action _)).wp True
      (fun result n'' => ((∃ err, result = .error err) ∧ Apart n n'') ∨
        (Recorded key entry n n'' ∧ ∀ a, result = .ok a → a = (entry.records, n.nextLSN)))
      (fun n'' => n''.commits = n.commits ∨
        n''.commits = n.commits ++ [⟨key, entry.records, n.nextLSN⟩]) n' := by
  have hafter := wp_and (@Within.wp _ _ _ True _ _ (@apart_afterMutation env count)
    (fun _ _ _ => Apart.trans) n' n' (.refl n'))
    (@wp_afterMutation_nextLSN env n' (by rw [h.nextLSN]; exact Nat.succ_pos _) count)
  have hdone : ∀ n'', Apart n' n'' → n''.nextLSN = n'.nextLSN → Recorded key entry n n'' :=
    fun n'' hapart hnext => ⟨hapart.1.2.2.trans h.commits, hapart.1.1.trans h.ledger,
      hnext.trans h.nextLSN, fun config hshape => hapart.2 config (h.shape config hshape)⟩
  refine wp_seq (wp_mono hafter (fun _ _ => id) fun n'' hn'' => ?_)
    (fun _ n'' hn'' => ?_) fun err n'' hn'' => ?_
  · exact .inr (hn''.1.1.2.2.trans h.commits)
  · exact .inr ⟨hdone n'' hn''.1 hn''.2, fun a ha => (Except.ok.inj ha).symm⟩
  · exact .inr ⟨hdone n'' hn''.1 hn''.2, nofun⟩

/-- A shard of the right shape takes sound records. -/
lemma wp_restoreAll_shaped {Q : Except Error Unit → Node → Prop} {C : Node → Prop}
    (h : n.shard.Shaped env.config) {records : List Record}
    (hsound : ∀ record ∈ records, Sound env record)
    (hQ : ∀ sh, SameShape n { n with shard := sh } → Q (.ok ()) { n with shard := sh }) :
    (restoreAll env records).wp True Q C n := by
  induction records generalizing n with
  | nil => exact hQ n.shard fun _ => id
  | cons record records ih =>
    have hrec := hsound record mem_cons_self
    have hnone : (n.shard.upsert env.lib record).2 = none := by
      have hactive := h.2.upsert_eq_none env.lib hrec.prepared hrec.id hrec.dimension
      rw [Shard.upsert]
      split <;> rename_i heq <;> rw [heq] at hactive
      cases hactive
    rw [restoreAll, wp_bind, wp_ofExcept, hrec.valid, after_ok, wp_bind, mutateShard, wp_bind,
      wp_state, after_ok, wp_bind, wp_update, after_ok, hnone]
    exact @ih (n.setShard fun sh => (sh.upsert env.lib record).1) (h.upsert _ _)
      (forall_mem_cons.1 hsound).2 fun sh hsh => hQ sh fun config hshape =>
        hsh config (hshape.upsert _ _)

lemma wp_commitReservedBatch (h : n.shard.Shaped env.config)
    (hsound : (Mutation.batchUpsert entry.records).Sound env) :
    (commitReservedBatch env key entry).wp True (fun result n' =>
        ((∃ err, result = .error err) ∧ Apart n n') ∨
          (Recorded key entry n n' ∧ ∀ a, result = .ok a → a = (entry.records, n.nextLSN)))
      (fun n' => n'.commits = n.commits ∨
        n'.commits = n.commits ++ [⟨key, entry.records, n.nextLSN⟩]) n := by
  refine wp_seq (wp_mono (wp_append_sound hsound n) (fun _ _ => id) ?_) ?_ ?_
  · rintro n' rfl
    exact .inl rfl
  · rintro sequence n' (⟨hseq, rfl⟩ | ⟨⟨err, herr⟩, -⟩)
    · cases hseq
      rw [wp_bind, wp_update, after_ok, wp_bind]
      refine @wp_restoreAll_shaped env { n.logged (.batchUpsert entry.records) with
        commits := n.commits ++ [⟨key, entry.records, n.nextLSN⟩] } _ _ h _ hsound.2.2
          fun sh hshape => ?_
      rw [after_ok, wp_bind, wp_update, after_ok, wp_bind]
      have hrecd : ∀ n', n'.commits = n.commits ++ [⟨key, entry.records, n.nextLSN⟩] →
          n'.ledger = n.ledger.set key { entry with completed := true, sequence := n.nextLSN } →
          n'.nextLSN = n.nextLSN + 1 → n'.shard = sh → Recorded key entry n n' :=
        fun n' hcmts hled hnext hshard => ⟨hcmts, hled, hnext, fun config hn => by
          rw [hshard]
          exact hshape config hn⟩
      refine wp_persistIdempotency (.inr rfl) ?_ (fun ledger => ?_) fun _ ledger => ?_
      · exact .inr ⟨hrecd _ rfl rfl rfl rfl, nofun⟩
      · exact (hrecd _ rfl rfl rfl rfl).wp_afterMutation _
      · exact .inr ⟨hrecd _ rfl rfl rfl rfl, nofun⟩
    · cases herr
  · rintro err n' (⟨hseq, -⟩ | ⟨-, rfl⟩)
    · cases hseq
    · exact .inl ⟨⟨err, rfl⟩, .refl _⟩

/-- What a call with a key leaves: no commit, or the commit of what the ledger has for the key and
else of the prepared records.  A result is what the ledger has afterwards. -/
structure KeyedCall (key : GoString) (prepared : List Record) (n : Node)
    (result : Except Error (List Record × ℕ)) (n' : Node) : Prop where
  step : Unrecorded key prepared n n' ∨ ∃ entry, (n.ledger.get key = none ∧ entry.records = prepared ∨
    n.ledger.get key = some entry ∧ entry.completed = false) ∧ Recorded key entry n n'
  answer : ∀ a, result = .ok a → ∃ digest, n'.ledger.get key = some ⟨digest, a.1, true, a.2⟩

/-- What a crash in such a call leaves. -/
def KeyedCrash (key : GoString) (n n' : Node) : Prop :=
  n'.commits = n.commits ∨ ∃ records, n'.commits = n.commits ++ [⟨key, records, n.nextLSN⟩] ∧
    ∀ entry, n.ledger.get key = some entry → entry.completed = false

lemma KeyedCall.shape {prepared : List Record} {result : Except Error (List Record × ℕ)}
    (h : KeyedCall key prepared n result n') : SameShape n n' := by
  rcases h.step with hunrecorded | ⟨_, -, hrecd⟩
  · exact hunrecorded.shape
  · exact hrecd.shape

lemma Unrecorded.failed {records : List Record} (h : Unrecorded key records n n') (err : Error) :
    KeyedCall key records n (.error err) n' := ⟨Or.inl h, nofun⟩

lemma Recorded.keyedCall {records : List Record} {result : Except Error (List Record × ℕ)}
    (h : Recorded key entry n n') (hentry : n.ledger.get key = none ∧ entry.records = records ∨
      n.ledger.get key = some entry ∧ entry.completed = false)
    (hres : ∀ a, result = .ok a → a = (entry.records, n.nextLSN)) :
    KeyedCall key records n result n' := by
  refine ⟨.inr ⟨entry, hentry, h⟩, fun a ha => ⟨entry.digest, ?_⟩⟩
  rw [h.ledger, get_set_self, hres a ha]

lemma wp_reserveBatch (h : n.shard.Shaped env.config) (hget : n.ledger.get key = none)
    (hopen : entry.completed = false) (hsound : (Mutation.batchUpsert entry.records).Sound env) :
    (reserveBatch env key entry).wp True (KeyedCall key entry.records n) (KeyedCrash key n) n := by
  have hnone : ∀ e, n.ledger.get key = some e → e.completed = false := fun e he => by
    rw [hget] at he
    cases he
  -- The entry that is stored and not committed.
  have hresv : ∀ n' : Node, n'.commits = n.commits → n'.ledger = n.ledger.set key entry →
      SameShape n n' → Unrecorded key entry.records n n' := fun n' hcmts hled hshape => by
    refine ⟨hcmts, fun k e he => ?_, fun k e he => ?_, hshape⟩
    · have hne : k ≠ key := by
        rintro rfl
        rw [hget] at he
        cases he
      rwa [hled, get_set_of_ne _ _ hne]
    · rw [hled, get_set] at he
      split at he
      · cases he
        rename_i hkey
        exact .inr ⟨hkey, hopen, rfl⟩
      · exact .inl he
  -- The entry that could not be stored.
  have hdropped : ∀ n' : Node, n'.commits = n.commits →
      n'.ledger = (n.ledger.set key entry).delete key → SameShape n n' →
      Unrecorded key entry.records n n' := fun n' hcmts hled hshape => by
      have hsame : ∀ k, n'.ledger.get k = n.ledger.get k := fun k => by
        rw [hled, get_delete, get_set]
        split_ifs with hkey
        · rw [hkey, hget]
        · rfl
      exact ⟨hcmts, fun k e he => (hsame k).trans he, fun k e he => .inl ((hsame k).symm.trans he),
        hshape⟩
  rw [reserveBatch, wp_bind, wp_update, after_ok, wp_bind]
  refine wp_persistIdempotency (.inl rfl) ?_ (fun ledger => ?_) fun _ ledger => ?_
  · exact Unrecorded.failed (hdropped _ (by rfl) (by rfl) (by exact fun _ => id)) .io
  · refine wp_mono (@wp_commitReservedBatch env (Node.setLedgerFile ledger { n with
      ledger := n.ledger.set key entry }) key entry h hsound) ?_ ?_
    · rintro result n' (⟨⟨err, rfl⟩, hsame⟩ | ⟨hrecd, hres⟩)
      · exact (hresv n' hsame.1.2.2 hsame.1.1 hsame.2).failed err
      · refine Recorded.keyedCall { hrecd with ledger := ?_ } (.inl ⟨hget, rfl⟩) hres
        exact hrecd.ledger.trans (set_set ..)
    · exact fun n' hn' => hn'.imp_right fun hn' => ⟨_, hn', hnone⟩
  · exact Unrecorded.failed (hdropped _ (by rfl) (by rfl) (by exact fun _ => id)) .io

/-- `BatchUpsertShardIdempotent` with a key. -/
theorem wp_batchUpsertIdempotent (h : n.shard.Shaped env.config) {request prepared : List Record}
    (hsound : ∀ mutation ∈ (Op.batchUpsertIdempotent key request prepared).mutation n,
      mutation.Sound env) :
    (batchUpsertIdempotent env key request prepared).wp True (KeyedCall key prepared n)
      (KeyedCrash key n) n := by
  have hsame : Unrecorded key prepared n n := (Apart.refl n).unrecorded _ _
  rw [batchUpsertIdempotent]
  split
  · exact hsame.failed _
  rw [wp_bind, wp_state, after_ok]
  rw [Op.mutation] at hsound
  cases hget : n.ledger.get key with
  | some retained =>
    rw [hget] at hsound
    dsimp only at hsound ⊢
    rw [retryBatch]
    by_cases hdigest : retained.digest ≠ env.requestDigest request
    · rw [if_pos hdigest]
      exact hsame.failed _
    rw [if_neg hdigest]
    by_cases hcomp : retained.completed = true
    · -- The ledger answers.
      rw [if_pos hcomp]
      refine ⟨.inl hsame, fun a ha => ⟨retained.digest, ?_⟩⟩
      cases ha
      rw [hget, ← hcomp]
    · rw [if_neg hcomp] at hsound ⊢
      have hopen : retained.completed = false := Bool.eq_false_iff.2 hcomp
      refine wp_mono (wp_commitReservedBatch h (hsound _ rfl)) ?_ ?_
      · rintro result n' (⟨⟨err, rfl⟩, hsame⟩ | ⟨hrecd, hres⟩)
        · exact (hsame.unrecorded _ _).failed err
        · exact hrecd.keyedCall (.inr ⟨hget, hopen⟩) hres
      · refine fun n' hn' => hn'.imp_right fun hn' => ⟨_, hn', fun entry hentry => ?_⟩
        obtain rfl := Option.mem_unique hget hentry
        exact hopen
  | none =>
    rw [hget] at hsound
    exact @wp_reserveBatch env n key ⟨env.requestDigest request, prepared, false, 0⟩ h hget
      rfl (hsound _ rfl)

end Keyed

/-! ### Runs -/

/-- The ledger has the batch as completed. -/
def Commit.AnsweredBy (commit : Commit) (ledger : GoMap GoString LedgerEntry) : Prop :=
  ∃ digest, ledger.get commit.key = some ⟨digest, commit.records, true, commit.sequence⟩

/-- The batches of the log are completed in the ledger, and no two of them have the same key. -/
structure Settled (commits : List Commit) (ledger : GoMap GoString LedgerEntry) : Prop where
  answered : ∀ commit ∈ commits, commit.AnsweredBy ledger
  nodup : (commits.map Commit.key).Nodup

/-- What happens in a run where the batches with a key are of sound records and the process is
opened only on a ledger file that has the batches of the log as completed. -/
def Settling (env : Env) (p : Process) : Event → Prop
  | .call (.batchUpsertIdempotent key request prepared) _ =>
    ∀ mutation ∈ (Op.batchUpsertIdempotent key request prepared).mutation p.node, mutation.Sound env
  | .reopen _ => ∀ commit ∈ p.node.commits, commit.AnsweredBy p.node.disk.ledger
  | _ => True

section Settled

variable {env : Env} {n n' : Node} {key : GoString}

section

variable (h : Settled n.commits n.ledger)
  (hopen : ∀ entry, n.ledger.get key = some entry → entry.completed = false)

include h hopen

lemma Settled.notMem : key ∉ n.commits.map Commit.key := by
  intro hmem
  obtain ⟨commit, hcommit, rfl⟩ := mem_map.1 hmem
  obtain ⟨digest, hget⟩ := h.answered commit hcommit
  exact Bool.noConfusion (hopen _ hget)

lemma Settled.nodup_concat (records : List Record) (sequence : ℕ) :
    ((n.commits ++ [(⟨key, records, sequence⟩ : Commit)]).map Commit.key).Nodup := by
  rw [map_append, map_singleton]
  exact h.nodup.append (nodup_singleton _)
    (disjoint_singleton.2 (h.notMem hopen))

end

lemma Settled.keyedCall (h : Settled n.commits n.ledger) {prepared : List Record}
    {result : Except Error (List Record × ℕ)} (hcall : KeyedCall key prepared n result n') :
    Settled n'.commits n'.ledger := by
  rcases hcall.step with hunrecorded | ⟨entry, hentry, hrecd⟩
  · rw [hunrecorded.commits]
    refine ⟨fun commit hmem => ?_, h.nodup⟩
    obtain ⟨digest, hget⟩ := h.answered commit hmem
    exact ⟨digest, hunrecorded.kept _ _ hget⟩
  · have hopen : ∀ e, n.ledger.get key = some e → e.completed = false := by
      intro e he
      rcases hentry with ⟨hnone, -⟩ | ⟨hsome, hopen⟩
      · cases hnone.symm.trans he
      · rwa [Option.mem_unique hsome he] at hopen
    rw [hrecd.commits, hrecd.ledger]
    refine ⟨fun commit hmem => ?_, h.nodup_concat hopen _ _⟩
    rcases mem_append.1 hmem with hmem | hmem
    · obtain ⟨digest, hget⟩ := h.answered commit hmem
      have hne : commit.key ≠ key := fun hkey =>
        h.notMem hopen (hkey ▸ mem_map_of_mem hmem)
      exact ⟨digest, (get_set_of_ne _ _ hne).trans hget⟩
    · obtain rfl := mem_singleton.1 hmem
      exact ⟨entry.digest, get_set_self ..⟩

lemma Settled.run (h : Settled n.commits n.ledger) (hshape : n.shard.Shaped env.config) {op : Op}
    {faults : List Fault} (hcall : Settling env ⟨true, n⟩ (.call op faults)) :
    ((op.prog env).run faults n).Meets
      (fun _ n' => Settled n'.commits n'.ledger ∧ n'.shard.Shaped env.config)
      fun n' => (n'.commits.map Commit.key).Nodup := by
  by_cases hop : ∃ key request prepared, op = .batchUpsertIdempotent key request prepared
  · obtain ⟨key, request, prepared, rfl⟩ := hop
    have hdone : ∀ result n', KeyedCall key prepared n result n' →
        Settled n'.commits n'.ledger ∧ n'.shard.Shaped env.config := fun result n' hkeyed =>
      ⟨h.keyedCall hkeyed, hkeyed.shape _ hshape⟩
    refine meets_of_wp (wp_seq (wp_mono (wp_batchUpsertIdempotent hshape hcall) (fun _ _ => id)
      fun n' hn' => ?_) (fun _ _ => hdone _ _) fun _ _ => hdone _ _) faults
    rcases hn' with hsame | ⟨records, hcmts, hopen⟩
    · rw [hsame]
      exact h.nodup
    · rw [hcmts]
      exact h.nodup_concat hopen _ _
  · -- The other operations leave the ledger alone.
    have hapart := @Within.wp _ _ _ True _ _ (@apart_prog env op fun key request prepared heq =>
      hop ⟨key, request, prepared, heq⟩) (fun _ _ _ => Apart.trans) n n (.refl n)
    refine (meets_of_wp hapart faults).mono (fun _ n' hn' => ⟨?_, hn'.2 _ hshape⟩) fun n' hn' => ?_
    · rw [hn'.1.2.2, hn'.1.1]
      exact h
    · rw [hn'.1.2.2]
      exact h.nodup

/-- In such a run the batches of the log are completed in the ledger of a process that is up,
whatever fails. -/
theorem settled_of_reaches {q : Process} (h : Process.Reaches env (Settling env) (.new env) q) :
    if q.up then Settled q.node.commits q.node.ledger ∧ q.node.shard.Shaped env.config
    else (q.node.commits.map Commit.key).Nodup := by
  refine @Process.Reaches.induction env (Settling env) (fun n => Settled n.commits n.ledger ∧
    n.shard.Shaped env.config) (fun n => (n.commits.map Commit.key).Nodup) ?_ ?_ ?_ _ _ h ?_
  · exact fun n op faults hcall ⟨hsettled, hshape⟩ => hsettled.run hshape hcall
  · exact fun n ⟨hsettled, _⟩ => hsettled.nodup
  · intro n faults hfile hnodup
    refine (meets_of_wp (wp_openShard_ledger n) faults).mono (fun result n' hn' => ?_)
      fun n' hn' => hn' ▸ hnodup
    cases result with
    | error err => exact (congrArg (Nodup <| map Commit.key ·) hn'.1).mpr hnodup
    | ok _ =>
      obtain ⟨hled, hshape⟩ := hn'.2 rfl
      refine ⟨?_, hshape⟩
      rw [hn'.1, hled]
      exact ⟨hfile, hnodup⟩
  · exact ⟨⟨fun commit hmem => absurd hmem not_mem_nil, nodup_nil⟩, rfl, Segment.Shaped.new _⟩

/-- In a run where the batches with a key are of sound records and the process is opened only on
a ledger file that has every batch of the log as completed, whatever else happens and fails: once
a batch with a key is in the log, a call with that key changes nothing, whatever its records, and
if it succeeds it returns the records and the sequence of the batch.  The key has committed only
once. -/
theorem keyed_batch_commits_once (h : Process.Reaches env (Settling env) (.new env) ⟨true, n⟩)
    {commit : Commit} (hcommit : commit ∈ n.commits) (request prepared : List Record)
    (faults : List Fault) :
    (∃ result, (batchUpsertIdempotent env commit.key request prepared).run faults n =
        .finished n faults result ∧
      ∀ answer, result = .ok answer → answer = (commit.records, commit.sequence)) ∧
    ∀ other ∈ n.commits, other.key = commit.key → other = commit := by
  obtain ⟨hsettled, -⟩ := settled_of_reaches h
  obtain ⟨digest, hget⟩ := hsettled.answered commit hcommit
  refine ⟨?_, fun other hmem hkey => ?_⟩
  · rw [batchUpsertIdempotent]
    split
    · exact ⟨_, rfl, fun _ hans => by cases hans⟩
    rw [run_bind_state, hget]
    dsimp only
    rw [retryBatch]
    split
    · exact ⟨_, rfl, fun _ hans => by cases hans⟩
    · exact ⟨_, rfl, fun answer hans => (Except.ok.inj hans).symm⟩
  · exact inj_on_of_nodup_map hsettled.nodup hmem hcommit hkey

end Settled

def smallKeyed : Op :=
  .batchUpsertIdempotent (bytes "k") [smallRecord (bytes "a")] [smallRecord (bytes "a")]

lemma settling_smallKeyed {p : Process} {faults : List Fault}
    (h : smallKeyed.mutation p.node = some (.batchUpsert [smallRecord (bytes "a")])) :
    Settling smallEnv p (.call smallKeyed faults) := by
  intro mutation hmut
  obtain rfl := Option.mem_unique h hmut
  refine ⟨cons_ne_nil _ _, by decide, fun record hmem => ?_⟩
  obtain rfl := mem_singleton.1 hmem
  exact sound_smallRecord (by decide +kernel) 1

/-- The small shard after a batch whose append fails, its retry, a checkpoint that fails, and the
end of the process. -/
def retriedBatch : Process :=
  [.call smallKeyed [.ok, .fail], .call smallKeyed [], .call .checkpoint [.ok, .fail],
    .stop].foldl (Process.step smallEnv) (.new smallEnv)

/-- The theorem for the small shard when it is opened again. -/
theorem keyed_batch_commits_once_retry : ∃ (n : Node) (commit : Commit),
    Process.Reaches smallEnv (Settling smallEnv) (.new smallEnv) ⟨true, n⟩ ∧ n.commits = [commit] ∧
    ∀ request prepared faults, ∃ result,
      (batchUpsertIdempotent smallEnv commit.key request prepared).run faults n =
        .finished n faults result := by
  have hreach : Process.Reaches smallEnv (Settling smallEnv) (.new smallEnv) _ := .refl
  have hfirst := hreach.next (.call smallKeyed [.ok, .fail]) (settling_smallKeyed rfl)
  have hsecond := hfirst.next (.call smallKeyed [])
    (settling_smallKeyed (by with_unfolding_all rfl))
  have hstopped : Process.Reaches smallEnv (Settling smallEnv) (.new smallEnv) retriedBatch :=
    (hsecond.next (.call .checkpoint [.ok, .fail]) trivial).next .stop trivial
  have hcmts : retriedBatch.node.commits = [⟨bytes "k", [smallRecord (bytes "a")], 1⟩] := by
    with_unfolding_all rfl
  have hopened := (hstopped.next (.reopen []) (by
    intro commit hmem
    obtain rfl := mem_singleton.1 (hcmts ▸ hmem)
    exact ⟨0, by with_unfolding_all rfl⟩)).of_up (by decide +kernel)
  obtain ⟨commit, hcmts⟩ := length_eq_one_iff.1
    (show (retriedBatch.step smallEnv (.reopen [])).node.commits.length = 1 by decide +kernel)
  refine ⟨_, commit, hopened, hcmts, fun request prepared faults => ?_⟩
  obtain ⟨⟨result, hrun, -⟩, -⟩ := keyed_batch_commits_once hopened
    (hcmts ▸ mem_cons_self) request prepared faults
  exact ⟨result, hrun⟩

/-- A batch whose process stops after the append and before the ledger is written, then an
opening. -/
def halfCommittedEvents : List Event := [.call smallKeyed [.ok, .ok, .crash], .reopen []]

/-- The retry of that batch appends it a second time and returns another sequence. -/
theorem retry_after_crash_commits_twice : ∃ (n n' : Node) (answer : List Record × ℕ),
    Process.Reaches smallEnv (fun _ _ => True) (.new smallEnv) ⟨true, n⟩ ∧
    n.commits.map (fun commit => (commit.key, commit.sequence)) = [(bytes "k", 1)] ∧
    n.disk.wal.length = 1 ∧
    (batchUpsertIdempotent smallEnv (bytes "k") [smallRecord (bytes "a")]
      [smallRecord (bytes "a")]).run [] n = .finished n' [] (.ok answer) ∧
    answer.2 = 2 ∧ n'.disk.wal.length = 2 := by
  have hreach : Process.Reaches smallEnv (fun _ _ => True) (.new smallEnv) _ :=
    (Process.reaches_foldl smallEnv (fun event (_ : event ∈ halfCommittedEvents) _ => trivial)
      (.new smallEnv)).of_up (by decide +kernel)
  have hseq : ((batchUpsertIdempotent smallEnv (bytes "k") [smallRecord (bytes "a")]
      [smallRecord (bytes "a")]).eval (halfCommittedEvents.foldl (Process.step smallEnv)
        (.new smallEnv)).node).2.toOption.map Prod.snd = some 2 := by decide +kernel
  cases hans : ((batchUpsertIdempotent smallEnv (bytes "k") [smallRecord (bytes "a")]
      [smallRecord (bytes "a")]).eval (halfCommittedEvents.foldl (Process.step smallEnv)
        (.new smallEnv)).node).2 with
  | error err =>
    rw [hans] at hseq
    cases hseq
  | ok answer =>
    rw [hans] at hseq
    exact ⟨_, _, answer, hreach, by decide +kernel, by decide +kernel,
      run_nil_of_eval hans, Option.some.inj hseq, by decide +kernel⟩

end GideonDB.Engine
