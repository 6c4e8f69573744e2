/-
The course of an operation.

Whatever an operation writes, it takes the same course: it reads the shard and the ledger, notes
something in the ledger if it has a key, appends its mutation to the log, applies it in memory, and
last a leader makes the checkpoint that may be due while a replica remembers the digest.  What is to
be shown of the operations is shown of these parts; `Course.prog` puts them together.
-/
import GideonDB.Engine.Run

namespace GideonDB.Engine

open Go GideonDB.Core Store

/-- Log, checkpoint and next LSN are the same. -/
def SameLog (n n' : Node) : Prop :=
  n'.disk.wal = n.disk.wal ∧ n'.disk.manifest = n.disk.manifest ∧ n'.nextLSN = n.nextLSN

lemma SameLog.trans {n₁ n₂ n₃ : Node} (h : SameLog n₁ n₂) (h' : SameLog n₂ n₃) : SameLog n₁ n₃ :=
  ⟨h'.1.trans h.1, h'.2.1.trans h.2.1, h'.2.2.trans h.2.2⟩

/-- Log, checkpoint, next LSN and counter are the same. -/
def Still (n n' : Node) : Prop := SameLog n n' ∧ n'.mutations = n.mutations

lemma Still.refl (n : Node) : Still n n := ⟨⟨rfl, rfl, rfl⟩, rfl⟩

lemma Still.trans {n₁ n₂ n₃ : Node} (h : Still n₁ n₂) (h' : Still n₂ n₃) : Still n₁ n₃ :=
  ⟨h.1.trans h'.1, h'.2.trans h.2⟩

lemma ShardOnly.still {n n' : Node} (h : ShardOnly n n') : Still n n' := by
  rw [h.1]
  exact ⟨⟨rfl, rfl, rfl⟩, rfl⟩

/-- The records it counts as. -/
def Mutation.count : Mutation → ℕ
  | .upsert _ => 1
  | .delete _ _ => 1
  | .batchUpsert records => records.length

/-- Whether the operation is one of a leader, which makes a checkpoint when one is due. -/
def Op.leads : Op → Bool
  | .upsert _ => true
  | .batchUpsert _ => true
  | .delete _ _ => true
  | .batchUpsertIdempotent _ _ _ => true
  | _ => false

/-- What has to be shown of the parts of the operations: `T` of a program from a node, with the
mutation that it is to log, and `R` of what follows the append. -/
structure Course (env : Env) (leads : Bool)
    (T : Option Mutation → {α : Type} → Action α → Node → Prop)
    (R : Mutation → {α : Type} → Action α → Prop) : Prop where
  throw : ∀ {α : Type} (mutation? : Option Mutation) (e : Error) (n : Node),
    T mutation? (.throw e : Action α) n
  pure : ∀ {α : Type} (a : α) (n : Node), T none (pure a) n
  discard : ∀ {α : Type} {mutation? : Option Mutation} {p : Action α} {n : Node}, T mutation? p n →
    T mutation? (p >>= fun _ => Pure.pure ()) n
  /-- The state is read. -/
  state : ∀ {α : Type} {mutation? : Option Mutation} {k : Node → Action α} {n : Node},
    T mutation? (k n) n → T mutation? (Prog.state >>= k) n
  /-- Something is noted. -/
  still : ∀ {α β : Type} {mutation? : Option Mutation} {p : Action α} {k : α → Action β} {n : Node},
    p.Within Still → (∀ a n', Still n n' → T mutation? (k a) n') → T mutation? (p >>= k) n
  append : ∀ {α : Type} {mutation : Mutation} {k : ℕ → Action α} (n : Node),
    (∀ sequence, R mutation (k sequence)) → T (some mutation) (append env mutation >>= k) n
  rest_throw : ∀ {α : Type} (mutation : Mutation) (e : Error), R mutation (.throw e : Action α)
  rest_still : ∀ {α β : Type} {mutation : Mutation} {p : Action α} {k : α → Action β},
    p.Within Still → (∀ a, R mutation (k a)) → R mutation (p >>= k)
  /-- The checkpoint that may be due. -/
  due : leads = true → ∀ {α : Type} (mutation : Mutation) (a : α),
    R mutation (afterMutation env mutation.count >>= fun _ => Pure.pure a)
  remember : leads = false → ∀ (mutation : Mutation) {f : Node → Node},
    (∀ n, SameLog n (f n)) → R mutation (Prog.update f)

lemma within_persistIdempotency (env : Env) : (persistIdempotency env).Within Still := by
  refine Prog.Within.state.bind fun n => ?_
  split
  · exact .pure _
  · exact Prog.Within.attempt fun _ => ⟨⟨rfl, rfl, rfl⟩, rfl⟩

namespace Course

variable {env : Env} {T : Option Mutation → {α : Type} → Action α → Node → Prop}
  {R : Mutation → {α : Type} → Action α → Prop}

lemma update {f : Node → Node} (h : ∀ n, Still n (f n)) :
    (Prog.update f : Action Unit).Within Still := Prog.Within.update h

lemma commit (h : Course env true T R) {α : Type} (mutation : Mutation) {apply : Action Unit}
    (happly : apply.Within ShardOnly) (result : ℕ → α) (n : Node) :
    T (some mutation) (Engine.append env mutation >>= fun sequence => apply >>= fun _ =>
      afterMutation env mutation.count >>= fun _ => (Pure.pure (result sequence) : Action α)) n :=
  h.append n fun _ => h.rest_still (happly.mono fun _ _ => ShardOnly.still) fun _ => h.due rfl _ _

lemma commitReservedBatch (h : Course env true T R) (key : GoString) (entry : LedgerEntry)
    (n : Node) : T (some (.batchUpsert entry.records)) (commitReservedBatch env key entry) n := by
  refine h.append n fun sequence => ?_
  refine h.rest_still (update fun _ => ⟨⟨rfl, rfl, rfl⟩, rfl⟩) fun _ => ?_
  refine h.rest_still ((within_restoreAll env _).mono fun _ _ => ShardOnly.still) fun _ => ?_
  refine h.rest_still (update fun _ => ⟨⟨rfl, rfl, rfl⟩, rfl⟩) fun _ => ?_
  refine h.rest_still (within_persistIdempotency env) fun ok => ?_
  split
  · exact h.due rfl (.batchUpsert entry.records) _
  · exact h.rest_throw _ _

lemma batchUpsertIdempotent (h : Course env true T R) (key : GoString)
    (request prepared : List Record) (n : Node) :
    T ((Op.batchUpsertIdempotent key request prepared).mutation n)
      (batchUpsertIdempotent env key request prepared) n := by
  rw [Engine.batchUpsertIdempotent]
  split
  · exact h.throw _ _ _
  refine h.state ?_
  rw [Op.mutation]
  cases n.ledger.get key with
  | some retained =>
    dsimp only [retryBatch]
    by_cases hdigest : retained.digest ≠ env.requestDigest request
    · rw [if_pos hdigest]
      exact h.throw _ _ _
    rw [if_neg hdigest]
    by_cases hcomp : retained.completed = true
    · rw [if_pos hcomp, if_pos hcomp]
      exact h.pure _ _
    · rw [if_neg hcomp, if_neg hcomp]
      exact h.commitReservedBatch key retained n
  | none =>
    -- the entry is stored before it is committed, and dropped if that fails
    refine h.still (update fun _ => ⟨⟨rfl, rfl, rfl⟩, rfl⟩) fun _ n₁ _ => ?_
    refine h.still (within_persistIdempotency env) fun ok n₂ _ => ?_
    cases ok with
    | true => exact h.commitReservedBatch key ⟨_, prepared, false, 0⟩ n₂
    | false => exact h.still (update fun _ => ⟨⟨rfl, rfl, rfl⟩, rfl⟩) fun _ n₃ _ => h.throw _ _ _

lemma applyReplica (h : Course env false T R) (sequence : ℕ) (mutation : Mutation)
    {apply : Action Unit} (happly : apply.Within ShardOnly) (count : ℕ) (n : Node) :
    T (if sequence ≤ n.lastLSN then none else some mutation)
      (applyReplica env sequence mutation apply count) n := by
  rw [Engine.applyReplica]
  cases env.encode mutation with
  | none => exact h.throw _ _ _
  | some payload =>
  refine h.state ?_
  by_cases hle : sequence ≤ n.lastLSN
  · rw [if_pos hle, if_pos hle]
    split
    · exact h.throw _ _ _
    split
    · exact h.throw _ _ _
    · exact h.pure _ _
  rw [if_neg hle, if_neg hle]
  split
  · exact h.throw _ _ _
  · exact h.append n fun _ => h.rest_still (happly.mono fun _ _ => ShardOnly.still) fun _ =>
      h.remember rfl _ fun _ => ⟨rfl, rfl, rfl⟩

/-- Every operation other than a checkpoint and the installation of a snapshot. -/
theorem prog {op : Op} (h : Course env op.leads T R) (hckp : op ≠ .checkpoint)
    (hins : ∀ sequence records, op ≠ .installReplicaSnapshot sequence records) (n : Node) :
    T (op.mutation n) (op.prog env) n := by
  cases op with
  | upsert record => exact h.discard (h.commit (.upsert record) (within_shardUpsert env _) _ n)
  | batchUpsert records =>
    exact h.discard (h.commit (.batchUpsert records) (within_upsertAll env records) _ n)
  | delete ns id =>
    refine h.discard (h.state ?_)
    split
    · exact h.throw _ _ _
    · exact h.commit (.delete ns id) (within_shardDelete env _ _) _ n
  | batchUpsertIdempotent key request prepared => exact h.discard (h.batchUpsertIdempotent _ _ _ n)
  | checkpoint => exact absurd rfl hckp
  | applyReplicaBatch sequence records =>
    rw [Op.prog, applyReplicaBatch]
    split
    · exact h.throw _ _ _
    · cases records.zipIdx.forM (checkReplicaRecord env) with
      | error err => exact h.throw _ _ _
      | ok _ => exact h.applyReplica sequence _ (within_restoreAll env records) _ n
  | applyReplicaDelete sequence ns id =>
    rw [Op.prog, applyReplicaDelete]
    split
    · exact h.throw _ _ _
    split
    · exact h.throw _ _ _
    · exact h.applyReplica sequence _ (within_deleteIfPresent env _ _) _ n
  | installReplicaSnapshot sequence records => exact absurd rfl (hins sequence records)

end Course

end GideonDB.Engine
