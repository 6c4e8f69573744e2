/-
Mutations of a shard whose files stand for what it has in memory.

A mutation is appended to the log and then applied in memory; a sound one leaves the shard
coherent.  What follows it, the ledger, the digests and a checkpoint that may be due, does not
change the records.
-/
import GideonDB.Engine.Checkpoint
import GideonDB.Engine.Run

namespace GideonDB.Engine

open Go GideonDB.Core Store List
open Prog hiding bind throw

/-! ### The log -/

/-- The mutation is in the log. -/
def Node.logged (n : Node) (mutation : Mutation) : Node :=
  { n.setWal (n.disk.wal ++ [⟨n.nextLSN, mutation⟩]) with nextLSN := n.nextLSN + 1 }

variable {sh : Shard}

section Log

variable {env : Env} {n n' : Node} {base : List Record} {mutation : Mutation} {faulty : Prop}

lemma Coherent.congr (h : Coherent env base n) (hview : SameView n.disk n'.disk)
    (hshard : n'.shard = n.shard) (hnext : n'.nextLSN = n.nextLSN)
    (hckp : n'.checkpointLSN = n.checkpointLSN) : Coherent env base n' where
  healthy := hshard ▸ h.healthy
  durable := by
    rw [hshard, hnext]
    exact h.durable.congr hview
  base := hshard ▸ h.base
  checkpointLSN := by rw [hckp, hview.checkpoint, h.checkpointLSN]
  clean := by
    rw [hnext, hview.checkpoint, hshard]
    exact h.clean

lemma wp_append_sound (hsound : mutation.Sound env) (n : Node) :
    (append env mutation).wp faulty (fun result n' =>
      (result = .ok n.nextLSN ∧ n' = n.logged mutation) ∨ ((∃ err, result = .error err) ∧ n' = n))
      (fun n' => n' = n) n := by
  rw [append, hsound.encode]
  dsimp only
  split
  · exact .inr ⟨⟨_, rfl⟩, rfl⟩
  · rw [wp_bind, wp_state, after_ok, wp_bind, wp_attempt]
    exact ⟨rfl, .inl ⟨rfl, rfl⟩, fun _ => ⟨.inr ⟨⟨_, rfl⟩, rfl⟩, .inr ⟨⟨_, rfl⟩, rfl⟩⟩⟩

lemma Durable.append {disk : Disk} {live : Live} {next : ℕ} (h : Durable env disk base live next)
    (hsound : mutation.Sound env) :
    Durable env { disk with wal := disk.wal ++ [⟨next, mutation⟩] } base (mutation.apply live)
      (next + 1) := by
  have hshort := h.short
  have habove := h.above
  have hcovers := h.covers
  refine ⟨h.manifest, ?_, ?_, ?_, ?_, fun record hmem hlt => ?_, ?_⟩
  · dsimp only
    rw [map_append, map_singleton, h.lsns, length_append, length_singleton,
      range'_concat, Nat.one_mul, Nat.add_sub_add_right, Nat.sub_add_cancel hshort.le]
  · dsimp only
    rw [length_append, length_singleton]
    omega
  · exact habove.trans (Nat.lt_succ_self next)
  · dsimp only
    rw [length_append, length_singleton]
    change next + 1 ≤ disk.checkpoint + 1 + (disk.wal.length + 1)
    omega
  · rcases mem_append.1 hmem with hmem | hmem
    · exact h.sound record hmem hlt
    · rw [mem_singleton.1 hmem]
      exact hsound
  · dsimp only
    rw [tailApply_append]
    change tailApply _ disk.checkpoint (tailApply _ disk.checkpoint _) = _
    rw [h.replayed, tailApply_cons]
    dsimp only
    rw [if_pos habove]
    rfl

lemma Coherent.logged (h : Coherent env base n) (hsound : mutation.Sound env)
    (hleaves : Healthy.Applied env n.shard sh mutation) :
    Coherent env base { n.logged mutation with shard := sh } where
  healthy := hleaves.healthy
  durable := by
    dsimp only
    rw [hleaves.lookup]
    exact h.durable.append hsound
  base := by
    dsimp only
    rw [← h.base, hleaves.baseLookup]
  checkpointLSN := h.checkpointLSN
  clean := fun hclean => by
    have := h.durable.above
    have hclean : n.nextLSN + 1 = n.disk.checkpoint + 1 := hclean
    omega

end Log

/-! ### Memory -/

/-- The program applies the mutation to the shard in memory. -/
def Applies (env : Env) (mutation : Mutation) (p : Action Unit) (n : Node) : Prop :=
  ∀ {faulty : Prop} {Q : Except Error Unit → Node → Prop} {C : Node → Prop},
    (∀ sh, Healthy.Applied env n.shard sh mutation → Q (.ok ()) { n with shard := sh }) →
      p.wp faulty Q C n

section Memory

variable {env : Env} {n : Node}

lemma applies_mutateShard {mutation : Mutation} {f : Shard → Shard × Option Segment.Error}
    {sh : Shard} (hf : f n.shard = (sh, none)) (hleaves : Healthy.Applied env n.shard sh mutation) :
    Applies env mutation (mutateShard f) n := by
  intro faulty Q C hQ
  rw [mutateShard, wp_bind, wp_state, after_ok, wp_bind, wp_update,
    after_ok, hf]
  have hstate : n.setShard (fun sh => (f sh).1) = { n with shard := sh } := by
    rw [Node.setShard, hf]
  rw [hstate]
  exact hQ sh hleaves

lemma applies_upsert (h : Healthy env n.shard) {record : Record} (hsound : Sound env record) :
    Applies env (.upsert record) (mutateShard fun sh => sh.upsert env.lib record) n := by
  obtain ⟨sh, hupsert, hleaves⟩ := h.upsert hsound
  exact applies_mutateShard hupsert hleaves

/-- A loop of writes applies a batch if each write applies its record. -/
lemma applies_batch {write : Record → Action Unit} {loop : List Record → Action Unit}
    (hnil : loop [] = pure ()) (hcons : ∀ record records,
      loop (record :: records) = write record >>= fun _ => loop records)
    (hwrite : ∀ record n, Healthy env n.shard → Sound env record →
      Applies env (.upsert record) (write record) n) (h : Healthy env n.shard)
    {records : List Record} (hsound : ∀ record ∈ records, Sound env record) :
    Applies env (.batchUpsert records) (loop records) n := by
  induction records generalizing n with
  | nil =>
    intro faulty Q C hQ
    rw [hnil]
    exact hQ n.shard ⟨⟨h, rfl, rfl⟩, rfl⟩
  | cons record records ih =>
    intro faulty Q C hQ
    rw [hcons, wp_bind]
    refine hwrite record n h (hsound record mem_cons_self) fun sh hleaves => ?_
    rw [after_ok]
    refine @ih { n with shard := sh } hleaves.healthy (fun record hmem =>
      hsound record (mem_cons_of_mem _ hmem)) _ _ _ fun sh' hleaves' => ?_
    exact hQ sh' (hleaves.batch_cons hleaves')

section

variable (h : Healthy env n.shard)

include h

lemma applies_upsertAll {records : List Record} (hsound : ∀ record ∈ records, Sound env record) :
    Applies env (.batchUpsert records) (upsertAll env records) n :=
  applies_batch rfl (fun _ _ => rfl) (fun _ _ h hsound => applies_upsert h hsound) h hsound

lemma applies_restoreAll {records : List Record} (hsound : ∀ record ∈ records, Sound env record) :
    Applies env (.batchUpsert records) (restoreAll env records) n := by
  refine @applies_batch env n (fun record => .ofExcept (validateRecord env.config record) >>=
    fun _ => mutateShard fun sh => sh.upsert env.lib record) _ rfl (fun record records => ?_)
    (fun record n h hsound => ?_) h _ hsound
  · rw [bind_assoc]
    rfl
  · intro faulty Q C hQ
    rw [wp_bind, wp_ofExcept, hsound.valid]
    exact applies_upsert h hsound hQ

lemma applies_delete {ns id : GoString} (hsome : (n.shard.lookup (recordKey ns id)).isSome) :
    Applies env (.delete ns id) (mutateShard fun sh => sh.delete env.lib ns id) n := by
  obtain ⟨hres, hleaves⟩ := h.delete ns id
  rw [if_pos hsome] at hres
  exact applies_mutateShard (Prod.ext rfl hres) hleaves

lemma applies_deleteIfPresent (ns id : GoString) :
    Applies env (.delete ns id) (deleteIfPresent env ns id) n := by
  obtain ⟨hres, hleaves⟩ := h.delete ns id
  refine @applies_mutateShard env n _ _ (n.shard.delete env.lib ns id).1 ?_ hleaves
  rcases heq : n.shard.delete env.lib ns id with ⟨sh, err⟩
  rw [heq] at hres
  dsimp only at hres ⊢
  split at hres
  · rw [hres]
  · rw [hres]

end

end Memory

/-! ### Operations -/

/-- A checkpoint is due after so many mutations. -/
def Due (env : Env) (n : Node) (count : ℕ) : Prop :=
  0 < env.checkpointEvery ∧ env.checkpointEvery ≤ n.mutations + count

/-- The operation makes a checkpoint, or may have one following. -/
def Op.Checkpoints (env : Env) (n : Node) : Op → Prop
  | .upsert _ => Due env n 1
  | .batchUpsert records => Due env n records.length
  | .delete _ _ => Due env n 1
  | .batchUpsertIdempotent key _ prepared =>
    match n.ledger.get key with
    | some retained => Due env n retained.records.length
    | none => Due env n prepared.length
  | .checkpoint => True
  | .applyReplicaBatch _ _ => False
  | .applyReplicaDelete _ _ _ => False
  | .installReplicaSnapshot _ _ => True

/-- What an operation that logs a mutation does to the records.  It can fail without any
effect; if it succeeds, the mutation has been applied. -/
def Effect (mutation? : Option Mutation) (ok : Prop) (n n' : Node) : Prop :=
  match mutation? with
  | none => n'.shard.lookup = n.shard.lookup ∧ n'.nextLSN = n.nextLSN
  | some mutation =>
    (n'.shard.lookup = mutation.apply n.shard.lookup ∧ n'.nextLSN = n.nextLSN + 1) ∨
      (¬ ok ∧ n'.shard.lookup = n.shard.lookup ∧ n'.nextLSN = n.nextLSN)

/-- What an operation leaves of a shard. -/
structure Executed (env : Env) (base : List Record) (mutation? : Option Mutation) (ok : Prop)
    (n n' : Node) : Prop where
  coherent : ∃ base', Coherent env base' n' ∧
    (base' = n'.shard.list ∨ base' = base ∧ n'.disk.manifest = n.disk.manifest)
  effect : Effect mutation? ok n n'

/-- The files stand for the records before the operation or for those after it. -/
def CrashesWithin (env : Env) (mutation? : Option Mutation) (empty : Prop) (n n' : Node) : Prop :=
  (empty → Accepts n'.disk) → ∃ base live next, Durable env n'.disk base live next ∧
    ((live = n.shard.lookup ∧ next = n.nextLSN) ∨
      ∃ mutation ∈ mutation?, live = mutation.apply n.shard.lookup ∧ next = n.nextLSN + 1)

variable {empty : Prop} {n'' : Node} {α : Type} {apply : Action Unit} {count : ℕ}
  {mutation? : Option Mutation}

section Operations

variable {env : Env} {faulty : Prop} {n n' : Node} {base : List Record} {mutation : Mutation}

lemma sameView_refl (disk : Disk) : SameView disk disk := ⟨rfl, rfl, fun _ _ _ _ => rfl⟩

lemma Checkpointed.coherent_list (h : Checkpointed env base n n') (hheal : Healthy env n.shard) :
    ∃ base', Coherent env base' n' ∧
      (base' = n'.shard.list ∨ base' = base ∧ n'.disk.manifest = n.disk.manifest) := by
  obtain ⟨base', hcoh, hbase'⟩ := h.coherent
  have hlist : n'.shard.list = n.shard.list := by
    have henum := hcoh.healthy.enumerates
    rw [h.lookup] at henum
    exact henum.unique hheal.enumerates
  rw [hlist]
  exact ⟨base', hcoh, hbase'⟩

section

variable (h : Coherent env base n)

include h

lemma Coherent.crashesWithin (mutation? : Option Mutation) (hview : SameView n.disk n'.disk) :
    CrashesWithin env mutation? empty n n' :=
  fun _ =>
  ⟨base, _, _, h.durable.congr hview, .inl ⟨rfl, rfl⟩⟩

lemma Coherent.executed_refl (ok : Prop) : Executed env base none ok n n := ⟨⟨base, h, .inr ⟨rfl, rfl⟩⟩, rfl, rfl⟩

lemma Coherent.executed_failed (mutation? : Option Mutation) {ok : Prop} (hok : ¬ ok) :
    Executed env base mutation? ok n n := by
  refine ⟨⟨base, h, .inr ⟨rfl, rfl⟩⟩, ?_⟩
  cases mutation? with
  | none => exact ⟨rfl, rfl⟩
  | some mutation => exact .inr ⟨hok, rfl, rfl⟩

lemma Coherent.wp_afterMutation {count : ℕ} (hfaulty : faulty → ¬ Due env n count) :
    (afterMutation env count).wp faulty
      (fun _ n' => (Due env n count → NetEmpty n → Accepts n'.disk) → Checkpointed env base n n')
      (fun n' => (Due env n count → NetEmpty n → Accepts n'.disk) →
        ∃ base', Durable env n'.disk base' n.shard.lookup n.nextLSN) n := by
  have hsame : Coherent env base { n with mutations := n.mutations + count } :=
    h.congr (sameView_refl _) rfl rfl rfl
  rw [afterMutation, wp_bind, wp_update, after_ok, wp_bind, wp_state,
    after_ok]
  split_ifs with hdue
  · refine wp_mono (wp_of_faulty hsame.wp_checkpointShard fun hf => hfaulty hf hdue)
      (fun _ n' hn' hacc => ?_) fun n' hn' hacc => hn' (hacc hdue)
    have hn' := hn' (hacc hdue)
    exact { hn' with }
  · exact fun _ => ⟨⟨base, hsame, .inr ⟨rfl, rfl⟩⟩, rfl, rfl⟩

end

/-- A node after a mutation has been appended and applied. -/
structure Mutated (env : Env) (base : List Record) (mutation : Mutation) (n n' : Node) : Prop where
  coherent : Coherent env base n'
  lookup : n'.shard.lookup = mutation.apply n.shard.lookup
  nextLSN : n'.nextLSN = n.nextLSN + 1
  manifest : n'.disk.manifest = n.disk.manifest

namespace Mutated

variable (h : Mutated env base mutation n n')

include h

lemma executed_of_checkpointed (hn'' : Checkpointed env base n' n'') (ok : Prop) :
    Executed env base (some mutation) ok n n'' := by
  obtain ⟨base', hcoh, hbase'⟩ := hn''.coherent_list h.coherent.healthy
  refine ⟨⟨base', hcoh, hbase'.imp_right fun hbase' => ⟨hbase'.1, hbase'.2.trans h.manifest⟩⟩,
    .inl ⟨hn''.lookup.trans h.lookup, hn''.nextLSN.trans h.nextLSN⟩⟩

lemma executed (ok : Prop) : Executed env base (some mutation) ok n n' :=
  ⟨⟨base, h.coherent, .inr ⟨rfl, h.manifest⟩⟩, .inl ⟨h.lookup, h.nextLSN⟩⟩

lemma crashesWithin (hview : SameView n'.disk n''.disk) :
    CrashesWithin env (some mutation) empty n n'' := fun _ =>
  ⟨base, _, _, h.coherent.durable.congr hview, Or.inr ⟨mutation, rfl, h.lookup, h.nextLSN⟩⟩

lemma crashesWithin_of_crashSafe
    (hn'' : (empty → Accepts n''.disk) →
      ∃ base', Durable env n''.disk base' n'.shard.lookup n'.nextLSN) :
    CrashesWithin env (some mutation) empty n n'' := fun hacc => by
  obtain ⟨base', hdur⟩ := hn'' hacc
  exact ⟨base', _, _, hdur, .inr ⟨mutation, rfl, h.lookup, h.nextLSN⟩⟩

lemma congr (hview : SameView n'.disk n''.disk) (hshard : n''.shard = n'.shard)
    (hnext : n''.nextLSN = n'.nextLSN) (hckp : n''.checkpointLSN = n'.checkpointLSN) :
    Mutated env base mutation n n'' :=
  ⟨h.coherent.congr hview hshard hnext hckp, hshard ▸ h.lookup, hnext ▸ h.nextLSN,
    hview.manifest.trans h.manifest⟩

lemma wp_afterMutation {count : ℕ} {empty : Prop} (hfaulty : faulty → ¬ Due env n' count)
    (hempty : Due env n' count → NetEmpty n' → empty) :
    (afterMutation env count).wp faulty (fun _ n'' => (empty → Accepts n''.disk) →
      ∀ ok, Executed env base (some mutation) ok n n'') (CrashesWithin env (some mutation) empty n) n' :=
  wp_mono (h.coherent.wp_afterMutation hfaulty)
    (fun _ _ hn'' hacc ok => h.executed_of_checkpointed (hn'' fun hdue hnet =>
      hacc (hempty hdue hnet)) ok)
    fun _ hn'' => h.crashesWithin_of_crashSafe fun hacc => hn'' fun hdue hnet =>
      hacc (hempty hdue hnet)

end Mutated

lemma Healthy.Applied.layer_eq_of_netEmpty {sh' : Shard} (h : Healthy.Applied env sh sh' mutation)
    (hdelta : sh'.checkpointDelta = ([], [])) :
    mutation.applyLayer sh.baseLookup sh.layer = fun _ => none :=
  h.layer.symm.trans (h.healthy.checkpointDelta_eq_nil_iff.1 hdelta)

lemma Coherent.wp_append (h : Coherent env base n) (hsound : mutation.Sound env) {k : ℕ → Action α}
    {Q : Except Error α → Node → Prop}
    (hk : (k n.nextLSN).wp faulty Q (CrashesWithin env (some mutation) empty n) (n.logged mutation))
    (hfail : ∀ err, Q (.error err) n) :
    (append env mutation >>= k).wp faulty Q (CrashesWithin env (some mutation) empty n) n := by
  refine wp_seq (wp_mono (wp_append_sound hsound n) (fun _ _ => id) ?_) ?_ ?_
  · rintro n' rfl
    exact h.crashesWithin _ (sameView_refl _)
  · rintro sequence n' (⟨hseq, rfl⟩ | ⟨⟨err, herr⟩, -⟩)
    · cases hseq
      exact hk
    · cases herr
  · rintro err n' (⟨hseq, -⟩ | ⟨-, rfl⟩)
    · cases hseq
    · exact hfail err

lemma Coherent.mutated (h : Coherent env base n) (hsound : mutation.Sound env)
    (hleaves : Healthy.Applied env n.shard sh mutation) :
    Mutated env base mutation n { n.logged mutation with shard := sh } :=
  ⟨h.logged hsound hleaves, hleaves.lookup, rfl, rfl⟩

/-- The program executes the mutation on the shard; only if it makes a checkpoint of nothing, it
may leave a manifest that is not accepted. -/
def Executes {α : Type} (env : Env) (faulty : Prop) (base : List Record)
    (mutation? : Option Mutation) (empty : Prop) (p : Action α) (n : Node) : Prop :=
  p.wp faulty (fun result n' => (empty → Accepts n'.disk) →
    Executed env base mutation? (∃ a, result = .ok a) n n') (CrashesWithin env mutation? empty n) n

namespace Executes

variable {α β : Type} {mutation? : Option Mutation} {empty : Prop}

lemma discard {p : Action α} (h : Executes env faulty base mutation? empty p n) :
    Executes env faulty base mutation? empty (p >>= fun _ => pure ()) n := by
  refine wp_seq h (fun a n' hn' hacc => ?_) fun err n' hn' hacc => ?_
  · obtain ⟨hcoh, heffect⟩ := hn' hacc
    exact ⟨hcoh, by simpa using heffect⟩
  · obtain ⟨hcoh, heffect⟩ := hn' hacc
    exact ⟨hcoh, by simpa using heffect⟩

lemma bind_state {k : Node → Action α} (h : Executes env faulty base mutation? empty (k n) n) :
    Executes env faulty base mutation? empty (Prog.state >>= k) n := h

section

variable (h : Coherent env base n)

include h

lemma throw (err : Error) :
    Executes env faulty base mutation? empty (Prog.throw err : Action α) n := fun _ =>
  h.executed_failed mutation? fun ⟨_, ha⟩ => by cases ha

lemma pure (a : α) : Executes env faulty base none empty (pure a) n := fun _ =>
  h.executed_refl _

lemma bind_ofExcept {x : Except Error β} {k : β → Action α}
    (hk : ∀ b, x = .ok b → Executes env faulty base mutation? empty (k b) n) :
    Executes env faulty base mutation? empty (.ofExcept x >>= k) n := by
  cases x with
  | ok b => exact hk b rfl
  | error err => exact throw h err

lemma commit (hsound : mutation.Sound env) (happly : Applies env mutation apply (n.logged mutation))
    (hfaulty : faulty → ¬ Due env n count) (hempty : Due env n count → n.disk.manifest.isSome →
      mutation.applyLayer n.shard.baseLookup n.shard.layer = (fun _ => none) → empty)
    (result : ℕ → α) :
    Executes env faulty base (some mutation) empty (append env mutation >>= fun sequence =>
      apply >>= fun _ => afterMutation env count >>= fun _ => Pure.pure (result sequence)) n := by
  refine h.wp_append hsound ?_ fun err _ => h.executed_failed _ fun ⟨_, ha⟩ => by cases ha
  rw [wp_bind]
  refine happly fun sh happ => ?_
  exact wp_seq ((h.mutated hsound happ).wp_afterMutation hfaulty fun hdue hnet =>
      hempty hdue hnet.1 (happ.layer_eq_of_netEmpty hnet.2.2))
    (fun _ n'' hn'' hacc => hn'' hacc _) fun err n'' hn'' hacc => hn'' hacc _

end

end Executes

lemma Coherent.executes_upsert (h : Coherent env base n) {record : Record}
    (hsound : Sound env record) (hfaulty : faulty → ¬ Due env n 1) (empty : Prop) :
    Executes env faulty base (some (.upsert record)) empty (upsert env record) n :=
  Executes.commit h (show (Mutation.upsert record).Sound env from hsound)
    (applies_upsert (n := n.logged (.upsert record)) h.healthy hsound) hfaulty
    (fun _ _ hlayer => absurd hlayer (Mutation.applyLayer_upsert_ne record _ _)) fun _ => record

lemma Coherent.executes_batchUpsert (h : Coherent env base n) {records : List Record}
    (hsound : (Mutation.batchUpsert records).Sound env)
    (hfaulty : faulty → ¬ Due env n records.length) (empty : Prop) :
    Executes env faulty base (some (.batchUpsert records)) empty (batchUpsert env records) n :=
  Executes.commit h hsound (applies_upsertAll (n := n.logged (.batchUpsert records)) h.healthy
    hsound.2.2) hfaulty
    (fun _ _ hlayer => absurd hlayer (Mutation.applyLayer_batch_ne hsound.1 _ _))
    fun sequence => (records, sequence)

/-- A deletion makes a checkpoint of nothing if it takes back the only change since the last. -/
def DeleteEmpties (env : Env) (n : Node) (ns id : GoString) : Prop :=
  Due env n 1 ∧ n.disk.manifest.isSome = true ∧
    (n.shard.delete env.lib ns id).1.checkpointDelta = ([], [])

lemma Coherent.executes_delete (h : Coherent env base n) {ns id : GoString}
    (hsound : (Mutation.delete ns id).Sound env) (hfaulty : faulty → ¬ Due env n 1) :
    Executes env faulty base (some (.delete ns id)) (DeleteEmpties env n ns id) (delete env ns id) n := by
  refine .bind_state ?_
  rw [Shard.get_eq]
  cases hlook : n.shard.lookup (recordKey ns id) with
  | none => exact .throw h _
  | some record =>
    refine .commit h hsound (applies_delete (n := n.logged (.delete ns id)) h.healthy
      (Option.isSome_iff_exists.2 ⟨record, hlook⟩)) hfaulty (fun hdue hman hlayer => ?_)
      fun sequence => sequence
    have happ := (h.healthy.delete ns id).2
    exact ⟨hdue, hman, happ.healthy.checkpointDelta_eq_nil_iff.2
      (happ.layer.trans hlayer)⟩

/-! ### Keyed batches -/

lemma sameView_setLedgerFile (n : Node) (ledger : GoMap GoString LedgerEntry) :
    SameView n.disk (n.setLedgerFile ledger).disk := ⟨rfl, rfl, fun _ _ _ _ => rfl⟩

lemma wp_persistIdempotency {Q : Except Error Bool → Node → Prop} {C : Node → Prop} (hC : C n)
    (hfalse : Q (.ok false) n) (hstored : ∀ ledger, Q (.ok true) (n.setLedgerFile ledger))
    (hfaulty : faulty → ∀ ledger, Q (.ok false) (n.setLedgerFile ledger)) :
    (persistIdempotency env).wp faulty Q C n := by
  rw [persistIdempotency, wp_bind, wp_state, after_ok]
  cases encodeLedger env n.ledger with
  | none => exact hfalse
  | some ledger => exact ⟨hC, hstored ledger, fun hf => ⟨hfalse, hfaulty hf ledger⟩⟩

/-- The end of `commitReservedBatchLocked`: the ledger, and a checkpoint that may be due. -/
lemma Mutated.wp_persist (h : Mutated env base mutation n n')
    (hfaulty : faulty → ¬ Due env n' count) (hempty : NetEmpty n' → empty) (a : α) :
    (persistIdempotency env >>= fun ok =>
      if ok then afterMutation env count >>= fun _ => pure a else Prog.throw .io).wp faulty
      (fun result n'' => (empty → Accepts n''.disk) →
        Executed env base (some mutation) (∃ a, result = .ok a) n n'')
      (CrashesWithin env (some mutation) empty n) n' := by
  rw [wp_bind]
  have hstored := fun ledger => h.congr (sameView_setLedgerFile n' ledger) rfl rfl rfl
  refine wp_persistIdempotency (h.crashesWithin (sameView_refl _)) (fun _ => h.executed _)
    (fun ledger => ?_) fun _ ledger _ => (hstored ledger).executed _
  exact wp_seq ((hstored ledger).wp_afterMutation hfaulty fun _ hnet => hempty hnet)
    (fun _ n'' hn'' hacc => hn'' hacc _) fun err n'' hn'' hacc => hn'' hacc _

lemma Coherent.executes_commitReservedBatch (h : Coherent env base n) (key : GoString)
    {entry : LedgerEntry} (hsound : (Mutation.batchUpsert entry.records).Sound env)
    (hfaulty : faulty → ¬ Due env n entry.records.length) (empty : Prop) :
    Executes env faulty base (some (.batchUpsert entry.records)) empty (commitReservedBatch env key entry)
      n := by
  refine h.wp_append hsound ?_ fun err _ => h.executed_failed _ fun ⟨_, ha⟩ => by cases ha
  rw [wp_bind, wp_update, after_ok, wp_bind]
  refine @applies_restoreAll env { n.logged (.batchUpsert entry.records) with
    commits := n.commits ++ [⟨key, entry.records, n.nextLSN⟩] } h.healthy _ hsound.2.2 _ _ _
      fun sh happ => ?_
  rw [after_ok, wp_bind, wp_update, after_ok]
  refine Mutated.wp_persist ?_ (fun hf => ?_) (fun hnet => ?_) _
  · exact (h.mutated hsound happ).congr (sameView_refl _) rfl rfl rfl
  · exact hfaulty hf
  · exact absurd (happ.layer_eq_of_netEmpty hnet.2.2)
      (Mutation.applyLayer_batch_ne hsound.1 _ _)

lemma Executes.of_eq {p : Action α} {n₁ : Node} (h : Executes env faulty base mutation? empty p n₁)
    (hshard : n₁.shard = n.shard) (hnext : n₁.nextLSN = n.nextLSN)
    (hman : n₁.disk.manifest = n.disk.manifest) :
    p.wp faulty (fun result n' => (empty → Accepts n'.disk) →
      Executed env base mutation? (∃ a, result = .ok a) n n') (CrashesWithin env mutation? empty n) n₁ := by
  refine wp_mono h (fun result n' hn' hacc => ?_) fun n' hn' => ?_
  · obtain ⟨hcoh, heffect⟩ := hn' hacc
    rw [hman] at hcoh
    rw [Effect.eq_def, hshard, hnext] at heffect
    exact ⟨hcoh, heffect⟩
  · rw [CrashesWithin, hshard, hnext] at hn'
    exact hn'

lemma Coherent.executes_reserveBatch (h : Coherent env base n) (key : GoString)
    {entry : LedgerEntry} (hsound : (Mutation.batchUpsert entry.records).Sound env)
    (hfaulty : faulty → ¬ Due env n entry.records.length) (empty : Prop) :
    Executes env faulty base (some (.batchUpsert entry.records)) empty (reserveBatch env key entry)
      n := by
  have hfailed : ∀ ledger, Coherent env base (Node.setLedgerFile ledger { n with
      ledger := n.ledger.set key entry }) := fun ledger =>
    h.congr (sameView_setLedgerFile n ledger) rfl rfl rfl
  rw [reserveBatch, Executes, wp_bind, wp_update, after_ok, wp_bind]
  refine wp_persistIdempotency ?_ ?_ (fun ledger => ?_) fun _ ledger => ?_
  · exact h.crashesWithin _ (sameView_refl _)
  · refine fun _ => ⟨⟨base, h.congr (sameView_refl _) rfl rfl rfl, .inr ⟨rfl, rfl⟩⟩,
      .inr ⟨?_, rfl, rfl⟩⟩
    rintro ⟨_, ha⟩
    cases ha
  · have hcommit := @Coherent.executes_commitReservedBatch env faulty _ base (hfailed ledger) key
      entry hsound hfaulty empty
    exact hcommit.of_eq rfl rfl rfl
  · refine fun _ => ⟨⟨base, h.congr (sameView_setLedgerFile n ledger) rfl rfl rfl,
      .inr ⟨rfl, rfl⟩⟩, .inr ⟨?_, rfl, rfl⟩⟩
    rintro ⟨_, ha⟩
    cases ha

lemma Coherent.executes_batchUpsertIdempotent (h : Coherent env base n) (key : GoString)
    (request prepared : List Record)
    (hsound : ∀ mutation ∈ (Op.batchUpsertIdempotent key request prepared).mutation n,
      mutation.Sound env)
    (hfaulty : faulty → ¬ (Op.batchUpsertIdempotent key request prepared).Checkpoints env n)
    (empty : Prop) :
    Executes env faulty base ((Op.batchUpsertIdempotent key request prepared).mutation n) empty
      (batchUpsertIdempotent env key request prepared) n := by
  rw [batchUpsertIdempotent]
  split
  · exact .throw h _
  refine .bind_state ?_
  rw [Op.mutation] at hsound ⊢
  rw [Op.Checkpoints] at hfaulty
  cases hget : n.ledger.get key with
  | some retained =>
    rw [hget] at hsound hfaulty
    dsimp only at hsound hfaulty ⊢
    rw [retryBatch]
    by_cases hdigest : retained.digest ≠ env.requestDigest request
    · rw [if_pos hdigest]
      exact .throw h _
    rw [if_neg hdigest]
    by_cases hcomp : retained.completed = true
    · rw [if_pos hcomp, if_pos hcomp]
      exact .pure h _
    · rw [if_neg hcomp] at hsound ⊢
      rw [if_neg hcomp]
      exact h.executes_commitReservedBatch key (hsound _ rfl) hfaulty empty
  | none =>
    rw [hget] at hsound hfaulty
    dsimp only at hsound hfaulty ⊢
    exact @Coherent.executes_reserveBatch env faulty n base h key
      ⟨env.requestDigest request, prepared, false, 0⟩ (hsound _ rfl) hfaulty empty

/-! ### Replicas -/

section

variable (h : Coherent env base n) (sequence : ℕ)

include h sequence

lemma Coherent.executes_applyReplica
    (hmut? : mutation? = if sequence ≤ n.lastLSN then none else some mutation)
    (hsound : ∀ m ∈ mutation?, m.Sound env)
    (happly : mutation.Sound env → Applies env mutation apply (n.logged mutation)) (count : ℕ)
    (empty : Prop) :
    Executes env faulty base mutation? empty (applyReplica env sequence mutation apply count) n := by
  rw [applyReplica]
  split
  · exact .throw h _
  refine .bind_state ?_
  split
  · rename_i hle
    rw [if_pos hle] at hmut?
    subst hmut?
    split
    · exact .throw h _
    · split
      · exact .throw h _
      · exact .pure h _
  · rename_i payload hpay hle
    rw [if_neg hle] at hmut?
    subst hmut?
    have hsound := hsound mutation rfl
    split
    · exact .throw h _
    · refine h.wp_append hsound ?_ fun err _ => h.executed_failed _ fun ⟨_, ha⟩ => by cases ha
      rw [wp_bind]
      refine happly hsound fun sh hleaves => ?_
      refine fun _ => Mutated.executed ?_ _
      exact (h.mutated hsound hleaves).congr (sameView_refl _) rfl rfl rfl

lemma Coherent.executes_applyReplicaBatch (records : List Record)
    (hsound : ∀ m ∈ (Op.applyReplicaBatch sequence records).mutation n, m.Sound env)
    (empty : Prop) :
    Executes env faulty base ((Op.applyReplicaBatch sequence records).mutation n) empty
      (applyReplicaBatch env sequence records) n := by
  rw [applyReplicaBatch]
  split
  · exact .throw h _
  · exact Executes.bind_ofExcept h fun _ _ => h.executes_applyReplica sequence rfl hsound
      (fun hsound => applies_restoreAll (n := n.logged (.batchUpsert records)) h.healthy hsound.2.2) _
      empty

lemma Coherent.executes_applyReplicaDelete (ns id : GoString)
    (hsound : ∀ m ∈ (Op.applyReplicaDelete sequence ns id).mutation n, m.Sound env) (empty : Prop) :
    Executes env faulty base ((Op.applyReplicaDelete sequence ns id).mutation n) empty
      (applyReplicaDelete env sequence ns id) n := by
  rw [applyReplicaDelete]
  split
  · exact .throw h _
  · split
    · exact .throw h _
    · exact h.executes_applyReplica sequence rfl hsound
        (fun _ => applies_deleteIfPresent (n := n.logged (.delete ns id)) h.healthy ns id) _ empty

end

/-- The operation makes a checkpoint of nothing. -/
def Op.Empties (env : Env) (n : Node) : Op → Prop
  | .checkpoint => NetEmpty n
  | .delete ns id => DeleteEmpties env n ns id
  | _ => False

/-- Every operation but the installation of a snapshot executes its mutation. -/
theorem Coherent.executes_prog (h : Coherent env base n) {op : Op}
    (hop : ∀ sequence records, op ≠ .installReplicaSnapshot sequence records)
    (hsound : ∀ mutation ∈ op.mutation n, mutation.Sound env)
    (hfaulty : faulty → ¬ op.Checkpoints env n) :
    Executes env faulty base (op.mutation n) (op.Empties env n) (op.prog env) n := by
  cases op with
  | upsert record => exact (h.executes_upsert (hsound _ rfl) hfaulty _).discard
  | batchUpsert records => exact (h.executes_batchUpsert (hsound _ rfl) hfaulty _).discard
  | delete ns id => exact (h.executes_delete (hsound _ rfl) hfaulty).discard
  | batchUpsertIdempotent key request prepared =>
    exact (h.executes_batchUpsertIdempotent key request prepared hsound hfaulty _).discard
  | checkpoint =>
    refine wp_mono (wp_of_faulty h.wp_checkpointShard fun hf => hfaulty hf trivial)
      (fun result n' hn' hacc => ?_) fun n' hn' hacc => ?_
    · have hn' := hn' hacc
      exact ⟨hn'.coherent_list h.healthy, hn'.lookup, hn'.nextLSN⟩
    · obtain ⟨base', hdur⟩ := hn' hacc
      exact ⟨base', _, _, hdur, .inl ⟨rfl, rfl⟩⟩
  | applyReplicaBatch sequence records =>
    exact h.executes_applyReplicaBatch sequence records hsound _
  | applyReplicaDelete sequence ns id => exact h.executes_applyReplicaDelete sequence ns id hsound _
  | installReplicaSnapshot sequence records => exact absurd rfl (hop sequence records)

end Operations

end GideonDB.Engine
