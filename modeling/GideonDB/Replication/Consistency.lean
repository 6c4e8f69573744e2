/-
What the replicas of a shard have in common.

As long as the leader has everything that was ever written, every replica has the leader's
history up to some sequence, its own last one.  Every message is about that history, so a
replica that has answered a request without an error is not behind the request.
-/
import GideonDB.Replication.Group

namespace GideonDB.Replication

open Go GideonDB.Core Store Engine Cluster List Option Prog
open Replication.Group

/-! ### Histories -/

/-- The records of a history. -/
def applyAll (history : List Mutation) : Live :=
  history.foldl (fun live mutation => mutation.apply live) fun _ => none

/-- `mutation` has `sequence`. -/
def At (history : List Mutation) (sequence : ℕ) (mutation : Mutation) : Prop :=
  ∃ index, sequence = index + 1 ∧ history[index]? = some mutation

variable {history : List Mutation} {sequence : ℕ} {mutation : Mutation}

lemma At.le (h : At history sequence mutation) : sequence ≤ history.length := by
  obtain ⟨index, rfl, hget⟩ := h
  exact (List.getElem?_eq_some_iff.1 hget).1

lemma At.append (h : At history sequence mutation) (more : List Mutation) :
    At (history ++ more) sequence mutation := by
  obtain ⟨index, rfl, hget⟩ := h
  exact ⟨index, rfl, by rw [List.getElem?_append_left (List.getElem?_eq_some_iff.1 hget).1, hget]⟩

lemma at_concat (history : List Mutation) (mutation : Mutation) :
    At (history ++ [mutation]) (history.length + 1) mutation :=
  ⟨history.length, rfl, List.getElem?_concat_length⟩

lemma At.mem (h : At history sequence mutation) : mutation ∈ history := by
  obtain ⟨index, -, hget⟩ := h
  exact mem_of_getElem? hget

lemma At.applyAll_take (h : At history (sequence + 1) mutation) :
    applyAll (history.take (sequence + 1)) = mutation.apply (applyAll (history.take sequence)) := by
  obtain ⟨index, hindex, hget⟩ := h
  obtain rfl := Nat.succ.inj hindex
  rw [take_add_one, hget, toList_some, applyAll, foldl_append]
  rfl

/-! ### The invariant -/

/-- The replica has the history up to a sequence, in memory and in its files. -/
structure UpTo (env : Env) (history : List Mutation) (sequence : ℕ) (n : Node) : Prop where
  coherent : ∃ base, Coherent env base n
  nextLSN : n.nextLSN = sequence + 1
  le : sequence ≤ history.length
  lookup : n.shard.lookup = applyAll (history.take sequence)

variable {env : Env} {n : Node}

lemma UpTo.lastLSN (h : UpTo env history sequence n) : n.lastLSN = sequence := by
  rw [Node.lastLSN, h.nextLSN, Nat.add_sub_cancel]

lemma UpTo.append (h : UpTo env history sequence n) (more : List Mutation) :
    UpTo env (history ++ more) sequence n where
  coherent := h.coherent
  nextLSN := h.nextLSN
  le := h.le.trans (by rw [length_append]; exact Nat.le_add_right _ _)
  lookup := by rw [h.lookup, take_append_of_le_length h.le]

/-- What it says is history. -/
def Message.Tells (env : Env) (history : List Mutation) : Message → Prop
  | append sequence records => At history sequence (.batchUpsert records)
  | delete sequence ns id => At history sequence (.delete ns id)
  | snapshot sequence records => sequence ≤ history.length ∧
      liveOf records = applyAll (history.take sequence) ∧ ∀ record ∈ records, Engine.Sound env record

variable {message : Message}

lemma Message.Tells.append
    (h : message.Tells env history) (more : List Mutation) : message.Tells env (history ++ more) := by
  cases message with
  | append sequence records => exact .append h more
  | delete sequence ns id => exact .append h more
  | snapshot sequence records =>
    refine ⟨h.1.trans ?_, ?_, h.2.2⟩
    · rw [length_append]
      exact Nat.le_add_right _ _
    · rw [h.2.1, take_append_of_le_length h.1]

/-- The replicas that a fan-out counts have the batch. -/
structure Fanout.Backed (g : Group) (fanout : Fanout) : Prop where
  batch : At g.history fanout.sequence (.batchUpsert fanout.records)
  placed : fanout.replicas.Nodup ∧ fanout.replicas.length = fanout.replicationFactor
  leader : ∀ replica, fanout.replicas.head? = some replica → replica ∈ fanout.acknowledged
  nodup : fanout.acknowledged.Nodup
  subset : ∀ replica ∈ fanout.acknowledged, replica ∈ fanout.replicas
  applied : ∀ replica ∈ fanout.acknowledged, fanout.sequence ≤ (g.node replica).lastLSN

variable {g' : Group} {fanout : Fanout}

lemma Fanout.Backed.congr {g : Group} (h : fanout.Backed g) (hnode : g'.node = g.node)
    (hhistory : g'.history = g.history) : fanout.Backed g' :=
  { h with batch := hhistory ▸ h.batch, applied := hnode ▸ h.applied }

/-- What the ledger of a replica has as completed is in the history. -/
def LedgerTells (history : List Mutation) (n : Node) : Prop :=
  ∀ key entry, n.ledger.get key = some entry → entry.completed = true →
    At history entry.sequence (.batchUpsert entry.records)

/-- The invariant of a group. -/
structure Group.Consistent (env : Env) (g : Group) : Prop where
  sound : ∀ mutation ∈ g.history, mutation.Sound env
  node : ∀ replica, ∃ sequence, UpTo env g.history sequence (g.node replica)
  leader : UpTo env g.history g.history.length (g.node g.leader)
  ledger : ∀ replica, LedgerTells g.history (g.node replica)
  issued : ∀ message ∈ g.issued, message.Tells env g.history
  sent : ∀ request ∈ g.sent, request.2.Tells env g.history
  answers : ∀ answer ∈ g.answers, answer.result = .ok () →
    answer.message.sequence ≤ (g.node answer.replica).lastLSN
  fanouts : ∀ fanout ∈ g.fanouts, fanout.Backed g

variable {n' : Node} {op : Op} {base : List Record} {result : Except Engine.Error Unit}
  {replicas : List GoString} {replicationFactor : ℕ} {id target replica : GoString}
  {answer : Answer}

section Steps

variable {env : Env} {g : Group}

lemma Group.consistent_new (env : Env) (leader : GoString) : (Group.new env leader).Consistent env where
  sound mutation hmem := by cases hmem
  node _ := ⟨0, ⟨[], coherent_new env⟩, rfl, le_rfl, rfl⟩
  leader := ⟨⟨[], coherent_new env⟩, rfl, le_rfl, rfl⟩
  ledger _ key entry hget := by cases hget
  issued message hmem := by cases hmem
  sent request hmem := by cases hmem
  answers answer hmem := by cases hmem
  fanouts fanout hmem := by cases hmem

/-- One replica goes on, and with it, if it is the leader, the history. -/
lemma Group.Consistent.evolve (h : g.Consistent env) {replica : GoString} {n' : Node} {sequence : ℕ}
    {more : List Mutation} (hsound : ∀ mutation ∈ more, mutation.Sound env)
    (hn' : UpTo env (g.history ++ more) sequence n') (hle : (g.node replica).lastLSN ≤ sequence)
    (hleader : replica = g.leader ∧ sequence = (g.history ++ more).length ∨ more = [])
    (hled : LedgerTells (g.history ++ more) n') :
    Group.Consistent env { g.setNode replica n' with history := g.history ++ more } := by
  have hself : ((g.setNode replica n').node replica) = n' := Function.update_self ..
  have hother : ∀ {r}, r ≠ replica → (g.setNode replica n').node r = g.node r :=
    fun hr => Function.update_of_ne hr ..
  have hmono : ∀ r, (g.node r).lastLSN ≤ ((g.setNode replica n').node r).lastLSN := by
    intro r
    by_cases hr : r = replica
    · rw [hr, hself, hn'.lastLSN]
      exact hle
    · rw [hother hr]
  constructor
  · intro mutation hmem
    exact (mem_append.1 hmem).elim (h.sound mutation) (hsound mutation)
  · intro r
    by_cases hr : r = replica
    · exact ⟨sequence, by rw [hr]; exact hself.symm ▸ hn'⟩
    · obtain ⟨s, hs⟩ := h.node r
      exact ⟨s, (hother hr).symm ▸ hs.append more⟩
  · change UpTo env (g.history ++ more) (g.history ++ more).length ((g.setNode replica n').node g.leader)
    rcases hleader with ⟨rfl, rfl⟩ | rfl
    · exact hself.symm ▸ hn'
    · rw [append_nil] at hn' ⊢
      by_cases hr : g.leader = replica
      · -- The leader cannot fall behind.
        have hlength : sequence = g.history.length := by
          refine le_antisymm hn'.le ?_
          rw [← h.leader.lastLSN, hr]
          exact hle
        rw [hr, hself, ← hlength]
        exact hn'
      · exact (hother hr).symm ▸ h.leader
  · intro r
    by_cases hr : r = replica
    · intro key entry hget
      rw [hr] at hget
      exact hled key entry (hself ▸ hget)
    · intro key entry hget hcomp
      exact (h.ledger r key entry ((hother hr) ▸ hget) hcomp).append more
  · exact fun message hmem => (h.issued message hmem).append more
  · exact fun request hmem => (h.sent request hmem).append more
  · exact fun answer hmem hok => (h.answers answer hmem hok).trans (hmono _)
  · intro fanout hmem
    have hbacked := h.fanouts fanout hmem
    exact { hbacked with
      batch := hbacked.batch.append more
      applied := fun r hr => (hbacked.applied r hr).trans (hmono r) }

lemma Group.Consistent.issue (h : g.Consistent env) (hmsg : message.Tells env g.history) :
    Group.Consistent env { g with issued := g.issued ++ [message] } :=
  { h with
    issued := fun message' hmem => (mem_append.1 hmem).elim (h.issued message') fun hmem =>
      mem_singleton.1 hmem ▸ hmsg
    fanouts := fun fanout hmem => (h.fanouts fanout hmem).congr rfl rfl }

/-! ### The leader -/

lemma UpTo.logged (h : UpTo env history history.length n) {ok : Prop}
    (hexec : Executed env base (op.mutation n) ok n n') :
    UpTo env (history ++ logged op n n') (history ++ logged op n n').length n' := by
  obtain ⟨⟨base', hcoh, -⟩, heffect⟩ := hexec
  -- Either nothing has happened, or the next mutation has.
  have hcases : (n'.shard.lookup = n.shard.lookup ∧ n'.nextLSN = n.nextLSN) ∨
      ∃ mutation ∈ op.mutation n, n'.shard.lookup = mutation.apply n.shard.lookup ∧
        n'.nextLSN = n.nextLSN + 1 := by
    cases hmut : op.mutation n with
    | none =>
      rw [hmut] at heffect
      exact .inl heffect
    | some mutation =>
      rw [hmut] at heffect
      exact heffect.symm.imp (fun heffect => heffect.2) fun heffect => ⟨mutation, rfl, heffect⟩
  rcases hcases with ⟨hlook, hnext⟩ | ⟨mutation, hmut, hlook, hnext⟩
  · rw [Group.logged, if_pos hnext, append_nil]
    exact ⟨⟨base', hcoh⟩, hnext.trans h.nextLSN, le_rfl, hlook.trans h.lookup⟩
  · have hlogged : Group.logged op n n' = [mutation] := by
      rw [Group.logged, if_neg (by omega), mem_def.1 hmut]
      rfl
    rw [hlogged, length_append, length_singleton]
    refine ⟨⟨base', hcoh⟩, ?_, by rw [length_append, length_singleton], ?_⟩
    · rw [hnext, h.nextLSN]
    · rw [hlook, h.lookup, At.applyAll_take (at_concat history mutation),
        take_append_of_le_length le_rfl]

lemma mem_logged (h : mutation ∈ logged op n n') : mutation ∈ op.mutation n := by
  rw [logged] at h
  split at h
  · cases h
  · exact mem_toList.1 h

/-- What the operations of the leader are applied to. -/
structure Leads (env : Env) (op : Op) (n : Node) : Prop where
  other : ∀ sequence records, op ≠ .installReplicaSnapshot sequence records
  sound : ∀ mutation ∈ op.mutation n, mutation.Sound env
  empties : ¬ op.Empties env n

lemma Leads.executed (h : Leads env op n) (hcoh : Coherent env base n)
    (heval : (op.prog env).eval n = (n', result)) :
    Executed env base (op.mutation n) (∃ a, result = .ok a) n n' := by
  have hexec := eval_of_wp (@Coherent.executes_prog env False _ base hcoh op h.other h.sound
    False.elim) fun hempty => absurd hempty h.empties
  rwa [heval] at hexec

lemma Group.Consistent.setLeader (h : g.Consistent env) (hop : Leads env op (g.node g.leader))
    (heval : (op.prog env).eval (g.node g.leader) = (n', result))
    (hled : LedgerTells (g.history ++ logged op (g.node g.leader) n') n') :
    (g.setLeader op n').Consistent env := by
  obtain ⟨base, hcoh⟩ := h.leader.coherent
  have hn' := h.leader.logged (hop.executed hcoh heval)
  refine h.evolve (fun mutation hmem => hop.sound _ (mem_logged hmem)) hn' ?_ (.inl ⟨rfl, rfl⟩)
    hled
  rw [h.leader.lastLSN, length_append]
  exact Nat.le_add_right _ _

lemma LedgerTells.sameLedger (h : LedgerTells history n) (hsame : SameLedger n n')
    (more : List Mutation) : LedgerTells (history ++ more) n' := by
  intro key entry hget hcomp
  rw [hsame.1] at hget
  exact (h key entry hget hcomp).append more

lemma eval_sameLedger {op : Op} (hop : ∀ key request prepared,
    op ≠ .batchUpsertIdempotent key request prepared) (n : Node) :
    SameLedger n ((op.prog env).eval n).1 :=
  (eval_of_wp (@Prog.Within.wp _ _ _ True _ _ (@apart_prog env op hop)
    (fun _ _ _ => Apart.trans) n n (.refl n))).1

lemma UpTo.at_logged (h : UpTo env history history.length n) (hmut : op.mutation n = some mutation)
    (hnext : n'.nextLSN = n.nextLSN + 1) :
    At (history ++ Group.logged op n n') n.nextLSN mutation := by
  rw [Group.logged, if_neg (by omega), hmut, h.nextLSN]
  exact at_concat history mutation

lemma UpTo.at_executed (h : UpTo env history history.length n) (hmut : op.mutation n = some mutation)
    {ok : Prop} (hexec : Executed env base (op.mutation n) ok n n') (hok : ok) :
    At (history ++ Group.logged op n n') n.nextLSN mutation := by
  rw [hmut] at hexec
  rcases hexec.effect with ⟨-, hnext⟩ | ⟨hnotOk, -⟩
  · exact h.at_logged hmut hnext
  · exact absurd hok hnotOk

lemma eval_void {α : Type} {p : Action α} {result : Except Engine.Error α}
    (h : p.eval n = (n', result)) :
    (p >>= fun _ => pure ()).eval n = (n', result.map fun _ => ()) := by
  rw [eval_bind, h]
  cases result <;> rfl

/-- What a call with a key leaves in the ledger. -/
lemma UpTo.keyedCall {history : List Mutation} {n n' : Node} {key : GoString}
    {request prepared : List Record} {result : Except Engine.Error (List Record × ℕ)}
    (h : UpTo env history history.length n) (hled : LedgerTells history n)
    (hcall : KeyedCall key prepared n result n') :
    LedgerTells (history ++ Group.logged (.batchUpsertIdempotent key request prepared) n n') n' := by
  intro k entry hget hcomp
  rcases hcall.step with hunrecorded | ⟨entry', hentry', hrecd⟩
  · rcases hunrecorded.fresh k entry hget with hold | ⟨-, hopen, -⟩
    · exact (hled k entry hold hcomp).append _
    · exact absurd (hopen.symm.trans hcomp) Bool.false_ne_true
  · rw [hrecd.ledger, GoMap.get_set] at hget
    split at hget
    · -- The entry that has been committed.
      cases hget
      refine h.at_logged ?_ hrecd.nextLSN
      rw [Op.mutation]
      rcases hentry' with ⟨hnone, hrecs⟩ | ⟨hsome, hopen⟩
      · rw [hnone, hrecs]
      · rw [hsome]
        dsimp only
        rw [hopen]
        rfl
    · exact (hled k entry hget hcomp).append _

lemma ensures_commit (hsound : mutation.Sound env) (apply : Action Unit) (count : ℕ) {α : Type}
    (result : ℕ → α) (n : Node) :
    (append env mutation >>= fun sequence => apply >>= fun _ => afterMutation env count >>= fun _ =>
      (pure (result sequence) : Action α)).Ensures n fun a _ => a = result n.nextLSN := by
  have happend : (append env mutation).Ensures n fun sequence _ => sequence = n.nextLSN := by
    refine wp_mono (wp_append_sound hsound n) ?_ fun _ _ => trivial
    rintro result n' (⟨rfl, -⟩ | ⟨⟨err, rfl⟩, -⟩) a ha
    · exact (Except.ok.inj ha).symm
    · cases ha
  refine happend.bind fun sequence n' hseq => .bind (.any _) fun _ _ _ => .bind (.any _)
    fun _ _ _ => .pure ?_
  rw [hseq]

lemma ensures_delete {ns id : GoString} (hsound : (Mutation.delete ns id).Sound env) (n : Node) :
    (Engine.delete env ns id).Ensures n fun sequence _ => sequence = n.nextLSN := by
  refine .bind_state ?_
  cases n.shard.get ns id with
  | error err => exact .throw _
  | ok record => exact ensures_commit hsound _ 1 (fun sequence => sequence) n

/-- `BatchUpsertShardIdempotent` on the leader: the batch that is returned is in the history. -/
lemma Group.Consistent.write (h : g.Consistent env) {write : Write}
    {result : Except Engine.Error (List Record × ℕ)} (hop : Leads env write.op (g.node g.leader))
    (heval : (write.prog env).eval (g.node g.leader) = (n', result)) :
    LedgerTells (g.history ++ logged write.op (g.node g.leader) n') n' ∧
      ∀ records sequence, result = .ok (records, sequence) →
        At (g.history ++ logged write.op (g.node g.leader) n') sequence (.batchUpsert records) := by
  obtain ⟨base, hcoh⟩ := h.leader.coherent
  cases write with
  | plain prepared =>
    have hsound : (Mutation.batchUpsert prepared).Sound env := hop.sound _ rfl
    have hsame := @eval_sameLedger env (Write.plain prepared).op nofun
      (g.node g.leader)
    have hop' := eval_void heval
    rw [Write.prog_op, hop'] at hsame
    refine ⟨(h.ledger _).sameLedger hsame _, fun records sequence hres => ?_⟩
    replace heval : (batchUpsert env prepared).eval (g.node g.leader) = (n', result) := heval
    have hvalue : ∀ a, ((batchUpsert env prepared).eval (g.node g.leader)).2 = .ok a →
        a = (prepared, (g.node g.leader).nextLSN) :=
      eval_of_wp (ensures_commit hsound (upsertAll env prepared) prepared.length
        (fun sequence => (prepared, sequence)) (g.node g.leader))
    rw [heval] at hvalue
    obtain ⟨rfl, rfl⟩ := Prod.mk.inj (hvalue _ hres)
    exact h.leader.at_executed rfl (hop.executed hcoh hop') ⟨(), by rw [hres]; rfl⟩
  | keyed key request prepared =>
    replace heval : (batchUpsertIdempotent env key request prepared).eval (g.node g.leader) =
      (n', result) := heval
    have hcall := eval_of_wp (@wp_batchUpsertIdempotent env _ key
      ⟨hcoh.healthy.config_eq, hcoh.healthy.active_writable.toShaped⟩ request prepared hop.sound)
    rw [heval] at hcall
    have hled := @UpTo.keyedCall env _ _ _ _ request _ _ h.leader (h.ledger _) hcall
    refine ⟨hled, fun records sequence hres => ?_⟩
    obtain ⟨digest, hget⟩ := hcall.answer _ hres
    exact hled key _ hget rfl

lemma Group.Consistent.commit (h : g.Consistent env) {write : Write}
    (hop : Leads env write.op (g.node g.leader))
    (hplaced : replicas.Nodup ∧ replicas.length = replicationFactor)
    (hreps : replicas.head? = some g.leader) (level : Acknowledgement) :
    (g.commit env replicas replicationFactor level write).Consistent env := by
  rw [Group.commit]
  cases heval : (write.prog env).eval (g.node g.leader) with
  | mk n' result =>
    obtain ⟨hled, hbatch⟩ := h.write hop heval
    have hset : (g.setLeader write.op n').Consistent env := by
      exact h.setLeader hop (Write.prog_op env write ▸ eval_void heval) hled
    cases result with
    | error err => exact hset
    | ok a =>
      obtain ⟨records, sequence⟩ := a
      have hat := hbatch records sequence rfl
      have hissued := hset.issue (show (Message.append sequence records).Tells env _ from hat)
      refine { hissued with fanouts := fun fanout hmem => ?_ }
      rcases mem_append.1 hmem with hmem | hmem
      · exact (hset.fanouts fanout hmem).congr rfl rfl
      · -- The leader is the first replica that counts.
        obtain rfl := mem_singleton.1 hmem
        refine ⟨hat, hplaced, ?_, nodup_singleton _, ?_, ?_⟩
        · intro replica hrepl
          rw [← Option.mem_unique hreps hrepl]
          exact mem_singleton_self _
        · intro replica hmem
          rw [mem_singleton.1 hmem]
          exact mem_of_head? hreps
        · intro replica hmem
          rw [mem_singleton.1 hmem]
          exact hat.le.trans hset.leader.lastLSN.ge

lemma Group.Consistent.commitDelete (h : g.Consistent env) {ns : GoString}
    (hop : Leads env (.delete ns id) (g.node g.leader)) :
    (g.commitDelete env ns id).Consistent env := by
  obtain ⟨base, hcoh⟩ := h.leader.coherent
  have hsound : (Mutation.delete ns id).Sound env := hop.sound _ rfl
  rw [Group.commitDelete]
  cases heval : (Engine.delete env ns id).eval (g.node g.leader) with
  | mk n' result =>
    have hop' : ((Op.delete ns id).prog env).eval (g.node g.leader) =
        (n', result.map fun _ => ()) := eval_void heval
    have hsame := @eval_sameLedger env (.delete ns id) nofun
      (g.node g.leader)
    rw [hop'] at hsame
    have hset := h.setLeader hop hop' ((h.ledger _).sameLedger hsame _)
    cases result with
    | error err => exact hset
    | ok sequence =>
      have hvalue := eval_of_wp (@ensures_delete env ns id hsound (g.node g.leader))
      rw [heval] at hvalue
      obtain rfl := hvalue _ rfl
      refine hset.issue (show (Message.delete _ ns id).Tells env _ from ?_)
      exact h.leader.at_executed rfl (hop.executed hcoh hop') ⟨(), rfl⟩

/-! ### The network -/

/-- A request of the history reaches the replica as it is. -/
lemma Message.Tells.throughJSON (h : message.Tells env history)
    (hsound : ∀ mutation ∈ history, mutation.Sound env) :
    message.throughJSON env = some message := by
  cases message with
  | append sequence records =>
    have hrecs := hsound _ (At.mem h)
    rw [Message.throughJSON, mapM_codec_of_sound hrecs.2.2, map_some]
  | delete sequence ns id =>
    obtain ⟨-, -, hns, hid⟩ := hsound _ (At.mem h)
    rw [Message.throughJSON, coerceUTF8_eq_self hns, coerceUTF8_eq_self hid]
  | snapshot sequence records =>
    rw [Message.throughJSON, mapM_codec_of_sound h.2.2, map_some]

lemma Group.Consistent.post (h : g.Consistent env) (hmsg : message.Tells env g.history)
    (hpost : g.post env target message = some g') : g'.Consistent env := by
  rw [Group.post, hmsg.throughJSON h.sound, map_some] at hpost
  cases hpost
  exact { h with
    sent := fun request hmem => (mem_append.1 hmem).elim (h.sent request) fun hmem => by
      rw [mem_singleton.1 hmem]
      exact hmsg
    fanouts := fun fanout hmem => (h.fanouts fanout hmem).congr rfl rfl }

lemma UpTo.tells_snapshot (h : UpTo env history sequence n) :
    (Message.snapshot (exportReplicaSnapshot n).1 (exportReplicaSnapshot n).2).Tells env history := by
  obtain ⟨base, hcoh⟩ := h.coherent
  change n.lastLSN ≤ _ ∧ liveOf n.shard.list = applyAll (history.take n.lastLSN) ∧ _
  rw [h.lastLSN, ← h.lookup, ← hcoh.healthy.enumerates.liveOf_eq]
  exact ⟨h.le, rfl, hcoh.healthy.list_sound⟩

/-! ### The replicas -/

/-- A request that is not the next one changes nothing, and is refused if it leaves a gap. -/
def Skips (sequence : ℕ) (n : Node) (p : Action Unit) : Prop :=
  p.wp False (fun result n' => n' = n ∧ (result = .ok () → sequence ≤ n.lastLSN)) (fun _ => True) n

lemma skips_throw (sequence : ℕ) (n : Node) (err : Engine.Error) : Skips sequence n (.throw err) :=
  ⟨rfl, nofun⟩

lemma skips_applyReplica (hseq : sequence ≠ n.lastLSN + 1) (mutation : Mutation)
    (apply : Action Unit) (count : ℕ) :
    Skips sequence n (applyReplica env sequence mutation apply count) := by
  rw [applyReplica]
  split
  · exact skips_throw _ _ _
  rw [Skips, wp_bind, wp_state, after_ok]
  split_ifs with hle
  · split
    · exact skips_throw _ _ _
    · split
      · exact skips_throw _ _ _
      · exact ⟨rfl, fun _ => hle⟩
  · exact skips_throw _ _ _

lemma UpTo.next (h : UpTo env history n.lastLSN n) (hat : At history (n.lastLSN + 1) mutation)
    {ok : Prop} (hexec : Executed env base (some mutation) ok n n') :
    ∃ sequence, UpTo env history sequence n' ∧ n.lastLSN ≤ sequence ∧
      (ok → n.lastLSN + 1 ≤ sequence) := by
  obtain ⟨⟨base', hcoh, -⟩, heffect⟩ := hexec
  rcases heffect with ⟨hlook, hnext⟩ | ⟨hnotOk, hlook, hnext⟩
  · refine ⟨n.lastLSN + 1, ⟨⟨base', hcoh⟩, ?_, hat.le, ?_⟩, Nat.le_succ _, fun _ => le_rfl⟩
    · rw [hnext, h.nextLSN]
    · rw [hlook, h.lookup, hat.applyAll_take]
  · exact ⟨n.lastLSN, ⟨⟨base', hcoh⟩, hnext.trans h.nextLSN, h.le, hlook.trans h.lookup⟩,
      le_rfl, fun hok => absurd hok hnotOk⟩

lemma UpTo.appended {history : List Mutation} {sequence : ℕ} {n n' : Node} {op : Op}
    {mutation : Mutation} {result : Except Engine.Error Unit} (h : UpTo env history n.lastLSN n)
    (hother : ∀ sequence records, op ≠ .installReplicaSnapshot sequence records)
    (hop : op.mutation n = if sequence ≤ n.lastLSN then none else some mutation)
    (hempt : ¬ op.Empties env n) (hskips : sequence ≠ n.lastLSN + 1 → Skips sequence n (op.prog env))
    (hat : At history sequence mutation) (hsound : mutation.Sound env)
    (heval : (op.prog env).eval n = (n', result)) :
    ∃ sequence', UpTo env history sequence' n' ∧ n.lastLSN ≤ sequence' ∧
      (result = .ok () → sequence ≤ sequence') := by
  by_cases hseq : sequence = n.lastLSN + 1
  · subst hseq
    rw [if_neg (Nat.not_succ_le_self _)] at hop
    obtain ⟨base, hcoh⟩ := h.coherent
    have hleads : Leads env op n := ⟨hother, fun mutation' hmem => by
      rw [hop] at hmem
      exact Option.some.inj hmem ▸ hsound, hempt⟩
    have hexec := hleads.executed hcoh heval
    rw [hop] at hexec
    obtain ⟨sequence', hupTo, hle, hok⟩ := h.next hat hexec
    exact ⟨sequence', hupTo, hle, fun hres => hok ⟨_, hres⟩⟩
  · have hskipped := eval_of_wp (hskips hseq)
    rw [heval] at hskipped
    obtain ⟨rfl, hok⟩ := hskipped
    exact ⟨_, h, le_rfl, hok⟩

lemma ensures_installReplicaSnapshot_le (sequence : ℕ) (records : List Record) (n : Node) :
    (installReplicaSnapshot env sequence records).Ensures n fun _ _ => n.lastLSN ≤ sequence :=
  (ensures_prepareSnapshot sequence records n).bind fun _ _ hle =>
    (Ensures.any _).mono fun _ _ _ => hle

/-- What a request makes of a replica: it never goes back, and it has what it has acknowledged. -/
lemma UpTo.deliver (h : UpTo env history n.lastLSN n) (hmsg : message.Tells env history)
    (hsound : ∀ mutation ∈ history, mutation.Sound env)
    (heval : (message.op.prog env).eval n = (n', result)) :
    ∃ sequence, UpTo env history sequence n' ∧ n.lastLSN ≤ sequence ∧
      (result = .ok () → message.sequence ≤ sequence) := by
  cases message with
  | append sequence records =>
    refine h.appended (fun _ _ heq => by cases heq) (by exact rfl) (by exact not_false)
      (fun hseq => ?_) hmsg (hsound _ (At.mem hmsg)) heval
    change Skips sequence n (applyReplicaBatch env sequence records)
    rw [applyReplicaBatch]
    split
    · exact skips_throw _ _ _
    · rw [Skips, wp_bind, wp_ofExcept]
      cases records.zipIdx.forM (checkReplicaRecord env) with
      | error err => exact skips_throw _ _ _
      | ok _ => exact skips_applyReplica hseq _ _ _
  | delete sequence ns id =>
    refine h.appended (fun _ _ heq => by cases heq) (by exact rfl) (by exact not_false)
      (fun hseq => ?_) hmsg (hsound _ (At.mem hmsg)) heval
    change Skips sequence n (applyReplicaDelete env sequence ns id)
    rw [applyReplicaDelete]
    split
    · exact skips_throw _ _ _
    · split
      · exact skips_throw _ _ _
      · exact skips_applyReplica hseq _ _ _
  | snapshot sequence records =>
    obtain ⟨hle, hlive, hrecs⟩ := hmsg
    obtain ⟨base, hcoh⟩ := h.coherent
    replace heval : (installReplicaSnapshot env sequence records).eval n = (n', result) := heval
    have hcases := eval_of_wp (hcoh.wp_installReplicaSnapshot hrecs sequence)
    rw [heval] at hcases
    rcases hcases with ⟨rfl, hinst⟩ | ⟨⟨err, rfl⟩, rfl⟩
    · have hback := eval_of_wp (@ensures_installReplicaSnapshot_le env sequence records n) ()
        (by rw [heval])
      refine ⟨sequence, ⟨⟨_, hinst.coherent⟩, hinst.nextLSN, hle, ?_⟩, hback,
        fun _ => le_rfl⟩
      rw [hinst.lookup, hlive]
    · exact ⟨_, h, le_rfl, fun hok => by cases hok⟩

section

variable (h : g.Consistent env)

include h

lemma Group.Consistent.upTo (replica : GoString) :
    UpTo env g.history (g.node replica).lastLSN (g.node replica) := by
  obtain ⟨sequence, hseq⟩ := h.node replica
  rw [hseq.lastLSN]
  exact hseq

lemma Group.Consistent.setNode (hn' : UpTo env g.history sequence n')
    (hle : (g.node replica).lastLSN ≤ sequence) (hsame : SameLedger (g.node replica) n') :
    (g.setNode replica n').Consistent env := by
  have hevolve := @Group.Consistent.evolve env g h replica n' sequence []
    nofun (hn'.append []) hle (.inr rfl) ((h.ledger replica).sameLedger hsame [])
  rw [append_nil] at hevolve
  exact hevolve

lemma Group.Consistent.deliver (hmsg : message.Tells env g.history) :
    (g.deliver env target message).Consistent env := by
  rw [Group.deliver]
  cases heval : (message.op.prog env).eval (g.node target) with
  | mk n' result =>
    obtain ⟨sequence, hn', hle, hok⟩ := (h.upTo target).deliver hmsg h.sound heval
    have hsame := @eval_sameLedger env message.op
      (fun key request prepared heq => by cases message <;> cases heq) (g.node target)
    rw [heval] at hsame
    have hset := h.setNode hn' hle hsame
    refine { hset with
      answers := fun answer hmem hres => ?_
      fanouts := fun fanout hmem => (hset.fanouts fanout hmem).congr rfl rfl }
    rcases mem_append.1 hmem with hmem | hmem
    · exact hset.answers answer hmem hres
    · obtain rfl := mem_singleton.1 hmem
      change message.sequence ≤ ((g.setNode target n').node target).lastLSN
      rw [show (g.setNode target n').node target = n' from Function.update_self .., hn'.lastLSN]
      exact hok hres

lemma Group.Consistent.checkpoint (hempty : ¬ NetEmpty (g.node replica)) :
    (g.setNode replica ((checkpointShard env).eval (g.node replica)).1).Consistent env := by
  obtain ⟨base, hcoh⟩ := (h.upTo replica).coherent
  have hleads : Leads env .checkpoint (g.node replica) := ⟨nofun, nofun, hempty⟩
  obtain ⟨⟨base', hcoh', -⟩, hlook, hnext⟩ := hleads.executed hcoh rfl
  have hsame := @eval_sameLedger env .checkpoint nofun (g.node replica)
  have hupTo := h.upTo replica
  exact h.setNode ⟨⟨base', hcoh'⟩, hnext.trans hupTo.nextLSN, hupTo.le,
    hlook.trans hupTo.lookup⟩ le_rfl hsame

end

/-! ### Acknowledgements -/

/-- The answer that counts comes from a replica that is not behind the batch. -/
lemma Group.Consistent.le_of_succeeds (h : g.Consistent env) (hmem : answer ∈ g.answers)
    (hsucc : g.succeeds fanout answer) : fanout.sequence ≤ (g.node answer.replica).lastLSN := by
  obtain ⟨replica, message, result⟩ := answer
  rw [succeeds] at hsucc
  split at hsucc
  · rename_i sequence records hmsg hres
    rw [← of_decide_eq_true hsucc]
    dsimp only at hmsg hres
    subst hmsg hres
    exact h.answers _ hmem rfl
  · rename_i sequence records hmsg hres
    rw [Bool.and_eq_true] at hsucc
    dsimp only at hmsg hres
    subst hmsg hres
    exact (of_decide_eq_true hsucc.1).trans (h.answers _ hmem rfl)
  · cases hsucc

lemma Group.Consistent.acknowledge (h : g.Consistent env) {index : ℕ}
    (hfanout : fanout ∈ g.fanouts) (hans : answer ∈ g.answers)
    (hstep : g.acknowledge index fanout answer = some g') : g'.Consistent env := by
  rw [Group.acknowledge] at hstep
  split at hstep
  · rename_i hcond
    obtain ⟨hrepl, hnew, hsucc⟩ := hcond
    cases hstep
    refine { h with fanouts := fun fanout' hmem => ?_ }
    rcases mem_or_eq_of_mem_set hmem with hmem | rfl
    · exact (h.fanouts fanout' hmem).congr rfl rfl
    · have hbacked := h.fanouts fanout hfanout
      refine ⟨hbacked.batch, hbacked.placed, ?_, ?_, ?_, ?_⟩
      · exact fun replica hhead => mem_append_left _ (hbacked.leader replica hhead)
      · exact nodup_append.2 ⟨hbacked.nodup, nodup_singleton _, by
          rintro replica hmem replica' hmem' rfl
          exact hnew (mem_singleton.1 hmem' ▸ hmem)⟩
      · intro replica hmem
        rcases mem_append.1 hmem with hmem | hmem
        · exact hbacked.subset replica hmem
        · rw [mem_singleton.1 hmem]
          exact mem_of_mem_tail hrepl
      · intro replica hmem
        rcases mem_append.1 hmem with hmem | hmem
        · exact hbacked.applied replica hmem
        · rw [mem_singleton.1 hmem]
          exact h.le_of_succeeds hans hsucc
  · cases hstep

lemma Group.Consistent.move (h : g.Consistent env)
    (hcaught : (g.node replica).lastLSN = (g.node g.leader).lastLSN) :
    Group.Consistent env { g with leader := replica } := by
  have hleader := h.upTo replica
  rw [hcaught, h.leader.lastLSN] at hleader
  exact { h with
    leader := hleader
    fanouts := fun fanout hmem => (h.fanouts fanout hmem).congr rfl rfl }

/-! ### Runs -/

/-- What the events of a group are applied to: the leader writes sound records and makes no
checkpoint of nothing, no more does a replica, and a new leader is not behind the old one. -/
def Group.Orderly (env : Env) (g : Group) : Group.Event → Prop
  | .commit _ _ _ _ write => Leads env write.op (g.node g.leader)
  | .delete ns id => Leads env (.delete ns id) (g.node g.leader)
  | .upsert record => Leads env (.upsert record) (g.node g.leader)
  | .checkpoint replica => ¬ NetEmpty (g.node replica)
  | .move replica => (g.node replica).lastLSN = (g.node g.leader).lastLSN
  | _ => True

variable {sha256 : GoString → GoString}

lemma plannedReplicas_spec {members : Membership} {config : CatalogEntry}
    (h : plannedReplicas sha256 env members config replicationFactor = some replicas) :
    (replicas.Nodup ∧ replicas.length = replicationFactor) ∧
      replicas.head? = some members.localNodeID := by
  rw [Group.plannedReplicas] at h
  split at h
  · cases h
  rename_i table htable
  split at h
  · cases h
  rename_i placement hfind
  split at h
  · rename_i hleader
    cases h
    have hreg := regular_of_planReplicaPlacement htable (mem_of_find?_eq_some hfind)
    exact ⟨⟨hreg.nodup, hreg.length⟩, hleader ▸ hreg.leader⟩
  · cases h

lemma Group.Consistent.step (h : g.Consistent env) {event : Group.Event}
    (hevent : g.Orderly env event) {g' : Group} (hstep : g.step sha256 env event = some g') :
    g'.Consistent env := by
  cases event with
  | commit members config replicationFactor level write =>
    rw [Group.step] at hstep
    split at hstep
    · rename_i hlocal
      obtain ⟨replicas, hplan, rfl⟩ := map_eq_some_iff.1 hstep
      obtain ⟨hplaced, hhead⟩ := plannedReplicas_spec hplan
      exact h.commit hevent hplaced (hlocal ▸ hhead) level
    · cases hstep
  | delete ns id =>
    cases hstep
    exact h.commitDelete hevent
  | upsert record =>
    cases hstep
    exact h.setLeader hevent rfl ((h.ledger _).sameLedger
      (eval_sameLedger (fun _ _ _ heq => by cases heq) _) _)
  | checkpoint replica =>
    cases hstep
    exact h.checkpoint hevent
  | send target index =>
    obtain ⟨message, hmsg, hpost⟩ := bind_eq_some_iff.1 hstep
    exact h.post (h.issued message (mem_of_getElem? hmsg)) hpost
  | snapshot target => exact h.post h.leader.tells_snapshot hstep
  | deliver index =>
    obtain ⟨request, hrequest, rfl⟩ := map_eq_some_iff.1 hstep
    exact h.deliver (h.sent request (mem_of_getElem? hrequest))
  | acknowledge index answer =>
    obtain ⟨fanout, hfanout, hstep⟩ := bind_eq_some_iff.1 hstep
    obtain ⟨given, hgiven, hstep⟩ := bind_eq_some_iff.1 hstep
    exact h.acknowledge (mem_of_getElem? hfanout) (mem_of_getElem? hgiven) hstep
  | move replica =>
    cases hstep
    exact h.move hevent

theorem Group.consistent_of_reaches {leader : GoString}
    (h : Group.Reaches sha256 env (Group.Orderly env) (.new env leader) g) : g.Consistent env := by
  induction h with
  | refl => exact consistent_new env leader
  | tail _ hstep ih =>
    obtain ⟨event, hevent, hstep⟩ := hstep
    exact ih.step hevent hstep

/-! ### Acknowledged batches -/

/-- A node has durably applied a history up to a sequence or further: its records are those of
the history, and they are there again when it is opened. -/
def DurablyApplied (env : Env) (history : List Mutation) (sequence : ℕ) (n : Node) : Prop :=
  ∃ through, sequence ≤ through ∧ through ≤ history.length ∧ n.lastLSN = through ∧
    n.shard.lookup = applyAll (history.take through) ∧
    ∃ m, (openShard env).run [] n = .finished m [] (.ok ()) ∧ m.lastLSN = through ∧
      m.shard.lookup = applyAll (history.take through)

lemma UpTo.durablyApplied {through : ℕ} (h : UpTo env history through n)
    (hle : sequence ≤ through) : DurablyApplied env history sequence n := by
  obtain ⟨base, hcoh⟩ := h.coherent
  refine ⟨through, hle, h.le, h.lastLSN, h.lookup, ?_⟩
  obtain ⟨m, hrun, hopened⟩ := hcoh.durable.attains_openShard.run_nil
  refine ⟨m, hrun, ?_, hopened.lookup.trans h.lookup⟩
  rw [Node.lastLSN, hopened.nextLSN, h.nextLSN, Nat.add_sub_cancel]

/-- In a run on sound records without a checkpoint of nothing, whose leader stays or is followed
by a replica that has everything: a call of `commitLeaderShardBatch` that returns without an
error has as many different replicas as its level asks for, the leader among them, that have
durably applied the history through the batch. -/
theorem acknowledged_batch_is_durable {leader : GoString}
    (h : Group.Reaches sha256 env (Group.Orderly env) (.new env leader) g) {fanout : Fanout}
    (hmem : fanout ∈ g.fanouts) (hreturns : fanout.Returns) :
    At g.history fanout.sequence (.batchUpsert fanout.records) ∧
    fanout.replicas.length = fanout.replicationFactor ∧
    ∃ holders : List GoString, holders.Nodup ∧
      requiredAcknowledgements fanout.level fanout.replicationFactor ≤ holders.length ∧
      (∀ replica ∈ holders, replica ∈ fanout.replicas) ∧
      (∀ replica, fanout.replicas.head? = some replica → replica ∈ holders) ∧
      ∀ replica ∈ holders, DurablyApplied env g.history fanout.sequence (g.node replica) := by
  have hcons := consistent_of_reaches h
  have hbacked := hcons.fanouts fanout hmem
  exact ⟨hbacked.batch, hbacked.placed.2, fanout.acknowledged, hbacked.nodup, hreturns,
    hbacked.subset, hbacked.leader, fun replica hrepl =>
      (hcons.upTo replica).durablyApplied (hbacked.applied replica hrepl)⟩

end Steps

/-! ### Two small nodes -/

/-- A hash that puts the node with more tickets first. -/
def lengthHash (s : GoString) : GoString := [UInt8.ofNat s.length]

def firstNode : GoString := bytes "00000000000000000000000000000001"

def secondNode : GoString := bytes "00000000000000000000000000000002"

/-- What the first node plans with while both have the same capacity. -/
def firstMembers : Membership :=
  ⟨1, firstNode, bytes "first", 1, [⟨bytes "seed", secondNode, bytes "second", 1, true⟩]⟩

/-- What the second node plans with when it has more capacity. -/
def secondMembers : Membership :=
  ⟨2, secondNode, bytes "second", 2, [⟨bytes "seed", firstNode, bytes "first", 1, true⟩]⟩

def smallCommit (members : Membership) (replicationFactor : ℕ) (level : Acknowledgement)
    (id : GoString) : Group.Event :=
  .commit members ⟨bytes "c", 1⟩ replicationFactor level (.plain [smallRecord id])

lemma orderly_smallCommit (hid : id ≠ [] ∧ validUTF8 (recordKey [] id))
    (members : Membership) (replicationFactor : ℕ) (level : Acknowledgement) (g : Group) :
    g.Orderly smallEnv (smallCommit members replicationFactor level id) where
  other _ _ heq := by cases heq
  sound mutation hmut := by
    cases hmut
    refine ⟨cons_ne_nil _ _, show 1 ≤ 10000 by decide, fun record hmem => ?_⟩
    obtain rfl := mem_singleton.1 hmem
    exact sound_smallRecord hid 1
  empties := not_false

/-- The leader writes a batch, which the other node gets and acknowledges. -/
def replicatedEvents (members : Membership) (id target : GoString) (index : ℕ) :
    List Group.Event :=
  [smallCommit members 2 .all id, .send target index, .deliver index, .acknowledge index index]

lemma orderly_replicatedEvents (hid : id ≠ [] ∧ validUTF8 (recordKey [] id))
    {members : Membership} {target : GoString} {index : ℕ} :
    ∀ event ∈ replicatedEvents members id target index, ∀ g : Group, g.Orderly smallEnv event := by
  intro event hmem g
  simp only [replicatedEvents, mem_cons, not_mem_nil, or_false] at hmem
  rcases hmem with rfl | rfl | rfl | rfl
  · exact orderly_smallCommit hid _ _ _ g
  · trivial
  · trivial
  · trivial

/-- The theorem for a batch that is acknowledged by both nodes. -/
theorem acknowledged_batch_is_durable_two_nodes : ∃ (g : Group) (fanout : Fanout),
    Group.Reaches lengthHash smallEnv (Group.Orderly smallEnv) (.new smallEnv firstNode) g ∧
    g.fanouts = [fanout] ∧ fanout.level = .all ∧ fanout.replicas = [firstNode, secondNode] ∧
    ∃ holders : List GoString, holders.Nodup ∧ 2 ≤ holders.length ∧
      ∀ replica ∈ holders, DurablyApplied smallEnv g.history fanout.sequence (g.node replica) := by
  obtain ⟨g, hrun, hfacts⟩ := map_eq_some_iff.1 (show ((Group.new smallEnv firstNode).run lengthHash
    smallEnv (replicatedEvents firstMembers (bytes "a") secondNode 0)).map (fun g =>
      g.fanouts.map fun fanout => (fanout.level, fanout.replicas, fanout.replicationFactor,
        fanout.acknowledged.length)) =
        some [(.all, [firstNode, secondNode], 2, 2)] by decide +kernel)
  obtain ⟨fanout, hfanouts, hfanout⟩ := map_eq_singleton_iff.1 hfacts
  simp only [Prod.mk.injEq] at hfanout
  obtain ⟨hlevel, hreps, hfac, hlength⟩ := hfanout
  have hreach := reaches_of_run (orderly_replicatedEvents (by decide +kernel))
    hrun
  have hreturns : fanout.Returns := by
    rw [Fanout.Returns, hlevel, hfac, hlength]
    exact le_rfl
  obtain ⟨-, -, holders, hnodup, hrequired, -, -, happ⟩ := acknowledged_batch_is_durable hreach
    (hfanouts ▸ mem_cons_self) hreturns
  rw [hlevel, hfac] at hrequired
  exact ⟨g, fanout, hreach, hfanouts, hlevel, hreps, holders, hnodup, hrequired, happ⟩

/-- A write, a checkpoint, a write that is taken back, a checkpoint, and one more write. -/
def uselessCheckpointEvents : List Group.Event :=
  [smallCommit firstMembers 1 .all (bytes "a"), .checkpoint firstNode,
    smallCommit firstMembers 1 .all (bytes "b"), .delete [] (bytes "b"), .checkpoint firstNode,
    smallCommit firstMembers 1 .all (bytes "c")]

/-- The call for the last batch returns without an error, but none of the replicas of the shard
can be opened again. -/
theorem acknowledged_batch_is_lost : ∃ (g : Group) (fanout : Fanout),
    Group.Reaches lengthHash smallEnv (fun _ event => ∀ replica, event ≠ .move replica)
      (.new smallEnv firstNode) g ∧
    fanout ∈ g.fanouts ∧ fanout.Returns ∧ fanout.level = .all ∧ fanout.replicas ≠ [] ∧
    ∀ replica ∈ fanout.replicas,
      ¬ DurablyApplied smallEnv g.history fanout.sequence (g.node replica) := by
  have hallow : ∀ event ∈ uselessCheckpointEvents, ∀ g : Group, ∀ replica,
      event ≠ .move replica := by
    intro event hmem g replica heq
    simp only [uselessCheckpointEvents, smallCommit, mem_cons, not_mem_nil,
      or_false] at hmem
    subst heq
    simp at hmem
  obtain ⟨g, hrun, hlast⟩ := bind_eq_some_iff.1 (show ((Group.new smallEnv firstNode).run lengthHash
    smallEnv uselessCheckpointEvents).bind (fun g => g.fanouts.getLast?.map fun fanout =>
      (fanout.level, fanout.replicas, fanout.replicationFactor, fanout.acknowledged.length)) =
        some (.all, [firstNode], 1, 1) by decide +kernel)
  have hopen : ((Group.new smallEnv firstNode).run lengthHash smallEnv
      uselessCheckpointEvents).any (fun g =>
        ((openShard smallEnv).eval (g.node firstNode)).2.toOption.isSome) = false := by
    decide +kernel
  rw [hrun] at hopen
  obtain ⟨fanout, hfanout, hfields⟩ := map_eq_some_iff.1 hlast
  simp only [Prod.mk.injEq] at hfields
  obtain ⟨hlevel, hreps, hfac, hlength⟩ := hfields
  refine ⟨g, fanout, reaches_of_run hallow hrun, mem_of_getLast? hfanout, ?_, hlevel,
    by rw [hreps]; exact cons_ne_nil _ _, ?_⟩
  · rw [Fanout.Returns, hlevel, hfac, hlength]
    exact le_rfl
  · intro replica hmem
    rw [hreps] at hmem
    rw [mem_singleton.1 hmem]
    rintro ⟨through, -, -, -, -, m, hrunOpen, -⟩
    have heval := run_nil (openShard smallEnv) (g.node firstNode)
    rw [hrunOpen] at heval
    obtain ⟨-, -, hres⟩ := Outcome.finished.inj heval
    rw [any_some, ← hres] at hopen
    cases hopen

/-! ### Equal sequences -/

section SameSequence

variable {sha256 : GoString → GoString} {env : Env} {g : Group}

/-- In a run on sound records without a checkpoint of nothing, whose leader stays or is followed
by a replica that has everything, replicas with the same last LSN have the same records. -/
theorem same_sequence_same_records {leader : GoString}
    (h : Group.Reaches sha256 env (Group.Orderly env) (.new env leader) g) {left right : GoString}
    (hlast : (g.node left).lastLSN = (g.node right).lastLSN) :
    (g.node left).shard.lookup = (g.node right).shard.lookup ∧
      (g.node left).shard.list = (g.node right).shard.list := by
  have hcons := consistent_of_reaches h
  have hleft := hcons.upTo left
  have hright := hcons.upTo right
  have hlook : (g.node left).shard.lookup = (g.node right).shard.lookup := by
    rw [hleft.lookup, hright.lookup, hlast]
  obtain ⟨base, hcoh⟩ := hleft.coherent
  obtain ⟨base', hcoh'⟩ := hright.coherent
  have henum := hcoh.healthy.enumerates
  rw [hlook] at henum
  exact ⟨hlook, henum.unique hcoh'.healthy.enumerates⟩

end SameSequence

/-- The theorem for two nodes, of which the second takes over after the first batch. -/
theorem same_sequence_same_records_after_move : ∃ g : Group,
    Group.Reaches lengthHash smallEnv (Group.Orderly smallEnv) (.new smallEnv firstNode) g ∧
    g.leader = secondNode ∧ (g.node firstNode).lastLSN = 2 ∧ (g.node secondNode).lastLSN = 2 ∧
    (g.node firstNode).shard.lookup = (g.node secondNode).shard.lookup := by
  obtain ⟨g, hrun, hfacts⟩ := bind_eq_some_iff.1 (show ((Group.new smallEnv firstNode).run lengthHash
    smallEnv (replicatedEvents firstMembers (bytes "a") secondNode 0)).bind (fun g =>
      (Group.run lengthHash smallEnv { g with leader := secondNode }
        (replicatedEvents secondMembers (bytes "b") firstNode 1)).map fun g' =>
          ((g.node secondNode).lastLSN, (g.node g.leader).lastLSN, g'.leader,
            (g'.node firstNode).lastLSN, (g'.node secondNode).lastLSN)) =
              some (1, 1, secondNode, 2, 2) by decide +kernel)
  obtain ⟨g', hrun', hfacts⟩ := map_eq_some_iff.1 hfacts
  simp only [Prod.mk.injEq] at hfacts
  obtain ⟨hnext, hold, hleader, hfirst, hsec⟩ := hfacts
  have hreach := reaches_of_run (orderly_replicatedEvents (by decide +kernel))
    hrun
  have hmove : Group.Reaches lengthHash smallEnv (Group.Orderly smallEnv) _ _ :=
    hreach.tail ⟨.move secondNode, hnext.trans hold.symm, rfl⟩
  have hreach' := hmove.trans (reaches_of_run
    (orderly_replicatedEvents (by decide +kernel)) hrun')
  exact ⟨g', hreach', hleader, hfirst, hsec,
    (same_sequence_same_records hreach' (hfirst.trans hsec.symm)).1⟩

/-- A batch that is not replicated, and one of the next leader. -/
def movedEvents : List Group.Event :=
  [smallCommit firstMembers 2 .quorum (bytes "a"), .move secondNode,
    smallCommit secondMembers 2 .quorum (bytes "b")]

/-- The two batches have the same sequence on different nodes. -/
theorem same_sequence_different_records : ∃ g : Group,
    Group.Reaches lengthHash smallEnv (fun _ _ => True) (.new smallEnv firstNode) g ∧
    (g.node firstNode).lastLSN = (g.node secondNode).lastLSN ∧
    (g.node firstNode).shard.lookup ≠ (g.node secondNode).shard.lookup := by
  obtain ⟨g, hrun, hfacts⟩ := map_eq_some_iff.1 (show ((Group.new smallEnv firstNode).run lengthHash
    smallEnv movedEvents).map (fun g => ((g.node firstNode).lastLSN, (g.node secondNode).lastLSN,
      ((g.node firstNode).shard.lookup (recordKey [] (bytes "a"))).isSome,
      ((g.node secondNode).shard.lookup (recordKey [] (bytes "a"))).isSome)) =
        some (1, 1, true, false) by decide +kernel)
  simp only [Prod.mk.injEq] at hfacts
  obtain ⟨hfirst, hsec, hhas, hmisses⟩ := hfacts
  refine ⟨g, reaches_of_run (fun _ _ _ => trivial) hrun, hfirst.trans hsec.symm,
    fun hsame => ?_⟩
  rw [hsame, hmisses] at hhas
  cases hhas

end GideonDB.Replication
