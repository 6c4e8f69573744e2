/-
Runs of a shard.

The process that serves a shard is up or down.  While it is up it executes operations, any file
operation of which can fail, and it can stop between two of them; a crash inside an operation
leaves the files as they are at that point.  While it is down it can be opened again.
-/
import GideonDB.Engine.Frame

namespace GideonDB.Engine

open Go GideonDB.Core Store

/-- The calls of a shard. -/
inductive Op
  | upsert (record : Record)
  | batchUpsert (records : List Record)
  | delete (ns id : GoString)
  | batchUpsertIdempotent (key : GoString) (request prepared : List Record)
  | checkpoint
  | applyReplicaBatch (sequence : ℕ) (records : List Record)
  | applyReplicaDelete (sequence : ℕ) (ns id : GoString)
  | installReplicaSnapshot (sequence : ℕ) (records : List Record)

namespace Op

lemma installs_or (op : Op) : (∃ sequence records, op = installReplicaSnapshot sequence records) ∨
    ∀ sequence records, op ≠ installReplicaSnapshot sequence records := by
  simpa only [not_exists] using em (∃ sequence records, op = installReplicaSnapshot sequence records)

/-- A call's program. -/
def prog (env : Env) : Op → Action Unit
  | upsert record => Engine.upsert env record >>= fun _ => pure ()
  | batchUpsert records => Engine.batchUpsert env records >>= fun _ => pure ()
  | delete ns id => Engine.delete env ns id >>= fun _ => pure ()
  | batchUpsertIdempotent key request prepared =>
    Engine.batchUpsertIdempotent env key request prepared >>= fun _ => pure ()
  | checkpoint => checkpointShard env
  | applyReplicaBatch sequence records => Engine.applyReplicaBatch env sequence records
  | applyReplicaDelete sequence ns id => Engine.applyReplicaDelete env sequence ns id
  | installReplicaSnapshot sequence records => Engine.installReplicaSnapshot env sequence records

/-- The mutation that the operation adds to the log of a node if it succeeds. -/
def mutation (n : Node) : Op → Option Mutation
  | upsert record => some (.upsert record)
  | batchUpsert records => some (.batchUpsert records)
  | delete ns id => some (.delete ns id)
  | batchUpsertIdempotent key _ prepared =>
    match n.ledger.get key with
    | some retained => if retained.completed then none else some (.batchUpsert retained.records)
    | none => some (.batchUpsert prepared)
  | applyReplicaBatch sequence records =>
    if sequence ≤ n.lastLSN then none else some (.batchUpsert records)
  | applyReplicaDelete sequence ns id =>
    if sequence ≤ n.lastLSN then none else some (.delete ns id)
  | checkpoint => none
  | installReplicaSnapshot _ _ => none

end Op

/-- What can happen. -/
inductive Event
  | call (op : Op) (faults : List Fault)
  | stop
  | reopen (faults : List Fault)

/-- The process of a shard: whether it is up, and its node.  Of a process that is down only the
files count. -/
structure Process where
  up : Bool
  node : Node

namespace Process

/-- A new shard, up. -/
def new (env : Env) : Process := ⟨true, Node.new env⟩

/-- One event. -/
def step (env : Env) : Process → Event → Process
  | ⟨true, n⟩, .call op faults =>
    match (op.prog env).run faults n with
    | .finished n' _ _ => ⟨true, n'⟩
    | .crashed n' => ⟨false, n'⟩
  | ⟨true, n⟩, .stop => ⟨false, n⟩
  | ⟨false, n⟩, .reopen faults =>
    match (openShard env).run faults n with
    | .finished n' _ (.ok ()) => ⟨true, n'⟩
    | .finished n' _ (.error _) => ⟨false, n'⟩
    | .crashed n' => ⟨false, n'⟩
  | p, _ => p

/-- A run of allowed events. -/
def Reaches (env : Env) (allowed : Process → Event → Prop) : Process → Process → Prop :=
  Relation.ReflTransGen fun p q => ∃ event, allowed p event ∧ q = p.step env event

/-- What is allowed, as long as no LSN leaves the range of `uint64`: the next one neither after an
append nor after the log has been reset for a snapshot. -/
def Ranged (allowed : Process → Event → Prop) (p : Process) (event : Event) : Prop :=
  allowed p event ∧
    match event with
    | .call (.installReplicaSnapshot sequence _) _ => sequence + 1 < 2 ^ 64
    | .call _ _ => p.node.nextLSN + 1 < 2 ^ 64
    | _ => True

lemma Reaches.of_ranged {env : Env} {allowed : Process → Event → Prop} {p q : Process}
    (h : Reaches env (Ranged allowed) p q) : Reaches env allowed p q :=
  Relation.ReflTransGen.mono (fun _ _ ⟨event, hallow, hstep⟩ => ⟨event, hallow.1, hstep⟩) _ _ h

lemma Reaches.next {env : Env} {allowed : Process → Event → Prop} {p q : Process}
    (h : Reaches env allowed p q) (event : Event) (hallow : allowed q event) :
    Reaches env allowed p (q.step env event) := h.tail ⟨event, hallow, rfl⟩

lemma reaches_foldl (env : Env) {allowed : Process → Event → Prop} {events : List Event}
    (hallowed : ∀ event ∈ events, ∀ p, allowed p event) (p : Process) :
    Reaches env allowed p (events.foldl (step env) p) := by
  induction events generalizing p with
  | nil => exact .refl
  | cons event events ih =>
    exact .head ⟨event, hallowed event List.mem_cons_self p, rfl⟩
      (ih (List.forall_mem_cons.1 hallowed).2 _)

lemma Reaches.call {env : Env} {allowed : Process → Event → Prop} {p : Process} {n : Node}
    (h : Reaches env allowed p ⟨true, n⟩) {op : Op} (hallowed : allowed ⟨true, n⟩ (.call op [])) :
    Reaches env allowed p ⟨true, ((op.prog env).eval n).1⟩ := by
  refine .tail h ⟨.call op [], hallowed, ?_⟩
  rw [step, Prog.run_nil]

lemma Reaches.of_up {env : Env} {allowed : Process → Event → Prop} {p q : Process}
    (h : Reaches env allowed p q) (hup : q.up) : Reaches env allowed p ⟨true, q.node⟩ := by
  rwa [← hup]

lemma Reaches.induction {env : Env} {allowed : Process → Event → Prop} {Up Down : Node → Prop}
    (hcall : ∀ n op faults, allowed ⟨true, n⟩ (.call op faults) → Up n →
      ((op.prog env).run faults n).Meets (fun _ => Up) Down)
    (hstop : ∀ n, Up n → Down n)
    (hreopen : ∀ n faults, allowed ⟨false, n⟩ (.reopen faults) → Down n →
      ((openShard env).run faults n).Meets (Prog.Ends Up Down) Down)
    {p q : Process} (h : Reaches env allowed p q) (hp : if p.up then Up p.node else Down p.node) :
    if q.up then Up q.node else Down q.node := by
  induction h with
  | refl => exact hp
  | @tail q r _ hstep ih =>
    obtain ⟨event, hallow, rfl⟩ := hstep
    obtain ⟨up, n⟩ := q
    cases up with
    | true =>
      cases event with
      | call op faults =>
        have hrun := hcall n op faults hallow ih
        rw [step]
        revert hrun
        cases (op.prog env).run faults n <;> exact id
      | stop => exact hstop n ih
      | reopen faults => exact ih
    | false =>
      cases event with
      | call op faults => exact ih
      | stop => exact ih
      | reopen faults =>
        have hrun := hreopen n faults hallow ih
        rw [step]
        revert hrun
        cases (openShard env).run faults n with
        | finished n' rest result => cases result <;> exact id
        | crashed n' => exact id

end Process

/-! ### A small shard

The only shard of a collection, with vectors of length one, a flat index and no automatic
checkpoints.  JSON keeps its records. -/

def smallEnv : Env where
  lib := Shard.plainLibrary
  config := ⟨1, .flat, false, .empty⟩
  productQuantization := false
  shardCount := 1
  shardID := 0
  checkpointEvery := 0
  codec := some
  fits _ := true
  digest _ := 0
  requestDigest _ := 0
  fileSize _ := 1

def smallRecord (id : GoString) : Record :=
  { (default : Record) with id := id, vector := [0], timestamp := 1, version := 1 }

/-- A write, a checkpoint, and another write. -/
def smallEvents : List Event :=
  [.call (.upsert (smallRecord (bytes "a"))) [], .call .checkpoint [],
    .call (.upsert (smallRecord (bytes "b"))) []]

/-- The small shard after them. -/
def smallNode : Node := (smallEvents.foldl (Process.step smallEnv) (.new smallEnv)).node

end GideonDB.Engine
