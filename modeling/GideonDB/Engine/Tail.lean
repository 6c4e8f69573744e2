/-
The part of the log that no checkpoint covers.

Every operation that writes counts its records in `mutations`.  The operations of a leader make a
checkpoint when the counter has reached `checkpointEvery`, the operations of a replica do not, and
an opening sets the counter to zero although the log keeps its records.  So the tail stays below
`checkpointEvery` only if the calls are small enough for what is left (`tail_stays_below`,
`tail_exceeds`).
-/
import GideonDB.Engine.Requests
import GideonDB.Engine.Sequence

namespace GideonDB.Engine

open Go GideonDB.Core Store Disk List
open Prog hiding bind throw

/-! ### The tail of a log -/

/-- The number of records that are in the log and not in the checkpoint. -/
def Disk.pending (disk : Disk) : ℕ :=
  ((disk.wal.filter fun record => disk.checkpoint < record.lsn).map
    fun record => record.mutation.count).sum

section Pending

variable {disk disk' : Disk} {kept : WalRecord → Prop} {next : ℕ}

lemma Disk.pending_congr (hwal : disk'.wal = disk.wal) (hman : disk'.manifest = disk.manifest) :
    disk'.pending = disk.pending := by
  have hckp : disk'.checkpoint = disk.checkpoint := by rw [checkpoint, hman]; rfl
  rw [pending, hwal, hckp]
  rfl

lemma Disk.pending_eq_zero (h : ∀ record ∈ disk.wal, record.lsn ≤ disk.checkpoint) :
    disk.pending = 0 := by
  have hnil : (disk.wal.filter fun record => disk.checkpoint < record.lsn) = [] :=
    filter_eq_nil_iff.2 fun record hmem => by simpa using h record hmem
  rw [pending, hnil]
  rfl

lemma Sequenced.pending_append (h : Sequenced kept disk next) (payload : Mutation) :
    pending { disk with wal := disk.wal ++ [⟨next, payload⟩] } =
      disk.pending + payload.count := by
  have hnext : checkpoint { disk with wal := disk.wal ++ [⟨next, payload⟩] } < next := h.above
  rw [pending, filter_append, filter_singleton, decide_eq_true hnext, cond_true,
    map_append, sum_append]
  rfl

end Pending

lemma length_of_mapM_eq_some {α β : Type} {f : α → Option β} {l : List α} {l' : List β}
    (h : l.mapM f = some l') : l'.length = l.length := by
  induction l generalizing l' with
  | nil =>
    cases h
    rfl
  | cons a l ih =>
    rw [mapM_cons] at h
    obtain ⟨b, -, h⟩ := Option.bind_eq_some_iff.1 h
    obtain ⟨rest, hrest, h⟩ := Option.bind_eq_some_iff.1 h
    cases h
    rw [length_cons, ih hrest, length_cons]

variable {mutation : Mutation}

lemma count_encode {env : Env} {payload : Mutation} (h : env.encode mutation = some payload) :
    payload.count = mutation.count := by
  cases mutation with
  | upsert record =>
    obtain ⟨record', -, rfl⟩ := Option.map_eq_some_iff.1 h
    rfl
  | delete ns id =>
    cases h
    rfl
  | batchUpsert records =>
    obtain ⟨records', hrecs, rfl⟩ := Option.map_eq_some_iff.1 h
    exact length_of_mapM_eq_some hrecs

lemma ensures_append {env : Env} (mutation : Mutation) (n : Node) :
    (append env mutation).Ensures n fun _ n' =>
      ∃ payload, env.encode mutation = some payload ∧ n' = n.logged payload := by
  rw [append.eq_def]
  split
  · exact .throw _
  · rename_i payload hpay
    split
    · exact .throw _
    · refine ⟨trivial, fun _ _ => ⟨payload, hpay, rfl⟩, fun _ => ⟨?_, ?_⟩⟩ <;>
        exact fun _ hok => by cases hok

/-! ### What an operation does to the tail -/

variable {leads : Bool}

section Operations

variable {env : Env} {n n' : Node} {α β : Type}

lemma Still.pending (h : Still n n') : n'.disk.pending = n.disk.pending :=
  pending_congr h.1.1 h.1.2.1

variable (env) in
/-- A leader makes the checkpoint that is due after `count` records.  Otherwise the tail grows. -/
def Grows (leads : Bool) (count grown : ℕ) (n n' : Node) : Prop :=
  (leads = true ∧ Due env n count ∧ n'.disk.pending = 0) ∨
    (¬ (leads = true ∧ Due env n count) ∧ n'.disk.pending = n.disk.pending + grown)

lemma Grows.congr {count grown : ℕ} (h : Still n n') {n'' : Node}
    (h' : Grows env leads count grown n' n'') : Grows env leads count grown n n'' := by
  rwa [Grows, Due, h.2, h.pending] at h'

variable (env) in
/-- What an operation that succeeds does to the tail: one that writes lets it grow, and one that
does not write leaves it as it is or makes a checkpoint. -/
def Moves (leads : Bool) (mutation? : Option Mutation) (n n' : Node) : Prop :=
  match mutation? with
  | none => n'.disk.pending = n.disk.pending ∨ n'.disk.pending = 0
  | some mutation => Grows env leads mutation.count mutation.count n n'

lemma Moves.congr {mutation? : Option Mutation} (h : Still n n') {n'' : Node}
    (h' : Moves env leads mutation? n' n'') : Moves env leads mutation? n n'' := by
  cases mutation? with
  | none => rwa [Moves, h.pending] at h'
  | some mutation => exact Grows.congr h h'

variable (env) in
/-- The program makes the checkpoint that is due, on every log that is in sequence. -/
def Settles (leads : Bool) (mutation : Mutation) (p : Action α) : Prop :=
  ∀ n : Node, n.Sequenced (fun _ => False) →
    p.Ensures n fun _ n' => Grows env leads mutation.count 0 n n'

lemma moves_append {k : ℕ → Action α} (hk : ∀ lsn, Settles env leads mutation (k lsn))
    (hn : n.Sequenced fun _ => False) :
    (append env mutation >>= k).Ensures n fun _ n' => Moves env leads (some mutation) n n' := by
  refine .bind (ensures_append mutation n) fun lsn n₁ h₁ => ?_
  obtain ⟨payload, hpay, rfl⟩ := h₁
  have hseq : (n.logged payload).Sequenced fun _ => False := (hn.append payload).mono fun _ => .inl
  have hpend : (n.logged payload).disk.pending = n.disk.pending + mutation.count := by
    rw [← count_encode hpay]
    exact hn.pending_append payload
  refine (hk lsn _ hseq).mono fun _ n' h => ?_
  rwa [Grows, hpend] at h

lemma checkpoint_of_upToDate {changed : List Record} {deleted : List GoString}
    (h : upToDate n.disk.manifest n.lastLSN changed deleted = true) :
    n.lastLSN = n.disk.checkpoint := by
  rw [upToDate, Bool.and_eq_true, Bool.and_eq_true] at h
  obtain ⟨manifest, hman, hcur⟩ := (Option.any_eq_true _ _).1 h.1.1
  rw [Bool.and_eq_true, decide_eq_true_eq] at hcur
  rw [hcur.2, checkpoint, hman]
  rfl

lemma ensures_pending {p : Action Unit} (hp : p.Within Installs) (hwal : n.disk.wal = []) :
    p.Ensures n fun _ n' => n'.disk.pending = 0 := by
  refine (hp.ensures (fun _ _ _ => Installs.trans) (FilesOnly.refl n).installs).mono
    fun _ n' h => pending_eq_zero ?_
  rw [h.sameLog.1, hwal]
  exact fun _ hmem => absurd hmem not_mem_nil

lemma ensures_checkpointShard (hn : n.Sequenced fun _ => False) :
    (checkpointShard env).Ensures n fun _ n' => n'.disk.pending = 0 := by
  have hfiles : (prepareCheckpoint env).Ensures n fun _ n' => FilesOnly n n' :=
    (within_prepareCheckpoint env).ensures (fun _ _ _ => .trans) (.refl n)
  refine .bind (hfiles.and (ensures_prepareCheckpoint n)) fun plan n₁ h₁ => ?_
  obtain ⟨hframe, hnone⟩ := h₁
  have hsame := hframe.sameLog
  cases plan with
  | none =>
    refine Ensures.pure (pending_eq_zero fun record hmem => ?_)
    rw [hsame.1] at hmem
    have hbelow := hn.below record hmem
    have hlast := checkpoint_of_upToDate (hnone.1.1 rfl)
    rw [Node.lastLSN] at hlast
    rw [checkpoint, hsame.2.1, ← checkpoint]
    omega
  | some plan =>
    refine .bind (.any _) fun _ n₂ _ => ?_
    refine .bind (ensures_reset _ n₂) fun _ n₃ h₃ => ?_
    exact ensures_pending (within_installCheckpoint env plan) h₃.1

lemma settles_afterMutation (mutation : Mutation) :
    Settles env true mutation (afterMutation env mutation.count) := by
  intro n hn
  rw [afterMutation]
  refine .bind (Q := fun _ n' => n' = { n with
    mutations := n.mutations + mutation.count }) (fun _ _ => rfl) fun _ n' hn' => ?_
  subst hn'
  refine .bind_state ?_
  split_ifs with hdue
  · have hcntd : Node.Sequenced (fun _ => False)
      { n with mutations := n.mutations + mutation.count } := hn
    exact (ensures_checkpointShard hcntd).mono fun _ n' h => .inl ⟨rfl, hdue, h⟩
  · exact Ensures.pure (.inr ⟨fun h => hdue h.2, rfl⟩)

/-! ### The operations -/

lemma course_moves (leads : Bool) : Course env leads
    (fun mutation? _ p n => n.Sequenced (fun _ => False) →
      p.Ensures n fun _ n' => Moves env leads mutation? n n')
    fun mutation _ p => Settles env leads mutation p where
  throw _ e _ := fun _ => Ensures.throw e
  pure _ _ := fun _ => Ensures.pure (Or.inl rfl)
  discard h := fun hn => (h hn).bind fun _ _ hmoves => Ensures.pure hmoves
  state h := h
  still hp hk := fun hn => Ensures.bind (hp.ensures (fun _ _ _ => Still.trans) (Still.refl _))
    fun a n' h => (hk a n' h (h.1.sequenced hn)).mono fun _ _ => Moves.congr h
  append _ hk := fun hn => moves_append hk hn
  rest_throw _ e := fun _ _ => Ensures.throw e
  rest_still hp hk := fun _ hn => Ensures.bind (hp.ensures (fun _ _ _ => Still.trans)
    (Still.refl _)) fun a n' h => (hk a n' (h.1.sequenced hn)).mono fun _ _ => Grows.congr h
  due hleads _ mutation _ := fun n hn => by
    subst hleads
    exact Ensures.bind (settles_afterMutation mutation n hn) fun _ _ h => Ensures.pure h
  remember hleads _ _ h := fun n _ _ _ => by
    subst hleads
    exact Or.inr ⟨fun h => Bool.false_ne_true h.1, pending_congr (h n).1 (h n).2.1⟩

lemma ensures_installReplicaSnapshot (sequence : ℕ) (records : List Record) (n : Node) :
    (installReplicaSnapshot env sequence records).Ensures n fun _ n' => n'.disk.pending = 0 := by
  refine .bind (.any _) fun indexes n₁ _ => ?_
  refine .bind (Q := fun _ n' => n'.disk.wal = []) ?_ fun _ n₂ h₂ =>
    ensures_pending (within_installSnapshot env sequence records indexes) h₂
  exact .bind (.any _) fun _ n₂ _ =>
    (ensures_reset _ n₂).mono fun _ _ h => h.1

/-- What an operation that succeeds does to the tail. -/
theorem moves_prog (op : Op) (hn : n.Sequenced fun _ => False) :
    (op.prog env).Ensures n fun _ n' => Moves env op.leads (op.mutation n) n n' := by
  by_cases hckp : op = .checkpoint
  · subst hckp
    exact (ensures_checkpointShard hn).mono fun _ _ => .inr
  by_cases hins : ∃ sequence records, op = .installReplicaSnapshot sequence records
  · obtain ⟨sequence, records, rfl⟩ := hins
    exact (ensures_installReplicaSnapshot sequence records n).mono fun _ _ => .inr
  · exact (course_moves op.leads).prog hckp
      (fun sequence records heq => hins ⟨sequence, records, heq⟩) n hn

end Operations

/-! ### Runs -/

variable {p : Process} {event : Event} {op : Op} {faults rest : List Fault}

section Runs

variable (env : Env)

/-- No failure: all file operations succeed, and a call that returns an error has left log and
manifest as they were. -/
def Smooth (p : Process) : Event → Prop
  | .call op faults => faults = [] ∧
      ∀ n' rest err, (op.prog env).run faults p.node = .finished n' rest (.error err) →
        SameDisk p.node n'
  | .stop => True
  | .reopen faults => faults = []

/-- A call that writes leaves the tail below the bound on its own, or it is one of a leader that
finds a checkpoint due. -/
def Counted (p : Process) : Event → Prop
  | .call op _ => ∀ mutation, op.mutation p.node = some mutation →
      p.node.disk.pending + mutation.count < env.checkpointEvery ∨
        (op.leads = true ∧ Due env p.node mutation.count)
  | _ => True

variable {env}

lemma Smooth.cutsOver (h : Smooth env p event) : CutsOver env p event := by
  rw [CutsOver.eq_def]
  split
  · rename_i sequence records faults
    intro _ n rest indexes hrun
    rw [h.1, run_nil] at hrun
    obtain rfl : [] = rest := (Outcome.finished.inj hrun).2.1
    rfl
  · trivial

variable {n : Node}

lemma moves_of_run {n' : Node} (hn : n.Sequenced fun _ => False)
    (hrun : (op.prog env).run faults n = .finished n' rest (.ok ())) :
    Moves env op.leads (op.mutation n) n n' :=
  finished_of_wp (moves_prog op hn) hrun () rfl

/-- A call that succeeds keeps the bound if and only if it is counted. -/
theorem pending_lt_iff {n' : Node} (hn : n.Sequenced fun _ => False)
    (hpend : n.disk.pending < env.checkpointEvery)
    (hrun : (op.prog env).run faults n = .finished n' rest (.ok ())) :
    n'.disk.pending < env.checkpointEvery ↔ Counted env ⟨true, n⟩ (.call op faults) := by
  have hmoves := moves_of_run hn hrun
  rw [Counted]
  cases hmut : op.mutation n with
  | none =>
    rw [hmut] at hmoves
    simp only [reduceCtorEq, false_implies, implies_true, iff_true]
    rcases hmoves with hsame | hzero <;> omega
  | some mutation =>
    rw [hmut] at hmoves
    simp only [Option.some.injEq, forall_eq']
    rcases hmoves with ⟨hleads, hdue, hzero⟩ | ⟨hnot, hgrown⟩
    · simp only [hleads, hdue, and_self, or_true, iff_true]
      omega
    · rw [hgrown, or_iff_left hnot]

lemma pending_step
    (hp : if p.up then p.node.Sequenced fun _ => False else p.node.Recoverable fun _ => False)
    (hpend : p.node.disk.pending < env.checkpointEvery) (hsmooth : Smooth env p event)
    (hcntd : Counted env p event) : (p.step env event).node.disk.pending < env.checkpointEvery := by
  obtain ⟨up, n⟩ := p
  cases up with
  | true =>
    cases event with
    | call op faults =>
      obtain ⟨rfl, herror⟩ := hsmooth
      cases hrun : (op.prog env).run [] n with
      | crashed n' =>
        rw [run_nil] at hrun
        cases hrun
      | finished n' rest result =>
        rw [Process.step, hrun]
        cases result with
        | ok _ => exact (pending_lt_iff hp hpend hrun).2 hcntd
        | error err =>
          have hsame := herror n' rest err hrun
          exact (pending_congr hsame.1 hsame.2).trans_lt hpend
    | stop => exact hpend
    | reopen faults => exact hpend
  | false =>
    cases event with
    | call op faults => exact hpend
    | stop => exact hpend
    | reopen faults =>
      -- the files stay as they are, whether the opening succeeds or not
      have hsame := sameDisk_openShard env n faults
      rw [Process.step]
      cases hrun : (openShard env).run faults n with
      | crashed n' =>
        rw [hrun] at hsame
        exact (pending_congr hsame.1 hsame.2).trans_lt hpend
      | finished n' rest result =>
        rw [hrun] at hsame
        cases result <;> exact (pending_congr hsame.1 hsame.2).trans_lt hpend

/-- In a run without failures whose calls are all counted, the tail stays below the bound. -/
theorem tail_stays_below (hevery : 0 < env.checkpointEvery) {p : Process}
    (h : Process.Reaches env (fun p event => Smooth env p event ∧ Counted env p event) (.new env) p) :
    p.node.disk.pending < env.checkpointEvery := by
  induction h with
  | refl => exact hevery
  | @tail q r hq hstep ih =>
    obtain ⟨event, ⟨hsmooth, hcntd⟩, rfl⟩ := hstep
    have hcuts : Process.Reaches env (CutsOver env) (.new env) q := by
      refine .mono ?_ _ _ hq
      rintro p p' ⟨event, hallow, hstep⟩
      exact ⟨event, hallow.1.cutsOver, hstep⟩
    exact pending_step (sequenced_of_reaches env hcuts (sequenced_new env)) ih hsmooth hcntd

lemma smooth_of_ok (h : ((op.prog env).eval n).2 = .ok ()) :
    Smooth env ⟨true, n⟩ (.call op []) := by
  refine ⟨rfl, fun n' rest err hrun => ?_⟩
  rw [run_nil_of_eval h] at hrun
  cases hrun

end Runs

/-- The small shard with a checkpoint after every second record. -/
def everySecond : Env := { smallEnv with checkpointEvery := 2 }

/-- The first write is below the bound, the second one makes a checkpoint. -/
theorem tail_stays_below_two_writes :
    ∃ n, n.disk.checkpoint = 2 ∧
      Process.Reaches everySecond
        (fun p event => Smooth everySecond p event ∧ Counted everySecond p event) (.new everySecond)
        ⟨true, n⟩ ∧ n.disk.pending < 2 := by
  have hstart : Process.Reaches everySecond
      (fun p event => Smooth everySecond p event ∧ Counted everySecond p event) (.new everySecond)
      ⟨true, .new everySecond⟩ := .refl
  have hfirst := @Process.Reaches.call _ _ _ _ hstart (.upsert (smallRecord (bytes "a"))) (by
    refine ⟨smooth_of_ok (by decide +kernel), fun mutation hmut => .inl ?_⟩
    cases hmut
    decide +kernel)
  have hsec := @Process.Reaches.call _ _ _ _ hfirst (.upsert (smallRecord (bytes "b"))) (by
    refine ⟨smooth_of_ok (by decide +kernel), fun mutation hmut => .inr ⟨rfl, ?_⟩⟩
    cases hmut
    exact ⟨by decide, by decide +kernel⟩)
  exact ⟨_, by decide +kernel, hsec, tail_stays_below (by decide) hsec⟩

/-- A replica never makes a checkpoint: after two batches, both acknowledged, there are two records
in its log only.  A leader that is opened again counts from zero: after a write, an opening and
another write there are two as well. -/
theorem tail_exceeds :
    (∃ n n', Process.Reaches everySecond (Smooth everySecond) (.new everySecond) ⟨true, n⟩ ∧
      ((Op.applyReplicaBatch 2 [smallRecord (bytes "b")]).prog everySecond).run [] n =
        .finished n' [] (.ok ()) ∧ everySecond.checkpointEvery ≤ n'.disk.pending) ∧
    ∃ n n', Process.Reaches everySecond (Smooth everySecond) (.new everySecond) ⟨true, n⟩ ∧
      ((Op.upsert (smallRecord (bytes "b"))).prog everySecond).run [] n = .finished n' [] (.ok ()) ∧
      everySecond.checkpointEvery ≤ n'.disk.pending := by
  have hstart : Process.Reaches everySecond (Smooth everySecond) (.new everySecond)
      ⟨true, .new everySecond⟩ := .refl
  constructor
  · have hbatch := @Process.Reaches.call _ _ _ _ hstart (.applyReplicaBatch 1 [smallRecord (bytes "a")])
      (smooth_of_ok (by decide +kernel))
    exact ⟨_, _, hbatch, run_nil_of_eval (by decide +kernel), by decide +kernel⟩
  · have hwrite := @Process.Reaches.call _ _ _ _ hstart (.upsert (smallRecord (bytes "a")))
      (smooth_of_ok (by decide +kernel))
    have hstop := Relation.ReflTransGen.tail hwrite ⟨.stop, trivial, rfl⟩
    have hopen := Relation.ReflTransGen.tail hstop ⟨.reopen [], rfl, rfl⟩
    have hup := Process.Reaches.of_up hopen (by decide +kernel)
    exact ⟨_, _, hup, run_nil_of_eval (by decide +kernel), by decide +kernel⟩

end GideonDB.Engine
