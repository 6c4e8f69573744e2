/-
Runs of a shard with restarts.

In a run on sound records the files stand for what the shard has in memory, whatever crashes
between two file operations and as long as no operation fails that makes a checkpoint.  The
exception is a manifest that `LoadManifest` does not accept: then the shard can be neither
checkpointed nor opened any more.  Only a checkpoint of nothing writes one, with the LSN
moved on since the last manifest and no change on balance.
-/
import GideonDB.Engine.Apply
import GideonDB.Engine.Course
import GideonDB.Engine.Install

namespace GideonDB.Engine

open Go GideonDB.Core Segment Store
open Prog hiding bind throw

/-! ### Manifests that are not accepted -/

variable {n n' : Node}

section Rejected

variable (env : Env)

/-- `LoadManifest` fails. -/
def Rejected (n : Node) : Prop := ¬ Accepts n.disk

variable {env} in
lemma Rejected.loadManifest (h : Rejected n) : ∃ err, loadManifest n.disk = .error err := by
  cases hload : Engine.loadManifest n.disk with
  | error err => exact ⟨err, rfl⟩
  | ok manifest => exact absurd (loadManifest_eq_ok.1 hload).2 h

lemma rejected_congr (hman : n'.disk.manifest = n.disk.manifest) : Rejected n → Rejected n' := by
  rw [Rejected, Rejected, Accepts, Accepts, hman]
  exact id

lemma keeps_of_sameManifest {α : Type} {p : Action α}
    (h : p.Within fun n n' => n'.disk.manifest = n.disk.manifest) : p.Keeps Rejected :=
  Keeps.of_within h fun _ _ => rejected_congr

lemma keeps_append (mutation : Mutation) : (append env mutation).Keeps Rejected := by
  rw [append]
  split
  · exact .throw _
  split
  · exact .throw _
  refine keeps_of_sameManifest (Within.state.bind fun n => ?_)
  refine (Within.attempt fun _ => by rfl).bind fun ok => ?_
  split
  · exact (Within.update fun _ => by rfl).bind fun _ => Within.pure _
  · exact (Within.update fun _ => by rfl).bind fun _ => Within.throw _

lemma keeps_update {f : Node → Node} (h : ∀ n, (f n).disk.manifest = n.disk.manifest) :
    (Prog.update f : Action Unit).Keeps Rejected :=
  keeps_of_sameManifest (.update h)

lemma keeps_checkpointShard : (checkpointShard env).Keeps Rejected := by
  intro n hn
  obtain ⟨err, herr⟩ := hn.loadManifest
  rw [checkpointShard, prepareCheckpoint, wp_bind, wp_bind, wp_file]
  refine ⟨hn, ?_, fun _ => ⟨hn, hn⟩⟩
  rw [after_ok, id, wp_bind, wp_state, after_ok]
  split
  · exact hn
  · rw [herr]
    exact hn

lemma keeps_afterMutation (count : ℕ) : (afterMutation env count).Keeps Rejected := by
  refine (keeps_update fun _ => by rfl).bind fun _ => Keeps.bind_state fun n hn => ?_
  split
  · exact keeps_checkpointShard env n hn
  · exact hn

/-- No snapshot is installed over such a manifest: the call ends before its first file operation. -/
lemma Rejected.wp_installReplicaSnapshot (h : Rejected n) (sequence : ℕ) (records : List Record) :
    (installReplicaSnapshot env sequence records).wp True (fun _ n' => n' = n) (fun _ => False) n := by
  obtain ⟨err, herr⟩ := h.loadManifest
  rw [installReplicaSnapshot, prepareSnapshot, wp_bind, wp_bind, wp_state,
    after_ok]
  split
  · rfl
  split
  · rfl
  cases records.zipIdx.foldlM (checkSnapshotRecord env) .empty with
  | error err => rfl
  | ok seen =>
    rw [wp_bind, wp_ofExcept, after_ok, herr]
    rfl

lemma course_keeps (leads : Bool) : Course env leads
    (fun _ _ p n => Rejected n → p.wp True (fun _ => Rejected) Rejected n)
    (fun _ _ p => p.Keeps Rejected) where
  throw _ _ _ := id
  pure _ _ := id
  discard h := fun hn => wp_seq (h hn) (fun _ _ => id) fun _ _ => id
  state h := h
  still hp hk := fun hn => hp.wp_seq (fun _ _ _ => Still.trans) (Still.refl _)
    (fun a n' h => hk a n' h (rejected_congr h.1.2.1 hn)) (fun _ _ h => rejected_congr h.1.2.1 hn)
    fun _ h => rejected_congr h.1.2.1 hn
  append n hk := (keeps_append env _).bind hk n
  rest_throw _ := Keeps.throw
  rest_still hp hk := (keeps_of_sameManifest (hp.mono fun _ _ h => h.1.2.1)).bind hk
  due _ _ _ _ := (keeps_afterMutation env _).bind fun _ => Keeps.pure _
  remember _ _ _ h := keeps_update fun n => (h n).2.1

/-- No operation gets rid of a manifest that is not accepted. -/
theorem keeps_prog (op : Op) : (op.prog env).Keeps Rejected := by
  by_cases hckp : op = .checkpoint
  · rw [hckp]
    exact keeps_checkpointShard env
  by_cases hins : ∃ sequence records, op = .installReplicaSnapshot sequence records
  · obtain ⟨sequence, records, rfl⟩ := hins
    exact fun n hn => wp_mono (hn.wp_installReplicaSnapshot env sequence records)
      (fun _ n' hn' => hn' ▸ hn) fun _ => False.elim
  · exact fun n => (course_keeps env op.leads).prog hckp
      (fun sequence records heq => hins ⟨sequence, records, heq⟩) n

lemma rejected_openShard {n : Node} (h : Rejected n) {faulty : Prop} :
    (openShard env).wp faulty (fun result n' => (∃ err, result = .error err) ∧ Rejected n')
      Rejected n := by
  obtain ⟨err, herr⟩ := h.loadManifest
  rw [openShard, wp_bind, wp_update, after_ok, wp_bind, loadSegments,
    wp_bind, wp_state, after_ok]
  have hload : loadManifest (n.restarted env).disk = .error err := herr
  rw [hload]
  exact ⟨⟨err, rfl⟩, h⟩

end Rejected

/-! ### Runs on sound records -/

/-- It writes sound records. -/
def Op.Sound (env : Env) (n : Node) : Op → Prop
  | .installReplicaSnapshot _ records => ∀ record ∈ records, Engine.Sound env record
  | op => ∀ mutation ∈ op.mutation n, mutation.Sound env

/-- In a call that makes a checkpoint no file operation fails, and a snapshot is installed without a
crash.  This is more than needed: an append may fail, since no checkpoint follows it then. -/
def Op.Tolerates (env : Env) (n : Node) (op : Op) (faults : List Fault) : Prop :=
  (∀ sequence records, op = .installReplicaSnapshot sequence records → faults = []) ∧
    (op.Checkpoints env n → ∀ fault ∈ faults, fault ≠ .fail ∧ fault ≠ .failAfter)

/-- What happens in a run on sound records. -/
def Calm (env : Env) (p : Process) : Event → Prop
  | .call op faults => op.Sound env p.node ∧ op.Tolerates env p.node faults
  | .stop => True
  | .reopen _ => True

variable {p : Process} {op : Op}

lemma calm_call_nil {env : Env} (h : op.Sound env p.node) : Calm env p (.call op []) :=
  ⟨h, fun _ _ _ => rfl, nofun⟩

variable {base records : List Record} {faults : List Fault} {q : Process}

section Calm

variable {env : Env}

/-- The files of the shard stand for some records. -/
def Loadable (env : Env) (n : Node) : Prop := ∃ base live next, Durable env n.disk base live next

/-- They stand for the records of the shard in memory. -/
def Ready (env : Env) (n : Node) : Prop := ∃ base, Coherent env base n

/-- While the shard is down, its files stand for some records, unless its manifest is not
accepted. -/
def Resumable (env : Env) (n : Node) : Prop := Accepts n.disk → Loadable env n

/-- While it is up, they stand for its records. -/
def Consistent (env : Env) (n : Node) : Prop := Accepts n.disk → Ready env n

lemma Coherent.run_prog (h : Coherent env base n)
    (hop : ∀ sequence records, op ≠ .installReplicaSnapshot sequence records)
    (hsound : ∀ mutation ∈ op.mutation n, mutation.Sound env)
    (hfaults : op.Checkpoints env n → ∀ fault ∈ faults, fault ≠ .fail ∧ fault ≠ .failAfter) :
    ((op.prog env).run faults n).Meets (fun result n' => (op.Empties env n → Accepts n'.disk) →
        Executed env base (op.mutation n) (∃ a, result = .ok a) n n')
      (CrashesWithin env (op.mutation n) (op.Empties env n) n) :=
  run_of_wp (h.executes_prog hop hsound fun hf : ¬ op.Checkpoints env n => hf)
    fun fault hmem hfail hckps => hfail.elim (hfaults hckps fault hmem).1 (hfaults hckps fault hmem).2

lemma Coherent.eval_installReplicaSnapshot (h : Coherent env base n)
    (hsound : ∀ record ∈ records, Engine.Sound env record) (sequence : ℕ) {rest : List Fault}
    {result : Except Error Unit}
    (hrun : (installReplicaSnapshot env sequence records).run [] n = .finished n' rest result) :
    (result = .ok () ∧ Installed env sequence records n') ∨
      (∃ err, result = .error err) ∧ n' = n := by
  have hwp := @run_of_wp _ _ _ False _ _ _ _ (h.wp_installReplicaSnapshot hsound sequence) []
    nofun
  rwa [hrun] at hwp

lemma Op.Sound.of_other (h : op.Sound env n)
    (hop : ∀ sequence records, op ≠ .installReplicaSnapshot sequence records) :
    ∀ mutation ∈ op.mutation n, mutation.Sound env := by
  cases op with
  | installReplicaSnapshot sequence records => exact absurd rfl (hop sequence records)
  | _ => exact h

lemma consistent_call (h : Consistent env n) (hsound : op.Sound env n)
    (hfaults : op.Tolerates env n faults) :
    ((op.prog env).run faults n).Meets (fun _ => Consistent env) (Resumable env) := by
  by_cases hacc : Accepts n.disk
  · obtain ⟨base, hcoh⟩ := h hacc
    rcases op.installs_or with ⟨sequence, records, rfl⟩ | hother
    · obtain rfl := hfaults.1 sequence records rfl
      rw [run_nil]
      rcases hcoh.eval_installReplicaSnapshot hsound sequence
        (run_nil _ _) with ⟨-, hinst⟩ | ⟨-, heq⟩
      · exact fun _ => ⟨records, hinst.coherent⟩
      · dsimp only [Op.prog, Outcome.Meets]
        rw [heq]
        exact h
    · refine (hcoh.run_prog hother (hsound.of_other hother) hfaults.2).mono
        (fun _ n' hrun hacc' => ?_) fun n' hrun hacc' => ?_
      · obtain ⟨⟨base', hcoh', -⟩, -⟩ := hrun fun _ => hacc'
        exact ⟨base', hcoh'⟩
      · obtain ⟨base', live, next, hdur, -⟩ := hrun fun _ => hacc'
        exact ⟨base', live, next, hdur⟩
  · -- A manifest that is not accepted stays.
    exact ((keeps_prog env op).run hacc faults).mono (fun _ _ hrun hacc' => absurd hacc' hrun)
      fun _ hrun hacc' => absurd hacc' hrun

lemma Consistent.resumable (h : Consistent env n) : Resumable env n := fun hacc => by
  obtain ⟨base, hcoh⟩ := h hacc
  exact ⟨base, _, _, hcoh.durable⟩

lemma Resumable.run_openShard (h : Resumable env n) (faults : List Fault) :
    ((openShard env).run faults n).Meets (Ends (Consistent env) (Resumable env))
      (Resumable env) := by
  by_cases hacc : Accepts n.disk
  · obtain ⟨base, live, next, hdur⟩ := h hacc
    exact (hdur.attains_openShard.mono (fun n' hopened _ => ⟨base, hopened.coherent⟩)
      fun n' hreop _ => ⟨base, live, next, hdur.congr hreop⟩).meets faults
  · refine (meets_of_wp (rejected_openShard env hacc) faults).mono ?_
      fun _ hrej hacc' => absurd hacc' hrej
    rintro _ n' ⟨⟨err, rfl⟩, hrej⟩ hacc'
    exact absurd hacc' hrej

lemma durable_new (env : Env) : Durable env (Node.new env).disk [] (fun _ => none) 1 where
  manifest := rfl
  lsns := rfl
  short := Nat.zero_lt_one
  above := Nat.zero_lt_one
  covers := le_rfl
  sound record hmem := by cases hmem
  replayed := rfl

lemma coherent_new (env : Env) : Coherent env [] (Node.new env) where
  healthy := healthy_new env
  durable := durable_new env
  base := rfl
  checkpointLSN := rfl
  clean := fun _ => rfl

/-- In every run on sound records the files stand for the records of the shard. -/
theorem consistent_of_reaches (h : Process.Reaches env (Calm env) p q)
    (hp : if p.up then Consistent env p.node else Resumable env p.node) :
    if q.up then Consistent env q.node else Resumable env q.node :=
  h.induction (fun _ _ _ hcalm hn => consistent_call hn hcalm.1 hcalm.2)
    (fun _ => Consistent.resumable) (fun _ faults _ hn => hn.run_openShard faults) hp

lemma consistent_new (env : Env) : Consistent env (Node.new env) := fun _ => ⟨[], coherent_new env⟩

/-- What happens in a run on sound records without a checkpoint of nothing. -/
def Balanced (env : Env) (p : Process) (event : Event) : Prop :=
  Calm env p event ∧ ∀ op faults, event = .call op faults → ¬ op.Empties env p.node

lemma balanced_call_nil (h : op.Sound env p.node)
    (hempt : ¬ op.Empties env p.node) : Balanced env p (.call op []) := by
  refine ⟨calm_call_nil h, fun op' faults hevent => ?_⟩
  obtain ⟨rfl, -⟩ := Event.call.inj hevent
  exact hempt

lemma Coherent.run_balanced (h : Coherent env base n)
    (hcall : Balanced env ⟨true, n⟩ (.call op faults)) :
    ((op.prog env).run faults n).Meets (fun _ n' => ∃ base', Coherent env base' n' ∧
        (n'.disk.manifest = n.disk.manifest ∨ base' = n'.shard.list ∨
          ∃ manifest records vectors, n'.disk.manifest = some manifest ∧
            manifest.layout = .column records vectors)) (Loadable env) := by
  obtain ⟨⟨hsound, htolerates⟩, hempt⟩ := hcall
  have hempt : ¬ op.Empties env n := hempt op faults rfl
  rcases op.installs_or with ⟨sequence, records, rfl⟩ | hother
  · obtain rfl := htolerates.1 sequence records rfl
    rw [run_nil]
    rcases h.eval_installReplicaSnapshot hsound sequence (run_nil _ _) with
      ⟨-, hinst⟩ | ⟨-, heq⟩
    · exact ⟨records, hinst.coherent, .inr (.inr hinst.manifest)⟩
    · refine ⟨base, ?_, .inl ?_⟩
      · exact heq.symm ▸ h
      · exact congrArg (fun n : Node => n.disk.manifest) heq
  · refine (h.run_prog hother (hsound.of_other hother) htolerates.2).mono
      (fun _ n' hrun => ?_) fun n' hrun => ?_
    · obtain ⟨⟨base', hcoh, hbase'⟩, -⟩ := hrun fun hempty => absurd hempty hempt
      exact ⟨base', hcoh, hbase'.elim (fun hbase' => .inr (.inl hbase'))
        fun hsame => .inl hsame.2⟩
    · obtain ⟨base', live, next, hdur, -⟩ := hrun fun hempty => absurd hempty hempt
      exact ⟨base', live, next, hdur⟩

/-- Without a checkpoint of nothing the manifest is always accepted. -/
theorem ready_of_reaches (h : Process.Reaches env (Balanced env) p q)
    (hp : if p.up then Ready env p.node else Loadable env p.node) :
    if q.up then Ready env q.node else Loadable env q.node := by
  refine h.induction ?_ ?_ ?_ hp
  · rintro n op faults hcall ⟨base, hcoh⟩
    exact (hcoh.run_balanced hcall).mono (fun _ _ ⟨base', hcoh', _⟩ => ⟨base', hcoh'⟩) fun _ => id
  · exact fun n ⟨base, hcoh⟩ => ⟨base, _, _, hcoh.durable⟩
  · rintro n faults - ⟨base, live, next, hdur⟩
    exact (hdur.attains_openShard.mono (fun n' hopened => ⟨base, hopened.coherent⟩)
      fun n' hreop => ⟨base, live, next, hdur.congr hreop⟩).meets faults

lemma Durable.reopens (h : Durable env n'.disk base n.shard.lookup n.nextLSN)
    (hheal : Healthy env n.shard) : ∃ m, (openShard env).run [] n' = .finished m [] (.ok ()) ∧
      m.shard.lookup = n.shard.lookup ∧ m.shard.list = n.shard.list := by
  obtain ⟨m, hrun, hopened⟩ := h.attains_openShard.run_nil
  have henum := hopened.coherent.healthy.enumerates
  rw [hopened.lookup] at henum
  exact ⟨m, hrun, hopened.lookup, henum.unique hheal.enumerates⟩

end Calm

/-! ### Checkpoints -/

variable {refs : List SegmentRef}

section Checkpoints

variable {env : Env}

lemma Describes.materializeSegments {files : Files} {manifest : Manifest}
    (h : Describes env files manifest records) (hlayout : manifest.layout = .segments refs) :
    ∃ tombstones, materializeSegments files refs = .ok (records, tombstones) := by
  obtain ⟨datas, hholds, hview⟩ := h.segments
  rw [Manifest.refs, hlayout] at hholds
  rw [hlayout] at hview
  obtain ⟨data, hmat, -, -, henum⟩ :=
    materializeSegments_spec hholds (valid_of_forall₂ hholds)
  exact ⟨data.tombstones, by rw [hmat, henum.unique hview]⟩

/-- Compaction keeps the order of the segments, the last LSN and the records, and the two listings
of segments agree, with every vector the newest of its key.  A segment whose files are named
like the merged one has the LSN of that name. -/
theorem compaction_preserves_view {datas : List SegmentData}
    {sequence : ℕ} (hholds : List.Forall₂ (Holds env n.disk.files) refs datas)
    (hsort : refs.Pairwise fun a b => a.maxLSN < b.maxLSN)
    (hnames : ∀ ref ∈ refs, ∀ name ∈ ref.names, ∀ lsn, name.stem = .compact lsn sequence →
      ref.maxLSN = lsn) :
    ∃ records tombstones values,
      materializeSegments n.disk.files refs = .ok (records, tombstones) ∧
      resolveMappedSegments n.disk.files refs = .ok values ∧
      values.map Selected.record = records.map withoutVector ∧
      (∀ value ∈ values, value.Located datas ∧ value.Newest datas) ∧
      ∀ faults n' rest refs', (compactSegmentRefs env refs sequence).run faults n =
          .finished n' rest (.ok refs') →
        refs'.Pairwise (fun a b => a.maxLSN < b.maxLSN) ∧ lastMaxLSN refs' = lastMaxLSN refs ∧
          ∃ tombstones', materializeSegments n'.disk.files refs' = .ok (records, tombstones') := by
  have hvalid := Describes.valid_of_forall₂ hholds
  obtain ⟨data, hmat, -, -, henum⟩ := materializeSegments_spec hholds hvalid
  obtain ⟨values, records, hres, hvalues, henum', hloc, -⟩ :=
    resolveMappedSegments_spec hholds hvalid
  refine ⟨_, _, values, hmat, hres, henum.unique henum' ▸ hvalues, hloc,
    fun faults n' rest refs' hrun => ?_⟩
  have hcmpd := finished_of_wp
    (ensures_compactSegmentRefs ⟨⟨datas, hholds, rfl⟩, hsort⟩ hnames) hrun refs' rfl
  obtain ⟨datas', hholds', hlayer⟩ := hcmpd.chain.holds
  obtain ⟨data', hmat', -, -, hview'⟩ :=
    materializeSegments_spec hholds' (Describes.valid_of_forall₂ hholds')
  rw [viewOf, hlayer] at hview'
  exact ⟨hcmpd.chain.sorted, hcmpd.last, data'.tombstones, by rw [hmat', hview'.unique henum]⟩

/-- Five segments of one record each, the last with files of the given name. -/
def fiveStems (last : Stem) : List (Stem × ℕ) :=
  [(.delta 1, 1), (.delta 2, 2), (.delta 3, 3), (.delta 4, 4), (last, 5)]

def fiveRefs (last : Stem) : List SegmentRef := (fiveStems last).map fun segment =>
  ⟨⟨segment.1, .records⟩, ⟨segment.1, .vectors⟩, none, none, none, 1, segment.2, 1, 2⟩

/-- A shard with their files. -/
def fiveNode (last : Stem) : Node :=
  { Node.new smallEnv with
    disk := { (Node.new smallEnv).disk with
      files := (fiveStems last).foldl (fun files segment =>
        (files.set ⟨segment.1, .records⟩
          (.records segment.2 [withoutVector (smallRecord [UInt8.ofNat segment.2])])).set
          ⟨segment.1, .vectors⟩ (.vectors segment.2 1 [[0]])) .empty } }

def compactFive (last : Stem) : Action (List SegmentRef) :=
  compactSegmentRefs smallEnv (fiveRefs last) 7

/-- The theorem for five segments, of which four are merged. -/
theorem compaction_preserves_five : ∃ n' refs' records tombstones tombstones',
    (compactFive (.delta 5)).run [] (fiveNode (.delta 5)) = .finished n' [] (.ok refs') ∧
    materializeSegments (fiveNode (.delta 5)).disk.files (fiveRefs (.delta 5)) =
      .ok (records, tombstones) ∧
    materializeSegments n'.disk.files refs' = .ok (records, tombstones') := by
  have hholds : List.Forall₂ (Holds smallEnv (fiveNode (.delta 5)).disk.files)
      (fiveRefs (.delta 5)) ([1, 2, 3, 4, 5].map fun lsn => ⟨[smallRecord [lsn]], []⟩) := by
    refine .cons ?_ (.cons ?_ (.cons ?_ (.cons ?_ (.cons ?_ .nil)))) <;>
      exact ⟨rfl, rfl, rfl, rfl, rfl, fun _ _ => rfl, List.nodup_singleton _, rfl, by simp, by simp⟩
  have hok : ((compactFive (.delta 5)).eval (fiveNode (.delta 5))).2.isOk := by decide +kernel
  cases hres : ((compactFive (.delta 5)).eval (fiveNode (.delta 5))).2 with
  | error err =>
    rw [hres] at hok
    cases hok
  | ok refs' =>
    have hrun := run_nil_of_eval hres
    obtain ⟨records, tombstones, -, hmat, -, -, -, hall⟩ :=
      compaction_preserves_view hholds (by decide) (by simp [fiveRefs, fiveStems, SegmentRef.names])
    obtain ⟨-, -, tombstones', hmat'⟩ := hall _ _ _ _ hrun
    exact ⟨_, refs', records, tombstones, tombstones', hrun, hmat, hmat'⟩

/-- A merged segment overwrites the files of a segment outside the run that has its name: the
segments that were merged and those that are left can no longer be read. -/
theorem compaction_overwrites_named_segment :
    (fiveRefs (.compact 4 7)).Pairwise (fun a b => a.maxLSN < b.maxLSN) ∧
    ((fiveRefs (.compact 4 7)).map SegmentRef.records).Nodup ∧
    (materializeSegments (fiveNode (.compact 4 7)).disk.files (fiveRefs (.compact 4 7))).isOk ∧
    ((compactFive (.compact 4 7)).eval (fiveNode (.compact 4 7))).2.isOk ∧
    ¬ (((compactFive (.compact 4 7)).eval (fiveNode (.compact 4 7))).2.bind (materializeSegments
      ((compactFive (.compact 4 7)).eval (fiveNode (.compact 4 7))).1.disk.files)).isOk :=
  ⟨by decide, by decide, by decide +kernel, by decide +kernel, by decide +kernel⟩

/-- Every manifest that a checkpoint publishes in a run on sound records without a checkpoint of
nothing, with its LSNs in range, is accepted by `LoadManifest`, and its segments have exactly the
records of the shard. -/
theorem published_checkpoint_loads {n n' : Node}
    (h : Process.Reaches env (Process.Ranged (Balanced env)) (.new env) ⟨true, n⟩) {op : Op}
    (hcall : Process.Ranged (Balanced env) ⟨true, n⟩ (.call op [])) {rest : List Fault}
    {result : Except Error Unit} (hrun : (op.prog env).run [] n = .finished n' rest result)
    {manifest : Manifest} {refs : List SegmentRef} (hman : n'.disk.manifest = some manifest)
    (hlayout : manifest.layout = .segments refs)
    (hpub : n'.disk.manifest ≠ n.disk.manifest) :
    checkManifest manifest = .ok () ∧ 1 ≤ refs.length ∧ refs.length ≤ 16 ∧
      refs.Pairwise (fun a b => a.maxLSN < b.maxLSN) ∧
      refs.getLast?.map SegmentRef.maxLSN = some manifest.maxLSN ∧
      ∃ tombstones, materializeSegments n'.disk.files refs = .ok (n'.shard.list, tombstones) := by
  obtain ⟨base, hcoh⟩ : Ready env n := ready_of_reaches h.of_ranged ⟨[], coherent_new env⟩
  have hafter := hcoh.run_balanced hcall.1
  rw [hrun] at hafter
  obtain ⟨base', hcoh', hbase'⟩ := hafter
  have hdesc := hcoh'.describes manifest hman
  obtain ⟨hne, hlength, -, -, hsort, hlast⟩ :=
    (checkManifest_segments hlayout).1 hdesc.accepted
  refine ⟨hdesc.accepted, List.length_pos_of_ne_nil hne, hlength, hsort, hlast, ?_⟩
  rcases hbase' with hsame | rfl | ⟨manifest', records, vectors, hman', hcol⟩
  · exact absurd hsame hpub
  · exact hdesc.materializeSegments hlayout
  · obtain rfl := Option.mem_unique hman hman'
    rw [hlayout] at hcol
    cases hcol

lemma sound_smallRecord {id : GoString} (hid : id ≠ [] ∧ validUTF8 (recordKey [] id))
    (version : ℕ) : Sound smallEnv { smallRecord id with version := version } where
  id := hid.1
  valid := rfl
  prepared := prepared_of_none rfl rfl
  routed := by
    rw [Env.routesHere, routeShard]
    exact decide_eq_true (Nat.mod_one _)
  log := rfl
  column := rfl
  key := hid.2
  filter field value hvalue := by cases hvalue

lemma sound_upsert_small {id : GoString} (hid : id ≠ [] ∧ validUTF8 (recordKey [] id)) (n : Node) :
    (Op.upsert (smallRecord id)).Sound smallEnv n := fun mutation hmut => by
  obtain rfl := Option.some.inj hmut
  exact sound_smallRecord hid 1

/-- A write, a checkpoint, and a write that is taken back. -/
def takenBackEvents : List Event :=
  [.call (.upsert (smallRecord (bytes "a"))) [], .call .checkpoint [],
    .call (.upsert (smallRecord (bytes "b"))) [], .call (.delete [] (bytes "b")) []]

lemma reaches_smallNode : Process.Reaches smallEnv (Process.Ranged (Balanced smallEnv))
    (.new smallEnv) ⟨true, smallNode⟩ := by
  have hsound : ∀ id, id ≠ [] ∧ validUTF8 (recordKey [] id) → ∀ p,
      Balanced smallEnv p (.call (.upsert (smallRecord id)) []) :=
    fun id hid p => balanced_call_nil (sound_upsert_small hid _) not_false
  have hnone : ((smallEvents.take 1).foldl (Process.step smallEnv)
      (.new smallEnv)).node.disk.manifest.isSome = false := by decide +kernel
  have hcheckpoint : Balanced smallEnv ((smallEvents.take 1).foldl (Process.step smallEnv)
      (.new smallEnv)) (.call .checkpoint []) :=
    balanced_call_nil nofun fun hempt => Bool.false_ne_true (hnone.symm.trans hempt.1)
  have hreach : Process.Reaches smallEnv (Process.Ranged (Balanced smallEnv)) (.new smallEnv) _ :=
    .refl
  have hwrite := hreach.next _ ⟨hsound (bytes "a") (by decide +kernel) _,
    by decide +kernel⟩
  exact ((hwrite.next _ ⟨hcheckpoint, by decide +kernel⟩).next _
    ⟨hsound (bytes "b") (by decide +kernel) _, by decide +kernel⟩).of_up
    (by decide +kernel)

/-- The theorem for the second checkpoint of the small shard, with two segments. -/
theorem published_checkpoint_loads_two_writes : ∃ (n' : Node) (manifest : Manifest)
    (refs : List SegmentRef) (tombstones : List GoString),
      Process.Reaches smallEnv (Process.Ranged (Balanced smallEnv)) (.new smallEnv)
        ⟨true, smallNode⟩ ∧
      (Op.checkpoint.prog smallEnv).run [] smallNode = .finished n' [] (.ok ()) ∧
      n'.disk.manifest = some manifest ∧ manifest.layout = .segments refs ∧
      materializeSegments n'.disk.files refs = .ok (n'.shard.list, tombstones) ∧
      n'.shard.list.length = 2 := by
  have hdelta : smallNode.shard.checkpointDelta.1.isEmpty = false := by decide +kernel
  have hcall : Process.Ranged (Balanced smallEnv) ⟨true, smallNode⟩ (.call .checkpoint []) :=
    ⟨balanced_call_nil nofun fun hempt => (by
      rw [hempt.2.2] at hdelta
      cases hdelta), by decide +kernel⟩
  have hrun := @run_nil_of_eval _ _ _ (Op.checkpoint.prog smallEnv) smallNode (.ok ())
    (by decide +kernel)
  obtain ⟨manifest, hman, hmulti⟩ := (Option.any_eq_true _ _).1
    (show ((Op.checkpoint.prog smallEnv).eval smallNode).1.disk.manifest.any
      (fun manifest => manifest.isMulti && manifest.maxLSN = 2) = true by decide +kernel)
  rw [Bool.and_eq_true, decide_eq_true_eq] at hmulti
  have hold : smallNode.disk.checkpoint = 1 := by decide +kernel
  cases hlayout : manifest.layout with
  | column records vectors =>
    rw [Manifest.isMulti, hlayout] at hmulti
    cases hmulti.1
  | segments refs =>
    obtain ⟨-, -, -, -, -, tombstones, hmat⟩ := published_checkpoint_loads reaches_smallNode hcall
      hrun hman hlayout fun hsame => by
        rw [Disk.checkpoint, ← hsame, hman] at hold
        cases hmulti.2.symm.trans hold
    exact ⟨_, manifest, refs, tombstones, reaches_smallNode, hrun, hman, hlayout, hmat,
      by decide +kernel⟩

/-- The checkpoint that follows publishes a manifest that `LoadManifest` does not accept: its LSN
is 3, that of its only segment 1.  The shard cannot be opened again. -/
theorem checkpoint_of_nothing_is_rejected : ∃ (n n' m : Node) (manifest : Manifest) (err : Error),
    Process.Reaches smallEnv (Calm smallEnv) (.new smallEnv) ⟨true, n⟩ ∧
    (Op.checkpoint.prog smallEnv).run [] n = .finished n' [] (.ok ()) ∧
    n'.disk.manifest = some manifest ∧ n'.disk.manifest ≠ n.disk.manifest ∧
    checkManifest manifest ≠ .ok () ∧
    (openShard smallEnv).run [] n' = .finished m [] (.error err) := by
  have hevents : ∀ event ∈ takenBackEvents, ∀ p, Calm smallEnv p event := by
    intro event hmem p
    simp only [takenBackEvents, List.mem_cons, List.not_mem_nil, or_false] at hmem
    rcases hmem with rfl | rfl | rfl | rfl
    · exact calm_call_nil (sound_upsert_small (by decide +kernel) _)
    · exact calm_call_nil nofun
    · exact calm_call_nil (sound_upsert_small (by decide +kernel) _)
    · refine calm_call_nil fun mutation hmut => ?_
      cases hmut
      exact ⟨by decide +kernel, by decide +kernel, by decide +kernel, by decide +kernel⟩
  have hreach := (Process.reaches_foldl smallEnv hevents (.new smallEnv)).of_up
    (by decide +kernel)
  have hrun := @run_nil_of_eval _ _ _ (Op.checkpoint.prog smallEnv) _ (.ok ())
    (show ((Op.checkpoint.prog smallEnv).eval (takenBackEvents.foldl (Process.step smallEnv)
      (.new smallEnv)).node).2 = .ok () by decide +kernel)
  obtain ⟨manifest, hman, hrej⟩ := (Option.any_eq_true _ _).1
    (show ((Op.checkpoint.prog smallEnv).eval (takenBackEvents.foldl (Process.step smallEnv)
      (.new smallEnv)).node).1.disk.manifest.any (fun manifest => checkManifest manifest ≠ .ok ()) =
        true by decide +kernel)
  obtain ⟨err, hres⟩ := exists_error (show ¬ ((openShard smallEnv).eval
    ((Op.checkpoint.prog smallEnv).eval (takenBackEvents.foldl (Process.step smallEnv)
      (.new smallEnv)).node).1).2.isOk by decide +kernel)
  refine ⟨_, _, _, manifest, err, hreach, hrun, hman, fun hsame => ?_,
    of_decide_eq_true hrej, run_nil_of_eval hres⟩
  have hlsn : ((Op.checkpoint.prog smallEnv).eval (takenBackEvents.foldl (Process.step smallEnv)
      (.new smallEnv)).node).1.disk.checkpoint ≠ (takenBackEvents.foldl (Process.step smallEnv)
      (.new smallEnv)).node.disk.checkpoint := by decide +kernel
  exact hlsn (by rw [Disk.checkpoint, Disk.checkpoint, hsame])

/-- Wherever a checkpoint crashes in a run on sound records, with a manifest on disk that
`LoadManifest` accepts, the shard opens again with the records it had. -/
theorem checkpoint_crash_keeps_records {n n' : Node}
    (h : Process.Reaches env (Calm env) (.new env) ⟨true, n⟩) {faults : List Fault}
    (hfaults : ∀ fault ∈ faults, fault ≠ .fail ∧ fault ≠ .failAfter)
    (hcrash : (checkpointShard env).run faults n = .crashed n') (hacc : Accepts n'.disk) :
    ∃ m, (openShard env).run [] n' = .finished m [] (.ok ()) ∧
      m.shard.lookup = n.shard.lookup ∧ m.shard.list = n.shard.list := by
  have hcons : Consistent env n := consistent_of_reaches h (consistent_new env)
  by_cases hrej : Accepts n.disk
  · obtain ⟨base, hcoh⟩ := hcons hrej
    have hrun := run_of_wp hcoh.wp_checkpointShard fun fault (hmem : fault ∈ faults)
      hfail => hfail.elim (hfaults fault hmem).1 (hfaults fault hmem).2
    rw [hcrash] at hrun
    obtain ⟨base', hdur⟩ := hrun fun _ => hacc
    exact hdur.reopens hcoh.healthy
  · -- Without an accepted manifest nothing is written.
    have hrun := (keeps_checkpointShard env).run hrej faults
    rw [hcrash] at hrun
    exact absurd hacc hrun

/-- The theorem for a crash between the publication of the manifest and the reset of the log. -/
theorem checkpoint_crash_keeps_records_one_write : ∃ n n' m : Node,
    Process.Reaches smallEnv (Calm smallEnv) (.new smallEnv) ⟨true, n⟩ ∧
    (checkpointShard smallEnv).run [.ok, .ok, .ok, .ok, .ok, .crash] n = .crashed n' ∧
    Accepts n'.disk ∧ n'.disk.manifest.isSome = true ∧ n'.disk.wal ≠ [] ∧
    (openShard smallEnv).run [] n' = .finished m [] (.ok ()) ∧
    m.shard.lookup = n.shard.lookup := by
  have hreach := Process.Reaches.call (.refl : Process.Reaches smallEnv (Calm smallEnv)
    (.new smallEnv) _) (calm_call_nil (@sound_upsert_small (bytes "a") (by decide +kernel) _))
  have hcrash := @Outcome.eq_crashed _ _ _ ((checkpointShard smallEnv).run
    [.ok, .ok, .ok, .ok, .ok, .crash] (((Op.upsert (smallRecord (bytes "a"))).prog smallEnv).eval
      (Node.new smallEnv)).1) (by decide +kernel)
  obtain ⟨m, hopen, hlook, -⟩ := checkpoint_crash_keeps_records hreach (by decide) hcrash
    (by decide +kernel)
  refine ⟨_, _, m, hreach, hcrash, by decide +kernel, by decide +kernel, ?_, hopen, hlook⟩
  rw [ne_eq, ← List.isEmpty_iff]
  decide +kernel

/-- A record with metadata whose field has no name. -/
def unnamedFieldRecord : Record :=
  { smallRecord (bytes "a") with metadata := GoMap.empty.set [] (.string (bytes "x")) }

/-- The filter index of a record with such metadata is written, but not loaded: after a crash
between the publication of the manifest and the reset of the log the shard cannot be opened. -/
theorem checkpoint_crash_blocks_opening : ∃ (n n' m : Node) (err : Error),
    ((Op.upsert unnamedFieldRecord).prog smallEnv).run [] (Node.new smallEnv) =
      .finished n [] (.ok ()) ∧
    (checkpointShard smallEnv).run [.ok, .ok, .ok, .ok, .ok, .crash] n = .crashed n' ∧
    Accepts n'.disk ∧ (openShard smallEnv).run [] n' = .finished m [] (.error err) := by
  obtain ⟨err, hres⟩ := exists_error (show ¬ ((openShard smallEnv).eval
    ((checkpointShard smallEnv).run [.ok, .ok, .ok, .ok, .ok, .crash]
      (((Op.upsert unnamedFieldRecord).prog smallEnv).eval (.new smallEnv)).1).state).2.isOk by
    decide +kernel)
  exact ⟨_, _, _, err, run_nil_of_eval (by decide +kernel),
    Outcome.eq_crashed (by decide +kernel), by decide +kernel, run_nil_of_eval hres⟩

end Checkpoints

/-! ### Installing a snapshot -/

section Snapshots

variable {env : Env}

lemma openLog_covered (h : Restored env base n n') {start : ℕ}
    (hlsns : n.disk.wal.map WalRecord.lsn = List.range' start n.disk.wal.length)
    (hcovered : ∀ record ∈ n.disk.wal, record.lsn ≤ n.disk.checkpoint) {faulty : Prop} :
    (openLog env).Attains faulty n' (fun m => m.shard.lookup = liveOf base) fun _ => True := by
  rw [← h.view.wal] at hlsns hcovered
  rw [← h.checkpointLSN] at hcovered
  obtain ⟨recovered, hrecovered, hspec⟩ := @recover_ok env n'.checkpointLSN n'.disk.wal start hlsns
    ⟨0, n'.shard, n'.digests⟩ (.inl rfl) h.healthy
    fun record hmem hlt => absurd (hcovered record hmem) (Nat.not_le.2 hlt)
  rw [openLog, Attains, wp_bind, wp_state, after_ok, hrecovered, wp_bind, wp_ofExcept, after_ok,
    wp_update]
  change recovered.shard.lookup = _
  rw [hspec.idle hcovered, h.lookup]

lemma Published.reopens {sequence : ℕ} (h : Published env sequence records n n')
    (hcoh : Coherent env base n) :
    ∃ m, (openShard env).run [] n' = .finished m [] (.ok ()) ∧ m.shard.lookup = liveOf records := by
  obtain ⟨hle, hwal, manifest, hman, rfl, hdesc⟩ := h
  have hckp : n'.disk.checkpoint = manifest.maxLSN := by
    rw [Disk.checkpoint, hman]
    rfl
  have hlog : ∃ start, n'.disk.wal.map WalRecord.lsn = List.range' start n'.disk.wal.length ∧
      ∀ record ∈ n'.disk.wal, record.lsn ≤ n'.disk.checkpoint := by
    rcases hwal with hwal | hwal
    · refine ⟨_, by rw [hwal]; exact hcoh.durable.lsns, fun record hmem => ?_⟩
      have hlt := hcoh.durable.lsn_lt (hwal ▸ hmem)
      rw [Node.lastLSN] at hle
      omega
    · exact ⟨0, by simp [hwal], by simp [hwal]⟩
  obtain ⟨start, hlsns, hcovered⟩ := hlog
  have hload := @attains_loadSegments env False records (n'.restarted env)
    (by
      rw [show (n'.restarted env).disk.manifest = some manifest from hman]
      exact hdesc) rfl rfl
  exact ((hload.mono (fun _ => id) fun _ _ => trivial).bind fun m hm =>
    openLog_covered hm hlsns hcovered).run_nil

/-- A crash while a snapshot of sound records is installed, in a run on sound records.  If the
manifest refers to no file with the sequence of the snapshot in its name, the shard opens with the
records it had or with those of the snapshot. -/
theorem snapshot_install_is_atomic
    (h : Process.Reaches env (Process.Ranged (Calm env)) (.new env) ⟨true, n⟩)
    (hsound : ∀ record ∈ records, Engine.Sound env record) {sequence : ℕ}
    (hfree : ∀ manifest ∈ n.disk.manifest, ∀ name ∈ manifest.referenced,
      name.stem ≠ .base sequence)
    (hfaults : ∀ fault ∈ faults, fault ≠ .fail ∧ fault ≠ .failAfter)
    (hrun : (installReplicaSnapshot env sequence records).run faults n = .crashed n') :
    ∃ m, (openShard env).run [] n' = .finished m [] (.ok ()) ∧
      (m.shard.lookup = n.shard.lookup ∨ m.shard.lookup = liveOf records) := by
  have hcons : Consistent env n := consistent_of_reaches h.of_ranged (consistent_new env)
  by_cases hacc : Accepts n.disk
  · obtain ⟨base, hcoh⟩ := hcons hacc
    have hcrash := run_of_wp (hcoh.wp_installReplicaSnapshot hsound sequence)
      fun fault (hmem : fault ∈ faults) hfail =>
        hfail.elim (hfaults fault hmem).1 (hfaults fault hmem).2
    rw [hrun] at hcrash
    rcases hcrash with hwrites | hpub
    · have hview : SameView n.disk n'.disk := ⟨by rw [hwrites.1], by rw [hwrites.1],
        fun manifest hman name hname => hwrites.2 name (hfree manifest hman name hname)⟩
      obtain ⟨m, hopen, hlook, -⟩ := (hcoh.durable.congr hview).reopens hcoh.healthy
      exact ⟨m, hopen, .inl hlook⟩
    · obtain ⟨m, hopen, hlook⟩ := hpub.reopens hcoh
      exact ⟨m, hopen, .inr hlook⟩
  · have hcrash := meets_of_wp (Rejected.wp_installReplicaSnapshot env hacc sequence records) faults
    rw [hrun] at hcrash
    exact hcrash.elim

/-- The theorem for the small shard with a checkpoint and a write, and a crash between the
manifest of the snapshot and the reset of the log. -/
theorem snapshot_install_is_atomic_cutover : ∃ n' m : Node,
    (installReplicaSnapshot smallEnv 5 [smallRecord (bytes "c")]).run [.ok, .ok, .ok, .ok, .crash]
      smallNode = .crashed n' ∧ n'.disk.checkpoint = 5 ∧ n'.disk.wal.length = 1 ∧
    (openShard smallEnv).run [] n' = .finished m [] (.ok ()) ∧
    (m.shard.lookup = smallNode.shard.lookup ∨
      m.shard.lookup = liveOf [smallRecord (bytes "c")]) := by
  have hreach : Process.Reaches smallEnv (Process.Ranged (Calm smallEnv)) (.new smallEnv)
      ⟨true, smallNode⟩ := Relation.ReflTransGen.mono
    (fun _ _ ⟨event, hallow, hstep⟩ => ⟨event, ⟨hallow.1.1, hallow.2⟩, hstep⟩) _ _
    reaches_smallNode
  have hcrash := @Outcome.eq_crashed _ _ _ ((installReplicaSnapshot smallEnv 5
    [smallRecord (bytes "c")]).run [.ok, .ok, .ok, .ok, .crash] smallNode) (by decide +kernel)
  have hfree : ∀ manifest ∈ smallNode.disk.manifest, ∀ name ∈ manifest.referenced,
      name.stem ≠ .base 5 := by decide +kernel
  obtain ⟨m, hopen, hrecords⟩ := snapshot_install_is_atomic hreach (fun record hmem => by
    rw [List.mem_singleton.1 hmem]
    exact sound_smallRecord (by decide +kernel) 1) hfree (by decide) hcrash
  exact ⟨_, m, hcrash, by decide +kernel, by decide +kernel, hopen, hrecords⟩

/-- A shard with a snapshot of one record, installed with sequence 1. -/
def snapshotNode : Node :=
  ((installReplicaSnapshot smallEnv 1 [smallRecord (bytes "a")]).eval (.new smallEnv)).1

/-- Another snapshot with this sequence writes its records to the file that the manifest refers
to.  After a crash at this point the shard cannot be opened. -/
theorem reinstall_crash_blocks_opening : ∃ (n' m : Node) (err : Error),
    (installReplicaSnapshot smallEnv 1 [smallRecord (bytes "a")]).run [] (.new smallEnv) =
      .finished snapshotNode [] (.ok ()) ∧
    (installReplicaSnapshot smallEnv 1 [smallRecord (bytes "b"), smallRecord (bytes "c")]).run
      [.ok, .crash] snapshotNode = .crashed n' ∧
    (openShard smallEnv).run [] n' = .finished m [] (.error err) := by
  obtain ⟨err, hres⟩ := exists_error (show ¬ ((openShard smallEnv).eval
    ((installReplicaSnapshot smallEnv 1 [smallRecord (bytes "b"), smallRecord (bytes "c")]).run
      [.ok, .crash] snapshotNode).state).2.isOk by decide +kernel)
  exact ⟨_, _, err, run_nil_of_eval (by decide +kernel), Outcome.eq_crashed (by decide +kernel),
    run_nil_of_eval hres⟩

end Snapshots

end GideonDB.Engine
