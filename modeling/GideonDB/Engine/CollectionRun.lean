/-
Runs of the engine with one collection.

As long as the records are sound and no checkpoint of nothing is made, the files of all shards
stand for their records.  So a restart is not seen from outside, and a request changes nothing
but the keys that it names.
-/
import GideonDB.Engine.Opening

namespace GideonDB.Engine

open Go GideonDB.Core Segment Store Collection List
open Prog hiding bind throw

/-- The whole machine. -/
def engine (env : Env) : Machine Collection Error Request := ⟨Request.task env, openCollection env⟩

/-- The mutations it plans. -/
def planned (env : Env) (c : Collection) : Happening Request → Steps
  | .call request _ => request.plan env c
  | .crash request _ => request.plan env c
  | .restart => []

/-- The request writes sound records and makes no checkpoint of nothing, and if it makes a
checkpoint, its file operations do not fail. -/
structure Request.Steady (env : Env) (c : Collection) (request : Request) (faults : List Fault) :
    Prop where
  sound : request.Sound env c
  empties : ¬ request.Empties env c
  faults : request.Checkpoints env c → ∀ fault ∈ faults, fault ≠ .fail ∧ fault ≠ .failAfter

/-- What happens in a run on sound records without a checkpoint of nothing. -/
def Steady (env : Env) (c : Collection) : Happening Request → Prop
  | .call request faults => request.Steady env c faults
  | .crash request faults => request.Steady env c faults
  | .restart => True

section Runs

variable {env : Env} {c c' : Collection}

/-- The files of the shards stand for the records `live`. -/
def Collection.Holds (env : Env) (live : ℕ → Live) (c : Collection) : Prop :=
  ∀ shardID < env.shardCount, ∃ base next,
    Durable (env.ofShard shardID) (c.shards shardID).disk base (live shardID) next

/-- The collection shows the records `live`, and its files stand for them. -/
structure Collection.Shows (env : Env) (live : ℕ → Live) (c : Collection) : Prop where
  ready : c.Ready env
  lookup : ∀ shardID < env.shardCount, (c.shards shardID).shard.lookup = live shardID

lemma Collection.Ready.holds (h : c.Ready env) :
    c.Holds env fun shardID => (c.shards shardID).shard.lookup := h.leftover

/-- However often it takes, the engine opens with the records that the files stand for. -/
lemma Collection.Holds.boots {live : ℕ → Live} (h : c.Holds env live)
    (hboots : (engine env).Boots c c') : c'.Shows env live := by
  refine @Machine.Boots.spec _ _ _ _ _ _ (Collection.Holds env live) _ (fun c h => ?_) hboots h
  choose! base next hdur using h
  refine (attains_openCollection hdur).mono (fun c' hopened => ?_) fun c' hreop => ?_
  · exact ⟨fun shardID hlt => ⟨base shardID, (hopened.opened shardID hlt).coherent⟩,
      fun shardID hlt => (hopened.opened shardID hlt).lookup⟩
  · exact fun shardID hlt => ⟨base shardID, next shardID,
      (hdur shardID hlt).congr (hreop.reopens shardID hlt)⟩

lemma Collection.Ready.run_task (h : c.Ready env) (hcount : 0 < env.shardCount)
    {request : Request} {faults : List Fault} (hsteady : request.Steady env c faults) :
    ((request.task env).run faults c).Meets
      (fun result => Progress env (request.plan env c) c (∃ a, result = .ok a))
      (Interrupted env (request.plan env c) c) :=
  run_of_wp (h.performs hcount hsteady.sound hsteady.empties
      fun hf : ¬ request.Checkpoints env c => hf)
    fun fault hmem hfail hckps =>
      hfail.elim (hsteady.faults hckps fault hmem).1 (hsteady.faults hckps fault hmem).2

/-- Whatever happens in a steady run, some of the planned mutations are made. -/
theorem Collection.Ready.step (h : c.Ready env) (hcount : 0 < env.shardCount)
    {happening : Happening Request} (hsteady : Steady env c happening)
    (hstep : (engine env).Step c happening c') :
    ∃ made, made <+: planned env c happening ∧ Advanced env made c c' := by
  cases hstep with
  | call hrun =>
    have hprog := h.run_task hcount hsteady
    rw [show (Request.task env _).run _ c = _ from hrun] at hprog
    obtain ⟨made, hmade, -, hadv⟩ := hprog
    exact ⟨made, hmade, hadv⟩
  | crash hrun hboots =>
    have hint := h.run_task hcount hsteady
    rw [show (Request.task env _).run _ c = _ from hrun] at hint
    obtain ⟨made, hmade, hleft⟩ := hint
    have hshows := Collection.Holds.boots hleft hboots
    exact ⟨made, hmade, hshows.ready, hshows.lookup⟩
  | restart hboots =>
    have hshows := h.holds.boots hboots
    exact ⟨[], nil_prefix, hshows.ready, hshows.lookup⟩

lemma ready_new (env : Env) : (Collection.new env).Ready env :=
  fun shardID _ => ⟨[], coherent_new (env.ofShard shardID)⟩

/-- In a steady run the files of all shards stand for their records. -/
theorem Collection.ready_of_reaches (hcount : 0 < env.shardCount)
    (h : (engine env).Reaches (Steady env) (.new env) c) : c.Ready env := by
  refine h.invariant (ready_new env) fun c happening c' hready hsteady hstep => ?_
  obtain ⟨made, -, hadv⟩ := hready.step hcount hsteady hstep
  exact hadv.ready

lemma Collection.Ready.eval_openCollection (h : c.Ready env) :
    ∃ c', (openCollection env).run [] c = .finished c' [] (.ok ()) ∧
      c'.Shows env fun shardID => (c.shards shardID).shard.lookup := by
  have hholds := h.holds
  choose! base next hdur using hholds
  obtain ⟨c', hrun, -⟩ := (attains_openCollection hdur).run_nil
  exact ⟨c', hrun, h.holds.boots (.ok hrun)⟩

end Runs

/-! ### What is seen of a collection -/

section Observation

variable {env : Env} {c c' : Collection}

lemma Collection.get_eq (env : Env) (c : Collection) (ns id : GoString) :
    c.get env ns id = found ((c.shards (env.route ns id)).shard.lookup (recordKey ns id)) :=
  Shard.get_eq _ ns id

lemma Collection.lookup_of_get {ns id : GoString} {record : Record}
    (h : c.get env ns id = .ok record) :
    (c.shards (env.route ns id)).shard.lookup (recordKey ns id) = some record := by
  rw [get_eq] at h
  cases hlook : (c.shards (env.route ns id)).shard.lookup (recordKey ns id) with
  | none =>
    rw [hlook] at h
    cases h
  | some other =>
    rw [hlook] at h
    rw [Except.ok.inj h]

lemma Healthy.len_eq {sh : Shard} (h : Healthy env sh) : sh.len = sh.list.length := by
  obtain ⟨m, hm⟩ := h.tracks
  rw [hm.list_eq, (perm_sortRecords _).length_eq, length_map, GoMap.length_toList]
  exact hm.count

lemma Collection.Ready.count_eq (h : c.Ready env) : c.count env = (c.records env).length := by
  have hlen : ∀ shardIDs : List ℕ, (∀ shardID ∈ shardIDs, shardID < env.shardCount) →
      (shardIDs.map fun shardID => (c.shards shardID).shard.len).sum =
        ((shardIDs.flatMap fun shardID => (c.shards shardID).shard.list).length : ℤ) := by
    intro shardIDs hlt
    induction shardIDs with
    | nil => rfl
    | cons shardID shardIDs ih =>
      obtain ⟨base, hcoh⟩ := h shardID (hlt shardID mem_cons_self)
      rw [map_cons, sum_cons, flatMap_cons, length_append, Nat.cast_add,
        ih (forall_mem_cons.1 hlt).2, hcoh.healthy.len_eq]
  exact hlen _ fun _ => mem_range.1

/-- What is seen of one key. -/
structure SameAt (env : Env) (ns id : GoString) (c c' : Collection) : Prop where
  get : c'.get env ns id = c.get env ns id
  records : (c'.records env).filter (fun record => record.ns = ns ∧ record.id = id) =
    (c.records env).filter fun record => record.ns = ns ∧ record.id = id
  matching : ∀ filter record, record.ns = ns → record.id = id →
    (record ∈ c'.matching env filter ns ↔ record ∈ c.matching env filter ns)
  /-- What the key contributes to `Count`. -/
  count : c'.count env - ((c'.records env).filter fun record =>
      ¬ (record.ns = ns ∧ record.id = id)).length =
    c.count env - ((c.records env).filter fun record =>
      ¬ (record.ns = ns ∧ record.id = id)).length

lemma Collection.Ready.mem_matching (h : c.Ready env) {filter : Metadata.Expr} {ns : GoString}
    {record : Record} : record ∈ c.matching env filter ns ↔ ∃ shardID < env.shardCount,
      (c.shards shardID).shard.lookup record.key = some record ∧ record.ns = ns ∧
        record.satisfies env.lib filter = true := by
  rw [matching, mem_flatMap]
  constructor
  · rintro ⟨shardID, hlt, hmem⟩
    obtain ⟨base, hcoh⟩ := h shardID (mem_range.1 hlt)
    exact ⟨shardID, mem_range.1 hlt, hcoh.healthy.mem_matching.1 hmem⟩
  · rintro ⟨shardID, hlt, hmem⟩
    obtain ⟨base, hcoh⟩ := h shardID hlt
    exact ⟨shardID, mem_range.2 hlt, hcoh.healthy.mem_matching.2 hmem⟩

/-- The records of all shards, listed by what the shards have. -/
lemma Collection.Ready.filter_records (h : c.Ready env) (ns id : GoString) :
    (c.records env).filter (fun record => record.ns = ns ∧ record.id = id) =
      (List.range env.shardCount).flatMap fun shardID =>
        ((c.shards shardID).shard.lookup (recordKey ns id)).toList.filter
          fun record => record.ns = ns ∧ record.id = id := by
  rw [records, filter_flatMap]
  refine flatMap_congr fun shardID hmem => ?_
  obtain ⟨base, hcoh⟩ := h shardID (mem_range.1 hmem)
  refine hcoh.healthy.enumerates.filter_eq fun record hrec => ?_
  obtain ⟨rfl, rfl⟩ := of_decide_eq_true hrec
  rfl

lemma Collection.Ready.sameAt (h : c.Ready env) (h' : c'.Ready env) (hcount : 0 < env.shardCount)
    {ns id : GoString} (hlook : ∀ shardID < env.shardCount,
      (c'.shards shardID).shard.lookup (recordKey ns id) =
        (c.shards shardID).shard.lookup (recordKey ns id)) : SameAt env ns id c c' := by
  have hrecs : (c'.records env).filter (fun record => record.ns = ns ∧ record.id = id) =
      (c.records env).filter fun record => record.ns = ns ∧ record.id = id := by
    rw [h.filter_records, h'.filter_records]
    refine flatMap_congr fun shardID hmem => ?_
    rw [hlook shardID (mem_range.1 hmem)]
  refine ⟨?_, hrecs, fun filter record hns hid => ?_, ?_⟩
  · rw [get_eq, get_eq, hlook _ (env.route_lt hcount ns id)]
  · subst hns hid
    rw [h.mem_matching, h'.mem_matching]
    constructor
    · rintro ⟨shardID, hlt, hmem, hrest⟩
      exact ⟨shardID, hlt, (hlook shardID hlt).symm.trans hmem, hrest⟩
    · rintro ⟨shardID, hlt, hmem, hrest⟩
      exact ⟨shardID, hlt, (hlook shardID hlt).trans hmem, hrest⟩
  · rw [h.count_eq, h'.count_eq]
    have hsplit : ∀ c : Collection, ((c.records env).length : ℤ) - ((c.records env).filter
        fun record => ¬ (record.ns = ns ∧ record.id = id)).length =
        ((c.records env).filter fun record => record.ns = ns ∧ record.id = id).length := by
      intro c
      have hlength := @length_eq_length_filter_add _ (c.records env)
        fun record => record.ns = ns ∧ record.id = id
      simp only [decide_not]
      omega
    rw [hsplit, hsplit, hrecs]

lemma Collection.Shows.records_eq (h : c.Ready env)
    (h' : c'.Shows env fun shardID => (c.shards shardID).shard.lookup) :
    c'.records env = c.records env := by
  refine flatMap_congr fun shardID hmem => ?_
  obtain ⟨base, hcoh⟩ := h shardID (mem_range.1 hmem)
  obtain ⟨base', hcoh'⟩ := h'.ready shardID (mem_range.1 hmem)
  have henum := hcoh'.healthy.enumerates
  rw [h'.lookup shardID (mem_range.1 hmem)] at henum
  exact henum.unique hcoh.healthy.enumerates

end Observation

/-! ### Restarts -/

section Restart

variable {env : Env} {c : Collection}

/-- In a run on sound records without a checkpoint of nothing a restart succeeds and is not
seen: `Get`, `Records` and what a filter finds are the same. -/
theorem restart_is_transparent (hcount : 0 < env.shardCount)
    (h : (engine env).Reaches (Steady env) (.new env) c) :
    ∃ c', (openCollection env).run [] c = .finished c' [] (.ok ()) ∧
      (∀ ns id, c'.get env ns id = c.get env ns id) ∧ c'.records env = c.records env ∧
      ∀ filter ns record,
        record ∈ c'.matching env filter ns ↔ record ∈ c.matching env filter ns := by
  have hready := Collection.ready_of_reaches hcount h
  obtain ⟨c', hrun, hshows⟩ := hready.eval_openCollection
  have hsame : ∀ ns id, SameAt env ns id c c' := fun ns id =>
    hready.sameAt hshows.ready hcount fun shardID hlt => by rw [hshows.lookup shardID hlt]
  refine ⟨c', hrun, fun ns id => (hsame ns id).get, hshows.records_eq hready, ?_⟩
  intro filter ns record
  by_cases hns : record.ns = ns
  · exact (hsame ns record.id).matching filter record hns rfl
  · have hnot : ∀ {c : Collection}, c.Ready env → record ∉ c.matching env filter ns :=
      fun hready hmem => by
        obtain ⟨_, _, _, heq, _⟩ := hready.mem_matching.1 hmem
        exact hns heq
    exact iff_of_false (hnot hshows.ready) (hnot hready)

def smallUpsert (id : GoString) : Request := .upsert ⟨smallRecord id, 1⟩

lemma mem_plan_smallUpsert {id : GoString} {c : Collection} {step : ℕ × Mutation}
    (h : step ∈ (smallUpsert id).plan smallEnv c) :
    step = (0, .upsert { smallRecord id with version := c.version + 1 }) := by
  rw [smallUpsert, Request.plan] at h
  split at h
  · rw [mem_singleton.1 h]
    exact congrArg (·, _) (Nat.mod_one _)
  · cases h

lemma steady_smallUpsert {id : GoString} (hid : id ≠ [] ∧ validUTF8 (recordKey [] id))
    (c : Collection) : Steady smallEnv c (.call (smallUpsert id) []) := by
  refine ⟨fun step hmem => ?_, not_false, nofun⟩
  rw [mem_plan_smallUpsert hmem]
  exact sound_smallRecord hid (c.version + 1)

lemma reaches_smallUpsert {id : GoString} (hid : id ≠ [] ∧ validUTF8 (recordKey [] id)) :
    (engine smallEnv).Reaches (Steady smallEnv) (.new smallEnv)
      (((engine smallEnv).prog (smallUpsert id)).eval (.new smallEnv)).1 :=
  .call .refl (steady_smallUpsert hid _)

lemma steady_smallCheckpoint {c : Collection} (h : (c.shards 0).disk.manifest.isSome = false) :
    Steady smallEnv c (.call .checkpoint []) := by
  refine ⟨nofun, ?_, nofun⟩
  rintro ⟨shardID, hlt, hman, -⟩
  obtain rfl : shardID = 0 := Nat.lt_one_iff.1 hlt
  rw [h] at hman
  cases hman

/-- The theorem for the small collection with a record in a segment and one in the log. -/
theorem restart_is_transparent_checkpointed : ∃ c c' : Collection,
    (engine smallEnv).Reaches (Steady smallEnv) (.new smallEnv) c ∧
    (openCollection smallEnv).run [] c = .finished c' [] (.ok ()) ∧
    (c.shards 0).checkpointLSN = 1 ∧ (c.records smallEnv).length = 2 ∧
    c'.records smallEnv = c.records smallEnv := by
  have hreach := ((@reaches_smallUpsert (bytes "a") (by decide +kernel)).call
    (steady_smallCheckpoint (by decide +kernel))).call
    (@steady_smallUpsert (bytes "b") (by decide +kernel) _)
  obtain ⟨c', hrun, -, hrecs, -⟩ := restart_is_transparent Nat.one_pos hreach
  exact ⟨_, c', hreach, hrun, by decide +kernel, by decide +kernel, hrecs⟩

/-- What JSON gives back of a map: invalid UTF-8 is replaced, and of keys that become equal the
last one stays. -/
def jsonMap {V : Type} (f : V → V) (m : GoMap GoString V) : GoMap GoString V :=
  (m.toList.insertionSort fun a b => StringLE a.1 b.1).foldl
    (fun acc entry => acc.set (coerceUTF8 entry.1) (f entry.2)) .empty

/-- What JSON gives back of a record.  Named vectors belong to declared fields and are kept. -/
def jsonRecord (lib : Metadata.Library) (record : Record) : Option Record :=
  if record.vector.all isFinite32 then
    some { record with
      ns := coerceUTF8 record.ns
      id := coerceUTF8 record.id
      sparseVector := jsonMap id record.sparseVector
      metadata := jsonMap (Metadata.Value.throughJSON lib) record.metadata
      payload := jsonMap (Metadata.Value.throughJSON lib) record.payload
      text := coerceUTF8 record.text }
  else none

/-- The small collection with JSON as it is documented. -/
def jsonEnv : Env := { smallEnv with codec := jsonRecord smallEnv.lib }

/-- A record whose id is not UTF-8 is there before a restart and not after it: the log has it
under the replacement character. -/
theorem restart_loses_invalid_id : ∃ c c' : Collection,
    (engine jsonEnv).Reaches (fun _ _ => True) (.new jsonEnv) c ∧
    (openCollection jsonEnv).run [] c = .finished c' [] (.ok ()) ∧
    (c.get jsonEnv [] [0xff]).isOk = true ∧ (c'.get jsonEnv [] [0xff]).isOk = false := by
  have hreach := @Machine.Reaches.call _ _ _ (engine jsonEnv) (fun _ _ => True) (.new jsonEnv) _ .refl
    (smallUpsert [0xff]) trivial
  exact ⟨_, _, hreach, run_nil_of_eval (by decide +kernel), by decide +kernel,
    by decide +kernel⟩

end Restart

/-! ### Keys -/

/-- The records it is about. -/
def Mutation.pairs : Mutation → List (GoString × GoString)
  | .upsert record => [(record.ns, record.id)]
  | .delete ns id => [(ns, id)]
  | .batchUpsert records => records.map fun record => (record.ns, record.id)

section Keys

variable {env : Env} {c c' : Collection} {key : GoString}

lemma Mutation.apply_of_ne {mutation : Mutation} {live : Live}
    (h : ∀ pair ∈ mutation.pairs, recordKey pair.1 pair.2 ≠ key) :
    mutation.apply live key = live key := by
  cases mutation with
  | upsert record => exact Function.update_of_ne (h _ mem_cons_self).symm ..
  | delete ns id => exact Function.update_of_ne (h _ mem_cons_self).symm ..
  | batchUpsert records =>
    rw [apply]
    induction records generalizing live with
    | nil => rfl
    | cons record records ih =>
      rw [foldl_cons, ih (forall_mem_cons.1 h).2]
      exact Function.update_of_ne (h _ mem_cons_self).symm ..

lemma applySteps_apply_of_ne {steps : Steps} (shardID : ℕ) {live : Live}
    (h : ∀ step ∈ steps, ∀ pair ∈ step.2.pairs, recordKey pair.1 pair.2 ≠ key) :
    applySteps shardID live steps key = live key := by
  induction steps generalizing live with
  | nil => rfl
  | cons step steps ih =>
    rw [applySteps, foldl_cons]
    refine (ih (forall_mem_cons.1 h).2).trans ?_
    split
    · exact Mutation.apply_of_ne (h step mem_cons_self)
    · rfl

/-- What happens in a steady run is seen only at the keys of the mutations that are planned. -/
lemma Collection.Ready.sameAt_step (h : c.Ready env) (hcount : 0 < env.shardCount)
    {happening : Happening Request} (hsteady : Steady env c happening)
    (hstep : (engine env).Step c happening c') {ns id : GoString}
    (hkeys : ∀ step ∈ planned env c happening, ∀ pair ∈ step.2.pairs,
      recordKey pair.1 pair.2 ≠ recordKey ns id) : SameAt env ns id c c' := by
  obtain ⟨made, hmade, hadv⟩ := h.step hcount hsteady hstep
  refine h.sameAt hadv.ready hcount fun shardID hlt => ?_
  rw [hadv.lookup shardID hlt]
  exact applySteps_apply_of_ne shardID fun step hmem => hkeys step (hmade.subset hmem)

lemma SameAt.trans {ns id : GoString} {c'' : Collection} (h : SameAt env ns id c c')
    (h' : SameAt env ns id c' c'') : SameAt env ns id c c'' where
  get := h'.get.trans h.get
  records := h'.records.trans h.records
  matching filter record hns hid :=
    (h'.matching filter record hns hid).trans (h.matching filter record hns hid)
  count := h'.count.trans h.count

/-- In a run on sound records without a checkpoint of nothing, what happens to the record of one
namespace and id is not seen at another one with another key: neither at once, nor after a
restart, nor after a checkpoint and a restart.  A record that is read has the key it is read
with. -/
theorem other_keys_are_untouched (hcount : 0 < env.shardCount)
    (h : (engine env).Reaches (Steady env) (.new env) c) {happening : Happening Request}
    (hsteady : Steady env c happening) (hstep : (engine env).Step c happening c')
    {p q : GoString × GoString}
    (hnames : ∀ step ∈ planned env c happening, ∀ pair ∈ step.2.pairs, pair = p)
    (hkeys : recordKey p.1 p.2 ≠ recordKey q.1 q.2) :
    SameAt env q.1 q.2 c c' ∧
    (∃ c₁, (openCollection env).run [] c' = .finished c₁ [] (.ok ()) ∧ SameAt env q.1 q.2 c c₁) ∧
    (Steady env c' (.call .checkpoint []) → ∃ c₁ rest result c₂,
      (checkpoint env).run [] c' = .finished c₁ rest result ∧
      (openCollection env).run [] c₁ = .finished c₂ [] (.ok ()) ∧
      SameAt env q.1 q.2 c c₁ ∧ SameAt env q.1 q.2 c c₂) ∧
    ∀ record, c'.get env q.1 q.2 = .ok record →
      recordKey record.ns record.id = recordKey q.1 q.2 := by
  have hready := Collection.ready_of_reaches hcount h
  have hready' : c'.Ready env := by
    obtain ⟨made, -, hadv⟩ := hready.step hcount hsteady hstep
    exact hadv.ready
  have hsame : SameAt env q.1 q.2 c c' := hready.sameAt_step hcount hsteady hstep
    fun step hmem pair hpair => by rwa [hnames step hmem pair hpair]
  -- A restart names nothing.
  have hrestart : ∀ {c₁ c₂ : Collection}, c₁.Ready env →
      (openCollection env).run [] c₁ = .finished c₂ [] (.ok ()) → SameAt env q.1 q.2 c₁ c₂ :=
    fun hready hrun => @Collection.Ready.sameAt_step _ _ _ hready hcount .restart trivial
      (.restart (.ok hrun)) _ _ nofun
  refine ⟨hsame, ?_, fun hckp => ?_, fun record hget => ?_⟩
  · obtain ⟨c₁, hrun, -⟩ := hready'.eval_openCollection
    exact ⟨c₁, hrun, hsame.trans (hrestart hready' hrun)⟩
  · have hrun : (checkpoint env).run [] c' = _ := run_nil _ _
    have hstep' : (engine env).Step c' (.call .checkpoint []) _ := .call hrun
    have hsame₁ : SameAt env q.1 q.2 c' _ :=
      hready'.sameAt_step hcount hckp hstep' nofun
    obtain ⟨made, -, hadv⟩ := hready'.step hcount hckp hstep'
    obtain ⟨c₂, hrun', -⟩ := hadv.ready.eval_openCollection
    exact ⟨_, _, _, c₂, hrun, hrun', hsame.trans hsame₁,
      (hsame.trans hsame₁).trans (hrestart hadv.ready hrun')⟩
  · obtain ⟨base, hcoh⟩ := hready' _ (env.route_lt hcount q.1 q.2)
    exact hcoh.healthy.key_of_lookup (lookup_of_get hget)

/-- The theorem for two ids of the small collection. -/
theorem other_keys_are_untouched_two_ids : ∃ c c' : Collection,
    (engine smallEnv).Reaches (Steady smallEnv) (.new smallEnv) c ∧
    (engine smallEnv).Step c (.call (smallUpsert (bytes "b")) []) c' ∧
    (c'.records smallEnv).length = 2 ∧ SameAt smallEnv [] (bytes "a") c c' := by
  have hreach := @reaches_smallUpsert (bytes "a") (by decide +kernel)
  have hsteady := @steady_smallUpsert (bytes "b") (by decide +kernel)
    (((engine smallEnv).prog (smallUpsert (bytes "a"))).eval (.new smallEnv)).1
  have hstep : (engine smallEnv).Step _ (.call (smallUpsert (bytes "b")) []) _ :=
    .call (run_nil _ (((engine smallEnv).prog (smallUpsert (bytes "a"))).eval
      (.new smallEnv)).1)
  have hsame := other_keys_are_untouched Nat.one_pos hreach hsteady hstep
    (p := ([], bytes "b")) (q := ([], bytes "a")) (fun step hmem pair hpair => by
      rw [mem_plan_smallUpsert hmem] at hpair
      exact mem_singleton.1 hpair) (by decide +kernel)
  exact ⟨_, _, hreach, hstep, by decide +kernel, hsame.1⟩

def smallRecordIn (ns id : GoString) : Record := { smallRecord id with ns := ns }

/-- The key puts a zero byte between namespace and id, and both may contain it: a write in the
namespace `a` replaces the record of another namespace. -/
theorem key_collision_replaces_record : ∃ c c' : Collection,
    (engine smallEnv).Reaches (fun _ _ => True) (.new smallEnv) c ∧
    (engine smallEnv).Step c
      (.call (.upsert ⟨smallRecordIn (bytes "a") (bytes "b\x00c"), 1⟩) []) c' ∧
    (c.get smallEnv (bytes "a\x00b") (bytes "c")).map Record.ns = .ok (bytes "a\x00b") ∧
    (c'.get smallEnv (bytes "a\x00b") (bytes "c")).map Record.ns = .ok (bytes "a") := by
  have hreach := @Machine.Reaches.call _ _ _ (engine smallEnv) (fun _ _ => True) (.new smallEnv) _
    .refl (.upsert ⟨smallRecordIn (bytes "a\x00b") (bytes "c"), 1⟩) trivial
  have hstep : (engine smallEnv).Step _ (.call (.upsert ⟨smallRecordIn (bytes "a")
      (bytes "b\x00c"), 1⟩) []) _ :=
    .call (run_nil _ (((engine smallEnv).prog (.upsert ⟨smallRecordIn (bytes "a\x00b")
      (bytes "c"), 1⟩)).eval (.new smallEnv)).1)
  exact ⟨_, _, hreach, hstep, by decide +kernel, by decide +kernel⟩

end Keys

end GideonDB.Engine
