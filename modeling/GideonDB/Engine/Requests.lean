/-
Requests to a collection.

On each shard the operations of a collection do what the operations of a shard do.  So a request
applies its plan, the mutations of its shards one after the other: a part of it from the start
if it fails, all of it if it succeeds.  The files of the shards always stand for the records.
-/
import GideonDB.Engine.Collection

namespace GideonDB.Engine

open Go GideonDB.Core Store Collection List
open Prog hiding bind throw

/-! ### The shards of an operation -/

variable {shardID : ℕ}

section Follows

variable (env : Env)

lemma follows_onShard {α : Type} (shardID : ℕ) (p : Action α) :
    Follows (Collection.shard shardID) (onShard shardID p) p := Follows.zoom p

lemma follows_version {α : Type} {f : Collection → Collection} (hf : ∀ c, (f c).shards = c.shards)
    {k : Unit → Task α} {p : Action α} (h : Follows (Collection.shard shardID) (k ()) p) :
    Follows (Collection.shard shardID) (Prog.update f >>= k) p :=
  Follows.update (fun c => congrFun (hf c) shardID) (fun c _ _ => by rw [hf]) h

lemma follows_commitGroup (shardID : ℕ) (group : List Record) :
    Follows (Collection.shard shardID) (commitGroup env shardID group)
      (batchUpsert (env.ofShard shardID) group >>= fun _ => pure ()) := by
  rw [← bind_unit (commitGroup env shardID group), commitGroup, batchUpsert]
  simp only [bind_assoc]
  refine ((follows_onShard shardID _).mapError _).bind fun _ => ?_
  refine (follows_onShard shardID _).bind fun _ => (follows_onShard shardID _).bind fun _ => ?_
  exact .pure ()

lemma follows_delete (ns id : GoString) :
    Follows (Collection.shard (env.route ns id)) (Collection.delete env ns id)
      (Engine.delete (env.ofShard (env.route ns id)) ns id) := by
  refine .bind_state fun c => ?_
  rw [show (Collection.shard (env.route ns id)).get c = c.shards (env.route ns id) from rfl]
  cases (c.shards (env.route ns id)).shard.get ns id with
  | error err => exact .throw _ _
  | ok record =>
    refine (follows_onShard _ _).bind fun _ => (follows_onShard _ _).bind fun _ => ?_
    refine follows_version (fun _ => by rfl) ?_
    exact (follows_onShard _ _).bind fun _ => .pure _

lemma follows_restoreAll (shardID : ℕ) (records : List Record) :
    Follows (Collection.shard shardID) (Collection.restoreAll env shardID records)
      (restoreAll (env.ofShard shardID) records) := by
  induction records with
  | nil => exact Follows.pure ()
  | cons record records ih =>
    rw [Collection.restoreAll, restoreAll]
    refine (Follows.ofExcept _).bind fun _ => follows_version (fun _ => by rfl) ?_
    exact (follows_onShard _ _).bind fun _ => ih

section

variable (shardID : ℕ) (key : GoString) (entry : LedgerEntry)

lemma follows_commitTail (sequence : ℕ) :
    Follows (Collection.shard shardID)
      (onShard shardID (Prog.update fun n =>
          { n with commits := n.commits ++ [⟨key, entry.records, sequence⟩] }) >>= fun _ =>
        Collection.restoreAll env shardID entry.records >>= fun _ =>
        onShard shardID (Prog.update fun n => { n with
          ledger := n.ledger.set key { entry with completed := true, sequence := sequence } }) >>=
        fun _ => onShard shardID (persistIdempotency (env.ofShard shardID)) >>= fun ok =>
        if ok then onShard shardID (afterMutation (env.ofShard shardID) entry.records.length) >>=
          fun _ => (pure (entry.records, sequence) : Task _) else .throw .io)
      (Prog.update (fun n : Node => { n with
          commits := n.commits ++ [⟨key, entry.records, sequence⟩] }) >>= fun _ =>
        restoreAll (env.ofShard shardID) entry.records >>= fun _ =>
        Prog.update (fun n : Node => { n with
          ledger := n.ledger.set key { entry with completed := true, sequence := sequence } }) >>=
        fun _ => persistIdempotency (env.ofShard shardID) >>= fun ok =>
        if ok then afterMutation (env.ofShard shardID) entry.records.length >>= fun _ =>
          (pure (entry.records, sequence) : Action _) else Prog.throw .io) := by
  refine (follows_onShard _ _).bind fun _ => (follows_restoreAll env _ _).bind fun _ =>
    (follows_onShard _ _).bind fun _ => (follows_onShard _ _).bind fun ok => ?_
  split
  · exact (follows_onShard _ _).bind fun _ => .pure _
  · exact .throw _ _

lemma follows_commitReservedBatch :
    Follows (Collection.shard shardID) (Collection.commitReservedBatch env shardID key entry)
      (commitReservedBatch (env.ofShard shardID) key entry) :=
  (follows_onShard _ _).bind fun sequence => follows_commitTail env shardID key entry sequence

lemma follows_reserveBatch :
    Follows (Collection.shard shardID) (Collection.reserveBatch env shardID key entry)
      (reserveBatch (env.ofShard shardID) key entry) := by
  refine (follows_onShard _ _).bind fun _ => (follows_onShard _ _).bind fun ok => ?_
  split
  · exact follows_commitReservedBatch env _ _ _
  · exact (follows_onShard _ _).bind fun _ => .throw _ _

end

end Follows

/-! ### Plans -/

/-- The records as they are prepared, from a version on. -/
def storeAll (version : ℕ) : List Item → List Record
  | [] => []
  | item :: items => item.stored (version + 1) :: storeAll (version + 1) items

/-- Assigns new versions. -/
def Collection.assign (c : Collection) (count : ℕ) : Collection :=
  { c with
    version := c.version + count
    assigned := c.assigned ++ List.range' (c.version + 1) count }

/-- The calls of a client. -/
inductive Request
  | upsert (item : Item)
  | batchUpsert (items : List Item)
  | delete (ns id : GoString)
  | deleteShardWithSequence (shardID : ℕ) (ns id : GoString)
  | batchUpsertShardIdempotent (shardID : ℕ) (items : List Item) (key : GoString)
  | checkpoint

/-- The mutations of a request, each with its shard, in the order in which they are made. -/
abbrev Steps := List (ℕ × Mutation)

namespace Request

variable (env : Env)

/-- The call itself. -/
def task : Request → Task Unit
  | upsert item => Collection.upsert env item >>= fun _ => pure ()
  | batchUpsert items => Collection.batchUpsert env items >>= fun _ => pure ()
  | delete ns id => Collection.delete env ns id >>= fun _ => pure ()
  | deleteShardWithSequence shardID ns id =>
    Engine.deleteShardWithSequence env shardID ns id >>= fun _ => pure ()
  | batchUpsertShardIdempotent shardID items key =>
    Engine.batchUpsertShardIdempotent env shardID items key >>= fun _ => pure ()
  | checkpoint => Collection.checkpoint env

/-- All records pass the checks of `PrepareUpsert`. -/
def Prepares (items : List Item) : Prop := ∀ item ∈ items, checkUpsert env item.record = .ok ()
deriving Decidable

/-- Those of one shard. -/
def group (prepared : List Record) (shardID : ℕ) : List Record :=
  prepared.filter fun record => env.route record.ns record.id = shardID

/-- Shard by shard. -/
def groups (prepared : List Record) (shardIDs : List ℕ) : Steps :=
  shardIDs.map fun shardID => (shardID, .batchUpsert (group env prepared shardID))

/-- The deletion of a record, if it is there. -/
def deletion (c : Collection) (ns id : GoString) : Steps :=
  if ((c.shards (env.route ns id)).shard.lookup (recordKey ns id)).isSome then
    [(env.route ns id, .delete ns id)] else []

/-- The commit of a batch that the ledger has reserved. -/
def retried (shardID : ℕ) (retained : LedgerEntry) : Steps :=
  if retained.completed then [] else [(shardID, .batchUpsert retained.records)]

/-- The mutations that the request makes if it succeeds. -/
def plan (c : Collection) : Request → Steps
  | upsert item =>
    if Prepares env [item] then [(env.route item.record.ns item.record.id,
      .upsert (item.stored (c.version + 1)))] else []
  | batchUpsert items =>
    let prepared := storeAll c.version items
    if Prepares env items then groups env prepared (shardsOf env prepared) else []
  | delete ns id => deletion env c ns id
  | deleteShardWithSequence _ ns id => deletion env c ns id
  | batchUpsertShardIdempotent shardID items key =>
    match if key = [] then none else (c.shards shardID).ledger.get key with
    | some retained => retried shardID retained
    | none =>
      if Prepares env items then [(shardID, .batchUpsert (storeAll c.version items))] else []
  | checkpoint => []

/-- It writes sound records. -/
def Sound (c : Collection) (request : Request) : Prop :=
  ∀ step ∈ request.plan env c, step.2.Sound (env.ofShard step.1)

/-- The request makes a checkpoint of nothing. -/
def Empties (c : Collection) : Request → Prop
  | delete ns id =>
    DeleteEmpties (env.ofShard (env.route ns id)) (c.shards (env.route ns id)) ns id
  | deleteShardWithSequence _ ns id =>
    DeleteEmpties (env.ofShard (env.route ns id)) (c.shards (env.route ns id)) ns id
  | checkpoint => ∃ shardID < env.shardCount, NetEmpty (c.shards shardID)
  | _ => False

end Request

/-- The request makes a checkpoint, or may have one following. -/
def Request.Checkpoints (env : Env) (c : Collection) (request : Request) : Prop :=
  request = .checkpoint ∨ ∃ step ∈ request.plan env c, Due env (c.shards step.1) step.2.count

/-- The steps on one shard. -/
def applySteps (shardID : ℕ) (live : Live) (steps : Steps) : Live :=
  steps.foldl (fun live step => if step.1 = shardID then step.2.apply live else live) live

lemma applySteps_append (shardID : ℕ) (live : Live) (steps steps' : Steps) :
    applySteps shardID live (steps ++ steps') =
      applySteps shardID (applySteps shardID live steps) steps' := foldl_append ..

lemma applySteps_singleton (shardID : ℕ) (live : Live) (mutation : Mutation) :
    applySteps shardID live [(shardID, mutation)] = mutation.apply live := if_pos rfl

lemma applySteps_of_ne {live : Live} {steps : Steps}
    (h : ∀ step ∈ steps, step.1 ≠ shardID) : applySteps shardID live steps = live := by
  induction steps generalizing live with
  | nil => rfl
  | cons step steps ih =>
    rw [applySteps, foldl_cons, if_neg (h step mem_cons_self)]
    exact ih (forall_mem_cons.1 h).2

/-! ### What requests do -/

/-- The files of all shards stand for their records. -/
def Collection.Ready (env : Env) (c : Collection) : Prop :=
  ∀ shardID < env.shardCount, Engine.Ready (env.ofShard shardID) (c.shards shardID)

/-- The collection after some mutations. -/
structure Advanced (env : Env) (steps : Steps) (c c' : Collection) : Prop where
  ready : c'.Ready env
  lookup : ∀ shardID < env.shardCount, (c'.shards shardID).shard.lookup =
    applySteps shardID (c.shards shardID).shard.lookup steps

/-- The files that a crash after some mutations leaves. -/
def Leftover (env : Env) (steps : Steps) (c c' : Collection) : Prop :=
  ∀ shardID < env.shardCount, ∃ base next, Durable (env.ofShard shardID) (c'.shards shardID).disk
    base (applySteps shardID (c.shards shardID).shard.lookup steps) next

/-- The mutations have been made up to some point, all of them in case of success. -/
def Progress (env : Env) (steps : Steps) (c : Collection) (ok : Prop) (c' : Collection) : Prop :=
  ∃ made, made <+: steps ∧ (ok → made = steps) ∧ Advanced env made c c'

/-- A crash after the mutations have been made up to some point. -/
def Interrupted (env : Env) (steps : Steps) (c c' : Collection) : Prop :=
  ∃ made, made <+: steps ∧ Leftover env made c c'

/-- The task makes the mutations, in order. -/
def Performs {α : Type} (env : Env) (faulty : Prop) (steps : Steps) (p : Task α)
    (c : Collection) : Prop :=
  p.wp faulty (fun result => Progress env steps c (∃ a, result = .ok a)) (Interrupted env steps c) c

variable {empty : Prop} {item : Item} {C : Collection → Prop} {items : List Item}
  {prepared : List Record} {shardIDs : List ℕ}

section Execution

variable {env : Env} {faulty : Prop} {c c' c'' : Collection} {steps steps' : Steps} {α β : Type}

lemma Collection.Ready.of_shards (h : c.Ready env) (hshards : c'.shards = c.shards) :
    c'.Ready env := by
  rw [Collection.Ready, hshards]
  exact h

lemma Collection.Ready.advanced (h : c.Ready env) : Advanced env [] c c := ⟨h, fun _ _ => rfl⟩

lemma Collection.Ready.leftover (h : c.Ready env) : Leftover env [] c c := by
  intro shardID hlt
  obtain ⟨base, hcoh⟩ := h shardID hlt
  exact ⟨base, _, hcoh.durable⟩

lemma Advanced.trans (h : Advanced env steps c c') (h' : Advanced env steps' c' c'') :
    Advanced env (steps ++ steps') c c'' := by
  refine ⟨h'.ready, fun shardID hlt => ?_⟩
  rw [h'.lookup shardID hlt, h.lookup shardID hlt, applySteps_append]

lemma Advanced.leftover (h : Advanced env steps c c') (h' : Leftover env steps' c' c'') :
    Leftover env (steps ++ steps') c c'' := by
  intro shardID hlt
  rw [applySteps_append, ← h.lookup shardID hlt]
  exact h' shardID hlt

lemma Progress.congr {ok ok' : Prop} (h : Progress env steps c ok c') (hok : ok' → ok) :
    Progress env steps c ok' c' := by
  obtain ⟨made, hmade, hall, hadv⟩ := h
  exact ⟨made, hmade, fun h => hall (hok h), hadv⟩

lemma Collection.Ready.failed (h : c.Ready env) (hshards : c'.shards = c.shards) (err : Error) :
    Progress env steps c (∃ a : α, Except.error err = .ok a) c' := by
  refine ⟨[], nil_prefix, fun ⟨_, ha⟩ => (by cases ha), h.of_shards hshards,
    fun shardID _ => ?_⟩
  rw [hshards]
  rfl

variable {p : Task α}

namespace Performs

lemma throw (h : c.Ready env) (err : Error) :
    Performs env faulty steps (Prog.throw err : Task α) c := h.failed (by rfl) err

lemma pure (h : c.Ready env) (a : α) : Performs env faulty [] (pure a : Task α) c :=
  ⟨[], nil_prefix, fun _ => rfl, h.advanced⟩

lemma map (h : Performs env faulty steps p c) (f : α → β) :
    Performs env faulty steps (p >>= fun a => (Pure.pure (f a) : Task β)) c :=
  wp_seq h (fun a _ hc' => hc'.congr fun _ => ⟨a, rfl⟩)
    fun _ _ hc' => hc'.congr fun ⟨_, ha⟩ => by cases ha

lemma of_shards {c₁ : Collection} (h : Performs env faulty steps p c₁)
    (hshards : c₁.shards = c.shards) :
    p.wp faulty (fun result => Progress env steps c (∃ a, result = .ok a))
      (Interrupted env steps c) c₁ := by
  refine wp_mono h (fun _ c' hc' => ?_) fun c' hc' => ?_
  · obtain ⟨made, hmade, hok, hready, hlook⟩ := hc'
    rw [hshards] at hlook
    exact ⟨made, hmade, hok, hready, hlook⟩
  · obtain ⟨made, hmade, hleft⟩ := hc'
    rw [Leftover, hshards] at hleft
    exact ⟨made, hmade, hleft⟩

/-- One part of the mutations after the other; what the first leaves may be used for the second. -/
lemma seq (steps : Steps) {R : Collection → Prop} {k : α → Task β}
    (hp : p.wp faulty (fun result c' => R c' ∧ Progress env steps c (∃ a, result = .ok a) c')
      (Interrupted env steps c) c)
    (hk : ∀ a c', R c' → c'.Ready env → Performs env faulty steps' (k a) c') :
    Performs env faulty (steps ++ steps') (p >>= k) c := by
  have hcrash : ∀ c', Interrupted env steps c c' → Interrupted env (steps ++ steps') c c' :=
    fun c' ⟨made, hmade, hleft⟩ => ⟨made, hmade.trans (prefix_append _ _), hleft⟩
  refine wp_seq (wp_mono hp (fun _ _ => id) hcrash) (fun a c' hc' => ?_)
    fun err c' hc' => ?_
  · obtain ⟨hR, made, hmade, hok, hadv⟩ := hc'
    obtain rfl := hok ⟨a, rfl⟩
    refine wp_mono (hk a c' hR hadv.ready) (fun result c'' hc'' => ?_) fun c'' hc'' => ?_
    · obtain ⟨made', hmade', hok', hadv'⟩ := hc''
      refine ⟨made ++ made', (prefix_append_right_inj _).2 hmade', fun h => ?_,
        hadv.trans hadv'⟩
      rw [hok' h]
    · obtain ⟨made', hmade', hleft⟩ := hc''
      exact ⟨made ++ made', (prefix_append_right_inj _).2 hmade', hadv.leftover hleft⟩
  · obtain ⟨-, made, hmade, -, hadv⟩ := hc'
    exact ⟨made, hmade.trans (prefix_append _ _), (fun ⟨_, ha⟩ => by cases ha), hadv⟩

end Performs

variable {t : Task α}

/-- A computation on one shard that executes at most one mutation. -/
lemma Collection.Ready.wp_shard (h : c.Ready env) (hlt : shardID < env.shardCount)
    (mutation? : Option Mutation) {p : Action α} (hfol : Follows (Collection.shard shardID) t p)
    (hexecutes : ∀ base, Coherent (env.ofShard shardID) base (c.shards shardID) →
      Executes (env.ofShard shardID) faulty base mutation? empty p (c.shards shardID))
    (hempty : ¬ empty) :
    t.wp faulty (fun result c' => (Collection.shard shardID).same c c' ∧ Progress env
        (mutation?.toList.map fun mutation => (shardID, mutation)) c (∃ a, result = .ok a) c')
      (Interrupted env (mutation?.toList.map fun mutation => (shardID, mutation)) c) c := by
  obtain ⟨base, hcoh⟩ := h shardID hlt
  refine wp_mono (hfol _ _ _ c (hexecutes base hcoh)) (fun result c' hc' => ?_)
    fun c' hc' => ?_
  · obtain ⟨hsame, result', hres', hexec⟩ := hc'
    obtain ⟨⟨base', hcoh', -⟩, heffect⟩ := hexec fun hempty' => absurd hempty' hempty
    have hready : c'.Ready env := by
      intro other hother
      by_cases hne : other = shardID
      · exact hne ▸ ⟨base', hcoh'⟩
      · rw [hsame other hne]
        exact h other hother
    have hadv : ∀ made : Steps, (∀ step ∈ made, step.1 = shardID) →
        (c'.shards shardID).shard.lookup =
          applySteps shardID (c.shards shardID).shard.lookup made → Advanced env made c c' := by
      refine fun made hmade hlook => ⟨hready, fun other hother => ?_⟩
      by_cases hne : other = shardID
      · rw [hne]
        exact hlook
      · rw [hsame other hne]
        exact (applySteps_of_ne fun step hmem => (hmade step hmem).symm ▸ Ne.symm hne).symm
    have hok : (∃ a, result = .ok a) → ∃ a, result' = .ok a := by
      rintro ⟨a, rfl⟩
      cases result' with
      | ok a' => exact ⟨a', rfl⟩
      | error err => cases hres'
    refine ⟨hsame, ?_⟩
    cases mutation? with
    | none => exact ⟨[], nil_prefix, fun _ => rfl, hadv [] (by simp) heffect.1⟩
    | some mutation =>
      rcases heffect with ⟨hlook, -⟩ | ⟨hfailed, hlook, -⟩
      · exact ⟨[(shardID, mutation)], prefix_refl _, fun _ => rfl, hadv _ (by simp)
          (hlook.trans (applySteps_singleton _ _ _).symm)⟩
      · exact ⟨[], nil_prefix, fun hres => absurd (hok hres) hfailed,
          hadv [] (by simp) hlook⟩
  · obtain ⟨hsame, hcrash⟩ := hc'
    obtain ⟨base', live, next, hdur, hlive⟩ := hcrash fun hempty' => absurd hempty' hempty
    have hleft : ∀ made : Steps, (∀ step ∈ made, step.1 = shardID) →
        live = applySteps shardID (c.shards shardID).shard.lookup made → Leftover env made c c' := by
      intro made hmade hlook other hother
      by_cases hne : other = shardID
      · subst hne
        exact ⟨base', next, hlook ▸ hdur⟩
      · rw [hsame other hne,
          applySteps_of_ne fun step hmem => (hmade step hmem).symm ▸ Ne.symm hne]
        exact h.leftover other hother
    rcases hlive with ⟨hlive, -⟩ | ⟨mutation, hmut, hlive, -⟩
    · exact ⟨[], nil_prefix, hleft [] (by simp) hlive⟩
    · obtain rfl := Option.mem_def.1 hmut
      exact ⟨[(shardID, mutation)], prefix_refl _, hleft _ (by simp)
        (hlive.trans (applySteps_singleton _ _ _).symm)⟩

lemma Collection.Ready.performs_shard (h : c.Ready env) (hlt : shardID < env.shardCount)
    {mutation : Mutation} {p : Action α} (hfol : Follows (Collection.shard shardID) t p)
    (hexecutes : ∀ base, Coherent (env.ofShard shardID) base (c.shards shardID) →
      Executes (env.ofShard shardID) faulty base (some mutation) empty p (c.shards shardID))
    (hempty : ¬ empty) : Performs env faulty [(shardID, mutation)] t c :=
  wp_mono (h.wp_shard hlt (some mutation) hfol hexecutes hempty) (fun _ _ hc' => hc'.2) fun _ => id

/-! ### Preparation -/

lemma Collection.assign_zero (c : Collection) : c.assign 0 = c := by
  simp [assign]

lemma Collection.assign_assign (c : Collection) (count count' : ℕ) :
    (c.assign count).assign count' = c.assign (count + count') := by
  simp only [assign, append_assoc, Nat.add_assoc, Collection.mk.injEq, true_and,
    append_cancel_left_eq]
  rw [← range'_append_1]
  congr 2
  omega

lemma wp_prepareUpsert {Q : Except Error Record → Collection → Prop}
    (hok : checkUpsert env item.record = .ok () →
      Q (.ok (item.stored (c.version + 1))) (c.assign 1))
    (herr : ∀ err, checkUpsert env item.record ≠ .ok () → Q (.error err) c) :
    (prepareUpsert env item).wp faulty Q C c := by
  rw [prepareUpsert, wp_bind, wp_ofExcept]
  cases hcheck : checkUpsert env item.record with
  | error err => exact herr err (by rw [hcheck]; rintro ⟨⟩)
  | ok _ => exact hok hcheck

lemma wp_prepareAll {position : ℕ} {Q : Except Error (List Record) → Collection → Prop}
    (hok : Request.Prepares env items → Q (.ok (storeAll c.version items)) (c.assign items.length))
    (herr : ∀ err count, ¬ Request.Prepares env items → Q (.error err) (c.assign count)) :
    (prepareAll env position items).wp faulty Q C c := by
  induction items generalizing c position Q with
  | nil =>
    have hnil := hok nofun
    rwa [length_nil, assign_zero] at hnil
  | cons item items ih =>
    rw [prepareAll, wp_bind]
    refine wp_mapError (wp_prepareUpsert (fun hcheck => ?_) fun err hcheck => ?_)
    · change Prog.wp faulty Q C (prepareAll env (position + 1) items >>= _) (c.assign 1)
      rw [wp_bind]
      refine ih (fun hpreps => ?_) fun err count hpreps => ?_
      · rw [assign_assign, Nat.add_comm 1 items.length]
        exact hok (forall_mem_cons.2 ⟨hcheck, hpreps⟩)
      · rw [assign_assign]
        exact herr err _ fun h => hpreps (forall_mem_cons.1 h).2
    · have hfailed := herr (.record position err) 0 fun h => hcheck (h item mem_cons_self)
      rwa [assign_zero] at hfailed

/-! ### Each request -/

/-- The cases of `BatchUpsertShardIdempotent`, each with its plan. -/
lemma batchUpsertShardIdempotent_cases {P : Task (List Record × ℕ) → Steps → Prop} {key : GoString}
    (hstate : ∀ {k : Collection → Task (List Record × ℕ)} {steps},
      P (k c) steps → P (Prog.state >>= k) steps)
    (hthrow : ∀ err steps, P (Prog.throw err) steps) (hpure : ∀ a, P (pure a) [])
    (hbatch : shardID < env.shardCount → P (prepareShardBatch env shardID items >>= fun prepared =>
        onShard shardID (Engine.batchUpsert (env.ofShard shardID) prepared))
      (if Request.Prepares env items then [(shardID, .batchUpsert (storeAll c.version items))]
        else []))
    (hretry : shardID < env.shardCount → key ≠ [] → ∀ retained,
      (c.shards shardID).ledger.get key = some retained →
        P (Collection.commitReservedBatch env shardID key retained)
          [(shardID, .batchUpsert retained.records)])
    (hreserve : shardID < env.shardCount → key ≠ [] → (c.shards shardID).ledger.get key = none →
      P (prepareShardBatch env shardID items >>= fun prepared => Collection.reserveBatch env shardID
          key ⟨env.requestDigest (items.map Item.record), prepared, false, 0⟩)
        (if Request.Prepares env items then [(shardID, .batchUpsert (storeAll c.version items))]
          else [])) :
    P (batchUpsertShardIdempotent env shardID items key)
      ((Request.batchUpsertShardIdempotent shardID items key).plan env c) := by
  rw [batchUpsertShardIdempotent, Request.plan]
  split
  · exact hthrow _ _
  by_cases hlt : env.shardCount ≤ shardID
  · rw [if_pos hlt]
    exact hthrow _ _
  rw [if_neg hlt]
  by_cases hkey : key = []
  · rw [if_pos hkey, if_pos hkey]
    exact hbatch (not_le.1 hlt)
  rw [if_neg hkey, if_neg hkey]
  split
  · exact hthrow _ _
  refine hstate ?_
  cases hget : (c.shards shardID).ledger.get key with
  | none => exact hreserve (not_le.1 hlt) hkey hget
  | some retained =>
    dsimp only
    rw [Collection.retryBatch, Request.retried]
    split
    · exact hthrow _ _
    split
    · exact hpure _
    · exact hretry (not_le.1 hlt) hkey retained hget

lemma Env.route_lt (hcount : 0 < env.shardCount) (ns id : GoString) :
    env.route ns id < env.shardCount := Nat.mod_lt _ hcount

lemma Collection.Ready.performs_upsert (h : c.Ready env) (hcount : 0 < env.shardCount)
    (hsound : (Request.upsert item).Sound env c)
    (hdue : faulty → ∀ step ∈ (Request.upsert item).plan env c,
      ¬ Due env (c.shards step.1) step.2.count) :
    Performs env faulty ((Request.upsert item).plan env c) (upsert env item) c := by
  rw [Request.Sound] at hsound
  rw [Request.plan] at hsound hdue ⊢
  have hpreps : checkUpsert env item.record = .ok () ↔ Request.Prepares env [item] := by
    simp [Request.Prepares]
  rw [upsert, Performs, wp_bind]
  refine wp_prepareUpsert (fun hcheck => ?_) fun err hcheck => ?_
  · rw [if_pos (hpreps.1 hcheck)] at hsound hdue ⊢
    have hready : (c.assign 1).Ready env := h.of_shards rfl
    refine (hready.performs_shard (env.route_lt hcount _ _) (follows_onShard _ _)
      (fun base hcoh => ?_) not_false).of_shards rfl
    exact hcoh.executes_upsert (hsound _ mem_cons_self) (fun hf => hdue hf _ mem_cons_self) False
  · exact h.failed (by rfl) err

lemma Collection.Ready.performs_commitGroups (h : c.Ready env)
    (hnodup : shardIDs.Nodup) (hlt : ∀ shardID ∈ shardIDs, shardID < env.shardCount)
    (hsound : ∀ step ∈ Request.groups env prepared shardIDs, step.2.Sound (env.ofShard step.1))
    (hfaulty : faulty → ∀ step ∈ Request.groups env prepared shardIDs,
      ¬ Due env (c.shards step.1) step.2.count) :
    Performs env faulty (Request.groups env prepared shardIDs) (commitGroups env prepared shardIDs)
      c := by
  induction shardIDs generalizing c with
  | nil => exact .pure h ()
  | cons shardID shardIDs ih =>
    rw [Request.groups, map_cons] at hsound hfaulty ⊢
    refine Performs.seq [(shardID, .batchUpsert (Request.group env prepared shardID))]
      (h.wp_shard (hlt shardID mem_cons_self)
        (some (.batchUpsert (Request.group env prepared shardID)))
        (follows_commitGroup env shardID _) (fun base hcoh => ?_) not_false)
      fun _ c' hsame hready => ?_
    · exact (hcoh.executes_batchUpsert (hsound _ mem_cons_self)
        (fun hf => hfaulty hf _ mem_cons_self) False).discard
    · obtain ⟨hnot, hnodup⟩ := nodup_cons.1 hnodup
      refine ih hready hnodup (forall_mem_cons.1 hlt).2
        (forall_mem_cons.1 hsound).2 fun hf step hmem => ?_
      -- The other shards are as they were.
      obtain ⟨other, hother, rfl⟩ := mem_map.1 hmem
      have hne : other ≠ shardID := fun heq => hnot (heq ▸ hother)
      rw [hsame other hne]
      exact hfaulty hf _ (mem_cons_of_mem _ hmem)

lemma nodup_shardsOf (prepared : List Record) : (shardsOf env prepared).Nodup :=
  List.nodup_range.filter _

lemma lt_of_mem_shardsOf (h : shardID ∈ shardsOf env prepared) : shardID < env.shardCount :=
  mem_range.1 (mem_of_mem_filter h)

section

variable (h : c.Ready env)

include h

lemma Collection.Ready.performs_batchUpsert (hsound : (Request.batchUpsert items).Sound env c)
    (hdue : faulty → ∀ step ∈ (Request.batchUpsert items).plan env c,
      ¬ Due env (c.shards step.1) step.2.count) :
    Performs env faulty ((Request.batchUpsert items).plan env c) (batchUpsert env items) c := by
  rw [Request.Sound] at hsound
  rw [Request.plan] at hsound hdue ⊢
  rw [batchUpsert]
  by_cases hsize : items = [] ∨ 10000 < items.length
  · rw [if_pos hsize]
    exact .throw h _
  rw [if_neg hsize, Performs, wp_bind]
  refine wp_prepareAll (fun hpreps => ?_) fun err count hpreps => ?_
  · rw [if_pos hpreps] at hsound hdue ⊢
    have hready : (c.assign items.length).Ready env := h.of_shards rfl
    have hperforms := hready.performs_commitGroups (nodup_shardsOf _)
      (fun _ => lt_of_mem_shardsOf) hsound hdue
    exact (hperforms.map _).of_shards rfl
  · rw [after_error]
    exact h.failed (by rfl) err

lemma Collection.Ready.performs_delete (hcount : 0 < env.shardCount) {ns id : GoString}
    (hsound : ∀ step ∈ Request.deletion env c ns id, step.2.Sound (env.ofShard step.1))
    (hempt : ¬ (Request.delete ns id).Empties env c)
    (hfaulty : faulty → ∀ step ∈ Request.deletion env c ns id,
      ¬ Due env (c.shards step.1) step.2.count) :
    Performs env faulty (Request.deletion env c ns id) (Collection.delete env ns id) c := by
  rw [Request.deletion] at hsound hfaulty ⊢
  by_cases hsome : ((c.shards (env.route ns id)).shard.lookup (recordKey ns id)).isSome = true
  · rw [if_pos hsome] at hsound hfaulty ⊢
    refine h.performs_shard (env.route_lt hcount ns id) (follows_delete env ns id)
      (fun base hcoh => ?_) hempt
    exact hcoh.executes_delete (hsound _ mem_cons_self)
      fun hf => hfaulty hf _ mem_cons_self
  · -- The record is not there.
    rw [if_neg hsome, Collection.delete]
    have hnone := Option.not_isSome_iff_eq_none.1 hsome
    refine wp_bind_state ?_
    rw [Shard.get_eq, hnone]
    exact Performs.throw h _

lemma Collection.Ready.performs_prepareShardBatch {k : List Record → Task α}
    (hk : Request.Prepares env items →
      Performs env faulty steps (k (storeAll c.version items)) (c.assign items.length)) :
    Performs env faulty (if Request.Prepares env items then steps else [])
      (prepareShardBatch env shardID items >>= k) c := by
  rw [prepareShardBatch, bind_assoc, Performs, wp_bind, wp_ofExcept]
  cases items.zipIdx.forM (checkShardRecord env shardID) with
  | error err => exact h.failed (by rfl) err
  | ok _ =>
    rw [after_ok, wp_bind]
    refine wp_prepareAll (fun hpreps => ?_) fun err count hpreps => ?_
    · rw [if_pos hpreps]
      exact (hk hpreps).of_shards rfl
    · rw [after_error]
      exact h.failed (by rfl) err

lemma Collection.Ready.performs_batchUpsertShardIdempotent {key : GoString}
    (hsound : (Request.batchUpsertShardIdempotent shardID items key).Sound env c)
    (hdue : faulty → ∀ step ∈ (Request.batchUpsertShardIdempotent shardID items key).plan env c,
      ¬ Due env (c.shards step.1) step.2.count) :
    Performs env faulty ((Request.batchUpsertShardIdempotent shardID items key).plan env c)
      (batchUpsertShardIdempotent env shardID items key) c := by
  have hready : (c.assign items.length).Ready env := h.of_shards rfl
  refine batchUpsertShardIdempotent_cases (P := fun p steps =>
    (∀ step ∈ steps, step.2.Sound (env.ofShard step.1)) →
      (faulty → ∀ step ∈ steps, ¬ Due env (c.shards step.1) step.2.count) →
        Performs env faulty steps p c) id (fun err _ _ _ => .throw h err) (fun a _ _ => .pure h a)
    (fun hlt hsound hdue => ?_) (fun hlt _ retained _ hsound hdue => ?_)
    (fun hlt _ _ hsound hdue => ?_) hsound hdue
  · refine h.performs_prepareShardBatch fun hpreps => ?_
    rw [if_pos hpreps] at hsound hdue
    refine hready.performs_shard hlt (follows_onShard _ _) (fun base hcoh => ?_) not_false
    exact hcoh.executes_batchUpsert (hsound _ mem_cons_self)
      (fun hf => hdue hf _ mem_cons_self) False
  · refine h.performs_shard hlt (follows_commitReservedBatch env _ _ _) (fun base hcoh => ?_)
      not_false
    exact hcoh.executes_commitReservedBatch key (hsound _ mem_cons_self)
      (fun hf => hdue hf _ mem_cons_self) False
  · refine h.performs_prepareShardBatch fun hpreps => ?_
    rw [if_pos hpreps] at hsound hdue
    refine hready.performs_shard hlt (follows_reserveBatch env _ _ _)
      (fun base hcoh => ?_) not_false
    exact @Coherent.executes_reserveBatch _ _ _ base hcoh key
      ⟨env.requestDigest (items.map Item.record), storeAll c.version items, false, 0⟩
      (hsound _ mem_cons_self) (fun hf => hdue hf _ mem_cons_self) False

lemma Collection.Ready.performs_checkpointAll (hnodup : shardIDs.Nodup)
    (hlt : ∀ shardID ∈ shardIDs, shardID < env.shardCount)
    (hempt : ∀ shardID ∈ shardIDs, ¬ NetEmpty (c.shards shardID)) (hfaulty : ¬ faulty) :
    Performs env faulty [] (checkpointAll env shardIDs) c := by
  induction shardIDs generalizing c with
  | nil => exact .pure h ()
  | cons shardID shardIDs ih =>
    refine .seq [] (h.wp_shard (hlt shardID mem_cons_self) none
      (follows_onShard shardID _) (fun base hcoh => ?_)
      (hempt shardID mem_cons_self)) fun _ c' hsame hready => ?_
    · exact @Coherent.executes_prog _ _ _ base hcoh .checkpoint
        nofun nofun
        fun hf => absurd hf hfaulty
    · obtain ⟨hnot, hnodup⟩ := nodup_cons.1 hnodup
      refine ih hready hnodup (forall_mem_cons.1 hlt).2
        fun other hmem => ?_
      rw [hsame other fun heq => hnot (heq ▸ hmem)]
      exact hempt other (mem_cons_of_mem _ hmem)

/-- A request makes the mutations of its plan, in order, unless one of them makes a checkpoint of
nothing.  File operations may fail if no checkpoint is due. -/
theorem Collection.Ready.performs (hcount : 0 < env.shardCount) {request : Request}
    (hsound : request.Sound env c) (hempt : ¬ request.Empties env c)
    (hfaulty : faulty → ¬ request.Checkpoints env c) :
    Performs env faulty (request.plan env c) (request.task env) c := by
  have hdue : faulty → ∀ step ∈ request.plan env c, ¬ Due env (c.shards step.1) step.2.count :=
    fun hf step hmem hdue => hfaulty hf (.inr ⟨step, hmem, hdue⟩)
  cases request with
  | upsert item => exact (h.performs_upsert hcount hsound hdue).map _
  | batchUpsert items => exact (h.performs_batchUpsert hsound hdue).map _
  | delete ns id => exact (h.performs_delete hcount hsound hempt hdue).map _
  | deleteShardWithSequence shardID ns id =>
    refine Performs.map ?_ _
    rw [deleteShardWithSequence]
    split
    · exact .throw h _
    split
    · exact .throw h _
    · exact h.performs_delete hcount hsound hempt hdue
  | batchUpsertShardIdempotent shardID items key =>
    exact (h.performs_batchUpsertShardIdempotent hsound hdue).map _
  | checkpoint =>
    exact h.performs_checkpointAll nodup_range (fun _ => mem_range.1)
      (fun shardID hmem hnet => hempt ⟨shardID, mem_range.1 hmem, hnet⟩)
      fun hf => hfaulty hf (.inl rfl)

end

end Execution

end GideonDB.Engine
