/-
Mutations in memory.

A shard is healthy if it refines a map, as every shard with prepared records does, its active
segment and its tombstones are about different keys, and all its records are sound.  A healthy
shard takes every sound mutation, when the mutation is made and when the log is replayed, and
the mutation has its effect on the records.
-/
import GideonDB.Engine.Mutation
import GideonDB.Segment.Filter

namespace GideonDB.Engine

open Go GideonDB.Core GoMap

/-- The invariant of a shard in memory. -/
structure Healthy (env : Env) (sh : Shard) : Prop where
  tracks : ∃ m, sh.Tracks env.lib env.config m
  /-- A deleted record is not in the active segment. -/
  apart : ∀ key, sh.tombstones.has key = true → sh.active.lookup key = none
  /-- A tombstone hides a record of the immutable segment. -/
  buried : ∀ key, sh.tombstones.has key = true → (sh.baseLookup key).isSome = true
  active_sound : ∀ key record, sh.active.lookup key = some record → Sound env record
  base_sound : ∀ key record, sh.baseLookup key = some record → Sound env record
  /-- The filter index of the immutable segment is about its records. -/
  filters : ∀ base ∈ sh.immutable, base.Filters env.lib
  dimension : ∀ base ∈ sh.immutable, base.index.dimension = env.config.dimension

lemma healthy_new (env : Env) : Healthy env (Shard.new env.config) where
  tracks := ⟨_, Shard.tracks_new env.lib env.config⟩
  apart key h := by cases h
  buried key h := by cases h
  active_sound key record h := by cases h
  base_sound key record h := by cases h
  filters base h := by cases h
  dimension base h := by cases h

variable {key : GoString} {sh' : Shard} {records : List Record}

namespace Healthy

variable {env : Env} {sh : Shard} {record : Record}

section

variable (h : Healthy env sh)

include h

lemma active_writable : sh.active.Writable env.lib env.config :=
  h.tracks.elim fun _ => Shard.Tracks.active

lemma config_eq : sh.config = env.config :=
  h.tracks.elim fun _ => Shard.Tracks.config_eq

lemma key_of_lookup (hlook : sh.lookup key = some record) : record.key = key := by
  obtain ⟨m, hm⟩ := h.tracks
  exact hm.key_of_get (by rw [← hm.lookup, hlook])

lemma sound (hlook : sh.lookup key = some record) : Sound env record := by
  rw [Shard.lookup_eq, Option.or_eq_some_iff] at hlook
  rcases hlook with hactive | ⟨-, hbase⟩
  · exact h.active_sound key record hactive
  · split at hbase
    · cases hbase
    · exact h.base_sound key record hbase

lemma mem_list : record ∈ sh.list ↔ sh.lookup record.key = some record := by
  obtain ⟨m, hm⟩ := h.tracks
  rw [hm.mem_list, hm.lookup]

lemma nodup_list : (sh.list.map Record.key).Nodup := by
  obtain ⟨m, hm⟩ := h.tracks
  rw [hm.list_eq, ((perm_sortRecords _).map Record.key).nodup_iff, hm.map_key_toList]
  exact m.nodup_keys

/-- The records of a healthy shard are determined by what it shows for each key. -/
lemma lookup_entriesOf (key : GoString) : (entriesOf sh.list).lookup key = sh.lookup key := by
  ext record
  rw [lookup_entriesOf_eq_some h.nodup_list]
  constructor
  · rintro ⟨hmem, rfl⟩
    exact h.mem_list.1 hmem
  · intro hlook
    have hkey := h.key_of_lookup hlook
    exact ⟨h.mem_list.2 (hkey ▸ hlook), hkey⟩

lemma list_sound : ∀ record ∈ sh.list, Sound env record := fun _ hmem =>
  h.sound (h.mem_list.1 hmem)

lemma layer_of_lookup_eq_none (hlook : sh.lookup key = none) :
    sh.layer key = if (sh.baseLookup key).isSome then some none else none := by
  rw [Shard.lookup_eq, Option.or_eq_none_iff] at hlook
  rw [Shard.layer, hlook.1]
  dsimp only
  by_cases htomb : sh.tombstones.has key = true
  · rw [if_pos htomb, if_pos (h.buried key htomb)]
  · rw [if_neg htomb] at hlook ⊢
    rw [hlook.2]
    rfl

end

/-! ### The steps -/

/-- What a mutation leaves of a healthy shard: the records are as given, and the immutable
segment is untouched. -/
structure Leaves (env : Env) (sh sh' : Shard) (live : Live) : Prop where
  healthy : Healthy env sh'
  lookup : sh'.lookup = live
  immutable : sh'.immutable = sh.immutable

/-- What a mutation leaves of a healthy shard. -/
structure Applied (env : Env) (sh sh' : Shard) (mutation : Mutation) : Prop
    extends Leaves env sh sh' (mutation.apply sh.lookup) where
  layer : sh'.layer = mutation.applyLayer sh.baseLookup sh.layer

lemma upsert (h : Healthy env sh) (hsound : Sound env record) :
    ∃ sh', sh.upsert env.lib record = (sh', none) ∧ Applied env sh sh' (.upsert record) := by
  obtain ⟨m, hm⟩ := h.tracks
  have htracks := hm.upsert hsound.prepared
  obtain ⟨hres, hleaves⟩ := hm.active.upsert hsound.prepared
  have hnone := hres.2 ⟨hsound.id, hsound.dimension⟩
  rw [Shard.upsert] at htracks ⊢
  rcases heq : sh.active.upsert env.lib record with ⟨active, err⟩
  rw [heq] at hnone hleaves htracks
  obtain rfl : err = none := hnone
  have hactive : ∀ key, active.lookup key =
      if key = record.key then some record else sh.active.lookup key := fun key => by
    simpa using hleaves.lookup key
  refine ⟨_, rfl, ⟨⟨⟨_, htracks⟩, fun key hkey => ?_, fun key hkey => ?_,
    fun key stored hget => ?_, h.base_sound, h.filters, h.dimension⟩, ?_, rfl⟩, ?_⟩
  · rw [has_delete, Bool.and_eq_true, decide_eq_true_eq] at hkey
    exact (hactive key).trans (by rw [if_neg hkey.1]; exact h.apart key hkey.2)
  · rw [has_delete, Bool.and_eq_true] at hkey
    exact h.buried key hkey.2
  · replace hget := (hactive key).symm.trans hget
    split at hget
    · exact Option.some.inj hget ▸ hsound
    · exact h.active_sound key stored hget
  · funext key
    rw [htracks.lookup, if_pos rfl, get_set, Mutation.apply, Function.update_apply, hm.lookup]
  · funext key
    rw [Mutation.applyLayer, Function.update_apply, Shard.layer, Shard.layer]
    dsimp only
    rw [hactive key, has_delete]
    by_cases hkey : key = record.key
    · rw [if_pos hkey, if_pos hkey]
    · rw [if_neg hkey, if_neg hkey, decide_eq_true hkey, Bool.true_and]

lemma Leaves.baseLookup {live : Live} (h : Leaves env sh sh' live) :
    sh'.baseLookup = sh.baseLookup := by
  funext key
  rw [Shard.baseLookup, h.immutable]
  rfl

lemma Applied.batch_cons {sh₁ : Shard} (h : Applied env sh sh₁ (.upsert record))
    (h' : Applied env sh₁ sh' (.batchUpsert records)) :
    Applied env sh sh' (.batchUpsert (record :: records)) where
  healthy := h'.healthy
  lookup := by
    rw [h'.lookup, h.lookup]
    rfl
  immutable := h'.immutable.trans h.immutable
  layer := by
    rw [h'.layer, h.layer]
    rfl

lemma installImmutable (hconf : sh.config = env.config) {base : Segment}
    (hbase : base.Presents records) (hfilt : base.Filters env.lib)
    (hdim : base.index.dimension = env.config.dimension) (hnodup : (records.map Record.key).Nodup)
    (hsound : ∀ record ∈ records, Sound env record) : Healthy env (sh.installImmutable base) ∧
      (sh.installImmutable base).baseLookup = fun key => (entriesOf records).lookup key := by
  have hlook : (sh.installImmutable base).baseLookup = fun key =>
      (entriesOf records).lookup key := funext hbase.lookup
  refine ⟨⟨⟨_, Shard.tracks_installImmutable hconf hbase.wellFormed⟩, ?_, ?_, ?_, ?_, ?_, ?_⟩,
    hlook⟩
  · intro key h
    cases h
  · intro key h
    cases h
  · intro key record h
    cases h
  · intro key record h
    rw [hlook, lookup_entriesOf_eq_some hnodup] at h
    exact hsound record h.1
  · intro base' h
    cases h
    exact hfilt
  · intro base' h
    cases h
    exact hdim

section

variable (h : Healthy env sh)

include h

lemma delete (ns id : GoString) : (sh.delete env.lib ns id).2 =
      (if (sh.lookup (recordKey ns id)).isSome then none else some .notFound) ∧
    Applied env sh (sh.delete env.lib ns id).1 (.delete ns id) := by
  obtain ⟨m, hm⟩ := h.tracks
  have htracks := (hm.delete ns id).2
  rw [← hm.has_eq]
  rcases hm.delete_cases ns id with ⟨hhas, heq⟩ | ⟨hhas, active, heq, hleaves⟩
  · rw [hhas, heq]
    have hnone : sh.lookup (recordKey ns id) = none := by
      rwa [hm.has_eq, Option.isSome_eq_false_iff, Option.isNone_iff_eq_none] at hhas
    refine ⟨rfl, ⟨h, ?_, rfl⟩, ?_⟩
    · rw [Mutation.apply, ← hnone, Function.update_eq_self]
    · rw [Mutation.applyLayer, ← h.layer_of_lookup_eq_none hnone, Function.update_eq_self]
  · rw [heq, if_pos rfl] at htracks
    rw [hhas, heq]
    have htombstone : ∀ key, (if (sh.baseLookup (recordKey ns id)).isSome = true
        then sh.tombstones.set (recordKey ns id) () else sh.tombstones).has key = true →
          (key = recordKey ns id ∧ (sh.baseLookup key).isSome = true) ∨
            sh.tombstones.has key = true := by
      intro key hkey
      split_ifs at hkey with hbase
      · rw [has_set, Bool.or_eq_true, decide_eq_true_eq] at hkey
        exact hkey.imp_left fun hkey => ⟨hkey, hkey ▸ hbase⟩
      · exact .inr hkey
    refine ⟨rfl, ⟨⟨⟨_, htracks⟩, fun key hkey => ?_, fun key hkey => ?_, fun key stored hget => ?_,
      h.base_sound, h.filters, h.dimension⟩, ?_, rfl⟩, ?_⟩
    · refine (hleaves.lookup key).trans ?_
      rcases htombstone key hkey with ⟨hkey, -⟩ | hkey
      · rw [if_pos hkey]
      · split
        · rfl
        · exact h.apart key hkey
    · exact (htombstone key hkey).elim And.right (h.buried key)
    · replace hget := (hleaves.lookup key).symm.trans hget
      split at hget
      · cases hget
      · exact h.active_sound key stored hget
    · funext key
      rw [htracks.lookup, get_delete, Mutation.apply, Function.update_apply, hm.lookup]
    · funext key
      rw [Mutation.applyLayer, Function.update_apply, Shard.layer, Shard.layer]
      dsimp only [Shard.bury]
      rw [hleaves.lookup key]
      by_cases hkey : key = recordKey ns id
      · subst hkey
        rw [if_pos rfl, if_pos rfl]
        dsimp only
        split
        · rw [if_pos (by simp [has_set])]
        · rename_i hbase
          exact if_neg fun htomb => hbase (h.buried _ htomb)
      · have hhas : (if (sh.baseLookup (recordKey ns id)).isSome = true
            then sh.tombstones.set (recordKey ns id) () else sh.tombstones).has key =
              sh.tombstones.has key := by
          split
          · rw [has_set, decide_eq_false hkey, Bool.false_or]
          · rfl
        simp only [if_neg hkey, hhas]

lemma restore (hsound : Sound env record) :
    ∃ sh', restore env sh record = .ok sh' ∧ Applied env sh sh' (.upsert record) := by
  obtain ⟨sh', hupsert, hleaves⟩ := h.upsert hsound
  refine ⟨sh', ?_, hleaves⟩
  rw [Engine.restore, hsound.valid, hupsert]
  rfl

lemma foldlM {write : Shard → Record → Except Error Shard} (hwrite : ∀ sh record, Healthy env sh →
    Sound env record → ∃ sh', write sh record = .ok sh' ∧ Applied env sh sh' (.upsert record))
    (hsound : ∀ record ∈ records, Sound env record) :
    ∃ sh', records.foldlM write sh = .ok sh' ∧ Applied env sh sh' (.batchUpsert records) := by
  induction records generalizing sh with
  | nil => exact ⟨sh, rfl, ⟨h, rfl, rfl⟩, rfl⟩
  | cons record records ih =>
    obtain ⟨sh₁, hsh₁, hleaves₁⟩ := hwrite sh record h (hsound record List.mem_cons_self)
    obtain ⟨sh', hsh', hleaves⟩ := ih hleaves₁.healthy fun record hmem =>
      hsound record (List.mem_cons_of_mem _ hmem)
    refine ⟨sh', ?_, hleaves₁.batch_cons hleaves⟩
    rw [List.foldlM_cons, hsh₁]
    exact hsh'

lemma replay {mutation : Mutation} (hsound : mutation.Sound env) :
    ∃ sh', replay env sh mutation = .ok sh' ∧ Applied env sh sh' mutation := by
  cases mutation with
  | upsert record =>
    have hsound : Sound env record := hsound
    obtain ⟨sh', hsh', hleaves⟩ := h.restore hsound
    exact ⟨sh', by rw [Engine.replay, if_pos hsound.routed, hsh'], hleaves⟩
  | delete ns id =>
    obtain ⟨hid, hrouted, -, -⟩ := hsound
    obtain ⟨hres, hleaves⟩ := h.delete ns id
    refine ⟨_, ?_, hleaves⟩
    rw [Engine.replay, if_neg (by simp [hid, hrouted]), applyDelete]
    rcases heq : sh.delete env.lib ns id with ⟨sh', err⟩
    rw [heq] at hres
    dsimp only at hres
    split at hres
    · rw [hres]
      rfl
    · rw [hres]
  | batchUpsert records =>
    obtain ⟨hne, hlength, hsound⟩ := hsound
    rw [Engine.replay, if_neg (by simp [hne, hlength])]
    refine h.foldlM (fun sh record h hsound => ?_) hsound
    rw [if_pos hsound.routed]
    exact h.restore hsound

lemma mem_matching {filter : Metadata.Expr} {ns : GoString} :
    record ∈ sh.matching env.lib filter ns ↔ sh.lookup record.key = some record ∧ record.ns = ns ∧
        record.satisfies env.lib filter = true := by
  obtain ⟨m, hm⟩ := h.tracks
  exact Shard.mem_matching hm h.filters

end

end Healthy

end GideonDB.Engine
