/-
Exact searches of a flat collection (`SearchFilteredWithEF` and `mergeTopK` of
`internal/collection`).

The results of the shards are merged by score and then by record id.  A segment that has more than
`k` records to choose from keeps those with the best scores, and of records with one score those
with the smaller ordinals.  So the canonical answer, the first `k` of the live records by score and
then by record id, is returned if and only if none of its records has `k` others before it in its
own segment (`search_canonical_iff`).  Two writes are enough for another answer
(`search_follows_insertion`).
-/
import GideonDB.Engine.CollectionRun
import GideonDB.Segment.Search

namespace GideonDB.Engine

open Go GideonDB.Core Store SearchResult Collection List

/-- A collection with a flat index that is not quantized. -/
structure FlatEnv extends Env where
  flat : config.indexType = .flat
  unquantized : config.binaryQuantization = false ∧ productQuantization = false
  shards : 0 < shardCount

variable {σ : Type} [LinearOrder σ]

/-- `mergeTopK`. -/
def mergeTopK (perShard : List (List (SearchResult σ))) (k : ℕ) : List (SearchResult σ) :=
  topK worseSearchResult k perShard.flatten

/-- The search of one shard. -/
def Collection.searchShard (score : FloatVector → FloatVector → σ) (env : Env) (c : Collection)
    (ns : GoString) (query : FloatVector) (k : ℤ) (filter : Metadata.Expr) (shardID : ℕ) :
    Except Error (List (SearchResult σ)) :=
  ((c.shards shardID).shard.searchFilteredWithEF score env.lib ns query k filter).mapError .shard

def Collection.searchFilteredWithEF (score : FloatVector → FloatVector → σ) (env : FlatEnv)
    (c : Collection) (ns : GoString) (query : FloatVector) (k : ℤ) (filter : Metadata.Expr)
    (efSearch : ℤ) : Except Error (List (SearchResult σ)) := do
  validateVector query env.config.dimension
  if k ≤ 0 then .error (.invalidArgument "top_k must be positive")
  else if efSearch < 0 ∨ 10000 < efSearch then
    .error (.invalidArgument "ef_search must be between 1 and 10000 when set")
  else if env.shardCount = 1 then c.searchShard score env.toEnv ns query k filter 0
  else do
    let perShard ← (List.range env.shardCount).mapM
      (c.searchShard score env.toEnv ns query k filter)
    return mergeTopK perShard k.toNat

/-! ### The canonical answer -/

/-- The first `k` of the records of the namespace that satisfy the filter, by score and then by
record id. -/
def canonical (score : FloatVector → FloatVector → σ) (lib : Metadata.Library) (ns : GoString)
    (query : FloatVector) (k : ℕ) (filter : Metadata.Expr) (records : List Record) :
    List (SearchResult σ) :=
  (sortResults ((records.filter fun record => record.ns = ns && record.satisfies lib filter).map
    (Record.result score query))).take k

/-- In the segment that holds the record, fewer than `k` of the records that the search may return
come before it by score and then by ordinal. -/
def Collection.Ranks (score : FloatVector → FloatVector → σ) (env : Env) (c : Collection)
    (ns : GoString) (query : FloatVector) (k : ℕ) (filter : Metadata.Expr) (r : SearchResult σ) :
    Prop :=
  ∃ shardID < env.shardCount, ∃ view ∈ (c.shards shardID).shard.views,
    ∃ candidate ∈ view.1.candidates score env.lib ns query filter view.2,
      view.1.result candidate = r ∧
      (view.1.candidates score env.lib ns query filter view.2).countP (Flat.worse candidate) < k

/-- What the segments keep. -/
def Collection.keptResults (score : FloatVector → FloatVector → σ) (env : Env) (c : Collection)
    (ns : GoString) (query : FloatVector) (k : ℕ) (filter : Metadata.Expr) :
    List (SearchResult σ) :=
  (List.range env.shardCount).flatMap fun shardID =>
    (c.shards shardID).shard.keptResults score env.lib ns query k filter

/-- What the segments have. -/
def Collection.allResults (score : FloatVector → FloatVector → σ) (env : Env) (c : Collection)
    (ns : GoString) (query : FloatVector) (filter : Metadata.Expr) : List (SearchResult σ) :=
  (List.range env.shardCount).flatMap fun shardID =>
    (c.shards shardID).shard.views.flatMap fun view =>
      (view.1.candidates score env.lib ns query filter view.2).map view.1.result

omit [LinearOrder σ] in
lemma subperm_flatMap {ι α : Type} {l : List ι} {f g : ι → List α}
    (h : ∀ i ∈ l, (f i).Subperm (g i)) : (l.flatMap f).Subperm (l.flatMap g) := by
  induction l with
  | nil => exact List.Subperm.refl _
  | cons i l ih =>
    rw [flatMap_cons, flatMap_cons]
    exact (h i mem_cons_self).append (ih (forall_mem_cons.1 h).2)

section Kept

variable {score : FloatVector → FloatVector → σ} {env : Env} {c : Collection} {ns : GoString}
  {query : FloatVector} {k : ℕ} {filter : Metadata.Expr}

lemma Collection.subperm_keptResults (hk : 0 < k) :
    (c.keptResults score env ns query k filter).Subperm
      (c.allResults score env ns query filter) := by
  refine subperm_flatMap fun shardID _ => subperm_flatMap fun view _ => ?_
  exact subperm_map _ (@topK_spec _ Flat.worse _ _ _ hk _).1.sublist_perm

lemma Collection.mem_keptResults (hk : 0 < k) {r : SearchResult σ} :
    r ∈ c.keptResults score env ns query k filter ↔ c.Ranks score env ns query k filter r := by
  simp only [keptResults, Shard.keptResults, mem_flatMap, mem_range,
    Segment.mem_keptResults hk, Collection.Ranks]

end Kept

section Ready

variable {score : FloatVector → FloatVector → σ} {env : Env} {c : Collection} {ns : GoString}
  {query : FloatVector} {filter : Metadata.Expr}

omit [LinearOrder σ] in
/-- The candidates of all segments stand for the live records of the namespace that satisfy the
filter. -/
lemma Collection.Ready.perm_allResults (h : c.Ready env) :
    (c.allResults score env ns query filter).Perm
      (((c.records env).filter fun record => record.ns = ns && record.satisfies env.lib filter).map
        (Record.result score query)) := by
  rw [allResults, records, filter_flatMap, map_flatMap]
  refine List.Perm.flatMap_left _ fun shardID hmem => ?_
  obtain ⟨base, hcoh⟩ := h shardID (mem_range.1 hmem)
  have hheal := hcoh.healthy
  obtain ⟨m, hm⟩ := hheal.tracks
  refine (Shard.perm_result_candidates hm hheal.filters).trans (List.Perm.map _ ?_)
  refine (perm_ext_iff_of_nodup
    (List.Nodup.of_map _ (Shard.nodup_matching hm hheal.filters filter ns))
    ((List.Nodup.of_map _ hheal.nodup_list).filter _)).2 fun record => ?_
  rw [mem_filter, hheal.mem_list, hheal.mem_matching, Bool.and_eq_true,
    decide_eq_true_eq]
  rfl

/-- No two live records have one key, since a key has one shard. -/
lemma Collection.Ready.nodup_records (h : c.Ready env) :
    ((c.records env).map Record.key).Nodup := by
  have hrouted : ∀ shardID < env.shardCount, ∀ record ∈ (c.shards shardID).shard.list,
      env.route record.ns record.id = shardID := by
    intro shardID hlt record hmem
    obtain ⟨base, hcoh⟩ := h shardID hlt
    exact of_decide_eq_true (hcoh.healthy.list_sound record hmem).routed
  rw [records, map_flatMap, nodup_flatMap]
  refine ⟨fun shardID hmem => ?_, List.nodup_range.imp_of_mem fun {i j} hi hj hne => ?_⟩
  · obtain ⟨base, hcoh⟩ := h shardID (mem_range.1 hmem)
    exact hcoh.healthy.nodup_list
  · intro key hkey hkey'
    obtain ⟨record, hmem, rfl⟩ := mem_map.1 hkey
    obtain ⟨record', hmem', heq⟩ := mem_map.1 hkey'
    refine hne ?_
    rw [← hrouted i (mem_range.1 hi) record hmem, ← hrouted j (mem_range.1 hj) record' hmem',
      Env.route, Env.route, routeShard, routeShard]
    exact congrArg (fun key => (fnv64a key).toNat % env.shardCount) heq.symm

omit [LinearOrder σ] in
lemma Collection.Ready.nodup_allResults (h : c.Ready env) :
    ((c.allResults score env ns query filter).map SearchResult.id).Nodup := by
  rw [(h.perm_allResults.map _).nodup_iff, map_map]
  refine List.Nodup.map_on (fun record hmem record' hmem' hid => ?_)
    ((List.Nodup.of_map _ h.nodup_records).filter _)
  obtain ⟨hmem, hns⟩ := mem_filter.1 hmem
  obtain ⟨hmem', hns'⟩ := mem_filter.1 hmem'
  rw [Bool.and_eq_true, decide_eq_true_eq] at hns hns'
  refine inj_on_of_nodup_map h.nodup_records hmem hmem' ?_
  rw [Record.key, Record.key, hns.1, hns'.1, show record.id = record'.id from hid]

lemma Collection.Ready.searchShard_eq (h : c.Ready env) {k : ℤ} (hk : 0 < k)
    (hquery : query.length = env.config.dimension) {shardID : ℕ} (hlt : shardID < env.shardCount) :
    c.searchShard score env ns query k filter shardID =
      .ok ((sortResults ((c.shards shardID).shard.keptResults score env.lib ns query k.toNat
        filter)).take k.toNat) := by
  obtain ⟨base, hcoh⟩ := h shardID hlt
  obtain ⟨m, hm⟩ := hcoh.healthy.tracks
  have hspec := @Shard.searchFilteredWithEF_spec σ score env.lib _ env.config m ns query filter _ hm
    hcoh.healthy.dimension k hk hquery
  rw [searchShard, hspec]
  rfl

lemma mapM_ok {α β : Type} {f : α → Except Error β} {g : α → β} {l : List α}
    (h : ∀ a ∈ l, f a = .ok (g a)) : l.mapM f = .ok (l.map g) := by
  induction l with
  | nil => rfl
  | cons a l ih =>
    rw [mapM_cons, h a mem_cons_self, ih (forall_mem_cons.1 h).2]
    rfl

end Ready

section Search

variable {score : FloatVector → FloatVector → σ} {env : FlatEnv} {c : Collection} {ns : GoString}
  {query : FloatVector} {filter : Metadata.Expr}

/-- A search that is not refused returns the best of what the segments have kept. -/
lemma Collection.Ready.search_spec (h : c.Ready env.toEnv) {k efSearch : ℤ} (hk : 0 < k)
    (hquery : validateVector query env.config.dimension = .ok ())
    (hef : 0 ≤ efSearch ∧ efSearch ≤ 10000) :
    ∃ results, c.searchFilteredWithEF score env ns query k filter efSearch = .ok results ∧
      TopOf worseSearchResult k.toNat (c.keptResults score env.toEnv ns query k.toNat filter)
        results ∧ results.Pairwise (NotWorse worseSearchResult) := by
  have hlength : query.length = env.config.dimension := by
    rw [validateVector] at hquery
    split at hquery
    · cases hquery
    · rename_i hlength
      exact not_ne_iff.1 hlength
  have hshard := fun shardID (hlt : shardID < env.shardCount) =>
    @Collection.Ready.searchShard_eq σ _ score env.toEnv c ns query filter h k hk hlength shardID hlt
  rw [searchFilteredWithEF, hquery]
  simp only [Bind.bind, Except.bind, if_neg (not_le.2 hk),
    if_neg (show ¬ (efSearch < 0 ∨ 10000 < efSearch) by omega)]
  split_ifs with hone
  · refine ⟨_, hshard 0 (by omega), ?_, ?_⟩
    · rw [keptResults, hone, range_one, flatMap_singleton]
      exact topOf_take _ _
    · exact (pairwise_insertionSort _ _).sublist (take_sublist _ _)
  · rw [mapM_ok fun shardID hmem => hshard shardID (mem_range.1 hmem)]
    refine ⟨_, rfl, ?_, (@topK_spec _ worseSearchResult _ _ _ (Int.lt_toNat.2 hk) _).2⟩
    refine .flatMap (fun shardID _ => topOf_take _ _) ?_
    rw [mergeTopK, ← flatMap_def]
    exact (topK_spec (Int.lt_toNat.2 hk) _).1

/-- A search of a flat collection returns the canonical answer if and only if the query is accepted
and every record of that answer has fewer than `k` others before it in its own segment. -/
theorem search_canonical_iff
    (h : (engine env.toEnv).Reaches (Steady env.toEnv) (.new env.toEnv) c) {k : ℤ} (hk : 0 < k)
    (efSearch : ℤ) :
    c.searchFilteredWithEF score env ns query k filter efSearch =
        .ok (canonical score env.lib ns query k.toNat filter (c.records env.toEnv)) ↔
      validateVector query env.config.dimension = .ok () ∧ 0 ≤ efSearch ∧ efSearch ≤ 10000 ∧
      ∀ r ∈ canonical score env.lib ns query k.toNat filter (c.records env.toEnv),
        c.Ranks score env.toEnv ns query k.toNat filter r := by
  have hready := Collection.ready_of_reaches env.shards h
  by_cases hquery : validateVector query env.config.dimension = .ok ()
  case neg =>
    refine iff_of_false (fun hok => hquery ?_) fun hall => hquery hall.1
    obtain ⟨u, hu, -⟩ := bind_eq_ok.1 hok
    exact hu
  by_cases hef : 0 ≤ efSearch ∧ efSearch ≤ 10000
  case neg =>
    refine iff_of_false (fun hok => ?_) fun hall => hef ⟨hall.2.1, hall.2.2.1⟩
    rw [searchFilteredWithEF, hquery] at hok
    simp only [Bind.bind, Except.bind, if_neg (not_le.2 hk),
      if_pos (show efSearch < 0 ∨ 10000 < efSearch by omega)] at hok
    cases hok
  have hk' : 0 < k.toNat := Int.lt_toNat.2 hk
  obtain ⟨results, hsearch, htop, hsort⟩ := @Collection.Ready.search_spec σ _ score env c ns query
    filter hready k efSearch hk hquery hef
  have hnodup := @Collection.Ready.nodup_allResults σ score env.toEnv c ns query filter hready
  have hbest := (@topOf_take _ worseSearchResult _ _ k.toNat _).of_perm
    (@Collection.Ready.perm_allResults σ score env.toEnv c ns query filter hready).symm
  have hiff := TopOf.eq_iff_subset (subperm_keptResults hk') (List.Nodup.of_map _ hnodup)
    (fun a ha b hb hab hba => inj_on_of_nodup_map hnodup ha hb (id_eq_of_notWorse hab hba))
    htop hsort hbest ((pairwise_insertionSort _ _).sublist (take_sublist _ _))
  rw [hsearch, Except.ok.injEq, and_iff_right hquery, and_iff_right hef.1, and_iff_right hef.2]
  refine hiff.trans (forall₂_congr fun r _ => ?_)
  exact mem_keptResults hk'

end Search

def smallFlat : FlatEnv := { smallEnv with
  flat := rfl, unquantized := ⟨rfl, rfl⟩, shards := Nat.one_pos }

def sameScore (_ _ : FloatVector) : ℕ := 0

/-- The theorem for two records with one score of which one is returned: the one with the smaller
id, which was written first. -/
theorem search_canonical_iff_tied : ∃ c : Collection,
    (engine smallEnv).Reaches (Steady smallEnv) (.new smallEnv) c ∧
    (c.records smallEnv).length = 2 ∧
    c.searchFilteredWithEF sameScore smallFlat [] [0] 1 .nil 0 =
      .ok (canonical sameScore smallEnv.lib [] [0] 1 .nil (c.records smallEnv)) ∧
    (canonical sameScore smallEnv.lib [] [0] 1 .nil (c.records smallEnv)).map SearchResult.id =
      [bytes "a"] := by
  have ha := @reaches_smallUpsert (bytes "a") (by decide +kernel)
  have hb := Machine.Reaches.call ha
    (@steady_smallUpsert (bytes "b") (by decide +kernel) _)
  refine ⟨_, hb, by decide +kernel, (@search_canonical_iff ℕ _ sameScore smallFlat _ [] [0] .nil hb
    1 Int.one_pos 0).2 ⟨rfl, by decide, by decide, fun r hr => ?_⟩, by decide +kernel⟩
  -- the segment has kept the canonical answer
  refine (@mem_keptResults ℕ _ sameScore _ _ _ _ _ _ Nat.one_pos r).1 ?_
  refine Eq.subst (motive := fun l => r ∈ l) ?_ hr
  with_unfolding_all rfl

/-- Of two records with one score, the one that was written first is returned, although the other
one comes first by record id. -/
theorem search_follows_insertion : ∃ c : Collection,
    (engine smallEnv).Reaches (Steady smallEnv) (.new smallEnv) c ∧
    (c.searchFilteredWithEF sameScore smallFlat [] [0] 1 .nil 0).toOption.map
      (List.map SearchResult.id) = some [bytes "b"] ∧
    (canonical sameScore smallEnv.lib [] [0] 1 .nil (c.records smallEnv)).map SearchResult.id =
      [bytes "a"] := by
  have hb := @reaches_smallUpsert (bytes "b") (by decide +kernel)
  have ha := Machine.Reaches.call hb
    (@steady_smallUpsert (bytes "a") (by decide +kernel) _)
  exact ⟨_, ha, by decide +kernel, by decide +kernel⟩

end GideonDB.Engine
