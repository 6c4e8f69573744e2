/-
Exact searches (`SearchFiltered` of the flat and the mapped index, `SearchFilteredWithOptions` of a
segment, `SearchFilteredWithEF` of a shard).

Scores are values of a linear order.  The index of a segment keeps the `k` best of the ordinals
that are allowed, by score and then by ordinal; the shard keeps the `k` best of the results of its
segments, by score and then by record id (`searchFilteredWithEF_spec`).  Which of two records with
one score a segment has kept depends on their ordinals.
-/
import GideonDB.Go.Heap
import GideonDB.Segment.Filter

namespace GideonDB

open Go GideonDB.Core List

/-! ### The flat index -/

namespace Flat

/-- `index.Candidate`. -/
structure Candidate (σ : Type) where
  id : ℕ
  score : σ

variable {σ : Type} [LinearOrder σ]

/-- `better`. -/
def better (a b : Candidate σ) : Bool :=
  b.score < a.score || (a.score = b.score && a.id < b.id)

/-- `worse`. -/
def worse (a b : Candidate σ) : Bool := better b a

lemma notWorse_iff (a b : Candidate σ) :
    NotWorse worse a b ↔ b.score < a.score ∨ a.score = b.score ∧ a.id ≤ b.id := by
  rw [NotWorse, worse, better, Bool.or_eq_false_iff, Bool.and_eq_false_iff, ← not_lt,
    ← not_lt_and_iff, eq_comm (a := a.score)]
  simp only [decide_eq_false_iff_not]

instance : Std.Total (NotWorse (worse : Candidate σ → _)) :=
  total_of_score (fun a b => Nat.le_total a.id b.id) notWorse_iff

instance : IsTrans (Candidate σ) (NotWorse worse) :=
  isTrans_of_score (fun (a b c : Candidate σ) (hab : a.id ≤ b.id) (hbc : b.id ≤ c.id) =>
    hab.trans hbc) notWorse_iff

end Flat

namespace Segment

open Flat

variable {σ : Type}

section Index

variable (score : FloatVector → FloatVector → σ)

/-- The candidates that the loop of `SearchFiltered` offers to the heap.  The slots of the index are
taken in the order of the map, which does not matter (`searchFiltered_slots`). -/
def VectorIndex.candidates (idx : VectorIndex) (query : FloatVector) (allowed : ℕ → Bool) :
    List (Candidate σ) :=
  (idx.vectors.toList.filter fun slot => allowed slot.1).map fun slot =>
    ⟨slot.1, score query slot.2⟩

/-- `SearchFiltered` of the flat and the mapped index. -/
def VectorIndex.searchFiltered [LinearOrder σ] (idx : VectorIndex) (query : FloatVector) (k : ℤ)
    (allowed : ℕ → Bool) : Except Error (List (Candidate σ)) :=
  if query.length ≠ idx.dimension then .error .dimensionMismatch
  else if k ≤ 0 then .error (.invalidArgument "k must be positive")
  else .ok (topK worse k.toNat (idx.candidates score query allowed))

lemma VectorIndex.nodup_candidates (idx : VectorIndex) (query : FloatVector) (allowed : ℕ → Bool) :
    ((idx.candidates score query allowed).map Candidate.id).Nodup := by
  have hmap : (idx.candidates score query allowed).map Candidate.id =
      (idx.vectors.toList.filter fun slot => allowed slot.1).map Prod.fst := by
    rw [candidates, map_map]
    rfl
  rw [hmap]
  exact (filter_sublist.map _).nodup (idx.vectors.map_fst_toList ▸ idx.vectors.nodup_keys)

lemma VectorIndex.eq_of_notWorse [LinearOrder σ] (idx : VectorIndex) (query : FloatVector)
    (allowed : ℕ → Bool) : ∀ a ∈ idx.candidates score query allowed,
      ∀ b ∈ idx.candidates score query allowed, NotWorse worse a b → NotWorse worse b a → a = b :=
  fun _ ha _ hb hab hba =>
    inj_on_of_nodup_map (idx.nodup_candidates score query allowed) ha hb
      (Nat.le_antisymm (tie_of_score notWorse_iff hab hba).2.1
        (tie_of_score notWorse_iff hab hba).2.2)

lemma VectorIndex.searchFiltered_slots [LinearOrder σ] (idx : VectorIndex) {query : FloatVector}
    {k : ℤ} (hk : 0 < k) (hdim : query.length = idx.dimension) (allowed : ℕ → Bool)
    {slots : List (ℕ × FloatVector)} (h : idx.vectors.toList.Perm slots) :
    idx.searchFiltered score query k allowed =
      .ok (topK worse k.toNat ((slots.filter fun slot => allowed slot.1).map fun slot =>
        ⟨slot.1, score query slot.2⟩)) := by
  rw [searchFiltered, if_neg (not_not.2 hdim), if_neg (not_le.2 hk)]
  refine congrArg Except.ok (topK_eq_of_perm (Int.lt_toNat.2 hk) ((h.filter _).map _)
    (List.Nodup.of_map _ (idx.nodup_candidates score query allowed))
    (idx.eq_of_notWorse score query allowed)).symm

end Index

/-! ### Segments -/

/-- The closure `allow` of `SearchFilteredWithOptions`, which does not ask the filter index if there
is no filter. -/
def admits (lib : Metadata.Library) (s : Segment) (filter : Metadata.Expr) (ns : GoString)
    (excluded : GoString → Bool) (ordinal : ℕ) : Bool :=
  (match filter with
    | .nil => true
    | filter => (s.metadata.evaluate lib filter).contains ordinal) &&
    (s.records.get ordinal).any fun record => record.ns = ns && !excluded record.key

lemma admits_eq_allow {lib : Metadata.Library} {s : Segment} (h : s.Filters lib)
    (filter : Metadata.Expr) (ns : GoString) (excluded : GoString → Bool) (ordinal : ℕ) :
    s.admits lib filter ns excluded ordinal = s.allow lib filter ns excluded ordinal := by
  cases filter with
  | nil =>
    rw [admits, allow, h, metadataOf]
    cases s.records.get ordinal <;> simp [Metadata.Expr.holds]
  | _ => rfl

end Segment

/-- `core.SearchResult`.  The text is filled in after the search, and is left out. -/
structure SearchResult (σ : Type) where
  id : GoString
  score : σ
  metadata : Metadata.MetadataMap
  payload : Metadata.MetadataMap
  ns : GoString

/-- What a search says about a record. -/
def Core.Record.result {σ : Type} (score : FloatVector → FloatVector → σ) (query : FloatVector)
    (record : Record) : SearchResult σ :=
  ⟨record.id, score query record.vector, record.metadata, record.payload, record.ns⟩

namespace SearchResult

variable {σ : Type} [LinearOrder σ]

def worseSearchResult (a b : SearchResult σ) : Bool :=
  a.score < b.score || (a.score = b.score && !leString a.id b.id)

lemma notWorse_iff (a b : SearchResult σ) :
    NotWorse worseSearchResult a b ↔ b.score < a.score ∨ a.score = b.score ∧ StringLE a.id b.id := by
  rw [NotWorse, worseSearchResult, Bool.or_eq_false_iff, Bool.and_eq_false_iff,
    Bool.not_eq_false', StringLE, ← not_lt_and_iff]
  simp only [decide_eq_false_iff_not]

instance : Std.Total (NotWorse (worseSearchResult : SearchResult σ → _)) :=
  total_of_score (fun a b => leString_total a.id b.id) notWorse_iff

instance : IsTrans (SearchResult σ) (NotWorse worseSearchResult) :=
  isTrans_of_score (fun (a b c : SearchResult σ) (hab : StringLE a.id b.id)
    (hbc : StringLE b.id c.id) => leString_trans hab hbc) notWorse_iff

lemma id_eq_of_notWorse {a b : SearchResult σ} (hab : NotWorse worseSearchResult a b)
    (hba : NotWorse worseSearchResult b a) : a.id = b.id :=
  have htie := tie_of_score notWorse_iff hab hba
  leString_antisymm htie.2.1 htie.2.2

/-- The `sort.Slice` of `SearchFilteredWithEF`. -/
def sortResults (results : List (SearchResult σ)) : List (SearchResult σ) :=
  results.insertionSort (NotWorse worseSearchResult)

end SearchResult

namespace Segment

open Flat

variable {σ : Type} (score : FloatVector → FloatVector → σ) (lib : Metadata.Library)

/-- A candidate's result. -/
def result (s : Segment) (candidate : Candidate σ) : SearchResult σ :=
  let record := s.records.getD candidate.id default
  ⟨record.id, candidate.score, record.metadata, record.payload, record.ns⟩

/-- `SearchFilteredWithOptions`, where the index is exact. -/
def searchFilteredWithOptions [LinearOrder σ] (s : Segment) (ns : GoString) (query : FloatVector)
    (k : ℤ) (filter : Metadata.Expr) (excluded : GoString → Bool) :
    Except Error (List (SearchResult σ)) := do
  let candidates ← s.index.searchFiltered score query k (s.admits lib filter ns excluded)
  return (candidates.map s.result).take k.toNat

/-- What may be returned. -/
def candidates (s : Segment) (ns : GoString) (query : FloatVector) (filter : Metadata.Expr)
    (excluded : GoString → Bool) : List (Candidate σ) :=
  s.index.candidates score query (s.admits lib filter ns excluded)

/-- The best of the segment. -/
def keptResults [LinearOrder σ] (s : Segment) (ns : GoString) (query : FloatVector) (k : ℕ)
    (filter : Metadata.Expr) (excluded : GoString → Bool) : List (SearchResult σ) :=
  (topK worse k (s.candidates score lib ns query filter excluded)).map s.result

section Kept

variable {score lib} {s : Segment} {ns : GoString} {query : FloatVector} {filter : Metadata.Expr}
  {excluded : GoString → Bool}

lemma searchFilteredWithOptions_eq [LinearOrder σ] {k : ℤ} (hk : 0 < k)
    (hdim : query.length = s.index.dimension) :
    s.searchFilteredWithOptions score lib ns query k filter excluded =
      .ok (s.keptResults score lib ns query k.toNat filter excluded) := by
  rw [searchFilteredWithOptions, VectorIndex.searchFiltered, if_neg (not_not.2 hdim),
    if_neg (not_le.2 hk)]
  refine congrArg Except.ok (take_of_length_le ?_)
  obtain ⟨rest, -, hlength, -⟩ := (@topK_spec _ worse _ _ _ (Int.lt_toNat.2 hk)
    (s.index.candidates score query (s.admits lib filter ns excluded))).1
  rw [length_map, hlength]
  exact Nat.min_le_left _ _

/-- A result is kept if and only if fewer than `k` candidates come before it by score and ordinal. -/
lemma mem_keptResults [LinearOrder σ] {k : ℕ} (hk : 0 < k) {r : SearchResult σ} :
    r ∈ s.keptResults score lib ns query k filter excluded ↔
      ∃ candidate ∈ s.candidates score lib ns query filter excluded, s.result candidate = r ∧
        (s.candidates score lib ns query filter excluded).countP (worse candidate) < k := by
  have htop := (@topK_spec _ worse _ _ _ hk (s.candidates score lib ns query filter excluded)).1
  have hrank : ∀ candidate ∈ s.candidates score lib ns query filter excluded, _ := fun _ hmem =>
    htop.mem_iff (s.index.eq_of_notWorse score query _) hmem
  rw [keptResults, mem_map]
  constructor
  · rintro ⟨candidate, hkept, rfl⟩
    have hmem := htop.sublist_perm.subset hkept
    exact ⟨candidate, hmem, rfl, (hrank candidate hmem).1 hkept⟩
  · rintro ⟨candidate, hmem, rfl, hlt⟩
    exact ⟨candidate, (hrank candidate hmem).2 hlt, rfl⟩

lemma result_read (s : Segment) (score : FloatVector → FloatVector → σ) (query : FloatVector)
    {ordinal : ℕ} {record : Record} (h : s.records.get ordinal = some record) :
    s.result ⟨ordinal, score query (fetchVector s.vectorAt ordinal record).vector⟩ =
      (s.read ordinal record).result score query := by
  rw [result, GoMap.getD, h, Record.result, read, fetchVector.eq_def]
  split
  · split <;> rfl
  · rfl

lemma perm_result_candidates (h : s.WellFormed) (hfilt : s.Filters lib) :
    ((s.candidates score lib ns query filter excluded).map s.result).Perm
      ((s.matching lib filter ns excluded).map (Record.result score query)) := by
  have hnodup : ∀ {V : Type} (m : GoMap ℕ V), m.toList.Nodup := fun m =>
    List.Nodup.of_map Prod.fst (m.map_fst_toList ▸ m.nodup_keys)
  -- the index and the records have the same ordinals
  have hslots : s.index.vectors.toList.Perm (s.records.toList.map fun entry =>
      (entry.1, (fetchVector s.vectorAt entry.1 entry.2).vector)) := by
    refine (perm_ext_iff_of_nodup (hnodup _) (List.Nodup.of_map Prod.fst ?_)).2 fun slot => ?_
    · rw [map_map]
      exact s.records.map_fst_toList ▸ s.records.nodup_keys
    · rw [GoMap.mem_toList, h.indexed, Option.map_eq_some_iff, mem_map]
      constructor
      · rintro ⟨record, hget, hvector⟩
        exact ⟨(slot.1, record), GoMap.mem_toList.2 hget, Prod.ext rfl hvector⟩
      · rintro ⟨⟨ordinal, record⟩, hmem, rfl⟩
        exact ⟨record, GoMap.mem_toList.1 hmem, rfl⟩
  have hallow : s.admits lib filter ns excluded = s.allow lib filter ns excluded :=
    funext fun ordinal => admits_eq_allow hfilt filter ns excluded ordinal
  rw [candidates, VectorIndex.candidates, matching, map_map, map_map, hallow]
  refine ((hslots.filter _).map _).trans (List.Perm.of_eq ?_)
  rw [filter_map, map_map]
  refine map_congr_left fun entry hmem => ?_
  exact result_read s score query (GoMap.mem_toList.1 (mem_filter.1 hmem).1)

end Kept

end Segment

namespace Shard

open SearchResult

variable {σ : Type} (score : FloatVector → FloatVector → σ) (lib : Metadata.Library)

/-- The keys that a search excludes from the immutable segment. -/
def hidden (sh : Shard) (key : GoString) : Bool :=
  sh.active.ordinals.has key || sh.tombstones.has key

/-- `SearchFilteredWithEF`, where the indexes are exact and do not look at `efSearch`. -/
def searchFilteredWithEF [LinearOrder σ] (sh : Shard) (ns : GoString) (query : FloatVector) (k : ℤ)
    (filter : Metadata.Expr) : Except Segment.Error (List (SearchResult σ)) := do
  let results ← sh.active.searchFilteredWithOptions score lib ns query k filter fun _ => false
  match sh.immutable with
  | none => return (sortResults results).take k.toNat
  | some base =>
    let found ← base.searchFilteredWithOptions score lib ns query k filter sh.hidden
    return (sortResults (results ++ found)).take k.toNat

/-- The segments that are searched, each with the keys that are excluded. -/
def views (sh : Shard) : List (Segment × (GoString → Bool)) :=
  (sh.active, fun _ => false) :: sh.immutable.toList.map fun base => (base, sh.hidden)

/-- The best of each segment. -/
def keptResults [LinearOrder σ] (sh : Shard) (ns : GoString) (query : FloatVector) (k : ℕ)
    (filter : Metadata.Expr) : List (SearchResult σ) :=
  sh.views.flatMap fun view => view.1.keptResults score lib ns query k filter view.2

section Searches

variable {score lib} {sh : Shard} {config : CollectionConfig} {m : GoMap GoString Record}
  {ns : GoString} {query : FloatVector} {filter : Metadata.Expr}

/-- A search returns the best of what the segments have kept. -/
theorem searchFilteredWithEF_spec [LinearOrder σ] (h : sh.Tracks lib config m)
    (hbase : ∀ base ∈ sh.immutable, base.index.dimension = config.dimension) {k : ℤ} (hk : 0 < k)
    (hquery : query.length = config.dimension) :
    sh.searchFilteredWithEF score lib ns query k filter =
      .ok ((sortResults (sh.keptResults score lib ns query k.toNat filter)).take k.toNat) := by
  have hactive : query.length = sh.active.index.dimension := hquery.trans h.active.dimension.symm
  rw [searchFilteredWithEF, Segment.searchFilteredWithOptions_eq hk hactive, keptResults, views]
  cases himm : sh.immutable with
  | none => simp [Bind.bind, Except.bind, Pure.pure, Except.pure]
  | some base =>
    have hlength : query.length = base.index.dimension :=
      hquery.trans (hbase base himm).symm
    simp [Bind.bind, Except.bind, Pure.pure, Except.pure,
      Segment.searchFilteredWithOptions_eq hk hlength]

lemma matching_eq (sh : Shard) (lib : Metadata.Library) (filter : Metadata.Expr) (ns : GoString) :
    sh.matching lib filter ns = sh.views.flatMap fun view =>
      view.1.matching lib filter ns view.2 := by
  rw [matching, views]
  cases sh.immutable with
  | none => simp
  | some base =>
    have hhidden : sh.hidden = fun key => sh.active.ordinals.has key || sh.tombstones.has key :=
      rfl
    simp [hhidden]

lemma perm_result_candidates (h : sh.Tracks lib config m)
    (hfilt : ∀ base ∈ sh.immutable, base.Filters lib) : (sh.views.flatMap fun view =>
      (view.1.candidates score lib ns query filter view.2).map view.1.result).Perm
      ((sh.matching lib filter ns).map (Record.result score query)) := by
  rw [matching_eq, map_flatMap]
  refine List.Perm.flatMap_left _ fun view hview => ?_
  rcases mem_cons.1 hview with rfl | hview
  · exact Segment.perm_result_candidates h.active.toWellFormed h.active.answers
  · obtain ⟨base, hmem, rfl⟩ := mem_map.1 hview
    have hbase := Option.mem_toList.1 hmem
    exact Segment.perm_result_candidates (h.base base hbase) (hfilt base hbase)

end Searches

end Shard

end GideonDB
