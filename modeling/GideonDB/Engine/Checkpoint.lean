/-
Checkpoints.

A checkpoint writes the changes since the last one as a segment, merges segments that have
become too many, writes the indexes of the whole view, publishes the manifest, empties the log
and makes the view the immutable segment.  None of the files it writes is one that the manifest
before refers to.  So at every crash the files stand for the records that the shard had when
the checkpoint started, as long as the manifest on disk is one that `LoadManifest` accepts.
-/
import GideonDB.Engine.Durable

namespace GideonDB.Engine

open Go GideonDB.Core Segment Store GoMap Manifest List
open Prog hiding bind throw

/-! ### Writing a segment -/

variable {records : List Record} {keys : List GoString} {data : SegmentData}

section Write

variable {env : Env} {n : Node}

lemma ensures_writes {α : Type} {p : Action α} {P : FileName → Prop} (h : p.Within (Writes P))
    (n : Node) : p.Ensures n fun _ n' => Writes P n n' :=
  h.ensures (fun _ _ _ => .trans) (.refl P n)

section

variable (h : ∀ record ∈ records, env.codec (withoutVector record) = some (withoutVector record))

include h

lemma mapM_codec_withoutVector :
    records.mapM (fun record => env.codec (withoutVector record)) =
      some (records.map withoutVector) := by
  induction records with
  | nil => rfl
  | cons record records ih =>
    rw [mapM_cons, h record mem_cons_self,
      ih (forall_mem_cons.1 h).2]
    rfl

lemma ensures_writeBundle (stem : Stem) (maxLSN : ℕ) :
    (writeBundle env stem records maxLSN).Ensures n fun _ n' => env.config.dimension ≠ 0 ∧
      n'.disk.files.get ⟨stem, .records⟩ = some (.records maxLSN (records.map withoutVector)) ∧
      n'.disk.files.get ⟨stem, .vectors⟩ =
        some (.vectors maxLSN env.config.dimension (records.map Record.vector)) := by
  rw [writeBundle]
  split_ifs with hdim
  · exact .throw _
  split
  · exact .throw _
  rw [mapM_codec_withoutVector h]
  refine Ensures.bind (Ensures.file rfl) fun _ n' (hn' : n' = _) =>
    Ensures.file ⟨hdim, ?_, get_set_self _ _ _⟩
  subst hn'
  exact (get_set_of_ne _ _ (by simp)).trans (get_set_self _ _ _)

end

lemma map_coerceUTF8 (h : ∀ key ∈ keys, validUTF8 key) : keys.map coerceUTF8 = keys := by
  conv_rhs => rw [← map_id keys]
  exact map_congr_left fun key hmem => coerceUTF8_eq_self (h key hmem)

/-- What the tombstone file of a segment holds. -/
def TombstonesAt (files : Files) (name : Option FileName) (maxLSN : ℕ) (keys : List GoString) :
    Prop :=
  match name with
  | some name => files.get name = some (.tombstones maxLSN keys)
  | none => keys = []

lemma ensures_writeTombstones (h : ∀ key ∈ keys, validUTF8 key) (stem : Stem) (maxLSN : ℕ) :
    (writeTombstones stem keys maxLSN).Ensures n fun name n' =>
      TombstonesAt n'.disk.files name maxLSN keys ∧ (∀ name' ∈ name, name' = ⟨stem, .tombstones⟩) ∧
        ∀ kind, kind ≠ .tombstones →
          n'.disk.files.get ⟨stem, kind⟩ = n.disk.files.get ⟨stem, kind⟩ := by
  rw [writeTombstones]
  split_ifs with hempty
  · exact Ensures.pure ⟨hempty, by simp, fun _ _ => rfl⟩
  · rw [map_coerceUTF8 h]
    refine Ensures.bind (Ensures.file rfl) fun _ n' (hn' : n' = _) => ?_
    subst hn'
    refine Ensures.pure ⟨get_set_self _ _ _, by simp, fun kind hkind => ?_⟩
    exact get_set_of_ne _ _ (by simpa using hkind)

lemma ensures_statAll (names : List FileName) :
    (statAll env names).Ensures n fun _ n' => n' = n := by
  refine .bind_state ?_
  split
  · exact Ensures.pure rfl
  · exact .throw _

lemma ensures_writeSegmentRef (h : data.Valid env) (stem : Stem) (maxLSN : ℕ) :
    (writeSegmentRef env stem data.records data.tombstones maxLSN).Ensures n fun ref n' =>
      Holds env n'.disk.files ref data ∧ ref.maxLSN = maxLSN ∧ env.config.dimension ≠ 0 ∧
        ∀ name ∈ ref.names, name.stem = stem := by
  refine .bind (ensures_writeBundle h.column stem maxLSN) fun _ n₁ hn₁ => ?_
  obtain ⟨hdim, hrecs, hvecs⟩ := hn₁
  refine .bind (ensures_writeTombstones h.utf8 stem maxLSN) fun name n₂ hn₂ => ?_
  obtain ⟨htombstones, hname, hsame⟩ := hn₂
  refine .bind (ensures_statAll _) fun size n₃ (hn₃ : n₃ = n₂) => ?_
  subst hn₃
  refine Ensures.pure ⟨⟨?_, ?_, htombstones, rfl, rfl, h⟩, rfl, hdim, ?_⟩
  · exact (hsame .records (by simp)).trans hrecs
  · exact (hsame .vectors (by simp)).trans hvecs
  · intro name' hmem
    simp only [SegmentRef.names, Option.toList_none, append_nil, mem_append,
      mem_cons, not_mem_nil, or_false, Option.mem_toList] at hmem
    rcases hmem with (rfl | rfl) | hmem
    · rfl
    · rfl
    · rw [hname name' hmem]

end Write

/-! ### Chains of segments -/

/-- Segments in the order of their LSNs, and what they do together. -/
structure Chain (env : Env) (files : Files) (refs : List SegmentRef)
    (layer : Layer GoString Record) : Prop where
  holds : ∃ datas, List.Forall₂ (Holds env files) refs datas ∧ layerOf datas = layer
  sorted : refs.Pairwise fun a b => a.maxLSN < b.maxLSN

variable {before inputs after : List SegmentRef} {selected : SegmentRef → Bool}

section Chain

variable {env : Env} {files files' : Files} {refs : List SegmentRef}
  {layer : Layer GoString Record}

lemma chain_nil (env : Env) (files : Files) : Chain env files [] fun _ => none :=
  ⟨⟨[], .nil, rfl⟩, .nil⟩

/-- The last segment's `MaxLSN`. -/
def lastMaxLSN (refs : List SegmentRef) : Option ℕ := refs.getLast?.map SegmentRef.maxLSN

/-- What the policy sees of a segment. -/
def toInput (ref : SegmentRef) : Compaction.Segment := ⟨ref.records, ref.maxLSN, ref.sizeBytes⟩

section

variable (h : Chain env files refs layer)

include h

lemma Chain.congr (hagree : ∀ ref ∈ refs, ∀ name ∈ ref.names, files'.get name = files.get name) :
    Chain env files' refs layer := by
  obtain ⟨datas, hholds, hlayer⟩ := h.holds
  exact ⟨⟨datas, forall₂_holds_congr hholds hagree, hlayer⟩, h.sorted⟩

lemma Chain.append {ref : SegmentRef} (href : Holds env files ref data)
    (hlast : ∀ ref' ∈ refs, ref'.maxLSN < ref.maxLSN) :
    Chain env files (refs ++ [ref]) (data.layer.comp layer) := by
  obtain ⟨datas, hholds, rfl⟩ := h.holds
  refine ⟨⟨datas ++ [data], rel_append hholds (.cons href .nil), ?_⟩, ?_⟩
  · rw [layerOf, layerOf, map_append, map_singleton, Layer.stack_append,
      Layer.stack_singleton]
  · rw [pairwise_append]
    exact ⟨h.sorted, pairwise_singleton _ _, fun ref' hmem ref'' hmem' => by
      rw [mem_singleton.1 hmem']
      exact hlast ref' hmem⟩

lemma Chain.nodup : (refs.map SegmentRef.records).Nodup := by
  obtain ⟨datas, hholds, -⟩ := h.holds
  rw [List.Nodup, pairwise_map]
  refine h.sorted.imp_of_mem fun {a b} ha hb hlt heq => ?_
  obtain ⟨data, -, ha⟩ := exists_of_forall₂ hholds ha
  obtain ⟨data', -, hb⟩ := exists_of_forall₂ hholds hb
  have hsame := ha.records.symm.trans (heq ▸ hb.records)
  simp only [Option.some.injEq, Content.records.injEq] at hsame
  omega

/-! ### Compaction -/

/-- The inputs of a plan are neighbours in the chain, and no other segment has their names. -/
lemma Chain.split {plan : List Compaction.Segment} (hplan : plan <:+: refs.map toInput) :
    ∃ before inputs after, refs = before ++ inputs ++ after ∧ inputs.map toInput = plan ∧
      (∀ ref ∈ before ++ after, (plan.map Compaction.Segment.id).contains ref.records = false) ∧
      ∀ ref ∈ inputs, (plan.map Compaction.Segment.id).contains ref.records := by
  obtain ⟨s, t, hst⟩ := hplan
  obtain ⟨front, after, hrefs, hfront, -⟩ := map_eq_append_iff.1 hst.symm
  obtain ⟨before, inputs, rfl, -, hinputs⟩ := map_eq_append_iff.1 hfront
  have hids : plan.map Compaction.Segment.id = inputs.map SegmentRef.records := by
    rw [← hinputs, map_map]
    rfl
  refine ⟨before, inputs, after, hrefs, hinputs, fun ref hmem => ?_, fun ref hmem => ?_⟩
  · have hnodup := h.nodup
    rw [hrefs, map_append, map_append] at hnodup
    rw [hids, ← Bool.not_eq_true, contains_iff_mem]
    intro hinput
    obtain ⟨hleft, -, hright⟩ := nodup_append.1 hnodup
    rcases mem_append.1 hmem with hmem | hmem
    · exact (nodup_append.1 hleft).2.2 _ (mem_map_of_mem hmem) _ hinput rfl
    · exact hright _ (mem_append_right _ hinput) _ (mem_map_of_mem hmem) rfl
  · rw [hids, contains_iff_mem]
    exact mem_map_of_mem hmem

end

section

variable (houter : ∀ ref ∈ before ++ after, selected ref = false)
  (hinner : ∀ ref ∈ inputs, selected ref)

include houter hinner

lemma filter_split : (before ++ inputs ++ after).filter selected = inputs := by
  have hbefore : before.filter selected = [] := filter_eq_nil_iff.2 fun ref hmem => by
    simp [houter ref (mem_append_left _ hmem)]
  have hafter : after.filter selected = [] := filter_eq_nil_iff.2 fun ref hmem => by
    simp [houter ref (mem_append_right _ hmem)]
  rw [filter_append, filter_append, hbefore, hafter, filter_eq_self.2 hinner,
    append_nil, nil_append]

lemma replaceRefs_split (hinputs : inputs ≠ []) (merged : SegmentRef) :
    replaceRefs (before ++ inputs ++ after) selected merged = before ++ merged :: after := by
  have hremaining : (before ++ inputs ++ after).filter (fun ref => !selected ref) =
      before ++ after := by
    have hnone : inputs.filter (fun ref => !selected ref) = [] :=
      filter_eq_nil_iff.2 fun ref hmem => by simp [hinner ref hmem]
    rw [filter_append, filter_append, hnone, append_nil,
      filter_eq_self.2 fun ref hmem => by simp [houter ref (mem_append_left _ hmem)],
      filter_eq_self.2 fun ref hmem => by simp [houter ref (mem_append_right _ hmem)]]
  have hinsertAt : ((before ++ inputs ++ after).takeWhile fun ref => !selected ref) = before := by
    obtain ⟨ref, inputs, rfl⟩ := exists_cons_of_ne_nil hinputs
    rw [append_assoc, takeWhile_append_of_pos fun ref hmem => by
      simp [houter ref (mem_append_left _ hmem)], cons_append,
      takeWhile_cons_of_neg (by simp [hinner ref mem_cons_self]), append_nil]
  simp only [replaceRefs, hremaining, hinsertAt, take_left', drop_left']

end

variable {n : Node}

/-- `compactSegmentRefs` keeps what the chain does, the LSN of its last segment, and does not
let it grow beyond eight segments or beyond what it was. -/
structure Compacted (env : Env) (refs : List SegmentRef) (layer : Layer GoString Record)
    (sequence : ℕ) (files : Files) (refs' : List SegmentRef) : Prop where
  chain : Chain env files refs' layer
  last : lastMaxLSN refs' = lastMaxLSN refs
  length : refs'.length < 8 ∨ refs'.length < refs.length
  names : ∀ ref ∈ refs', ref ∈ refs ∨ ∀ name ∈ ref.names, ∃ lsn, name.stem = .compact lsn sequence

lemma exists_append_of_forall₂ {α β : Type} {R : α → β → Prop} {l₁ l₂ : List α} {l : List β}
    (h : List.Forall₂ R (l₁ ++ l₂) l) :
    ∃ l₁' l₂', l = l₁' ++ l₂' ∧ List.Forall₂ R l₁ l₁' ∧ List.Forall₂ R l₂ l₂' := by
  have htake := forall₂_take l₁.length h
  have hdrop := forall₂_drop l₁.length h
  rw [take_left] at htake
  rw [drop_left] at hdrop
  exact ⟨_, _, (take_append_drop l₁.length l).symm, htake, hdrop⟩

/-- The LSNs of a chain with some neighbours replaced by a segment with the LSN of the last. -/
lemma sorted_merge {merged : SegmentRef}
    (h : (before ++ inputs ++ after).Pairwise fun a b => a.maxLSN < b.maxLSN)
    (hlast : lastMaxLSN inputs = some merged.maxLSN) :
    (before ++ merged :: after).Pairwise (fun a b => a.maxLSN < b.maxLSN) ∧
      lastMaxLSN (before ++ merged :: after) = lastMaxLSN (before ++ inputs ++ after) := by
  obtain ⟨last, hlastMem, hlastLSN⟩ := Option.map_eq_some_iff.1 hlast
  have hlastInput : last ∈ inputs := mem_of_getLast? hlastMem
  obtain ⟨hsort, hsortedAfter, hinputsAfter⟩ := pairwise_append.1 h
  obtain ⟨hsortedBefore, -, hbeforeInputs⟩ := pairwise_append.1 hsort
  constructor
  · rw [pairwise_append]
    refine ⟨hsortedBefore, pairwise_cons.2 ⟨fun ref hmem => ?_, hsortedAfter⟩,
      fun ref hmem ref' hmem' => ?_⟩
    · rw [← hlastLSN]
      exact hinputsAfter last (mem_append_right _ hlastInput) ref hmem
    · rcases mem_cons.1 hmem' with rfl | hmem'
      · rw [← hlastLSN]
        exact hbeforeInputs ref hmem last hlastInput
      · exact hinputsAfter ref (mem_append_left _ hmem) ref' hmem'
  · rw [lastMaxLSN, lastMaxLSN, List.getLast?_append, List.getLast?_append, List.getLast?_append,
      List.getLast?_cons, hlastMem]
    cases after.getLast? with
    | none => exact congrArg some hlastLSN.symm
    | some ref => rfl

lemma ensures_compactSegmentRefs (h : Chain env n.disk.files refs layer) {sequence : ℕ}
    (hnames : ∀ ref ∈ refs, ∀ name ∈ ref.names, ∀ lsn, name.stem = .compact lsn sequence →
      ref.maxLSN = lsn) : (compactSegmentRefs env refs sequence).Ensures n fun refs' n' =>
      Compacted env refs layer sequence n'.disk.files refs' := by
  refine .bind_ofExcept fun plan hplan => ?_
  have hsort : (refs.map toInput).Pairwise fun a b => a.maxLSN ≤ b.maxLSN := by
    rw [pairwise_map]
    exact h.sorted.imp fun hlt => hlt.le
  obtain ⟨hin, hlength⟩ := Compaction.Policy.select_spec hsort hplan
  rw [length_map] at hlength
  split
  · rename_i hempty
    refine Ensures.pure ⟨h, rfl, .inl ?_, fun ref hmem => .inl hmem⟩
    rcases hlength with ⟨-, hlength⟩ | hlength
    · exact hlength
    · rw [hempty] at hlength
      cases hlength
  · rename_i hplanNe
    have htwo : 2 ≤ plan.length := hlength.resolve_left fun hempty => hplanNe hempty.1
    obtain ⟨before, inputs, after, rfl, hinputs, houter, hinner⟩ := h.split hin
    have hinputsNe : inputs ≠ [] := by
      rintro rfl
      exact hplanNe hinputs.symm
    have hinputsLength : inputs.length = plan.length := by rw [← hinputs, length_map]
    obtain ⟨last, hlast⟩ : ∃ last, inputs.getLast? = some last :=
      ⟨_, List.getLast?_eq_some_getLast hinputsNe⟩
    dsimp only
    rw [filter_split houter hinner, hlast]
    refine .bind_state (.bind_ofExcept fun merged hmerged => ?_)
    obtain ⟨datas, hholds, rfl⟩ := h.holds
    obtain ⟨datas, afterDatas, rfl, hholds, hafter⟩ := exists_append_of_forall₂ hholds
    obtain ⟨beforeDatas, inputDatas, rfl, hbefore, hinputDatas⟩ := exists_append_of_forall₂ hholds
    obtain ⟨data, hdata, hvalid, hlayer, -⟩ :=
      materializeSegments_spec hinputDatas (Describes.valid_of_forall₂ hinputDatas)
    obtain rfl := Except.ok.inj (hdata.symm.trans hmerged)
    have hwrites := ensures_writes (@within_writeSegmentRef env
      (fun name => name.stem = .compact last.maxLSN sequence) _ (fun _ => rfl)
      data.records data.tombstones last.maxLSN) n
    refine .bind ((ensures_writeSegmentRef hvalid _ _).and hwrites) fun ref n' hn' => ?_
    obtain ⟨⟨href, hrefLSN, -, hrefNames⟩, hframe⟩ := hn'
    obtain ⟨hsort', hlast'⟩ := sorted_merge h.sorted
      (show lastMaxLSN inputs = some ref.maxLSN by rw [lastMaxLSN, hlast, hrefLSN]; rfl)
    obtain ⟨-, hrefAfter, hbeforeRef⟩ := pairwise_append.1 hsort'
    -- Only the inputs may have been overwritten: the name of the new files has the LSN of the last.
    have hsame : ∀ ref' ∈ before ++ inputs ++ after, ref'.maxLSN ≠ ref.maxLSN →
        ∀ name ∈ ref'.names, n'.disk.files.get name = n.disk.files.get name :=
      fun ref' hmem hne name hname => hframe.2 name fun hstem =>
        hne (hrefLSN ▸ hnames ref' hmem name hname _ hstem)
    have hchain : Chain env n'.disk.files (before ++ ref :: after)
        (layerOf (beforeDatas ++ inputDatas ++ afterDatas)) := by
      refine ⟨⟨beforeDatas ++ data :: afterDatas, rel_append ?_ (.cons href ?_), ?_⟩, hsort'⟩
      · exact forall₂_holds_congr hbefore fun ref' hmem => hsame ref' (by simp [hmem])
          (hbeforeRef ref' hmem ref mem_cons_self).ne
      · exact forall₂_holds_congr hafter fun ref' hmem => hsame ref' (by simp [hmem])
          ((pairwise_cons.1 hrefAfter).1 ref' hmem).ne'
      · rw [layerOf, layerOf, map_append, map_cons, hlayer, layerOf,
          Layer.stack_replace, map_append, map_append]
    refine .pure ?_
    rw [replaceRefs_split houter hinner hinputsNe]
    refine ⟨hchain, hlast', .inr ?_, fun ref' hmem => ?_⟩
    · simp only [length_append, length_cons]
      omega
    · rcases mem_append.1 hmem with hmem | hmem
      · exact .inl (by simp [hmem])
      · rcases mem_cons.1 hmem with rfl | hmem
        · exact .inr fun name hname => ⟨_, hrefNames name hname⟩
        · exact .inl (by simp [hmem])

end Chain

/-! ### The checks of a manifest -/

section Check

variable {manifest : Manifest} {refs : List SegmentRef}

lemma checkSegments_eq_ok {position : ℕ} {previous : Option ℕ} :
    checkSegments manifest position previous refs = .ok () ↔
      (∀ ref ∈ refs, ref.dimension = manifest.dimension ∧ ref.maxLSN ≤ manifest.maxLSN ∧
        ∀ p ∈ previous, p < ref.maxLSN) ∧ refs.Pairwise (fun a b => a.maxLSN < b.maxLSN) ∧
      (lastMaxLSN refs).or previous = some manifest.maxLSN := by
  induction refs generalizing position previous with
  | nil =>
    rw [checkSegments]
    split <;> simp_all [lastMaxLSN]
  | cons ref refs ih =>
    have hlast : (lastMaxLSN (ref :: refs)).or previous =
        (lastMaxLSN refs).or (some ref.maxLSN) := by
      rw [lastMaxLSN, lastMaxLSN, List.getLast?_cons]
      cases refs.getLast? <;> rfl
    rw [checkSegments, hlast, pairwise_cons]
    split
    · rename_i hbad
      constructor
      · intro h
        cases h
      · rintro ⟨hall, -, -⟩
        obtain ⟨hdim, hle, hprev⟩ := hall ref mem_cons_self
        rcases hbad with hbad | hbad | hbad
        · exact absurd hdim hbad
        · obtain ⟨p, hp, hle⟩ := (Option.any_eq_true _ _).1 hbad
          exact absurd (hprev p hp) (not_lt.2 (of_decide_eq_true hle))
        · exact absurd hle (not_le.2 hbad)
    · rename_i hgood
      simp only [not_or, not_not, not_lt] at hgood
      obtain ⟨hdim, hprev, hle⟩ := hgood
      have hprev' : ∀ p ∈ previous, p < ref.maxLSN := fun p hp => by
        by_contra hlt
        exact hprev ((Option.any_eq_true _ _).2 ⟨p, hp, decide_eq_true (not_lt.1 hlt)⟩)
      rw [ih]
      constructor
      · rintro ⟨hall, hsort, hor⟩
        refine ⟨fun ref' hmem => ?_, ⟨fun ref' hmem => (hall ref' hmem).2.2 _ rfl, hsort⟩, hor⟩
        rcases mem_cons.1 hmem with rfl | hmem
        · exact ⟨hdim, hle, hprev'⟩
        · obtain ⟨hdim', hle', hlt⟩ := hall ref' hmem
          exact ⟨hdim', hle', fun p hp => (hprev' p hp).trans (hlt _ rfl)⟩
      · rintro ⟨hall, ⟨hlt, hsort⟩, hor⟩
        refine ⟨fun ref' hmem => ?_, hsort, hor⟩
        obtain ⟨hdim', hle', -⟩ := hall ref' (mem_cons_of_mem _ hmem)
        exact ⟨hdim', hle', fun p hp => by
          cases hp
          exact hlt ref' hmem⟩

/-- What `LoadManifest` accepts: between 1 and 16 segments, their LSNs increasing up to that of
the manifest. -/
lemma checkManifest_segments (hlayout : manifest.layout = .segments refs) :
    checkManifest manifest = .ok () ↔ refs ≠ [] ∧ refs.length ≤ 16 ∧ manifest.dimension ≠ 0 ∧
      (∀ ref ∈ refs, ref.dimension = manifest.dimension ∧ ref.maxLSN ≤ manifest.maxLSN) ∧
      refs.Pairwise (fun a b => a.maxLSN < b.maxLSN) ∧ lastMaxLSN refs = some manifest.maxLSN := by
  rw [checkManifest, hlayout]
  dsimp only
  split
  · rename_i hbad
    constructor
    · intro h
      cases h
    · rintro ⟨hne, hlength, hdim, -⟩
      rcases hbad with hbad | hbad | hbad
      · exact absurd hbad hne
      · exact absurd hlength (not_le.2 hbad)
      · exact absurd hbad hdim
  · rename_i hgood
    simp only [not_or, not_lt] at hgood
    obtain ⟨hne, hlength, hdim⟩ := hgood
    rw [checkSegments_eq_ok]
    simp [hne, hlength, hdim]

end Check

/-! ### The indexes of a view -/

section Indexes

variable {env : Env} {n : Node} {records : List Record}

lemma ensures_writeGraph (name : FileName) : (writeGraph env name records).Ensures n fun graph n' =>
      (env.config.indexType = .hnsw → graph = some name ∧
        n'.disk.files.get name = some (.graph env.config.dimension records.length)) ∧
      (env.config.indexType ≠ .hnsw → graph = none) := by
  rw [writeGraph]
  split
  · rename_i htype
    split
    · refine Ensures.bind (Ensures.file rfl) fun _ n' (hn' : n' = _) => ?_
      subst hn'
      exact Ensures.pure ⟨fun _ => ⟨rfl, get_set_self _ _ _⟩, fun hne => absurd htype hne⟩
    · exact .throw _
  · rename_i htype
    exact Ensures.pure ⟨fun heq => absurd heq htype, fun _ => rfl⟩

lemma ensures_writeDiskANN (name : FileName) (current : Option FileName) :
    (writeDiskANN env name records current).Ensures n fun graph n' =>
      (env.config.indexType = .diskann ∧ records ≠ [] ∧ graph = some name ∧
        n'.disk.files.get name = some (diskANNFile env records)) ∨
      ((env.config.indexType ≠ .diskann ∨ records = []) ∧ graph = current ∧ n' = n) := by
  rw [writeDiskANN]
  split
  · rename_i hskip
    exact Ensures.pure (.inr ⟨hskip, rfl, rfl⟩)
  · rename_i hwrite
    rw [not_or, not_not] at hwrite
    split
    · refine Ensures.bind (Ensures.file rfl) fun _ n' (hn' : n' = _) => ?_
      subst hn'
      exact Ensures.pure (.inl ⟨hwrite.1, hwrite.2, rfl, get_set_self _ _ _⟩)
    · exact .throw _

lemma ensures_writePQ (name : FileName) (check : Action Unit) (count : ℕ) :
    (writePQ env name check count).Ensures n fun pq _ =>
      pq = if usesPQ env count then some name else none := by
  rw [writePQ]
  split
  · exact .bind (.any _) fun _ _ _ =>
      Ensures.bind (Ensures.any _) fun _ _ _ => Ensures.pure rfl
  · exact Ensures.pure rfl

/-- The index files are about the records. -/
structure Indexed (env : Env) (files : Files) (stem diskannStem : Stem) (records : List Record)
    (maxLSN : ℕ) (indexes : Indexes) : Prop where
  filter : ∃ file, Metadata.Index.marshalRecords env.lib (records.map Record.metadata) = some file ∧
    indexes.data = file.throughJSON env.lib ∧
    files.get indexes.filter = some (.filter maxLSN records.length (file.throughJSON env.lib))
  graph : GraphFor env files indexes.graph records
  names : indexes.filter.stem = stem ∧ (∀ name ∈ indexes.pq, name.stem = stem) ∧
    ∀ name ∈ indexes.graph, name.stem = stem ∨ name.stem = diskannStem

lemma ensures_writeIndexes (stem diskannStem : Stem) {checkPQ : Action Unit}
    (hcheck : ∀ P, checkPQ.Within (Writes P)) (maxLSN : ℕ) :
    (writeIndexes env stem diskannStem checkPQ records maxLSN).Ensures n fun indexes n' =>
      Indexed env n'.disk.files stem diskannStem records maxLSN indexes := by
  rw [writeIndexes]
  split
  · exact .throw _
  rename_i file hfile
  refine Ensures.bind (Ensures.file rfl) fun _ n₁ (hn₁ : n₁ = _) => ?_
  have hfilter₁ : n₁.disk.files.get ⟨stem, .filter⟩ =
      some (.filter maxLSN records.length (file.throughJSON env.lib)) := by
    subst hn₁
    exact get_set_self _ _ _
  have hframe₂ := ensures_writes (@within_writeGraph env (fun name => name = ⟨stem, .graph⟩)
    ⟨stem, .graph⟩ (fun _ => rfl) records) n₁
  refine .bind ((ensures_writeGraph ⟨stem, .graph⟩).and hframe₂)
    fun graph n₂ hn₂ => ?_
  obtain ⟨⟨hhnsw, hother⟩, hframe₂⟩ := hn₂
  have hframe₃ := ensures_writes (@within_writePQ env (fun name => name = ⟨stem, .pq⟩)
    ⟨stem, .pq⟩ records.length (fun _ => rfl) checkPQ (hcheck _)) n₂
  refine .bind ((ensures_writePQ _ _ _).and hframe₃) fun pq n₃ hn₃ => ?_
  obtain ⟨hpq, hframe₃⟩ := hn₃
  have hframe₄ := ensures_writes (@within_writeDiskANN env
    (fun name => name = ⟨diskannStem, .diskann⟩) ⟨diskannStem, .diskann⟩ rfl records graph) n₃
  refine .bind ((ensures_writeDiskANN _ _).and hframe₄) fun graph' n₄ hn₄ => ?_
  obtain ⟨hdiskann, hframe₄⟩ := hn₄
  have hgraph₄ : n₄.disk.files.get ⟨stem, .graph⟩ = n₂.disk.files.get ⟨stem, .graph⟩ :=
    (hframe₄.2 _ (by simp)).trans (hframe₃.2 _ (by simp))
  refine Ensures.pure ⟨⟨file, hfile, rfl, ?_⟩, ?_, rfl, fun name hname => ?_,
    fun name hname => ?_⟩
  · rw [hframe₄.2 _ (by simp), hframe₃.2 _ (by simp), hframe₂.2 _ (by simp), hfilter₁]
  · rw [GraphFor]
    cases htype : env.config.indexType with
    | flat => trivial
    | hnsw =>
      obtain ⟨hname, hfile⟩ := hhnsw htype
      rcases hdiskann with ⟨htype', -⟩ | ⟨-, hgraph', -⟩
      · rw [htype] at htype'
        cases htype'
      · exact ⟨_, hgraph'.trans hname, hgraph₄.trans hfile⟩
    | diskann =>
      rcases hdiskann with ⟨-, -, hname, hfile⟩ | ⟨hskip, hgraph', -⟩
      · exact .inr ⟨_, hname, hfile⟩
      · refine .inl ⟨hgraph'.trans (hother (by simp [htype])), ?_⟩
        exact hskip.resolve_left (by simp [htype])
  · rw [hpq] at hname
    split at hname <;> cases hname
    rfl
  · rcases hdiskann with ⟨-, -, hname', -⟩ | ⟨-, hgraph', -⟩
    · obtain rfl := Option.mem_unique hname' hname
      exact .inr rfl
    · rw [hgraph'] at hname
      by_cases htype : env.config.indexType = .hnsw
      · obtain rfl := Option.mem_unique (hhnsw htype).1 hname
        exact .inl rfl
      · rw [hother htype] at hname
        cases hname

end Indexes

/-! ### The changes since the last checkpoint -/

/-- The segment of the changes since the last checkpoint. -/
def deltaOf (sh : Shard) : SegmentData := ⟨sh.checkpointDelta.1, sh.checkpointDelta.2⟩

section Delta

variable {env : Env} {sh : Shard}

lemma mem_deltaOf_tombstones {key : GoString} :
    key ∈ (deltaOf sh).tombstones ↔ sh.tombstones.has key := by
  rw [deltaOf, Shard.checkpointDelta, mem_sortStrings, has_iff_mem_keys]

lemma Healthy.layer_deltaOf (h : Healthy env sh) : (deltaOf sh).layer = sh.layer :=
  Shard.ofLists_eq_layer h.active_writable.toWellFormed fun _ => mem_deltaOf_tombstones

lemma Healthy.valid_deltaOf (h : Healthy env sh) : (deltaOf sh).Valid env := by
  have hwf := h.active_writable.toWellFormed
  have hbase : ∀ key ∈ (deltaOf sh).tombstones, ∃ record, Sound env record ∧ record.key = key := by
    intro key hkey
    obtain ⟨record, hrec⟩ :=
      Option.isSome_iff_exists.1 (h.buried key (mem_deltaOf_tombstones.1 hkey))
    refine ⟨record, h.base_sound key record hrec, ?_⟩
    obtain ⟨m, hm⟩ := h.tracks
    obtain ⟨base, himm, hlook⟩ := Option.bind_eq_some_iff.1 hrec
    obtain ⟨ordinal, stored, -, hkey, rfl⟩ := (hm.base base himm).lookup_eq_some.1 hlook
    rw [key_read, hkey]
  refine ⟨fun record hmem => ?_, hwf.nodup_list, ?_, fun key hkey => ?_, fun key hkey hmem => ?_⟩
  · exact (h.active_sound record.key record (hwf.mem_list.1 hmem)).column
  · refine checkKeys_sortStrings sh.tombstones.nodup_keys fun key hkey => ?_
    obtain ⟨record, -, rfl⟩ := hbase key (mem_sortStrings.2 hkey)
    simp [Record.key, recordKey]
  · obtain ⟨record, hsound, rfl⟩ := hbase key hkey
    exact hsound.key
  · obtain ⟨record, hrec, rfl⟩ := mem_map.1 hmem
    have hnone := h.apart record.key (mem_deltaOf_tombstones.1 hkey)
    rw [hwf.mem_list.1 hrec] at hnone
    cases hnone

lemma Healthy.checkpointDelta_eq_nil_iff (h : Healthy env sh) :
    sh.checkpointDelta = ([], []) ↔ sh.layer = fun _ => none := by
  have hlayer := h.layer_deltaOf
  constructor
  · intro hdelta
    rw [← hlayer, deltaOf, hdelta]
    rfl
  · intro hempty
    have hwf := h.active_writable.toWellFormed
    have hnone : ∀ key, sh.active.lookup key = none ∧ sh.tombstones.has key = false := fun key => by
      have hkey := congrFun hempty key
      rw [Shard.layer] at hkey
      cases hactive : sh.active.lookup key with
      | some record => simp [hactive] at hkey
      | none => simpa [hactive] using hkey
    refine Prod.ext (eq_nil_iff_forall_not_mem.2 fun record hmem => ?_)
      (eq_nil_iff_forall_not_mem.2 fun key hmem => ?_)
    · have hactive := hwf.mem_list.1 hmem
      rw [(hnone record.key).1] at hactive
      cases hactive
    · have htomb := mem_deltaOf_tombstones.1 hmem
      rw [(hnone key).2] at htomb
      cases htomb

end Delta

/-! ### The segments of a checkpoint -/

variable {files : Files} {refs : List SegmentRef}

section Stage

variable {env : Env} {n : Node} {base : List Record}

/-- The layer has these records. -/
def Shows (layer : Layer GoString Record) (records : Live) : Prop :=
  layer.onto (fun _ => none) = records

/-- The segments of the manifest before. -/
structure OldSegments (env : Env) (files : Files) (old : Option Manifest) (base : List Record)
    (refs : List SegmentRef) : Prop where
  chain : ∃ layer, Chain env files refs layer ∧ Shows layer (liveOf base)
  last : lastMaxLSN refs = old.map maxLSN
  below : ∀ ref ∈ refs, ∀ manifest ∈ old, ref.maxLSN ≤ manifest.maxLSN
  length : refs.length ≤ 16
  names : ∀ ref ∈ refs, ∀ name ∈ ref.names, ∃ manifest ∈ old, name ∈ manifest.referenced
  dimension : old.isSome = true → env.config.dimension ≠ 0

lemma Enumerates.liveOf_eq {live : Live} (h : Enumerates live records) : live = liveOf records :=
  (funext h.lookup).symm

lemma shows_records (records : List Record) : Shows (layerOf [⟨records, []⟩]) (liveOf records) := by
  funext key
  rw [layerOf, map_singleton, Layer.stack_singleton, SegmentData.layer, Layer.onto,
    Layer.ofLists, liveOf]
  cases (entriesOf records).lookup key <;> rfl

lemma Describes.dimension_ne {manifest : Manifest}
    (h : Describes env files manifest base) : env.config.dimension ≠ 0 := by
  rw [← h.dimension]
  cases hlayout : manifest.layout with
  | column records vectors =>
    intro hzero
    have haccd := h.accepted
    rw [checkManifest, hlayout] at haccd
    simp [hzero] at haccd
  | segments refs => exact ((checkManifest_segments hlayout).1 h.accepted).2.2.1

lemma ensures_oldRefs {old : Option Manifest} (hnone : old = none → base = [])
    (hsome : ∀ manifest, old = some manifest → Describes env n.disk.files manifest base) :
    (oldRefs env old).Ensures n fun refs n' => n' = n ∧
      OldSegments env n.disk.files old base refs := by
  rw [oldRefs.eq_def]
  cases old with
  | none =>
    obtain rfl := hnone rfl
    refine Ensures.pure ⟨rfl, ⟨_, chain_nil env _, rfl⟩, rfl, ?_, ?_, ?_, ?_⟩ <;> simp
  | some manifest =>
    have h := hsome manifest rfl
    dsimp only
    cases hlayout : manifest.layout with
    | segments refs =>
      obtain ⟨datas, hholds, hdatas⟩ := h.segments
      rw [hlayout] at hdatas
      obtain ⟨-, hlength, -, hall, hsort, hlast⟩ :=
        (checkManifest_segments hlayout).1 h.accepted
      have hrefs : manifest.refs = refs := by rw [Manifest.refs, hlayout]
      rw [hrefs] at hholds
      refine Ensures.pure ⟨rfl, ⟨_, ⟨⟨datas, hholds, rfl⟩, hsort⟩, ?_⟩, hlast, ?_, hlength,
        ?_, fun _ => h.dimension_ne⟩
      · exact Enumerates.liveOf_eq hdatas
      · intro ref hmem manifest' hman'
        cases hman'
        exact (hall ref hmem).2
      · intro ref hmem name hname
        exact ⟨manifest, rfl, mem_referenced_of_ref (hrefs ▸ hmem) hname⟩
    | column records vectors =>
      have hholds := h.holds_column hlayout
      have hstat : (refFromManifest env manifest records vectors).Ensures n fun ref n' =>
          n' = n ∧ ∃ size, ref = ⟨records, vectors, manifest.graph, manifest.filter, none,
            manifest.dimension, manifest.maxLSN, manifest.recordCount, size⟩ :=
        Ensures.bind (ensures_statAll _) fun size n' hn' =>
          Ensures.pure ⟨hn', size, rfl⟩
      refine .bind hstat fun ref n' hn' => ?_
      obtain ⟨rfl, size, rfl⟩ := hn'
      refine Ensures.pure ⟨rfl, ⟨_, ⟨⟨[⟨base, []⟩], .cons ?_ .nil, rfl⟩,
        pairwise_singleton _ _⟩, shows_records base⟩, rfl, ?_, by simp, ?_,
        fun _ => h.dimension_ne⟩
      · exact { hholds with }
      · intro ref hmem manifest' hman'
        obtain rfl := mem_singleton.1 hmem
        cases hman'
        exact le_rfl
      · intro ref hmem name hname
        obtain rfl := mem_singleton.1 hmem
        refine ⟨manifest, rfl, ?_⟩
        simp only [SegmentRef.names, referenced, hlayout, mem_append,
          Option.toList_none, append_nil] at hname ⊢
        tauto

/-- A checkpoint writes a segment of changes: there was no manifest, or there are changes. -/
def Changed (old : Option Manifest) (sh : Shard) : Prop :=
  old.isNone = true ∨ sh.checkpointDelta.1 ≠ [] ∨ sh.checkpointDelta.2 ≠ []

/-- What a checkpoint at an LSN starts from. -/
structure Start (env : Env) (files : Files) (old : Option Manifest) (base : List Record) (sh : Shard)
    (lsn : ℕ) : Prop where
  healthy : Healthy env sh
  baseLookup : sh.baseLookup = liveOf base
  absent : old = none → base = []
  described : ∀ manifest ∈ old, Describes env files manifest base
  /-- It does not write over the files in use. -/
  fresh : ∀ manifest ∈ old, ∀ name ∈ manifest.referenced, ¬ OfCheckpoint lsn name
  advanced : Changed old sh → ∀ manifest ∈ old, manifest.maxLSN < lsn

/-- The segments of a checkpoint. -/
structure Staged (env : Env) (old : Option Manifest) (sh : Shard) (lsn : ℕ) (files : Files)
    (refs : List SegmentRef) : Prop where
  chain : ∃ layer, Chain env files refs layer ∧ Shows layer sh.lookup
  nonempty : refs ≠ []
  length : refs.length ≤ 16
  changed : Changed old sh → lastMaxLSN refs = some lsn
  unchanged : ¬ Changed old sh → lastMaxLSN refs = old.map maxLSN
  names : ∀ ref ∈ refs, ∀ name ∈ ref.names, OfSegments lsn name ∨
    ∃ manifest ∈ old, name ∈ manifest.referenced
  dimension : env.config.dimension ≠ 0

variable {old : Option Manifest} {sh : Shard} {lsn : ℕ}

lemma Start.shows_of_unchanged (h : Start env files old base sh lsn)
    (hchg : ¬ Changed old sh) : liveOf base = sh.lookup := by
  rw [Changed, not_or, not_or, not_not, not_not] at hchg
  obtain ⟨-, hrecs, htombstones⟩ := hchg
  have hlayer := h.healthy.layer_deltaOf
  rw [deltaOf, hrecs, htombstones] at hlayer
  funext key
  rw [Shard.lookup, ← hlayer, ← h.baseLookup]
  rfl

/-- The segments before and the changes since then show the records of the shard. -/
lemma Start.shows_delta (h : Start env files old base sh lsn) {layer : Layer GoString Record}
    (hshows : Shows layer (liveOf base)) : Shows ((deltaOf sh).layer.comp layer) sh.lookup := by
  rw [Shows, Layer.onto_comp, hshows, h.healthy.layer_deltaOf, ← h.baseLookup]
  rfl

lemma Start.ensures_stageSegments (h : Start env n.disk.files old base sh lsn) :
    (stageSegments env old sh.checkpointDelta.1 sh.checkpointDelta.2 lsn).Ensures n fun refs n' =>
      Staged env old sh lsn n'.disk.files refs := by
  refine .bind (ensures_oldRefs h.absent h.described) ?_
  rintro refs n' ⟨rfl, hold⟩
  obtain ⟨layer, hchain, hshows⟩ := hold.chain
  have hfresh : ∀ ref ∈ refs, ∀ name ∈ ref.names, ¬ OfCheckpoint lsn name :=
    fun ref hmem name hname => by
      obtain ⟨manifest, hman, hrefd⟩ := hold.names ref hmem name hname
      exact h.fresh manifest hman name hrefd
  split_ifs with hchg
  · -- the changes are written as a segment on top of the chain
    have hframe := ensures_writes (@within_writeSegmentRef env (fun name => name.stem = .delta lsn)
      _ (fun _ => rfl) (deltaOf sh).records (deltaOf sh).tombstones lsn) n'
    refine .bind ((ensures_writeSegmentRef h.healthy.valid_deltaOf _ _).and hframe)
      fun ref n₁ hn₁ => ?_
    obtain ⟨⟨href, hlsn, hdim, hnames⟩, hframe⟩ := hn₁
    have hchain₁ := (hchain.congr fun ref hmem name hname =>
      hframe.2 name fun hstem => hfresh ref hmem name hname (.inl (.inl hstem))).append href
        fun ref' hmem => by
          rw [hlsn]
          cases hold' : old with
          | none =>
            obtain ⟨name, hname⟩ : ∃ name, name ∈ ref'.names := ⟨_, mem_append_left _
              (mem_append_left _ (mem_append_left _ mem_cons_self))⟩
            obtain ⟨manifest, hman, -⟩ := hold.names ref' hmem name hname
            rw [hold'] at hman
            cases hman
          | some manifest =>
            exact (hold.below ref' hmem manifest hold').trans_lt
              (h.advanced hchg manifest hold')
    refine (ensures_compactSegmentRefs hchain₁ fun ref' hmem name hname lsn' hstem => ?_).mono
      fun refs' n₂ hcmpd => ⟨⟨_, hcmpd.chain, h.shows_delta hshows⟩, ?_, ?_, fun _ => ?_,
        fun hnot => absurd hchg hnot, fun ref' hmem name hname => ?_, hdim⟩
    · rcases mem_append.1 hmem with hmem | hmem
      · exact (hfresh ref' hmem name hname (.inl (.inr ⟨lsn', hstem⟩))).elim
      · rw [mem_singleton.1 hmem] at hname
        rw [hnames name hname] at hstem
        cases hstem
    · rintro rfl
      have hlast := hcmpd.last
      simp [lastMaxLSN] at hlast
    · have hlength := hcmpd.length
      have hbound := hold.length
      rw [length_append, length_singleton] at hlength
      omega
    · rw [hcmpd.last, lastMaxLSN, List.getLast?_concat, Option.map_some, hlsn]
    · rcases hcmpd.names ref' hmem with hmem | hcompact
      · rcases mem_append.1 hmem with hmem | hmem
        · exact .inr (hold.names ref' hmem name hname)
        · rw [mem_singleton.1 hmem] at hname
          exact .inl (.inl (hnames name hname))
      · exact .inl (.inr (hcompact name hname))
  · have hsome : old.isSome := by
      rw [not_or, Bool.not_eq_true, Option.isNone_eq_false_iff] at hchg
      exact hchg.1
    refine (ensures_compactSegmentRefs hchain fun ref' hmem name hname lsn' hstem =>
      (hfresh ref' hmem name hname (.inl (.inr ⟨lsn', hstem⟩))).elim).mono
      fun refs' n₂ hcmpd => ⟨⟨_, hcmpd.chain, ?_⟩, ?_, ?_, fun h => absurd h hchg,
        fun _ => hcmpd.last.trans hold.last, fun ref' hmem name hname => ?_,
        hold.dimension hsome⟩
    · rw [← h.shows_of_unchanged hchg]
      exact hshows
    · rintro rfl
      have hlast := hcmpd.last.trans hold.last
      obtain ⟨manifest, hman⟩ := Option.isSome_iff_exists.1 hsome
      rw [hman] at hlast
      cases hlast
    · have hlength := hcmpd.length
      have hbound := hold.length
      omega
    · rcases hcmpd.names ref' hmem with hmem | hcompact
      · exact .inr (hold.names ref' hmem name hname)
      · exact .inl (.inr (hcompact name hname))

/-! ### The manifest of a checkpoint -/

/-- A checkpoint of the shard that is ready to be published. -/
structure PlanFor (env : Env) (old : Option Manifest) (sh : Shard) (lsn : ℕ) (files : Files)
    (plan : Plan) : Prop where
  records : plan.records = sh.list
  maxLSN : plan.maxLSN = lsn
  staged : Staged env old sh lsn files plan.refs
  indexed : Indexed env files (.view lsn) (.segmentView lsn) sh.list lsn plan.indexes
  /-- The files that are kept from the manifest before are of earlier checkpoints. -/
  stamped : ∀ manifest ∈ old, ∀ name ∈ manifest.referenced, name.stem.stamp ≤ lsn

lemma Staged.congr_view {files' : Files} (h : Staged env old sh lsn files refs)
    (hfresh : ∀ manifest ∈ old, ∀ name ∈ manifest.referenced, ¬ OfCheckpoint lsn name)
    (hsame : ∀ name, ¬ OfView lsn name → files'.get name = files.get name) :
    Staged env old sh lsn files' refs := by
  obtain ⟨layer, hchain, hshows⟩ := h.chain
  refine { h with
    chain := ⟨layer, hchain.congr fun ref hmem name hname => hsame name fun hview => ?_, hshows⟩ }
  rcases h.names ref hmem name hname with hsegments | ⟨manifest, hman, hrefd⟩
  · rcases hsegments with hstem | ⟨_, hstem⟩ <;> rcases hview with hview | hview <;>
      · rw [hstem] at hview
        cases hview
  · exact hfresh manifest hman name hrefd (.inr hview)

lemma Start.ensures_stageCheckpoint (h : Start env n.disk.files old base sh lsn)
    (hstamped : ∀ manifest ∈ old, ∀ name ∈ manifest.referenced, name.stem.stamp ≤ lsn)
    {delta : List Record} {tombstones : List GoString}
    (hdelta : sh.checkpointDelta = (delta, tombstones)) (hrecs : sh.list = records) :
    (stageCheckpoint env old delta tombstones records lsn).Ensures n
      fun plan n' => PlanFor env old sh lsn n'.disk.files plan := by
  have hstage := h.ensures_stageSegments
  rw [hdelta] at hstage
  have hframe := ensures_writes (within_stageSegments env old delta tombstones lsn) n
  refine .bind (hstage.and hframe) fun refs n₁ hn₁ => ?_
  obtain ⟨hstaged, -⟩ := hn₁
  have hindexes := (ensures_writeIndexes (n := n₁) (.view lsn) (.segmentView lsn)
    (fun P => within_buildViewPQ refs records) lsn).and
    (ensures_writes (within_viewIndexes env refs records lsn) n₁)
  refine .bind hindexes fun indexes n₂ hn₂ => .pure ?_
  obtain ⟨hindexed, hframe'⟩ := hn₂
  exact ⟨hrecs.symm, rfl, hstaged.congr_view h.fresh hframe'.2, hrecs ▸ hindexed, hstamped⟩

lemma le_of_lastMaxLSN {bound : ℕ} (hsort : refs.Pairwise fun a b => a.maxLSN < b.maxLSN)
    (hlast : lastMaxLSN refs = some bound) : ∀ ref ∈ refs, ref.maxLSN ≤ bound := by
  intro ref hmem
  obtain ⟨last, hgetLast, rfl⟩ := Option.map_eq_some_iff.1 hlast
  obtain ⟨front, rfl⟩ := List.getLast?_eq_some_iff.1 hgetLast
  rcases mem_append.1 hmem with hmem | hmem
  · exact ((pairwise_append.1 hsort).2.2 ref hmem last (by simp)).le
  · rw [mem_singleton.1 hmem]

namespace PlanFor

variable {files : Files} {plan : Plan}

/-- The manifest of a checkpoint is accepted, unless the LSN has moved on from that of the
manifest before without a change. -/
lemma accepted_iff (h : PlanFor env old sh lsn files plan) :
    checkManifest (plan.manifest env) = .ok () ↔
      Changed old sh ∨ old.map Manifest.maxLSN = some lsn := by
  obtain ⟨layer, hchain, -⟩ := h.staged.chain
  obtain ⟨datas, hholds, -⟩ := hchain.holds
  have hlast : lastMaxLSN plan.refs = some lsn ↔
      Changed old sh ∨ old.map Manifest.maxLSN = some lsn := by
    by_cases hchg : Changed old sh
    · simp [h.staged.changed hchg, hchg]
    · rw [h.staged.unchanged hchg]
      simp [hchg]
  rw [checkManifest_segments rfl, ← hlast]
  constructor
  · rintro ⟨-, -, -, -, -, hlast⟩
    rw [hlast]
    exact congrArg some h.maxLSN
  · intro hlast
    refine ⟨h.staged.nonempty, h.staged.length, h.staged.dimension, fun ref hmem => ⟨?_, ?_⟩,
      hchain.sorted, hlast.trans (congrArg some h.maxLSN.symm)⟩
    · obtain ⟨data, -, hdata⟩ := exists_of_forall₂ hholds hmem
      exact hdata.dimension
    · exact (le_of_lastMaxLSN hchain.sorted hlast ref hmem).trans_eq h.maxLSN.symm

lemma describes (h : PlanFor env old sh lsn files plan) (hheal : Healthy env sh)
    (haccd : checkManifest (plan.manifest env) = .ok ()) :
    Describes env files (plan.manifest env) sh.list where
  accepted := haccd
  dimension := rfl
  sound := hheal.list_sound
  nodup := hheal.nodup_list
  segments := by
    obtain ⟨layer, hchain, hshows⟩ := h.staged.chain
    obtain ⟨datas, hholds, rfl⟩ := hchain.holds
    refine ⟨datas, hholds, ?_⟩
    change Enumerates (viewOf datas) sh.list
    rw [viewOf, hshows]
    exact hheal.enumerates
  count := congrArg List.length h.records
  filter := by
    obtain ⟨file, hfile, -, hget⟩ := h.indexed.filter
    exact ⟨_, file, rfl, hfile, by rw [hget]; exact congrArg _ (by rw [Plan.manifest, h.maxLSN])⟩
  graph := h.indexed.graph
  stamped := by
    obtain ⟨hfilter, hpq, hgraph⟩ := h.indexed.names
    intro name hname
    refine ⟨?_, fun hmulti => by cases hmulti⟩
    change name.stem.stamp ≤ plan.maxLSN
    rw [h.maxLSN]
    simp only [referenced, Plan.manifest, mem_append, Option.mem_toList,
      mem_flatMap] at hname
    rcases hname with ((hname | hname) | hname) | ⟨ref, hmem, hname⟩
    · rcases hgraph name hname with hstem | hstem <;>
        · rw [hstem]
          exact le_rfl
    · cases hname
      rw [hfilter]
      exact le_rfl
    · rw [hpq name hname]
      exact le_rfl
    · rcases h.staged.names ref hmem name hname with (hstem | ⟨_, hstem⟩) | hold
      · rw [hstem]
        exact le_rfl
      · rw [hstem]
        exact le_rfl
      · obtain ⟨manifest, hman, hrefd⟩ := hold
        exact h.stamped manifest hman name hrefd

end PlanFor

end Stage

/-! ### Preparing a checkpoint -/

/-- Only files that the manifest on disk does not refer to differ. -/
def Aside (n : Node) : Node → Node → Prop :=
  Writes fun name => ∀ manifest ∈ n.disk.manifest, name ∉ manifest.referenced

variable {n' : Node}

section Prepare

variable {env : Env} {n : Node} {base : List Record} {faulty : Prop}

lemma Aside.sameView (h : Aside n n n') : SameView n.disk n'.disk := by
  refine ⟨?_, ?_, fun manifest hman name hname => h.2 name fun hnot =>
    hnot manifest hman hname⟩
  · rw [h.1]
  · rw [h.1]

section

variable (h : Coherent env base n)

include h

lemma Coherent.describes : ∀ manifest ∈ n.disk.manifest,
    Describes env n.disk.files manifest base := by
  intro manifest hman
  have hdur := h.durable.manifest
  rw [Option.mem_def.1 hman] at hdur
  exact hdur

lemma Coherent.loadManifest : loadManifest n.disk = .ok n.disk.manifest :=
  loadManifest_eq_ok.2 ⟨rfl, fun manifest hman => (h.describes manifest hman).accepted⟩

lemma Coherent.lastLSN_succ : n.lastLSN + 1 = n.nextLSN := by
  have := h.durable.above
  rw [Node.lastLSN]
  omega

lemma Coherent.checkpoint_le : n.disk.checkpoint ≤ n.lastLSN := by
  have := h.durable.above
  have := h.lastLSN_succ
  omega

lemma Coherent.maxLSN_le {manifest : Manifest} (hman : manifest ∈ n.disk.manifest) :
    n.disk.checkpoint = manifest.maxLSN ∧ manifest.maxLSN ≤ n.lastLSN := by
  have hckp : n.disk.checkpoint = manifest.maxLSN := by
    rw [Disk.checkpoint, Option.mem_def.1 hman]
    rfl
  exact ⟨hckp, hckp ▸ h.checkpoint_le⟩

lemma Coherent.start
    (hdue : upToDate n.disk.manifest n.lastLSN n.shard.checkpointDelta.1
      n.shard.checkpointDelta.2 = false) :
    Start env n.disk.files n.disk.manifest base n.shard n.lastLSN := by
  have hclean := h.clean
  rw [← h.lastLSN_succ, Nat.add_right_cancel_iff] at hclean
  refine ⟨h.healthy, h.base, fun hnone => ?_, h.describes, fun manifest hman name hname => ?_,
    fun hchg manifest hman => ?_⟩
  · have hman := h.durable.manifest
    rw [hnone] at hman
    exact hman
  · obtain ⟨hckp, hle⟩ := h.maxLSN_le hman
    obtain ⟨hstamp, hbase⟩ := (h.describes manifest hman).stamped name hname
    rintro ((hstem | ⟨_, hstem⟩) | hstem | hstem) <;> rw [hstem] at hstamp hbase <;>
      · -- the LSN is that of the manifest, which then is of format 2
        have hlsn : n.lastLSN = manifest.maxLSN := le_antisymm hstamp hle
        rw [Option.mem_def.1 hman, hclean (hlsn.trans hckp.symm)] at hdue
        obtain ⟨_, hbase⟩ := hbase (by simpa [upToDate, hlsn] using hdue)
        cases hbase
  · obtain ⟨hckp, hle⟩ := h.maxLSN_le hman
    refine lt_of_le_of_ne hle fun heq => ?_
    rw [Changed, hclean (heq.symm.trans hckp.symm), Option.mem_def.1 hman] at hchg
    simp at hchg

/-- Preparing a checkpoint leaves the files in use alone, and what it returns is a checkpoint of
the shard. -/
lemma Coherent.wp_prepareCheckpoint :
    (prepareCheckpoint env).wp faulty (fun result n' => Aside n n n' ∧
      ∀ plan, result = .ok (some plan) →
        PlanFor env n.disk.manifest n.shard n.lastLSN n'.disk.files plan) (Aside n n) n := by
  have hrefl : Aside n n n := Writes.refl _ n
  have hnone : ∀ {err}, Aside n n n ∧ ∀ plan, (.error err : Except Error (Option Plan)) =
      .ok (some plan) → PlanFor env n.disk.manifest n.shard n.lastLSN n.disk.files plan :=
    ⟨hrefl, fun plan hplan => by cases hplan⟩
  rw [prepareCheckpoint, wp_bind, wp_file]
  refine ⟨hrefl, ?_, fun _ => ⟨hnone, hnone⟩⟩
  rw [after_ok, id, wp_bind, wp_state, after_ok,
    if_neg (not_lt.2 (h.checkpointLSN.trans_le h.checkpoint_le)), h.loadManifest, wp_bind,
    wp_ofExcept, after_ok]
  split_ifs with hdue
  · exact ⟨hrefl, fun plan hplan => by cases hplan⟩
  · rw [Bool.not_eq_true] at hdue
    have hstart := h.start hdue
    have hstamped : ∀ manifest ∈ n.disk.manifest, ∀ name ∈ manifest.referenced,
        name.stem.stamp ≤ n.lastLSN := fun manifest hman name hname =>
      ((h.describes manifest hman).stamped name hname).1.trans (h.maxLSN_le hman).2
    have hplan := hstart.ensures_stageCheckpoint hstamped
      (show n.shard.checkpointDelta = (n.shard.checkpointDelta.1, n.shard.checkpointDelta.2) from rfl)
      rfl
    have haside : ∀ n', Writes (OfCheckpoint n.lastLSN) n n' → Aside n n n' := fun n' hwrites =>
      hwrites.mono fun name hname manifest hman hrefd =>
        hstart.fresh manifest hman name hrefd hname
    generalize n.shard.checkpointDelta.1 = delta, n.shard.checkpointDelta.2 = tombstones at hplan
    have hframe : (stageCheckpoint env n.disk.manifest delta tombstones n.shard.list n.lastLSN).wp
        True (fun _ n' => Aside n n n') (Aside n n) n :=
      wp_mono ((within_stageCheckpoint env _ _ _ _ _).wp (fun _ _ _ => .trans)
        (.refl _ n)) (fun _ => haside) haside
    have hboth := wp_of_faulty (wp_and hframe hplan) fun _ : faulty => trivial
    refine wp_seq (wp_mono hboth (fun _ _ => id) fun _ hn' => hn'.1)
      (fun plan n' hn' => ?_) fun err n' hn' => ?_
    · exact ⟨hn'.1, fun plan' hplan' => by
        obtain rfl := Option.some.inj (Except.ok.inj hplan')
        exact hn'.2 plan rfl⟩
    · exact ⟨hn'.1, fun plan hplan => by cases hplan⟩

end

end Prepare

/-! ### Publishing a checkpoint -/

/-- `LoadManifest` succeeds. -/
def Accepts (disk : Disk) : Prop := ∀ manifest ∈ disk.manifest, checkManifest manifest = .ok ()

instance (disk : Disk) : Decidable (Accepts disk) :=
  decidable_of_iff (disk.manifest.all fun manifest => checkManifest manifest = .ok ()) (by
    rw [Accepts, Option.all_eq_true]
    simp only [decide_eq_true_eq, Option.mem_def])

/-- The log has moved on from the manifest, but on balance nothing has changed since then. -/
def NetEmpty (n : Node) : Prop :=
  n.disk.manifest.isSome = true ∧ n.disk.checkpoint < n.lastLSN ∧
    n.shard.checkpointDelta = ([], [])

variable {n₂ : Node}

section Publish

variable {env : Env} {n n₁ : Node} {base : List Record} {plan : Plan}

section

variable (h : Coherent env base n) (hplan : PlanFor env n.disk.manifest n.shard n.lastLSN
  n₁.disk.files plan)

include h hplan

/-- Only a checkpoint of nothing writes a manifest that is not accepted. -/
lemma Coherent.netEmpty_of_rejected (hrej : checkManifest (plan.manifest env) ≠ .ok ()) :
    NetEmpty n := by
  rw [Ne, hplan.accepted_iff, not_or, Changed, not_or, not_or, not_not, not_not,
    Bool.not_eq_true, Option.isNone_eq_false_iff] at hrej
  obtain ⟨⟨hsome, hrecs, htombstones⟩, hlsn⟩ := hrej
  refine ⟨hsome, lt_of_le_of_ne h.checkpoint_le fun heq => hlsn ?_, Prod.ext hrecs htombstones⟩
  obtain ⟨manifest, hman⟩ := Option.isSome_iff_exists.1 hsome
  rw [← heq, Disk.checkpoint, hman]
  rfl

lemma Coherent.durable_published {disk : Disk} (hwal : disk.wal = n.disk.wal ∨ disk.wal = [])
    (hfiles : disk.files = n₁.disk.files) (hman : disk.manifest = some (plan.manifest env))
    (hacc : Accepts disk) : Durable env disk n.shard.list n.shard.lookup n.nextLSN := by
  have hnext := h.lastLSN_succ
  have hckp : disk.checkpoint = n.lastLSN := by
    rw [Disk.checkpoint, hman]
    exact hplan.maxLSN
  have hcov : ∀ record ∈ disk.wal, record.lsn ≤ disk.checkpoint := by
    intro record hmem
    rcases hwal with hwal | hwal
    · have := h.durable.lsn_lt (hwal ▸ hmem)
      omega
    · rw [hwal] at hmem
      cases hmem
  refine ⟨?_, ?_, ?_, by omega, by omega, fun record hmem hlt => ?_, ?_⟩
  · rw [hman]
    exact hfiles ▸ hplan.describes h.healthy (hacc _ hman)
  · rcases hwal with hwal | hwal
    · rw [hwal, h.durable.lsns]
    · rw [hwal]
      rfl
  · rcases hwal with hwal | hwal
    · rw [hwal]
      exact h.durable.short
    · rw [hwal, length_nil]
      omega
  · exact absurd (hcov record hmem) (not_le.2 hlt)
  · rw [tailApply_eq_self hcov]
    exact (Enumerates.liveOf_eq h.healthy.enumerates).symm

end

lemma checkpointBase_ok (h : Describes env files (plan.manifest env) records)
    (hrecs : plan.records = records) {idx : Metadata.Index}
    (hidx : IndexFor env.lib records (some idx)) :
    ∃ base, checkpointBase env files plan idx = .ok base ∧ Serves env base records := by
  subst hrecs
  have hgraph : GraphFor env files plan.indexes.graph plan.records := h.graph
  rw [GraphFor] at hgraph
  cases htype : env.config.indexType with
  | flat =>
    obtain ⟨stored, base, -, -, hbase, hserves⟩ := h.multi_ok rfl hidx
    rw [multiBase, htype] at hbase
    exact ⟨base, by rw [checkpointBase, htype]; exact hbase, hserves⟩
  | hnsw =>
    obtain ⟨base, hbase, hserves⟩ := hnswBase_spec htype h.sound h.nodup hidx
    exact ⟨base, by rw [checkpointBase, htype]; exact hbase, hserves⟩
  | diskann =>
    rw [htype] at hgraph
    rcases hgraph with ⟨hname, -⟩ | ⟨name, hname, hfile⟩
    · obtain ⟨base, hbase, hserves⟩ := recordsBase_spec h.sound h.nodup hidx
      exact ⟨base, by rw [checkpointBase, htype, hname]; exact hbase, hserves⟩
    · obtain ⟨base, hbase, hserves⟩ := diskANNBase_spec h.sound h.nodup hidx hfile (.inl rfl)
      exact ⟨base, by rw [checkpointBase, htype, hname]; exact hbase, hserves⟩

/-- What a checkpoint leaves of a shard. -/
structure Checkpointed (env : Env) (base : List Record) (n n' : Node) : Prop where
  coherent : ∃ base', Coherent env base' n' ∧
    (base' = n.shard.list ∨ base' = base ∧ n'.disk.manifest = n.disk.manifest)
  lookup : n'.shard.lookup = n.shard.lookup
  nextLSN : n'.nextLSN = n.nextLSN

/-- What a crash in a checkpoint leaves of a shard. -/
def CrashSafe (env : Env) (n n' : Node) : Prop :=
  (NetEmpty n → Accepts n'.disk) → ∃ base', Durable env n'.disk base' n.shard.lookup n.nextLSN

lemma Coherent.crashSafe_aside (h : Coherent env base n) (hn' : Aside n n n') :
    CrashSafe env n n' := fun _ => ⟨base, h.durable.congr hn'.sameView⟩

lemma Coherent.installed (h : Coherent env base n) {segment : Segment}
    (hserves : Serves env segment n.shard.list)
    (hdur : Durable env n'.disk n.shard.list n.shard.lookup n.nextLSN)
    (hshard : n'.shard = n.shard.installImmutable segment) (hnext : n'.nextLSN = n.nextLSN)
    (hckp : n'.checkpointLSN = n'.disk.checkpoint) : Checkpointed env base n n' := by
  obtain ⟨hheal, hbase⟩ := Healthy.installImmutable h.healthy.config_eq hserves.presents
    hserves.filters hserves.dimension h.healthy.nodup_list h.healthy.list_sound
  have hlook : n'.shard.lookup = n.shard.lookup := by
    rw [hshard, lookup_installImmutable, hbase]
    exact (Enumerates.liveOf_eq h.healthy.enumerates).symm
  refine ⟨⟨n.shard.list, ⟨?_, ?_, ?_, ?_, fun _ => ?_⟩, .inl rfl⟩, hlook, hnext⟩
  · rw [hshard]
    exact hheal
  · rw [hlook, hnext]
    exact hdur
  · rw [hshard]
    exact hbase
  · exact hckp
  · rw [hshard]
    rfl

lemma Coherent.wp_installCheckpoint (h : Coherent env base n)
    (hplan : PlanFor env n.disk.manifest n.shard n.lastLSN n₁.disk.files plan)
    (hn₂ : n₂ = { n with disk := n₂.disk })
    (hwal : n₂.disk.wal = []) (hfiles : n₂.disk.files = n₁.disk.files)
    (hman : n₂.disk.manifest = some (plan.manifest env)) :
    (installCheckpoint env plan).wp False
      (fun _ n' => (NetEmpty n → Accepts n'.disk) → Checkpointed env base n n') (CrashSafe env n)
      n₂ := by
  by_cases haccd : checkManifest (plan.manifest env) = .ok ()
  · have hdur := h.durable_published hplan (.inr hwal) hfiles hman fun m hm => by
      obtain rfl := Option.mem_unique hman hm
      exact haccd
    have hdesc : Describes env n₂.disk.files (plan.manifest env) n.shard.list :=
      hfiles ▸ hplan.describes h.healthy haccd
    obtain ⟨file, hfile, hdata, -⟩ := hplan.indexed.filter
    obtain ⟨idx, hidx, hanss⟩ := loadFilter_ok h.healthy.list_sound hfile
    rw [← hdata, ← hplan.records] at hidx
    obtain ⟨segment, hseg, hserves⟩ := checkpointBase_ok hdesc hplan.records hanss
    rw [installCheckpoint, wp_bind, wp_update, after_ok, hidx, wp_bind,
      wp_ofExcept, after_ok, wp_bind, wp_state, after_ok, hseg,
      wp_bind, wp_ofExcept, after_ok, wp_bind, wp_update, after_ok]
    have hview : ∀ {n₃ n' : Node}, Spares (plan.manifest env) n₃ n' → n₃.disk = n₂.disk →
        SameView n₂.disk n'.disk := fun hspares hdisk =>
      hdisk ▸ hspares.sameView (hdisk ▸ hman)
    refine wp_mono (attains_cleanupOrphans _ _).wp (fun result n' hspares hacc => ?_) fun n' hn' => ?_
    · have hsame := hspares.1
      refine h.installed hserves (hdur.congr (hview hspares rfl)) ?_ ?_ ?_
      · rw [hsame, hn₂]
        rfl
      · rw [hsame, hn₂]
        rfl
      · rw [(hview hspares rfl).checkpoint, Disk.checkpoint, hman, hsame]
        rfl
    · exact fun _ => ⟨_, hdur.congr (hview hn' rfl)⟩
  · have hrejects : ∀ n', Installs n₂ n' → ¬ Accepts n'.disk := fun n' hn' hacc =>
      haccd (hacc _ (by rw [hn'.1]; exact hman))
    refine wp_mono ((within_installCheckpoint env plan).wp (fun _ _ _ => Installs.trans)
      (FilesOnly.refl n₂).installs) (fun _ n' hn' hacc => ?_) fun n' hn' hacc => ?_
    · exact absurd (hacc (h.netEmpty_of_rejected hplan haccd)) (hrejects n' hn')
    · exact absurd (hacc (h.netEmpty_of_rejected hplan haccd)) (hrejects n' hn')

/-- A checkpoint keeps the records of a shard, in memory and, wherever it is cut off, on disk,
as long as the manifest on disk is accepted.  It is, unless the checkpoint is of nothing. -/
theorem Coherent.wp_checkpointShard (h : Coherent env base n) :
    (checkpointShard env).wp False
      (fun _ n' => (NetEmpty n → Accepts n'.disk) → Checkpointed env base n n')
      (CrashSafe env n) n := by
  have haside : ∀ {n'}, Aside n n n' → Checkpointed env base n n' := fun {n'} hn' => by
    have hsame := hn'.1
    refine ⟨⟨base, ⟨?_, ?_, ?_, ?_, fun hclean => ?_⟩, .inr ⟨rfl, hn'.sameView.manifest⟩⟩, ?_, ?_⟩
    · rw [hsame]; exact h.healthy
    · have hdur := h.durable.congr hn'.sameView
      rw [hsame] at hdur ⊢
      exact hdur
    · rw [hsame]; exact h.base
    · rw [hn'.sameView.checkpoint, hsame]; exact h.checkpointLSN
    · rw [hn'.sameView.checkpoint, hsame] at hclean
      rw [hsame]
      exact h.clean hclean
    all_goals rw [hsame]
  rw [checkpointShard]
  refine wp_seq (wp_mono h.wp_prepareCheckpoint (fun _ _ => id)
    fun _ => h.crashSafe_aside) (fun plan? n₁ hn₁ => ?_) fun err n₁ hn₁ _ => haside hn₁.1
  obtain ⟨hn₁, hplan⟩ := hn₁
  cases plan? with
  | none => exact fun _ => haside hn₁
  | some plan =>
    have hplan := hplan plan rfl
    have hsame := hn₁.1
    change (publishCheckpoint env plan).wp _ _ _ _
    rw [publishCheckpoint, wp_bind, saveManifest, wp_file]
    refine ⟨h.crashSafe_aside hn₁, ?_, False.elim⟩
    have hpub : ∀ {n' : Node}, (n'.disk.wal = n.disk.wal ∨ n'.disk.wal = []) →
        n'.disk.files = n₁.disk.files → n'.disk.manifest = some (plan.manifest env) →
        CrashSafe env n n' := fun hwal hfiles hman hacc =>
      ⟨_, h.durable_published hplan hwal hfiles hman fun m hm =>
        by_contra fun hrej => hrej (hacc (h.netEmpty_of_rejected hplan (by
          rwa [Option.mem_unique hman hm])) m hm)⟩
    rw [after_ok, wp_bind, reset, wp_bind, wp_file]
    refine ⟨hpub (.inl ?_) rfl rfl, ?_, False.elim⟩
    · rw [hsame]; rfl
    rw [after_ok, wp_bind, wp_file]
    refine ⟨hpub (.inr rfl) rfl rfl, ?_, False.elim⟩
    rw [after_ok, wp_update, after_ok]
    refine h.wp_installCheckpoint hplan ?_ rfl rfl rfl
    have hnext : plan.maxLSN + 1 = n.nextLSN := by rw [hplan.maxLSN, h.lastLSN_succ]
    rw [hsame, hnext]
    rfl

end Publish

end GideonDB.Engine
