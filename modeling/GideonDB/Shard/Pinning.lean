/-
Pinned generations of a shard (`internal/shard`).

A segment that a snapshot pins stays open when it is replaced; the release that finds it
unused closes it, as `InstallImmutable` and `Close` do if nobody reads it.  The decision is
made under the lock of the shard and carried out behind it, so a generation counts the calls
of `Segment.Close` that are decided and those that were made.  Every install brings a segment
that its caller has built for it.
-/
import GideonDB.Shard.Shard

namespace GideonDB.Shard

open GideonDB.Core Relation List

/-- A generation of the base. -/
structure Generation where
  segment : Segment
  readers : ℤ
  retired : Bool
  /-- Calls of `segment.Close` that are decided but not made. -/
  closing : ℕ
  /-- Calls of `segment.Close` that were made. -/
  closes : ℕ

/-- A snapshot pins its generation until its `once` has run. -/
structure Snapshot where
  generation : ℕ
  done : Bool

/-- The generations a shard had so far, of which the last is `immutable`, and the snapshots. -/
structure Pinning where
  generations : List Generation
  snapshots : List Snapshot
  closed : Bool

namespace Generation

/-- No readers yet. -/
def new (base : Segment) : Generation := ⟨base, 0, false, 0, 0⟩

/-- One reader more. -/
def pin (v : Generation) : Generation := { v with readers := v.readers + 1 }

/-- What `InstallImmutable` and `Close` do to the generation in use. -/
def retire (v : Generation) : Generation :=
  { v with
    retired := true
    closing := if v.readers = 0 then v.closing + 1 else v.closing }

/-- One reader less. -/
def release (v : Generation) : Generation :=
  if v.readers ≤ 0 then v
  else
    { v with
      readers := v.readers - 1
      closing := if v.retired ∧ v.readers - 1 = 0 then v.closing + 1 else v.closing }

/-- A call of `segment.Close` that was decided is made. -/
def finish (v : Generation) : Generation :=
  if v.closing = 0 then v else { v with closing := v.closing - 1, closes := v.closes + 1 }

end Generation

namespace Pinning

/-- No generation yet. -/
def new : Pinning := ⟨[], [], false⟩

/-- The current generation. -/
def last (s : Pinning) : ℕ := s.generations.length - 1

/-- One generation changes. -/
def modify (s : Pinning) (g : ℕ) (f : Generation → Generation) : Pinning :=
  { s with generations := s.generations.modify g f }

/-- `PinSnapshot`. -/
def pinSnapshot (s : Pinning) : Except Segment.Error Pinning :=
  if s.closed then .error (.text "shard is closed")
  else if s.generations.isEmpty then
    .error (.invalidArgument "shard has no checkpoint generation")
  else .ok { s.modify s.last .pin with snapshots := s.snapshots ++ [⟨s.last, false⟩] }

/-- `Close` of the `i`-th snapshot. -/
def closeSnapshot (s : Pinning) (i : ℕ) : Pinning :=
  match s.snapshots[i]? with
  | none => s
  | some p =>
    if p.done then s
    else { s.modify p.generation .release with
      snapshots := s.snapshots.set i { p with done := true } }

def installImmutable (s : Pinning) (base : Segment) : Pinning :=
  { s with generations := (s.modify s.last .retire).generations ++ [.new base] }

/-- `Close`. -/
def close (s : Pinning) : Pinning := { s.modify s.last .retire with closed := true }

/-- `Records` of the `i`-th snapshot. -/
def records (s : Pinning) (i : ℕ) : Option (List Record) :=
  s.snapshots[i]?.bind fun p => s.generations[p.generation]?.map (·.segment.list)

/-- What the callers do, and the calls of `Segment.Close` that they make without the lock. -/
inductive Call
  | pinSnapshot
  | closeSnapshot (i : ℕ)
  | installImmutable (base : Segment)
  | close
  | finish (g : ℕ)

/-- One call. -/
def step (s : Pinning) : Call → Pinning
  | .pinSnapshot => s.pinSnapshot.toOption.getD s
  | .closeSnapshot i => s.closeSnapshot i
  | .installImmutable base => s.installImmutable base
  | .close => s.close
  | .finish g => s.modify g .finish

/-- The shard is closed once and nothing is installed afterwards. -/
def Call.Allowed (s : Pinning) : Call → Prop
  | .installImmutable _ | .close => s.closed = false
  | _ => True

/-- A run of calls. -/
def Reaches : Pinning → Pinning → Prop :=
  ReflTransGen fun s s' => ∃ call : Call, call.Allowed s ∧ s.step call = s'

/-- Whether a snapshot that is not closed pins the generation. -/
def pins (g : ℕ) (p : Snapshot) : Bool := p.generation == g && !p.done

/-- The generation is in use. -/
def Live (s : Pinning) (g : ℕ) : Prop := g + 1 = s.generations.length ∧ s.closed = false

end Pinning

/-! ### One generation -/

/-- A generation that `k` snapshots pin.  Its segment is closed once it is out of use and
nobody reads it. -/
structure Generation.Accounts (k : ℕ) (live : Prop) (v : Generation) : Prop where
  readers : v.readers = k
  retired : v.retired = true ↔ ¬ live
  closes : v.closing + v.closes = if v.retired ∧ v.readers = 0 then 1 else 0

namespace Generation.Accounts

variable {k : ℕ} {live : Prop} {v : Generation}

lemma new (hlive : live) (base : Segment) : (Generation.new base).Accounts 0 live :=
  ⟨rfl, by simp [Generation.new, hlive], by simp [Generation.new]⟩

lemma pin (h : v.Accounts k live) (hlive : live) : v.pin.Accounts (k + 1) live := by
  have hret : v.retired = false := by simpa [hlive] using h.retired
  have hzero := h.closes
  rw [if_neg (by simp [hret])] at hzero
  refine ⟨?_, h.retired, ?_⟩
  · simp [Generation.pin, h.readers]
  · simpa [Generation.pin, hret] using hzero

lemma retire (h : v.Accounts k live) (hlive : live) : v.retire.Accounts k False := by
  have hret : v.retired = false := by simpa [hlive] using h.retired
  have hzero := h.closes
  rw [if_neg (by simp [hret])] at hzero
  refine ⟨h.readers, by simp [Generation.retire], ?_⟩
  simp only [Generation.retire, true_and]
  split <;> omega

lemma release (h : v.Accounts (k + 1) live) : v.release.Accounts k live := by
  have hread := h.readers
  have hzero := h.closes
  rw [if_neg (by omega)] at hzero
  rw [Generation.release, if_neg (by omega)]
  refine ⟨?_, h.retired, ?_⟩
  · simp only
    omega
  · simp only
    split <;> omega

lemma finish (h : v.Accounts k live) : v.finish.Accounts k live := by
  rw [Generation.finish]
  split
  · exact h
  · refine ⟨h.readers, h.retired, ?_⟩
    rw [← h.closes]
    simp only
    omega

end Generation.Accounts

/-! ### All generations -/

namespace Pinning

/-- Every generation counts its snapshots. -/
structure Inv (s : Pinning) : Prop where
  accounts : ∀ (g : ℕ) (v : Generation), s.generations[g]? = some v →
    v.Accounts (s.snapshots.countP (pins g)) (s.Live g)
  bound : ∀ p ∈ s.snapshots, p.generation < s.generations.length

variable {s s' : Pinning} {g : ℕ}

lemma Inv.modify (h : s.Inv) {f : Generation → Generation}
    (hgens : s'.generations = s.generations.modify g f)
    (hf : g < s.generations.length → ∀ v : Generation,
      v.Accounts (s.snapshots.countP (pins g)) (s.Live g) →
      (f v).Accounts (s'.snapshots.countP (pins g)) (s'.Live g))
    (hother : ∀ i < s.generations.length, i ≠ g →
      s'.snapshots.countP (pins i) = s.snapshots.countP (pins i) ∧ (s'.Live i ↔ s.Live i))
    (hbound : ∀ p ∈ s'.snapshots, p.generation < s.generations.length) : s'.Inv := by
  refine ⟨fun i v hv => ?_, fun p hp => ?_⟩
  · rw [hgens, getElem?_modify] at hv
    obtain ⟨w, hw, rfl⟩ := Option.map_eq_some_iff.1 hv
    have hi := (List.getElem?_eq_some_iff.1 hw).1
    by_cases hg : g = i
    · subst hg
      simpa using hf hi w (h.accounts _ w hw)
    · obtain ⟨hcount, hlive⟩ := hother i hi (Ne.symm hg)
      rw [if_neg hg, hcount, propext hlive]
      exact h.accounts i w hw
  · rw [hgens, length_modify]
    exact hbound p hp

lemma Inv.pinSnapshot (h : s.Inv) : (s.step .pinSnapshot).Inv := by
  rw [step, Pinning.pinSnapshot]
  split
  · exact h
  split
  · exact h
  rename_i hopen hne
  have hlen : s.last + 1 = s.generations.length := by
    rw [List.isEmpty_iff, ← List.length_eq_zero_iff] at hne
    rw [last]
    omega
  refine h.modify rfl (fun _ v hv => ?_) (fun i _ hi => ?_) fun p hp => ?_
  · have := hv.pin ⟨hlen, by simpa using hopen⟩
    simpa [Except.toOption, Pinning.modify, Live, pins] using this
  · simp [Except.toOption, Pinning.modify, Live, pins, Ne.symm hi]
  · rcases mem_append.1 hp with hp | hp
    · exact h.bound p hp
    · rw [mem_singleton.1 hp]
      exact Nat.lt_of_succ_le hlen.le

lemma Inv.closeSnapshot (h : s.Inv) (i : ℕ) : (s.closeSnapshot i).Inv := by
  rw [Pinning.closeSnapshot]
  split
  · exact h
  rename_i p hp
  split_ifs with hdone
  · exact h
  obtain ⟨hi, rfl⟩ := List.getElem?_eq_some_iff.1 hp
  have hcount : ∀ g, (s.snapshots.set i { s.snapshots[i] with done := true }).countP (pins g) =
      s.snapshots.countP (pins g) - if s.snapshots[i].generation = g then 1 else 0 := by
    intro g
    rw [countP_set hi]
    simp [pins, hdone]
  refine h.modify rfl (fun _ v hv => ?_) (fun j _ hj => ?_) fun p hp => ?_
  · have hpos : 0 < s.snapshots.countP (pins s.snapshots[i].generation) :=
      countP_pos_iff.2 ⟨_, getElem_mem hi, by simp [pins, hdone]⟩
    obtain ⟨k, hk⟩ := Nat.exists_eq_add_one_of_ne_zero hpos.ne'
    rw [hk] at hv
    rw [hcount, hk]
    simpa [Pinning.modify, Live] using hv.release
  · rw [hcount]
    simp [Pinning.modify, Live, Ne.symm hj]
  · rcases mem_or_eq_of_mem_set hp with hp | rfl
    · exact h.bound p hp
    · exact h.bound s.snapshots[i] (getElem_mem hi)

lemma Inv.close (h : s.Inv) (hopen : s.closed = false) : s.close.Inv := by
  refine h.modify rfl (fun hlast v hv => ?_) (fun i hi hne => ⟨rfl, ?_⟩) h.bound
  · have hlive : s.Live s.last := ⟨by rw [last] at hlast ⊢; omega, hopen⟩
    simpa [Pinning.close, Pinning.modify, Live] using hv.retire hlive
  · simp only [Pinning.close, Live, last] at hne ⊢
    exact iff_of_false (by simp) (by omega)

lemma Inv.add (h : s.Inv) (hclosed : s.closed) (base : Segment) :
    Inv { s with generations := s.generations ++ [.new base], closed := false } := by
  refine ⟨fun g v hv => ?_, fun p hp => ?_⟩
  · rcases lt_trichotomy g s.generations.length with hlt | rfl | hgt
    · rw [getElem?_append_left hlt] at hv
      have hold := h.accounts g v hv
      have hdead : ¬ s.Live g := by simp [Live, hclosed]
      refine ⟨hold.readers, hold.retired.trans (iff_of_true hdead ?_), hold.closes⟩
      simp [Live, hlt.ne]
    · rw [getElem?_append_right le_rfl, Nat.sub_self] at hv
      cases hv
      have hnone : s.snapshots.countP (pins s.generations.length) = 0 := by
        refine countP_eq_zero.2 fun p hp => ?_
        simp [pins, (h.bound p hp).ne]
      rw [hnone]
      exact .new ⟨by simp, rfl⟩ base
    · have hlen := (List.getElem?_eq_some_iff.1 hv).1
      rw [length_append, length_singleton] at hlen
      omega
  · rw [length_append]
    exact (h.bound p hp).trans (Nat.lt_succ_self _)

lemma Inv.step (h : s.Inv) {call : Call} (hallow : call.Allowed s) : (s.step call).Inv := by
  cases call with
  | pinSnapshot => exact h.pinSnapshot
  | closeSnapshot i => exact h.closeSnapshot i
  | installImmutable base =>
    have hclosed : s.closed = false := hallow
    rw [Pinning.step, Pinning.installImmutable, hclosed]
    exact (h.close hclosed).add rfl base
  | close => exact h.close hallow
  | finish g =>
    refine h.modify rfl (fun _ v hv => ?_) (fun i _ _ => ?_) h.bound
    · simpa [Pinning.step, Pinning.modify, Live] using hv.finish
    · simp [Pinning.step, Pinning.modify, Live]

lemma Reaches.inv (h : Reaches s s') (hs : s.Inv) : s'.Inv := by
  induction h with
  | refl => exact hs
  | tail _ hstep ih =>
    obtain ⟨call, hallow, rfl⟩ := hstep
    exact ih.step hallow

/-! ### Segments of snapshots -/

/-- Generations keep their segments and snapshots their generations. -/
structure Keeps (s s' : Pinning) : Prop where
  segments : s.generations.map (·.segment) <+: s'.generations.map (·.segment)
  snapshots : s.snapshots.map (·.generation) <+: s'.snapshots.map (·.generation)

lemma Keeps.refl (s : Pinning) : Keeps s s := ⟨prefix_rfl, prefix_rfl⟩

lemma segments_modify {f : Generation → Generation} (hf : ∀ v, (f v).segment = v.segment)
    (s : Pinning) (g : ℕ) :
    s.generations.map (·.segment) = (s.modify g f).generations.map (·.segment) := by
  refine ext_getElem? fun i => ?_
  rw [modify, getElem?_map, getElem?_map, getElem?_modify]
  cases s.generations[i]? with
  | none => rfl
  | some v =>
    by_cases hi : g = i
    · simp [hi, hf]
    · simp [hi]

lemma Keeps.step (s : Pinning) (call : Call) : Keeps s (s.step call) := by
  have hrelease : ∀ v : Generation, v.release.segment = v.segment := fun v => by
    rw [Generation.release]
    split <;> rfl
  have hfinish : ∀ v : Generation, v.finish.segment = v.segment := fun v => by
    rw [Generation.finish]
    split <;> rfl
  have hretire := segments_modify (f := .retire) (fun _ => rfl) s s.last
  cases call with
  | pinSnapshot =>
    rw [Pinning.step, Pinning.pinSnapshot]
    split
    · exact .refl s
    split
    · exact .refl s
    · have hpin := segments_modify (f := .pin) (fun _ => rfl) s s.last
      exact ⟨hpin ▸ prefix_rfl, by simp [Except.toOption]⟩
  | closeSnapshot i =>
    rw [Pinning.step, Pinning.closeSnapshot]
    split
    · exact .refl s
    split
    · exact .refl s
    · rename_i p hp _
      obtain ⟨hi, rfl⟩ := List.getElem?_eq_some_iff.1 hp
      refine ⟨segments_modify hrelease s _ ▸ prefix_rfl, ?_⟩
      have hself := @List.set_getElem_self _ (s.snapshots.map (·.generation)) i (by simpa)
      rw [getElem_map] at hself
      rw [map_set, hself]
  | installImmutable base =>
    refine ⟨?_, prefix_rfl⟩
    rw [Pinning.step, Pinning.installImmutable, map_append, hretire]
    exact prefix_append ..
  | close => exact ⟨hretire ▸ prefix_rfl, prefix_rfl⟩
  | finish g => exact ⟨segments_modify hfinish s g ▸ prefix_rfl, prefix_rfl⟩

lemma Reaches.keeps (h : Reaches s s') : Keeps s s' := by
  induction h with
  | refl => exact .refl _
  | @tail s₁ s₂ _ hstep ih =>
    obtain ⟨call, -, rfl⟩ := hstep
    have := Keeps.step s₁ call
    exact ⟨ih.segments.trans this.segments, ih.snapshots.trans this.snapshots⟩

lemma records_eq (s : Pinning) (i : ℕ) : s.records i =
    (s.snapshots.map (·.generation))[i]?.bind fun g =>
      (s.generations.map (·.segment))[g]?.map Segment.list := by
  rw [records, getElem?_map]
  cases s.snapshots[i]? <;> simp [Function.comp_def]

lemma Reaches.records (h : Reaches s s') {i : ℕ} {records : List Record}
    (hrec : s.records i = some records) : s'.records i = some records := by
  rw [records_eq, Option.bind_eq_some_iff] at hrec ⊢
  obtain ⟨g, hg, hrec⟩ := hrec
  obtain ⟨base, hbase, rfl⟩ := Option.map_eq_some_iff.1 hrec
  obtain ⟨hi, rfl⟩ := List.getElem?_eq_some_iff.1 hg
  obtain ⟨hlt, rfl⟩ := List.getElem?_eq_some_iff.1 hbase
  refine ⟨_, prefix_iff_getElem?.1 h.keeps.snapshots i hi, ?_⟩
  rw [prefix_iff_getElem?.1 h.keeps.segments _ hlt]
  rfl

/-- **Pinned generations.**  Whatever is pinned, released and installed in whichever order, a
segment is closed once at most, not while a snapshot pins it, and it has been closed when it is
out of use, its snapshots are closed and the calls have returned.  A snapshot reads the same
records for good. -/
theorem generations_closed_when_unused (h : Reaches .new s) :
    (∀ (g : ℕ) (v : Generation), s.generations[g]? = some v →
      v.closes ≤ 1 ∧
      (v.closes ≠ 0 → ∀ p ∈ s.snapshots, p.generation = g → p.done = true) ∧
      (g + 1 < s.generations.length ∨ s.closed = true →
        (∀ p ∈ s.snapshots, p.generation = g → p.done = true) → v.closing = 0 → v.closes = 1)) ∧
    ∀ i < s.snapshots.length, ∃ records, ∀ s', Reaches s s' → s'.records i = some records := by
  have hinv : s.Inv := h.inv ⟨by simp [new], by simp [new]⟩
  refine ⟨fun g v hv => ?_, fun i hi => ?_⟩
  · obtain ⟨hreaders, hretired, hcloses⟩ := hinv.accounts g v hv
    have hunused : s.snapshots.countP (pins g) = 0 ↔
        ∀ p ∈ s.snapshots, p.generation = g → p.done = true := by
      simp [countP_eq_zero, pins]
    rw [← hunused]
    refine ⟨?_, fun hne => ?_, fun hout hzero hdone => ?_⟩
    · split at hcloses <;> omega
    · split at hcloses <;> omega
    · have hret : v.retired = true := hretired.2 fun hlive => by
        rcases hout with hlt | hclosed
        · exact absurd hlive.1 hlt.ne
        · simp [hlive.2] at hclosed
      rw [if_pos ⟨hret, by omega⟩] at hcloses
      omega
  · have hbound := hinv.bound s.snapshots[i] (getElem_mem hi)
    refine ⟨s.generations[s.snapshots[i].generation].segment.list, fun s' hs' => hs'.records ?_⟩
    simp [records, hi, hbound]

/-- A generation is replaced, and then its snapshot closed twice. -/
def replacedCalls (base : Segment) : List Call :=
  [.installImmutable base, .pinSnapshot, .installImmutable base, .closeSnapshot 0,
    .closeSnapshot 0, .finish 0]

theorem generations_closed_when_unused_replaced :
    ((replacedCalls (.new ⟨1, .flat, false, .empty⟩)).foldl step .new).generations.map (·.closes) =
      [1, 0] := by
  have h (base) : Reaches .new ((replacedCalls base).foldl step .new) :=
    (((((ReflTransGen.single ⟨.installImmutable base, rfl, rfl⟩).tail
      ⟨.pinSnapshot, trivial, rfl⟩).tail ⟨.installImmutable base, rfl, rfl⟩).tail
      ⟨.closeSnapshot 0, trivial, rfl⟩).tail ⟨.closeSnapshot 0, trivial, rfl⟩).tail
      ⟨.finish 0, trivial, rfl⟩
  obtain ⟨hgens, -⟩ := generations_closed_when_unused (h (.new ⟨1, .flat, false, .empty⟩))
  have hfirst := (hgens 0 _ rfl).2.2 (.inl (by decide)) (by decide) rfl
  exact congrArg (· :: [0]) hfirst

end Pinning

end GideonDB.Shard
