/-
Safety of the protocol of `Consensus/Protocol.lean`:

* `leader_complete`: the leader of a term was elected with every segment committed
  in an earlier term;
* `won_unique`: at most one node wins the election of a term;
* `committed_isPrefix`: of two committed segments one continues the other.

Quorums belong to logs, so two of them need not meet.  They do meet when neither
log has a reconfiguration past the point where the logs part (`quorums_meet`):
a reconfiguration is preceded by a committed segment, and a committed segment is
what the other log cannot miss.
-/
import Mathlib.Data.List.Induction
import GideonDB.Consensus.Invariant

namespace GideonDB.Consensus

open List

variable {t i u w : ℕ}

namespace Sys

variable {N E : Type*} {P : Rules N E} {s : Sys N E}

lemma Committed.reign_ne (h : s.Committed P t i) : s.reign t ≠ none := by
  intro hnone
  obtain ⟨hpos, hlen, -⟩ := h
  simp [Sys.full, hnone] at hlen
  omega

lemma Committed.length_take (h : s.Committed P t i) : ((s.full t).take i).length = i := by
  obtain ⟨-, hlen, -⟩ := h
  simpa using hlen

/-! ### When the quorums of two logs meet -/

lemma quorum_append_of_not_reconf (hP : P.Lawful) {m : List E} (hm : ∀ e ∈ m, ¬ P.reconf e)
    (ℓ : List E) (S : Set N) : P.quorum (ℓ ++ m) S ↔ P.quorum ℓ S := by
  induction m using reverseRecOn with
  | nil => simp
  | append_singleton m e ih =>
    rw [← append_assoc, hP.append (hm e (by simp)),
      ih (fun f hf => hm f (by simp [hf]))]

variable {ℓ : List E}

lemma History.reconf_committed (h : History P s) (hℓ : s.Traced P ℓ) {p : ℕ} {e : E}
    (he : ℓ[p]? = some e) (hcfg : P.reconf e) :
    s.Committed P (P.term e) p ∧ (s.full (P.term e)).take p = ℓ.take p ∧
      P.Adjacent (ℓ.take p) e := by
  have hpre := hℓ p e he
  have hp := lt_length_of_getElem? he
  have hlen : (ℓ.take (p + 1)).length = p + 1 := by
    rw [length_take]
    omega
  have hfull : (s.full (P.term e))[p]? = some e := by
    refine getElem?_of_isPrefix hpre ?_
    rw [getElem?_take_of_lt (by omega)]
    exact he
  have htake : (s.full (P.term e)).take p = ℓ.take p := by
    rw [← take_eq_take_of_isPrefix hpre (by omega), take_take, Nat.min_eq_left (by omega)]
  cases hr : s.reign (P.term e) with
  | none => simp [Sys.full, hr] at hfull
  | some r =>
    rw [full_of_reign hr] at hfull htake
    -- the log the leader was elected with has earlier terms only
    have hp' : r.base.length ≤ p := by
      by_contra hlt
      rw [getElem?_append_left (by omega)] at hfull
      exact (h.cand_lt (h.reign_cand hr) e (mem_of_getElem? hfull)).ne rfl
    rw [getElem?_append_right hp'] at hfull
    obtain ⟨hc, hadj⟩ := h.reign_reconf hr hfull hcfg
    rw [Nat.add_sub_cancel' hp'] at hc
    refine ⟨hc, by rw [full_of_reign hr, htake], ?_⟩
    rwa [← htake, take_append, take_of_length_le hp']

/-- Past the point where two traced logs part, at most one starts with a
reconfiguration. -/
lemma History.not_both_reconf [DecidableEq E] (h : History P s) {A B : List E} (hA : s.Traced P A)
    (hB : s.Traced P B) {a b : E} (ha : A[(common A B).length]? = some a)
    (hb : B[(common A B).length]? = some b) (hra : P.reconf a) (hrb : P.reconf b) : False := by
  obtain ⟨⟨hpos, hlenA, htA, -⟩, hpreA, -⟩ := h.reconf_committed hA ha hra
  obtain ⟨⟨-, hlenB, htB, -⟩, hpreB, -⟩ := h.reconf_committed hB hb hrb
  -- the entry before the parting point has the term of both reconfigurations
  have hcommon : A.take (common A B).length = B.take (common A B).length := by
    rw [← prefix_iff_eq_take.1 (common_prefix_left A B),
      ← prefix_iff_eq_take.1 (common_prefix_right A B)]
  have hterm : P.term a = P.term b := by
    rw [← htA, ← htB, ← termAt_of_isPrefix (List.take_prefix (common A B).length _) (by simpa),
      hpreA, hcommon, ← hpreB, termAt_of_isPrefix (List.take_prefix (common A B).length _) (by simpa)]
  have hagree := hA.agree hB ha hb hterm
  refine common_parts ha (?_ : _ = some a)
  rw [← getElem?_take_of_lt (Nat.lt_succ_self _), ← hagree,
    getElem?_take_of_lt (Nat.lt_succ_self _), ha]

/-- The quorums of two traced logs meet when each log contains what precedes any
reconfiguration of the other. -/
lemma History.quorums_meet (h : History P s) (hP : P.Lawful) {A B : List E} (hA : s.Traced P A)
    (hB : s.Traced P B) (hAB : ∀ p e, A[p]? = some e → P.reconf e → A.take p <+: B)
    (hBA : ∀ p e, B[p]? = some e → P.reconf e → B.take p <+: A) {S T : Set N} (hS : P.quorum A S)
    (hT : P.quorum B T) : (S ∩ T).Nonempty := by
  classical
  -- no reconfiguration strictly past the parting point
  have hpast : ∀ {A B : List E}, (∀ p e, A[p]? = some e → P.reconf e → A.take p <+: B) →
      ∀ p e, A[p]? = some e → P.reconf e → p ≤ (common A B).length := by
    intro A B hAB p e he hcfg
    have hlen := (prefix_common (List.take_prefix p A) (hAB p e he hcfg)).length_le
    have hp := lt_length_of_getElem? he
    rw [length_take] at hlen
    omega
  have hsplit : ∀ {A D : List E} {U : Set N}, D <+: A →
      (∀ p e, A[p]? = some e → P.reconf e → p ≤ D.length) → P.quorum A U →
      P.quorum D U ∨ ∃ a, A[D.length]? = some a ∧ P.reconf a ∧ P.quorum (D ++ [a]) U := by
    rintro A D U ⟨m, rfl⟩ hle hU
    cases m with
    | nil => exact .inl (by simpa using hU)
    | cons a m =>
      have hm : ∀ e ∈ m, ¬ P.reconf e := by
        intro e he hcfg
        obtain ⟨j, hj⟩ := mem_iff_getElem?.1 he
        have := hle (D.length + 1 + j) e (by
          rw [getElem?_append_right (by omega)]
          simpa [show D.length + 1 + j - D.length = j + 1 by omega] using hj) hcfg
        omega
      rw [show D ++ a :: m = (D ++ [a]) ++ m by simp, quorum_append_of_not_reconf hP hm] at hU
      by_cases hcfg : P.reconf a
      · exact .inr ⟨a, by simp, hcfg, hU⟩
      · exact .inl ((hP.append hcfg).1 hU)
  have hadj : ∀ {A D : List E} {a : E}, s.Traced P A → D <+: A → A[D.length]? = some a →
      P.reconf a → P.Adjacent D a := by
    intro A D a hA hD ha hcfg
    rw [prefix_iff_eq_take.1 hD]
    exact (h.reconf_committed hA ha hcfg).2.2
  have hDA := common_prefix_left A B
  have hDB := common_prefix_right A B
  have hBA' := hpast hBA
  rw [common_comm] at hBA'
  rcases hsplit hDA (hpast hAB) hS with hS | ⟨a, ha, hra, hS⟩ <;>
    rcases hsplit hDB hBA' hT with hT | ⟨b, hb, hrb, hT⟩
  · exact hP.meets hS hT
  · exact hadj hB hDB hb hrb S T hS hT
  · rw [Set.inter_comm]
    exact hadj hA hDA ha hra T S hT hS
  · exact (h.not_both_reconf hA hB ha hb hra hrb).elim

/-! ### Leaders have what was committed before them -/

/-- The log `ℓ` was complete enough: it has every committed segment its owner
acknowledged in a term before `t`. -/
def Loyal (P : Rules N E) (s : Sys N E) (v : N) (t : ℕ) (ℓ : List E) : Prop :=
  ∀ a ∈ s.acks, a.node = v → a.term < t → ∀ i ≤ a.index, s.Committed P a.term i →
    (s.full a.term).take i <+: ℓ

/-- `L` has every segment committed in a term before `t`. -/
def Covers (P : Rules N E) (s : Sys N E) (t : ℕ) (L : List E) : Prop :=
  ∀ u < t, ∀ i, s.Committed P u i → (s.full u).take i <+: L

variable {L : List E}

/-- A log that is at least as up to date as one with a committed segment has the
segment, if the leaders of the terms before `t` have what was committed before them. -/
lemma History.prefix_of_upToDate (h : History P s)
    (hlead : ∀ x < t, s.Covers P x (s.base x) ∨ s.reign x = none) (hL : s.Traced P L)
    (hlt : ∀ e ∈ L, P.term e < t) (hℓ : s.Traced P ℓ) (hup : UpToDate P.term L ℓ)
    (hc : s.Committed P u i) (hpre : (s.full u).take i <+: ℓ) : (s.full u).take i <+: L := by
  have hi := hc.length_take
  obtain ⟨hpos, hlen, hterm, -⟩ := id hc
  have hiℓ : i ≤ ℓ.length := hi ▸ hpre.length_le
  -- the last term of `ℓ` is at least `u`
  obtain ⟨f, hf⟩ := exists_getElem? ℓ (i := ℓ.length - 1) (by omega)
  obtain ⟨g, hg⟩ := exists_getElem? ((s.full u).take i) (i := i - 1) (by omega)
  have hgu : P.term g = u := by
    have hsucc := termAt_succ P.term hg
    rw [show i - 1 + 1 = i by omega, termAt_of_isPrefix (List.take_prefix i _) hi.ge, hterm] at hsucc
    exact hsucc.symm
  have hfu : u ≤ P.term f := by
    rw [← hgu]
    exact h.term_le hℓ (by omega) (getElem?_of_isPrefix hpre hg) hf
  have hlastℓ : lastTerm P.term ℓ = P.term f := lastTerm_eq _ hf (by omega)
  rcases eq_nil_or_concat L with rfl | ⟨L₀, e, rfl⟩
  · rcases hup with hup | ⟨-, hup⟩
    · simp [lastTerm_nil] at hup
    · simp only [length_nil] at hup
      omega
  rw [concat_eq_append] at *
  have he : (L₀ ++ [e])[L₀.length]? = some e := by simp
  have hfull : L₀ ++ [e] <+: s.full (P.term e) := by
    have := hL _ e he
    rwa [take_of_length_le (by simp)] at this
  have hlastL : lastTerm P.term (L₀ ++ [e]) = P.term e := lastTerm_append_singleton _ _ _
  rw [UpToDate, hlastℓ, hlastL] at hup
  rcases Nat.lt_or_ge u (P.term e) with hue | hue
  · -- a leader after `u` appended the last entry of `L`, and it was elected with the segment
    have hbase : (s.full u).take i <+: s.base (P.term e) := by
      rcases hlead _ (hlt e (by simp)) with hcov | hnone
      · exact hcov u hue i hc
      · simp [Sys.full, hnone] at hfull
    have hshort : (s.base (P.term e)).length < (L₀ ++ [e]).length := by
      by_contra hge
      have hmem : e ∈ s.base (P.term e) := by
        have := prefix_of_prefix_length_le hfull (s.base_prefix_full _) (by omega)
        exact this.subset (by simp)
      exact (h.base_lt hmem).ne rfl
    refine prefix_of_prefix_length_le (hbase.trans (s.base_prefix_full _)) hfull ?_
    exact hbase.length_le.trans hshort.le
  · have heu : P.term e = u := by omega
    rw [heu] at hfull
    refine prefix_of_prefix_length_le (List.take_prefix _ _) hfull ?_
    rcases hup with hup | ⟨-, hup⟩ <;> omega

/-- The vote of a quorum of loyal nodes makes a log cover the earlier terms. -/
lemma History.covers_of_votes (h : History P s) (hP : P.Lawful)
    (hlead : ∀ x < t, s.Covers P x (s.base x) ∨ s.reign x = none) (hL : s.Traced P L)
    (hlt : ∀ e ∈ L, P.term e < t) {S : Set N} (hS : P.quorum L S)
    (hv : ∀ v ∈ S, ∃ ℓ, s.Traced P ℓ ∧ UpToDate P.term L ℓ ∧ s.Loyal P v t ℓ) : s.Covers P t L := by
  have hlead' : ∀ {x y i}, x < y → y < t → s.reign y ≠ none → s.Committed P x i →
      (s.full x).take i <+: s.full y := by
    intro x y i hxy hyt hy hc
    rcases hlead y hyt with hcov | hnone
    · exact (hcov x hxy i hc).trans (s.base_prefix_full y)
    · exact absurd hnone hy
  -- induction on the index of the committed segment: what precedes its
  -- reconfigurations is a shorter committed segment
  suffices hall : ∀ i u, u < t → s.Committed P u i → (s.full u).take i <+: L from
    fun u hu i hc => hall i u hu hc
  intro i
  induction i using Nat.strong_induction_on with
  | _ i ih =>
    intro u hu hc
    by_contra hnot
    have hlen := hc.length_take
    obtain ⟨-, -, -, T, hT, hack⟩ := id hc
    have hA : s.Traced P ((s.full u).take i) := (h.full_traced u).take i
    have hcomp : ∀ {m : List E} (ℓ : List E), m <+: ℓ → (s.full u).take i <+: ℓ → m <+: L →
        m <+: (s.full u).take i := by
      intro m ℓ hm hu' hmL
      rcases Nat.le_total m.length ((s.full u).take i).length with hle | hle
      · exact prefix_of_prefix_length_le hm hu' hle
      · exact absurd ((prefix_of_prefix_length_le hu' hm hle).trans hmL) hnot
    obtain ⟨v, hvT, hvS⟩ := h.quorums_meet hP hA hL
      (by
        intro p e he hcfg
        obtain ⟨hc', hpre, -⟩ := h.reconf_committed hA he hcfg
        have hp := lt_length_of_getElem? he
        rw [← hpre]
        refine ih p (by omega) _ ?_ hc'
        exact (h.full_le (mem_of_mem_take (mem_of_getElem? he))).trans_lt hu)
      (by
        intro p e he hcfg
        obtain ⟨hc', hpre, -⟩ := h.reconf_committed hL he hcfg
        have hpL : L.take p <+: L := take_prefix _ _
        rcases lt_trichotomy (P.term e) u with hx | hx | hx
        · refine hcomp (s.full u) ?_ (List.take_prefix _ _) hpL
          rw [← hpre]
          exact hlead' hx hu hc.reign_ne hc'
        · refine hcomp (s.full u) ?_ (List.take_prefix _ _) hpL
          rw [← hpre, hx]
          exact take_prefix _ _
        · refine hcomp (s.full (P.term e)) ?_ ?_ hpL
          · rw [← hpre]
            exact take_prefix _ _
          · exact hlead' hx (hlt e (mem_of_getElem? he)) hc'.reign_ne hc)
      hT hS
    obtain ⟨a, ha, hav, hat, hai⟩ := hack v hvT
    obtain ⟨ℓ, hℓ, hup, hloyal⟩ := hv v hvS
    subst hat
    exact hnot (h.prefix_of_upToDate hlead hL hlt hℓ hup hc (hloyal a ha hav hu i hai hc))

/-- A voter that kept what it acknowledged, except for leaders that came before `b`,
is loyal when those leaders had what was committed. -/
lemma Kept.prefix_of_covers {b : ℕ} (hk : s.Kept t i ℓ b)
    (hlead : ∀ x ≤ b, s.Covers P x (s.base x) ∨ s.reign x = none) (hc : s.Committed P t i) :
    (s.full t).take i <+: ℓ := by
  rcases hk with hk | ⟨x, htx, hxb, hx, hk⟩
  · exact hk
  · rcases hlead x hxb with hcov | hnone
    · exact absurd (hcov t htx i hc) hk
    · exact absurd hnone hx

section

variable (h : History P s) (hP : P.Lawful)

include h hP

/-- Leader completeness. -/
theorem leader_complete (t : ℕ) : s.Covers P t (s.base t) ∨ s.reign t = none := by
  induction t using Nat.strong_induction_on with
  | _ t ih =>
    cases hr : s.reign t with
    | none => exact .inr rfl
    | some r =>
      refine .inl ?_
      rw [base_of_reign hr]
      have hcand := h.reign_cand hr
      obtain ⟨S, hS, hv⟩ := h.reign_cert hr
      refine h.covers_of_votes hP ih (h.cand_traced hcand) (h.cand_lt hcand) hS ?_
      intro v hvS
      obtain ⟨w, hw, hwv, rfl, hwn, hk⟩ := hv v hvS
      obtain ⟨L, hL, hup⟩ := h.vote_cand hw
      rw [hwn, hcand, Option.some.injEq] at hL
      subst hL
      refine ⟨w.log, h.vote_traced hw, hup, fun a ha hav hat i hi hc => ?_⟩
      obtain ⟨b, hb, hk⟩ := hk a ha hav hat i hi
      exact hk.prefix_of_covers (fun x hx => ih x (by omega)) hc

/-- The winner of an election has every segment committed before its term. -/
lemma History.covers_of_won {n : N} (hcand : s.cand t n = some L) (hwon : s.Won P n t) :
    s.Covers P t L := by
  obtain ⟨L', hL', S, hS, hv⟩ := hwon
  obtain rfl : L = L' := by simpa [hcand] using hL'
  refine h.covers_of_votes hP (fun x _ => leader_complete h hP x) (h.cand_traced hcand)
    (h.cand_lt hcand) hS ?_
  intro v hvS
  obtain ⟨w, hw, rfl, rfl, rfl⟩ := hv v hvS
  obtain ⟨L', hL', hup⟩ := h.vote_cand hw
  obtain rfl : L = L' := by simpa [hcand] using hL'
  refine ⟨w.log, h.vote_traced hw, hup, fun a ha hav hat i hi hc => ?_⟩
  exact (h.vote_kept hw ha hav hat i hi).prefix_of_covers
    (fun x _ => leader_complete h hP x) hc

/-- Election safety. -/
theorem won_unique {n m : N} (hn : s.Won P n t) (hm : s.Won P m t) : n = m := by
  obtain ⟨L, hL, S, hS, hvS⟩ := id hn
  obtain ⟨K, hK, T, hT, hvT⟩ := id hm
  have hLK : ∀ {L K}, s.Traced P L → (∀ e ∈ L, P.term e < t) → s.Covers P t K →
      ∀ p e, L[p]? = some e → P.reconf e → L.take p <+: K := by
    intro L K hL hlt hK p e he hcfg
    obtain ⟨hc, hpre, -⟩ := h.reconf_committed hL he hcfg
    rw [← hpre]
    exact hK _ (hlt e (mem_of_getElem? he)) p hc
  obtain ⟨v, hv, hv'⟩ := h.quorums_meet hP (h.cand_traced hL) (h.cand_traced hK)
    (hLK (h.cand_traced hL) (h.cand_lt hL) (h.covers_of_won hP hK hm))
    (hLK (h.cand_traced hK) (h.cand_lt hK) (h.covers_of_won hP hL hn)) hS hT
  obtain ⟨w, hw, hwv, hwt, rfl⟩ := hvS v hv
  obtain ⟨w', hw', hwv', hwt', rfl⟩ := hvT v hv'
  exact h.vote_unique hw hw' (hwv.trans hwv'.symm) (hwt.trans hwt'.symm)

/-- A segment committed in a term is part of the log of every later leader. -/
lemma History.committed_full (huw : u ≤ w) (hc : s.Committed P u i) (hw : s.reign w ≠ none) :
    (s.full u).take i <+: s.full w := by
  rcases huw.lt_or_eq with hlt | rfl
  · rcases leader_complete h hP w with hcov | hnone
    · exact (hcov u hlt i hc).trans (s.base_prefix_full w)
    · exact absurd hnone hw
  · exact take_prefix _ _

end

/-- Two committed segments agree where both reach. -/
theorem committed_isPrefix (h : History P s) (hP : P.Lawful) {j : ℕ} (hu : s.Committed P u i)
    (hw : s.Committed P w j) (hij : i ≤ j) : (s.full u).take i <+: (s.full w).take j := by
  have hlen : ((s.full u).take i).length ≤ ((s.full w).take j).length := by
    rwa [hu.length_take, hw.length_take]
  rcases Nat.le_total u w with huw | hwu
  · exact prefix_of_prefix_length_le (h.committed_full hP huw hu hw.reign_ne) (List.take_prefix _ _) hlen
  · exact prefix_of_prefix_length_le (List.take_prefix _ _) (h.committed_full hP hwu hw hu.reign_ne) hlen

/-! ### Decided segments -/

/-- An initial segment that was committed in some term up to `t`. -/
def Decided (P : Rules N E) (s : Sys N E) (t : ℕ) (p : List E) : Prop :=
  p = [] ∨ ∃ u ≤ t, ∃ i, s.Committed P u i ∧ p <+: (s.full u).take i

variable {p : List E}

lemma Decided.mono {s' : Sys N E} (h : Extends s s') {t' : ℕ} (ht : t ≤ t')
    (hp : s.Decided P t p) : s'.Decided P t' p := by
  rcases hp with rfl | ⟨u, hu, i, hc, hp⟩
  · exact .inl rfl
  · refine .inr ⟨u, hu.trans ht, i, hc.mono h, ?_⟩
    rwa [h.take_full hc.2.1]

lemma Decided.of_isPrefix {q : List E} (hp : s.Decided P t p) (hq : q <+: p) : s.Decided P t q := by
  rcases hp with rfl | ⟨u, hu, i, hc, hp⟩
  · exact .inl (prefix_nil.1 hq)
  · exact .inr ⟨u, hu, i, hc, hq.trans hp⟩

lemma Committed.decided (h : s.Committed P t i) : s.Decided P t ((s.full t).take i) :=
  .inr ⟨t, le_rfl, i, h, prefix_rfl⟩

lemma Decided.prefix_full (hp : s.Decided P t p) (h : History P s) (hP : P.Lawful) (htw : t ≤ w)
    (hw : s.reign w ≠ none) : p <+: s.full w := by
  rcases hp with rfl | ⟨u, hu, i, hc, hp⟩
  · exact nil_prefix
  · exact hp.trans (h.committed_full hP (hu.trans htw) hc hw)

lemma Decided.getElem?_eq {t' : ℕ} {q : List E} (hp : s.Decided P t p) (hq : s.Decided P t' q)
    (h : History P s) (hP : P.Lawful) {k : ℕ} {e e' : E} (he : p[k]? = some e)
    (he' : q[k]? = some e') : e = e' := by
  rcases hp with rfl | ⟨u, -, i, hu, hp⟩
  · simp at he
  rcases hq with rfl | ⟨w, -, j, hw, hq⟩
  · simp at he'
  have hlt := getElem?_of_isPrefix hp he
  have hlt' := getElem?_of_isPrefix hq he'
  rcases Nat.le_total i j with hij | hji
  · rw [getElem?_of_isPrefix (committed_isPrefix h hP hu hw hij) hlt] at hlt'
    exact Option.some.inj hlt'
  · rw [getElem?_of_isPrefix (committed_isPrefix h hP hw hu hji) hlt'] at hlt
    exact (Option.some.inj hlt).symm

end Sys

end GideonDB.Consensus
