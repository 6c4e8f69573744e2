/-
The invariant of the protocol of `Consensus/Protocol.lean`.

It has two parts.  `History` speaks of the recorded past only: reigns, votes and
acknowledgements.  `CellOK` says how one copy of a node's term and log, the one in
memory or the one in the file, relates to that past; both copies of every node
satisfy it, which is why a restart needs no argument.

The acknowledged segments are followed without mentioning quorums: a node that
acknowledged a segment still has it, or some later leader was elected without it
(`Sys.Kept`).  Whether that second case can arise for a committed segment is the
question of `Consensus/Completeness.lean`.
-/
import Mathlib.Data.Set.Insert
import GideonDB.Consensus.Protocol

namespace GideonDB.Consensus

open List

variable {t i b : ℕ}

namespace Sys

variable {N E : Type*} {P : Rules N E} {s s' : Sys N E}

/-- What holds of the recorded past. -/
structure History (P : Rules N E) (s : Sys N E) : Prop where
  reign_own : ∀ {t r}, s.reign t = some r → ∀ e ∈ r.own, P.term e = t
  reign_cand : ∀ {t r}, s.reign t = some r → s.cand t r.owner = some r.base
  reign_cert : ∀ {t r}, s.reign t = some r → s.Certified P t r.owner r.base
  reign_reconf : ∀ {t r}, s.reign t = some r → ∀ {j e}, r.own[j]? = some e → P.reconf e →
    s.Committed P t (r.base.length + j) ∧ P.Adjacent (r.base ++ r.own.take j) e
  cand_lt : ∀ {t n L}, s.cand t n = some L → ∀ e ∈ L, P.term e < t
  cand_traced : ∀ {t n L}, s.cand t n = some L → s.Traced P L
  vote_cand : ∀ {w}, w ∈ s.votes →
    ∃ L, s.cand w.term w.candidate = some L ∧ UpToDate P.term L w.log
  vote_traced : ∀ {w}, w ∈ s.votes → s.Traced P w.log
  vote_unique : ∀ {w w'}, w ∈ s.votes → w' ∈ s.votes → w.voter = w'.voter →
    w.term = w'.term → w.candidate = w'.candidate
  vote_kept : ∀ {w a}, w ∈ s.votes → a ∈ s.acks → a.node = w.voter → a.term < w.term →
    ∀ i ≤ a.index, s.Kept a.term i w.log w.term
  ack_reign : ∀ {a}, a ∈ s.acks → s.reign a.term ≠ none ∧ a.index ≤ (s.full a.term).length

/-- What holds of a copy of the term and log of node `n`. -/
structure CellOK (P : Rules N E) (s : Sys N E) (n : N) (c : Cell E) : Prop where
  traced : s.Traced P c.log
  le : ∀ e ∈ c.log, P.term e ≤ c.term
  cand_term : ∀ {t L}, s.cand t n = some L → t ≤ c.term
  cand_log : ∀ {L}, s.cand c.term n = some L → s.reign c.term = none → c.log = L
  owner_log : ∀ {r}, s.reign c.term = some r → r.owner = n → c.log = r.full
  vote_term : ∀ {w}, w ∈ s.votes → w.voter = n → w.term ≤ c.term
  ack_term : ∀ {a}, a ∈ s.acks → a.node = n → a.term ≤ c.term
  ack_kept : ∀ {a}, a ∈ s.acks → a.node = n → ∀ i ≤ a.index, s.Kept a.term i c.log c.term

/-- The invariant of the protocol. -/
structure Inv (P : Rules N E) (s : Sys N E) : Prop where
  history : History P s
  memory : ∀ n, CellOK P s n (s.memory n)
  file : ∀ n, CellOK P s n (s.file n)
  file_le : ∀ n, (s.file n).term ≤ (s.memory n).term

/-! ### The past only grows -/

/-- The history of `s'` continues the history of `s`. -/
structure Extends (s s' : Sys N E) : Prop where
  reign : ∀ {t r}, s.reign t = some r → ∃ r', s'.reign t = some r' ∧ r'.owner = r.owner ∧
    r'.base = r.base ∧ r.own <+: r'.own
  cand : ∀ {t n L}, s.cand t n = some L → s'.cand t n = some L
  votes : s.votes ⊆ s'.votes
  acks : s.acks ⊆ s'.acks

lemma Extends.refl (s : Sys N E) : Extends s s :=
  ⟨fun {_ r} hr => ⟨r, hr, rfl, rfl, prefix_rfl⟩, fun h => h, subset_rfl, subset_rfl⟩

lemma Extends.trans {s₁ s₂ s₃ : Sys N E} (h : Extends s₁ s₂) (h' : Extends s₂ s₃) :
    Extends s₁ s₃ where
  reign := by
    intro t r hr
    obtain ⟨r', hr', hown, hbase, hpre⟩ := h.reign hr
    obtain ⟨r'', hr'', hown', hbase', hpre'⟩ := h'.reign hr'
    exact ⟨r'', hr'', hown'.trans hown, hbase'.trans hbase, hpre.trans hpre'⟩
  cand := fun hL => h'.cand (h.cand hL)
  votes := h.votes.trans h'.votes
  acks := h.acks.trans h'.acks

lemma Extends.of_reign (hreign : s'.reign = s.reign)
    (hcand : ∀ {t n L}, s.cand t n = some L → s'.cand t n = some L) (hvotes : s.votes ⊆ s'.votes)
    (hacks : s.acks ⊆ s'.acks) : Extends s s' :=
  ⟨fun {_ r} hr => ⟨r, by rw [hreign, hr], rfl, rfl, prefix_rfl⟩, hcand, hvotes, hacks⟩

variable {n : N} {L : List E}

lemma Extends.elect (hnone : s.reign t = none) : Extends s (s.elect n t L) := by
  refine ⟨?_, fun h => h, subset_rfl, subset_rfl⟩
  intro u r hr
  have hne : u ≠ t := by
    rintro rfl
    simp [hnone] at hr
  exact ⟨r, by simpa [Sys.elect, hne] using hr, rfl, rfl, prefix_rfl⟩

lemma Extends.full (h : Extends s s') (t : ℕ) : s.full t <+: s'.full t := by
  cases hr : s.reign t with
  | none => simp [Sys.full, hr]
  | some r =>
    obtain ⟨r', hr', -, hbase, hown⟩ := h.reign hr
    rw [full_of_reign hr, full_of_reign hr', hbase]
    exact (prefix_append_right_inj _).2 hown

lemma Extends.base (h : Extends s s') (hr : s.reign t ≠ none) : s'.base t = s.base t := by
  obtain ⟨r, hr⟩ := Option.ne_none_iff_exists'.1 hr
  obtain ⟨r', hr', -, hbase, -⟩ := h.reign hr
  rw [base_of_reign hr, base_of_reign hr', hbase]

lemma Extends.reign_ne (h : Extends s s') (hr : s.reign t ≠ none) : s'.reign t ≠ none := by
  obtain ⟨r, hr⟩ := Option.ne_none_iff_exists'.1 hr
  obtain ⟨r', hr', -⟩ := h.reign hr
  simp [hr']

lemma Extends.take_full (h : Extends s s') (hi : i ≤ (s.full t).length) :
    (s'.full t).take i = (s.full t).take i :=
  (take_eq_take_of_isPrefix (h.full t) hi).symm

variable {ℓ : List E}

lemma Traced.mono (h : Extends s s') (hℓ : s.Traced P ℓ) : s'.Traced P ℓ :=
  fun i e he => (hℓ i e he).trans (h.full _)

lemma Kept.mono (h : Extends s s') (hi : i ≤ (s.full t).length)
    (hk : s.Kept t i ℓ b) : s'.Kept t i ℓ b := by
  rw [Kept, h.take_full hi]
  rcases hk with hk | ⟨u, htu, hub, hu, hk⟩
  · exact .inl hk
  · exact .inr ⟨u, htu, hub, h.reign_ne hu, by rwa [h.base hu]⟩

lemma Kept.mono_bound {b' : ℕ} (hk : s.Kept t i ℓ b) (hb : b ≤ b') : s.Kept t i ℓ b' := by
  rcases hk with hk | ⟨u, htu, hub, hu, hk⟩
  · exact .inl hk
  · exact .inr ⟨u, htu, hub.trans hb, hu, hk⟩

variable {ℓ' : List E}

lemma Kept.mono_log (hk : s.Kept t i ℓ b) (hℓ : ℓ <+: ℓ') : s.Kept t i ℓ' b := by
  rcases hk with hk | hk
  · exact .inl (hk.trans hℓ)
  · exact .inr hk

lemma Committed.mono (h : Extends s s') (hc : s.Committed P t i) : s'.Committed P t i := by
  obtain ⟨hpos, hlen, hterm, S, hS, hack⟩ := hc
  refine ⟨hpos, hlen.trans (h.full t).length_le, ?_, S, ?_, ?_⟩
  · exact (termAt_of_isPrefix (h.full t) hlen).symm.trans hterm
  · rwa [h.take_full hlen]
  · intro v hv
    obtain ⟨a, ha, hav⟩ := hack v hv
    exact ⟨a, h.acks ha, hav⟩

lemma Certified.mono (h : Extends s s') (hacks : s'.acks = s.acks)
    (hlen : ∀ {a}, a ∈ s.acks → a.index ≤ (s.full a.term).length)
    (hc : s.Certified P t n L) : s'.Certified P t n L := by
  obtain ⟨S, hS, hv⟩ := hc
  refine ⟨S, hS, fun v hvS => ?_⟩
  obtain ⟨w, hw, hwv, hwt, hwn, hkept⟩ := hv v hvS
  refine ⟨w, h.votes hw, hwv, hwt, hwn, fun a ha hav hat i hi => ?_⟩
  rw [hacks] at ha
  obtain ⟨b, hb, hk⟩ := hkept a ha hav hat i hi
  exact ⟨b, hb, hk.mono h (hi.trans (hlen ha))⟩

/-! ### The logs of leaders -/

lemma History.full_traced (h : History P s) (t : ℕ) : s.Traced P (s.full t) := by
  cases hr : s.reign t with
  | none =>
    intro i e he
    simp [Sys.full, hr] at he
  | some r =>
    intro i e he
    rw [full_of_reign hr] at he ⊢
    rcases Nat.lt_or_ge i r.base.length with hi | hi
    · rw [getElem?_append_left hi] at he
      rw [take_append_of_le_length hi]
      exact h.cand_traced (h.reign_cand hr) i e he
    · rw [getElem?_append_right hi] at he
      have hterm : P.term e = t := h.reign_own hr e (mem_of_getElem? he)
      rw [hterm, full_of_reign hr]
      exact take_prefix _ _

variable {e : E}

lemma History.base_lt (h : History P s) (he : e ∈ s.base t) : P.term e < t := by
  cases hr : s.reign t with
  | none => simp [Sys.base, hr] at he
  | some r =>
    rw [base_of_reign hr] at he
    exact h.cand_lt (h.reign_cand hr) e he

lemma History.full_le (h : History P s) (he : e ∈ s.full t) : P.term e ≤ t := by
  cases hr : s.reign t with
  | none => simp [Sys.full, hr] at he
  | some r =>
    rw [full_of_reign hr, mem_append] at he
    rcases he with he | he
    · exact (h.cand_lt (h.reign_cand hr) e he).le
    · exact (h.reign_own hr e he).le

lemma Traced.take (h : s.Traced P ℓ) (k : ℕ) : s.Traced P (ℓ.take k) := by
  intro i e he
  have hik : i < k := by
    have := lt_length_of_getElem? he
    rw [length_take] at this
    omega
  rw [getElem?_take_of_lt hik] at he
  rw [take_take, Nat.min_eq_left hik]
  exact h i e he

/-- Two traced logs with an entry of the same term at the same index agree up to it. -/
lemma Traced.agree (h : s.Traced P ℓ) (h' : s.Traced P ℓ') {e' : E} (he : ℓ[i]? = some e)
    (he' : ℓ'[i]? = some e') (hterm : P.term e = P.term e') : ℓ.take (i + 1) = ℓ'.take (i + 1) := by
  have h₁ := h i e he
  have h₂ := h' i e' he'
  rw [← hterm] at h₂
  have hi := lt_length_of_getElem? he
  have hi' := lt_length_of_getElem? he'
  rw [prefix_iff_eq_take] at h₁ h₂
  rw [h₁, h₂]
  simp only [length_take]
  rw [Nat.min_eq_left (by omega), Nat.min_eq_left (by omega)]

lemma Traced.take_eq (h : s.Traced P ℓ) (h' : s.Traced P ℓ') (hi : i ≤ ℓ.length)
    (hi' : i ≤ ℓ'.length) (hterm : termAt P.term ℓ i = termAt P.term ℓ' i) :
    ℓ.take i = ℓ'.take i := by
  cases i with
  | zero => simp
  | succ i =>
    obtain ⟨e, he⟩ := exists_getElem? ℓ (i := i) (by omega)
    obtain ⟨e', he'⟩ := exists_getElem? ℓ' (i := i) (by omega)
    rw [termAt_succ _ he, termAt_succ _ he'] at hterm
    exact h.agree h' he he' hterm

lemma History.term_le (h : History P s) (hℓ : s.Traced P ℓ) {j : ℕ} {f : E} (hij : i ≤ j)
    (he : ℓ[i]? = some e) (hf : ℓ[j]? = some f) : P.term e ≤ P.term f := by
  have hpre := hℓ j f hf
  have hi : (ℓ.take (j + 1))[i]? = some e := by
    rw [getElem?_take_of_lt (by omega)]
    exact he
  exact h.full_le (mem_of_getElem? (getElem?_of_isPrefix hpre hi))

/-! ### Steps that only touch a node -/

lemma History.withCells (h : History P s) (f g : N → Cell E) :
    History P { s with memory := f, file := g } :=
  { h with }

variable {c : Cell E}

lemma CellOK.withCells (h : CellOK P s n c) (f g : N → Cell E) :
    CellOK P { s with memory := f, file := g } n c :=
  { h with }

lemma CellOK.observe (hs : History P s) (h : CellOK P s n c)
    (ht : c.term ≤ t) : CellOK P s n ⟨t, c.log⟩ where
  traced := h.traced
  le := fun e he => (h.le e he).trans ht
  cand_term := fun hc => (h.cand_term hc).trans ht
  cand_log := by
    intro L hc hnone
    have heq : t = c.term := le_antisymm (h.cand_term hc) ht
    subst heq
    exact h.cand_log hc hnone
  owner_log := by
    rintro r hr rfl
    have heq : t = c.term := le_antisymm (h.cand_term (hs.reign_cand hr)) ht
    subst heq
    exact h.owner_log hr rfl
  vote_term := fun hw hv => (h.vote_term hw hv).trans ht
  ack_term := fun ha hn => (h.ack_term ha hn).trans ht
  ack_kept := fun ha hn i hi => (h.ack_kept ha hn i hi).mono_bound ht

lemma CellOK.adopt (hs : History P s) (h : CellOK P s n c) (hr : s.reign c.term ≠ none) (k : ℕ) :
    CellOK P s n ⟨c.term, conform c.log ((s.full c.term).take k)⟩ := by
  by_cases hpre : (s.full c.term).take k <+: c.log
  · simpa [conform, hpre] using h
  rw [conform, if_neg hpre]
  exact
    { h with
      traced := (hs.full_traced c.term).take k
      le := fun e he => hs.full_le (mem_of_mem_take he)
      cand_log := fun _ hnone => absurd hnone hr
      owner_log := by
        intro r hr' hown
        -- the leader itself has its whole log, so there was nothing to take over
        have hfull : s.full c.term = c.log := by
          rw [full_of_reign hr', h.owner_log hr' hown, Reign.full]
        exact absurd (hfull ▸ take_prefix _ _) hpre
      ack_kept := by
        intro a ha hn i hi
        rcases h.ack_kept ha hn i hi with hk | hk
        · have hshort : ∀ m : List E, m <+: c.log → m <+: s.full c.term →
              m <+: (s.full c.term).take k := by
            intro m hm hm'
            rcases Nat.lt_or_ge m.length ((s.full c.term).take k).length with hlt | hge
            · exact prefix_of_prefix_length_le hm' (List.take_prefix _ _) hlt.le
            · exact absurd ((prefix_of_prefix_length_le (List.take_prefix _ _) hm' hge).trans hm) hpre
          rcases Nat.lt_or_ge a.term c.term with hlt | hge
          · by_cases hb : (s.full a.term).take i <+: s.base c.term
            · exact .inl (hshort _ hk (hb.trans (s.base_prefix_full _)))
            · exact .inr ⟨c.term, hlt, le_rfl, hr, hb⟩
          · have heq : a.term = c.term := le_antisymm (h.ack_term ha hn) hge
            rw [heq] at hk ⊢
            exact .inl (hshort _ hk (List.take_prefix _ _))
        · exact .inr hk }

variable {r : Reign N E} {d : Cell E}

/-! ### Votes, elections and acknowledgements -/

lemma Inv.cand_none (h : Inv P s) (ht : (s.memory n).term < t) : s.cand t n = none := by
  by_contra hne
  obtain ⟨L, hL⟩ := Option.ne_none_iff_exists'.1 hne
  have := (h.memory n).cand_term hL
  omega

lemma Inv.insertVote (h : Inv P s) {w : Vote N E} (hcand : s.cand w.term w.candidate = some L)
    (hlog : UpToDate P.term L w.log) (hmem : s.memory w.voter = ⟨w.term, w.log⟩)
    (hfile : s.file w.voter = ⟨w.term, w.log⟩)
    (hone : ∀ w' ∈ s.votes, w'.voter = w.voter → w'.term = w.term → w'.candidate = w.candidate) :
    Inv P { s with votes := insert w s.votes } := by
  have hh := h.history
  have hext : Extends s { s with votes := insert w s.votes } :=
    Extends.of_reign rfl (fun h => h) (Set.subset_insert _ _) subset_rfl
  have hself := h.memory w.voter
  rw [hmem] at hself
  have hcell : ∀ {n c}, (n = w.voter → w.term ≤ c.term) → CellOK P s n c →
      CellOK P { s with votes := insert w s.votes } n c := by
    intro n c hn hc
    refine { hc with vote_term := ?_ }
    rintro w' (rfl | hw') hv
    · exact hn hv.symm
    · exact hc.vote_term hw' hv
  refine ⟨?_, fun n => hcell ?_ (h.memory n), fun n => hcell ?_ (h.file n), h.file_le⟩
  · exact
      { hh with
        reign_cert := fun hr =>
          (hh.reign_cert hr).mono hext rfl (fun ha => (hh.ack_reign ha).2)
        vote_cand := by
          rintro w' (rfl | hw')
          · exact ⟨L, hcand, hlog⟩
          · exact hh.vote_cand hw'
        vote_traced := by
          rintro w' (rfl | hw')
          · exact hself.traced
          · exact hh.vote_traced hw'
        vote_unique := by
          rintro w₁ w₂ (rfl | h₁) (rfl | h₂) hv hterm
          · rfl
          · exact (hone w₂ h₂ hv.symm hterm.symm).symm
          · exact hone w₁ h₁ hv hterm
          · exact hh.vote_unique h₁ h₂ hv hterm
        vote_kept := by
          rintro w' a (rfl | hw') ha hn hlt
          · exact hself.ack_kept ha hn
          · exact hh.vote_kept hw' ha hn hlt }
  · rintro rfl
    simp [hmem]
  · rintro rfl
    simp [hfile]

/-- One reign begins or goes on, and nothing else of the past changes. -/
lemma History.reigns (hh : History P s) (hext : Extends s s') (hcand : s'.cand = s.cand)
    (hvotes : s'.votes = s.votes) (hacks : s'.acks = s.acks)
    (hnew : ∀ {u r'}, s'.reign u = some r' → s.reign u = some r' ∨ u = t ∧ r' = r)
    (hown : ∀ e ∈ r.own, P.term e = t) (hbase : s.cand t r.owner = some r.base)
    (hcert : s'.Certified P t r.owner r.base)
    (hreconf : ∀ {j e}, r.own[j]? = some e → P.reconf e →
      s'.Committed P t (r.base.length + j) ∧ P.Adjacent (r.base ++ r.own.take j) e) :
    History P s' where
  reign_own := by
    intro u r' hr'
    rcases hnew hr' with hr' | ⟨rfl, rfl⟩
    · exact hh.reign_own hr'
    · exact hown
  reign_cand := by
    intro u r' hr'
    rw [hcand]
    rcases hnew hr' with hr' | ⟨rfl, rfl⟩
    · exact hh.reign_cand hr'
    · exact hbase
  reign_cert := by
    intro u r' hr'
    rcases hnew hr' with hr' | ⟨rfl, rfl⟩
    · exact (hh.reign_cert hr').mono hext hacks (fun ha => (hh.ack_reign ha).2)
    · exact hcert
  reign_reconf := by
    intro u r' hr' j e he hcfg
    rcases hnew hr' with hr' | ⟨rfl, rfl⟩
    · obtain ⟨hc, hadj⟩ := hh.reign_reconf hr' he hcfg
      exact ⟨hc.mono hext, hadj⟩
    · exact hreconf he hcfg
  cand_lt := hcand ▸ hh.cand_lt
  cand_traced := fun hL => (hh.cand_traced (hcand ▸ hL)).mono hext
  vote_cand := by
    rw [hcand, hvotes]
    exact hh.vote_cand
  vote_traced := fun hw => (hh.vote_traced (hvotes ▸ hw)).mono hext
  vote_unique := hvotes ▸ hh.vote_unique
  vote_kept := by
    rw [hvotes, hacks]
    exact fun hw ha hn hlt i hi =>
      (hh.vote_kept hw ha hn hlt i hi).mono hext (hi.trans (hh.ack_reign ha).2)
  ack_reign := by
    rw [hacks]
    exact fun ha =>
      ⟨hext.reign_ne (hh.ack_reign ha).1, (hh.ack_reign ha).2.trans (hext.full _).length_le⟩

lemma CellOK.reigns (hc : CellOK P s n c) (hh : History P s) (hext : Extends s s')
    (hcand : s'.cand = s.cand) (hvotes : s'.votes = s.votes) (hacks : s'.acks = s.acks)
    (howner : ∀ {r}, s'.reign c.term = some r → r.owner = n → c.log = r.full) :
    CellOK P s' n c := by
  refine ⟨hc.traced.mono hext, hc.le, hcand ▸ hc.cand_term, ?_, howner, hvotes ▸ hc.vote_term,
    hacks ▸ hc.ack_term, ?_⟩
  · intro L hL hr
    refine hc.cand_log (hcand ▸ hL) ?_
    by_contra hne
    exact hext.reign_ne hne hr
  · rw [hacks]
    exact fun ha hn i hi => (hc.ack_kept ha hn i hi).mono hext (hi.trans (hh.ack_reign ha).2)

lemma Inv.elect (h : Inv P s) (hnone : s.reign t = none) (hcand : s.cand t n = some L)
    (hwon : s.Won P n t) : Inv P (s.elect n t L) := by
  have hh := h.history
  have hext : Extends s (s.elect n t L) := Extends.elect hnone
  have hnew : ∀ {u r}, (s.elect n t L).reign u = some r →
      s.reign u = some r ∨ u = t ∧ r = ⟨n, L, []⟩ := by
    intro u r hr
    by_cases hu : u = t
    · subst hu
      exact .inr ⟨rfl, by simpa [Sys.elect] using hr.symm⟩
    · exact .inl (by simpa [Sys.elect, hu] using hr)
  have hcell : ∀ {m c}, CellOK P s m c → CellOK P (s.elect n t L) m c := by
    intro m c hc
    refine hc.reigns hh hext rfl rfl rfl fun {r} hr hm => ?_
    rcases hnew hr with hr | ⟨hu, rfl⟩
    · exact hc.owner_log hr hm
    · obtain rfl : n = m := hm
      rw [hc.cand_log (by rw [hu]; exact hcand) (by rw [hu]; exact hnone)]
      simp [Reign.full]
  refine ⟨hh.reigns hext rfl rfl rfl hnew (by simp) hcand ?_ (by simp), fun m => hcell (h.memory m),
    fun m => hcell (h.file m), h.file_le⟩
  -- no leader of this term existed when the votes were granted
  obtain ⟨L', hL', S, hS, hv⟩ := hwon
  obtain rfl : L = L' := by simpa [hcand] using hL'
  refine ⟨S, hS, fun v hvS => ?_⟩
  obtain ⟨w, hw, hwv, hwt, hwn⟩ := hv v hvS
  refine ⟨w, hw, hwv, hwt, hwn, fun a ha hav hat i hi => ⟨t - 1, by omega, ?_⟩⟩
  have hk := hh.vote_kept hw ha (hav.trans hwv.symm) (by omega) i hi
  refine .mono hext (hi.trans (hh.ack_reign ha).2) ?_
  rcases hk with hk | ⟨x, hax, hxw, hx, hk⟩
  · exact .inl hk
  · have hne : x ≠ t := by
      rintro rfl
      exact hx hnone
    exact .inr ⟨x, hax, by omega, hx, hk⟩

lemma Inv.acknowledge (h : Inv P s) {m : ℕ} (hr : s.reign t ≠ none) (hmem : (s.memory n).term = t)
    (hfile : (s.file n).term = t) (hm : m ≤ (s.full t).length)
    (hmem' : (s.full t).take m <+: (s.memory n).log)
    (hfile' : (s.full t).take m <+: (s.file n).log) : Inv P (s.acknowledge n t m) := by
  have hh := h.history
  have hext : Extends s (s.acknowledge n t m) :=
    Extends.of_reign rfl (fun h => h) subset_rfl (Set.subset_insert _ _)
  -- a node that is still in term `t` has not voted in a later one
  have hvote : ∀ {w}, w ∈ s.votes → w.voter = n → ¬ t < w.term := by
    intro w hw hv hlt
    have := (h.file n).vote_term hw hv
    omega
  have hcell : ∀ {k c}, (k = n → c.term = t ∧ (s.full t).take m <+: c.log) → CellOK P s k c →
      CellOK P (s.acknowledge n t m) k c := by
    intro k c hk hc
    refine { hc with ack_term := ?_, ack_kept := ?_ }
    · rintro a (rfl | ha) hn
      · exact (hk hn.symm).1.ge
      · exact hc.ack_term ha hn
    · rintro a (rfl | ha) hn i hi
      · refine .inl (List.IsPrefix.trans ?_ (hk hn.symm).2)
        exact take_prefix_take_left hi
      · exact hc.ack_kept ha hn i hi
  refine ⟨?_, fun k => hcell ?_ (h.memory k), fun k => hcell ?_ (h.file k), h.file_le⟩
  · exact
      { hh with
        reign_cert := by
          intro u r hr'
          obtain ⟨S, hS, hv⟩ := hh.reign_cert hr'
          refine ⟨S, hS, fun v hvS => ?_⟩
          obtain ⟨w, hw, hwv, hwt, hwn, hk⟩ := hv v hvS
          refine ⟨w, hw, hwv, hwt, hwn, ?_⟩
          rintro a (rfl | ha) hav hat
          · exact absurd (hwt ▸ hat) (hvote hw (hwv.trans hav.symm))
          · exact hk a ha hav hat
        reign_reconf := by
          intro u r hr' j e he hcfg
          obtain ⟨hc, hadj⟩ := hh.reign_reconf hr' he hcfg
          exact ⟨hc.mono hext, hadj⟩
        vote_kept := by
          rintro w a hw (rfl | ha) hn hlt
          · exact absurd hlt (hvote hw hn.symm)
          · exact hh.vote_kept hw ha hn hlt
        ack_reign := by
          rintro a (rfl | ha)
          · exact ⟨hr, hm⟩
          · exact hh.ack_reign ha }
  · rintro rfl
    exact ⟨hmem, hmem'⟩
  · rintro rfl
    exact ⟨hfile, hfile'⟩

lemma inv_init : Inv P (init : Sys N E) where
  history := by
    refine ⟨?_, ?_, ?_, ?_, ?_, ?_, ?_, ?_, ?_, ?_, ?_⟩ <;> intros <;> simp_all [init]
  memory := fun n => by
    refine ⟨?_, ?_, ?_, ?_, ?_, ?_, ?_, ?_⟩ <;> intros <;> simp_all [init, Traced]
  file := fun n => by
    refine ⟨?_, ?_, ?_, ?_, ?_, ?_, ?_, ?_⟩ <;> intros <;> simp_all [init, Traced]
  file_le := fun _ => le_rfl

/-! ### Steps -/

section Steps

variable [DecidableEq N]

lemma Extends.append (hr : s.reign t = some r) : Extends s (s.append t r e) := by
  refine ⟨?_, fun h => h, subset_rfl, subset_rfl⟩
  intro u r' hr'
  by_cases hu : u = t
  · subst hu
    obtain rfl : r = r' := by simpa [hr] using hr'
    exact ⟨⟨r.owner, r.base, r.own ++ [e]⟩, by simp [Sys.append], rfl, rfl,
      prefix_append _ _⟩
  · exact ⟨r', by simpa [Sys.append, hu] using hr', rfl, rfl, prefix_rfl⟩

section

variable (h : Inv P s)

include h

lemma Inv.update_memory (hc : CellOK P s n c) (hle : (s.file n).term ≤ c.term) :
    Inv P { s with memory := Function.update s.memory n c }  where
  history := h.history.withCells _ _
  memory := by
    intro m
    by_cases hm : m = n
    · subst hm
      simpa using hc.withCells _ _
    · simpa [hm] using (h.memory m).withCells _ _
  file := fun m => (h.file m).withCells _ _
  file_le := by
    intro m
    by_cases hm : m = n
    · subst hm
      simpa using hle
    · simpa [hm] using h.file_le m

lemma Inv.observe (ht : (s.memory n).term ≤ t) : Inv P (s.observe n t) :=
  h.update_memory ((h.memory n).observe h.history ht) ((h.file_le n).trans ht)

lemma Inv.persist (n : N) : Inv P (s.persist n)  where
  history := h.history.withCells _ _
  memory := fun m => (h.memory m).withCells _ _
  file := by
    intro m
    by_cases hm : m = n
    · subst hm
      simpa [Sys.persist] using (h.memory m).withCells _ _
    · simpa [Sys.persist, hm] using (h.file m).withCells _ _
  file_le := by
    intro m
    by_cases hm : m = n
    · subst hm
      simp [Sys.persist]
    · simpa [Sys.persist, hm] using h.file_le m

lemma Inv.restart (n : N) : Inv P (s.restart n) :=
  h.update_memory (h.file n) le_rfl

lemma Inv.adopt {k : ℕ} (hr : s.reign t ≠ none) (ht : (s.memory n).term ≤ t) :
    Inv P (s.adopt n t k) :=
  h.update_memory (((h.memory n).observe h.history ht).adopt h.history hr k)
    ((h.file_le n).trans ht)

/-! ### Elections -/

/-- A node moves to term `t`, keeping its log, and writes its file. -/
lemma Inv.enter (ht : (s.memory n).term ≤ t) :
    Inv P { s with
      memory := Function.update s.memory n ⟨t, (s.memory n).log⟩
      file := Function.update s.file n ⟨t, (s.memory n).log⟩ } := by
  have := (h.observe ht).persist n
  simpa [Sys.observe, Sys.persist] using this

lemma Inv.grant {v : N} (ht : (s.memory v).term ≤ t) (hcand : s.cand t n = some L)
    (hlog : UpToDate P.term L (s.memory v).log)
    (hone : ∀ w ∈ s.votes, w.voter = v → w.term = t → w.candidate = n) : Inv P (s.grant v t n) :=
  (h.enter ht).insertVote (w := ⟨v, t, n, (s.memory v).log⟩) hcand hlog (by simp) (by simp) hone

/-- A node records the log it stands with, in a term it has not stood in before. -/
lemma Inv.nominate (hmem : s.memory n = c) (hfile : s.file n = c) (hnone : s.cand c.term n = none)
    (hlt : ∀ e ∈ c.log, P.term e < c.term) : Inv P { s with
      cand := fun u m => if u = c.term ∧ m = n then some c.log else s.cand u m } := by
  have hh := h.history
  have hold : ∀ {u m L}, s.cand u m = some L →
      (if u = c.term ∧ m = n then some c.log else s.cand u m) = some L := by
    intro u m L hL
    rw [if_neg, hL]
    rintro ⟨rfl, rfl⟩
    simp [hnone] at hL
  have hnew : ∀ {u m L}, (if u = c.term ∧ m = n then some c.log else s.cand u m) = some L →
      s.cand u m = some L ∨ u = c.term ∧ m = n ∧ L = c.log := by
    intro u m L hL
    split_ifs at hL with hum
    · exact .inr ⟨hum.1, hum.2, by simpa using hL.symm⟩
    · exact .inl hL
  have hcell : ∀ {m d}, (m = n → d = c) → CellOK P s m d →
      CellOK P { s with
        cand := fun u m => if u = c.term ∧ m = n then some c.log else s.cand u m } m d := by
    intro m d hm hd
    refine { hd with cand_term := ?_, cand_log := ?_ }
    · intro u L hL
      rcases hnew hL with hL | ⟨rfl, rfl, -⟩
      · exact hd.cand_term hL
      · rw [hm rfl]
    · intro L hL hr
      rcases hnew hL with hL | ⟨-, rfl, rfl⟩
      · exact hd.cand_log hL hr
      · rw [hm rfl]
  refine ⟨?_, fun m => hcell ?_ (h.memory m), fun m => hcell ?_ (h.file m), h.file_le⟩
  · exact
      { hh with
        reign_cand := fun hr => hold (hh.reign_cand hr)
        cand_lt := by
          intro u m L hL
          rcases hnew hL with hL | ⟨rfl, -, rfl⟩
          · exact hh.cand_lt hL
          · exact hlt
        cand_traced := by
          intro u m L hL
          rcases hnew hL with hL | ⟨-, -, rfl⟩
          · exact hh.cand_traced hL
          · have := (h.memory n).traced
            rwa [hmem] at this
        vote_cand := by
          intro w hw
          obtain ⟨L, hL, hup⟩ := hh.vote_cand hw
          exact ⟨L, hold hL, hup⟩ }
  · rintro rfl
    exact hmem
  · rintro rfl
    exact hfile

lemma Inv.stand {n : N} {t : ℕ} (ht : (s.memory n).term < t) : Inv P (s.stand n t) := by
  have hnom := (h.enter ht.le).nominate (n := n) (c := ⟨t, (s.memory n).log⟩) (by simp) (by simp)
    (h.cand_none ht) (fun e he => ((h.memory n).le e he).trans_lt ht)
  refine hnom.insertVote (w := ⟨n, t, n, (s.memory n).log⟩) (L := (s.memory n).log) (by simp)
    (.inr ⟨rfl, le_rfl⟩) (by simp) (by simp) ?_
  -- the votes node `n` granted before lie in terms before `t`
  intro w hw hv hterm
  have := (h.memory n).vote_term hw hv
  simp only at hterm
  omega

/-! ### Replication -/

lemma Inv.append (hr : s.reign t = some r) (hmem : (s.memory r.owner).term = t) (he : P.term e = t)
    (hcfg : P.reconf e → s.Committed P t r.full.length ∧ P.Adjacent r.full e) :
    Inv P (s.append t r e) := by
  have hh := h.history
  have hext : Extends s (s.append t r e) := Extends.append hr
  have hnew : ∀ {u r'}, (s.append t r e).reign u = some r' →
      u ≠ t ∧ s.reign u = some r' ∨ u = t ∧ r' = ⟨r.owner, r.base, r.own ++ [e]⟩ := by
    intro u r' hr'
    by_cases hu : u = t
    · subst hu
      exact .inr ⟨rfl, by simpa [Sys.append] using hr'.symm⟩
    · exact .inl ⟨hu, by simpa [Sys.append, hu] using hr'⟩
  have hhist : History P (s.append t r e) := by
    refine hh.reigns hext rfl rfl rfl (fun hr' => (hnew hr').imp And.right id) ?_
      (hh.reign_cand hr :) ((hh.reign_cert hr).mono hext rfl (fun ha => (hh.ack_reign ha).2)) ?_
    · exact forall_mem_concat (hh.reign_own hr) he
    · intro j f hf hcf
      simp only at hf ⊢
      rcases Nat.lt_or_ge j r.own.length with hj | hj
      · rw [getElem?_append_left hj] at hf
        obtain ⟨hc, hadj⟩ := hh.reign_reconf hr hf hcf
        rw [take_append_of_le_length hj.le]
        exact ⟨hc.mono hext, hadj⟩
      · -- the entry just appended
        have hj' : j = r.own.length := by
          have := lt_length_of_getElem? hf
          simp only [length_append, length_singleton] at this
          omega
        subst hj'
        obtain rfl : e = f := by simpa using hf
        obtain ⟨hc, hadj⟩ := hcfg hcf
        rw [take_left]
        rw [Reign.full, length_append] at hc
        exact ⟨hc.mono hext, hadj⟩
  have hfull : (s.append t r e).full t = r.full ++ [e] := by
    rw [full_of_reign (r := ⟨r.owner, r.base, r.own ++ [e]⟩) (by simp [Sys.append])]
    simp [Reign.full]
  have hother : ∀ {m c}, m ≠ r.owner → CellOK P s m c → CellOK P (s.append t r e) m c := by
    intro m c hm hc
    refine hc.reigns hh hext rfl rfl rfl fun {r'} hr' hm' => ?_
    rcases hnew hr' with ⟨-, hr'⟩ | ⟨-, rfl⟩
    · exact hc.owner_log hr' hm'
    · exact absurd hm'.symm hm
  have hown : CellOK P (s.append t r e) r.owner ⟨t, r.full ++ [e]⟩ := by
    have hc := h.memory r.owner
    have hlog : (s.memory r.owner).log = r.full := hc.owner_log (by rw [hmem]; exact hr) rfl
    refine ⟨?_, ?_, ?_, ?_, ?_, ?_, ?_, ?_⟩
    · rw [← hfull]
      exact hhist.full_traced t
    · intro f hf
      rw [← hfull] at hf
      exact hhist.full_le hf
    · intro u L hL
      exact (hc.cand_term hL).trans_eq hmem
    · intro L _ hr'
      exact absurd hr' (hext.reign_ne (by simp [hr]))
    · intro r' hr' _
      rcases hnew hr' with ⟨hne, -⟩ | ⟨-, rfl⟩
      · exact absurd rfl hne
      · simp [Reign.full]
    · exact fun hw hv => (hc.vote_term hw hv).trans_eq hmem
    · exact fun ha hn => (hc.ack_term ha hn).trans_eq hmem
    · intro a ha hn i hi
      have hk := hc.ack_kept ha hn i hi
      rw [hlog, hmem] at hk
      exact (hk.mono_log (prefix_append _ [e])).mono hext (hi.trans (hh.ack_reign ha).2)
  refine ⟨hhist, fun m => ?_, fun m => ?_, fun m => ?_⟩
  · by_cases hm : m = r.owner
    · subst hm
      simpa [Sys.append] using hown
    · simpa [Sys.append, hm] using hother hm (h.memory m)
  · by_cases hm : m = r.owner
    · subst hm
      simpa [Sys.append] using hown
    · simpa [Sys.append, hm] using hother hm (h.file m)
  · by_cases hm : m = r.owner
    · subst hm
      simp [Sys.append]
    · simpa [Sys.append, hm] using h.file_le m

/-! ### Every run keeps the invariant -/

lemma Inv.step (hs : Step P s s') : Inv P s' := by
  cases hs with
  | observe ht => exact h.observe ht
  | persist => exact h.persist _
  | restart => exact h.restart _
  | stand ht => exact h.stand ht
  | grant ht hcand hlog hone => exact h.grant ht hcand hlog hone
  | elect hnone hcand hwon => exact h.elect hnone hcand hwon
  | append hr hmem he hcfg => exact h.append hr hmem he hcfg
  | adopt hr ht hk => exact h.adopt hr ht
  | acknowledge hr hmem hfile hm hmem' hfile' => exact h.acknowledge hr hmem hfile hm hmem' hfile'

lemma Inv.extends_step (hs : Step P s s') : Extends s s' := by
  cases hs with
  | observe | persist | restart | adopt =>
    exact Extends.of_reign rfl (fun h => h) subset_rfl subset_rfl
  | @stand n t ht =>
    refine Extends.of_reign rfl ?_ (Set.subset_insert _ _) subset_rfl
    intro u m L hL
    have hne : ¬ (u = t ∧ m = n) := by
      rintro ⟨rfl, rfl⟩
      rw [h.cand_none ht] at hL
      simp at hL
    simpa [Sys.stand, hne] using hL
  | grant => exact Extends.of_reign rfl (fun h => h) (Set.subset_insert _ _) subset_rfl
  | elect hnone => exact .elect hnone
  | append hr => exact .append hr
  | acknowledge => exact Extends.of_reign rfl (fun h => h) subset_rfl (Set.subset_insert _ _)

lemma Inv.run (hs : Relation.ReflTransGen (Step P) s s') : Inv P s' ∧ Extends s s' := by
  induction hs with
  | refl => exact ⟨h, .refl s⟩
  | tail _ hstep ih => exact ⟨ih.1.step hstep, ih.2.trans (ih.1.extends_step hstep)⟩

end

/-! ### Short runs that touch one node -/

open Relation

lemma setCells_memory_self : (s.setCells n c d).memory n = c := by
  simp [setCells]

lemma setCells_file_self : (s.setCells n c d).file n = d := by
  simp [setCells]

lemma run_persist (n : N) : ReflTransGen (Step P) s (s.setCells n (s.memory n) (s.memory n)) := by
  have : s.setCells n (s.memory n) (s.memory n) = s.persist n := by simp [setCells, persist]
  rw [this]
  exact .single .persist

lemma run_restart (n : N) : ReflTransGen (Step P) s (s.setCells n (s.file n) (s.file n)) := by
  have : s.setCells n (s.file n) (s.file n) = s.restart n := by simp [setCells, restart]
  rw [this]
  exact .single .restart

lemma run_observe (ht : (s.memory n).term ≤ t) :
    ReflTransGen (Step P) s (s.setCells n ⟨t, (s.memory n).log⟩ (s.file n)) := by
  have : s.setCells n ⟨t, (s.memory n).log⟩ (s.file n) = s.observe n t := by
    simp [setCells, observe]
  rw [this]
  exact .single (.observe ht)

lemma run_adopt {k : ℕ} (hr : s.reign t ≠ none) (ht : (s.memory n).term ≤ t)
    (hk : k ≤ (s.full t).length) : ReflTransGen (Step P) s
      (s.setCells n ⟨t, conform (s.memory n).log ((s.full t).take k)⟩ (s.file n)) := by
  have : s.setCells n ⟨t, conform (s.memory n).log ((s.full t).take k)⟩ (s.file n) =
      s.adopt n t k := by
    simp [setCells, adopt]
  rw [this]
  exact .single (.adopt hr ht hk)

lemma run_then_persist (h : ReflTransGen (Step P) s (s.setCells n c d)) :
    ReflTransGen (Step P) s (s.setCells n c c) := by
  have : s.setCells n c c = (s.setCells n c d).persist n := by
    simp [setCells, persist]
  rw [this]
  exact h.tail .persist

end Steps

end Sys

end GideonDB.Consensus
