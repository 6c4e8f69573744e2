/-
The log behind a compacted state.

A store keeps the entries after its snapshot only.  `Holds c s` says that the state `s`
is what is left of a node's full log `c.log` in term `c.term`; the functions that read
or change the retained entries are then functions of the full log.
-/
import GideonDB.Cluster.RaftStoreSpec
import GideonDB.Consensus.Protocol

namespace GideonDB.Cluster

open Consensus RaftPersistentState RaftStore Sys List

/-- The state keeps the cell. -/
structure Holds (c : Cell RaftEntry) (s : RaftPersistentState) : Prop where
  term : s.currentTerm = c.term
  snapshot_le : s.snapshotIndex ≤ c.log.length
  entries : s.entries = c.log.drop s.snapshotIndex
  snapshotTerm : s.snapshotTerm = termAt RaftEntry.term c.log s.snapshotIndex
  snapshot_commit : s.snapshotIndex ≤ s.commitIndex
  commit_le : s.commitIndex ≤ c.log.length

namespace Holds

variable {c : Cell RaftEntry} {s : RaftPersistentState} (h : Holds c s)

include h

lemma length_entries : s.snapshotIndex + s.entries.length = c.log.length := by
  have := h.snapshot_le
  rw [h.entries, length_drop]
  omega

lemma getElem?_entries (i : ℕ) : s.entries[i]? = c.log[s.snapshotIndex + i]? := by
  rw [h.entries, getElem?_drop]

lemma lastLog : s.lastLogLocked = (c.log.length, lastTerm RaftEntry.term c.log) := by
  have hlen := h.length_entries
  rw [lastLogLocked]
  split
  · rename_i hnone
    rw [getLast?_eq_none_iff] at hnone
    rw [hnone, length_nil, Nat.add_zero] at hlen
    rw [h.snapshotTerm, hlen, lastTerm]
  · rename_i e he
    rw [getLast?_eq_getElem?, h.getElem?_entries] at he
    have hpos := lt_length_of_getElem? he
    rw [hlen, lastTerm_eq RaftEntry.term he (by omega)]

lemma lastIndex : s.lastLogLocked.1 = c.log.length := by
  rw [h.lastLog]

lemma termAtLocked_eq_ok {i t : ℕ} : s.termAtLocked i = .ok t ↔
      s.snapshotIndex ≤ i ∧ i ≤ c.log.length ∧ termAt RaftEntry.term c.log i = t := by
  have hlen := h.length_entries
  rw [termAtLocked]
  split
  · rename_i heq
    subst heq
    rw [Except.ok.injEq, ← h.snapshotTerm]
    exact ⟨fun ht => ⟨le_rfl, h.snapshot_le, ht⟩, fun ht => ht.2.2⟩
  · rename_i hne
    split_ifs with hge
    · simp only [false_iff]
      omega
    · rw [h.getElem?_entries]
      split
      · rename_i hnone
        rw [getElem?_eq_none_iff] at hnone
        simp only [reduceCtorEq, false_iff]
        omega
      · rename_i e he
        have hi := lt_length_of_getElem? he
        have hterm := termAt_succ RaftEntry.term he
        rw [show s.snapshotIndex + (i - s.snapshotIndex - 1) + 1 = i by omega] at hterm
        rw [Except.ok.injEq, hterm]
        exact ⟨fun ht => ⟨by omega, by omega, ht⟩, fun ht => ht.2.2⟩

lemma withTerm {t : ℕ} (ht : c.term ≤ t) : Holds ⟨t, c.log⟩ (s.withTerm t) := by
  rw [RaftPersistentState.withTerm]
  split_ifs with hle
  · exact { h with term := rfl }
  · have hterm := h.term
    exact { h with term := by simp only; omega }

lemma logBatch {next limit : ℕ} {b : LogBatch} (hb : s.logBatch next limit = .ok b) :
    b.term = c.term ∧ b.commitIndex = s.commitIndex ∧ s.snapshotIndex ≤ b.prevIndex ∧
      b.prevIndex + b.entries.length ≤ c.log.length ∧
      b.prevTerm = termAt RaftEntry.term c.log b.prevIndex ∧
      b.entries = (c.log.drop b.prevIndex).take b.entries.length := by
  rw [RaftPersistentState.logBatch] at hb
  split at hb
  · simp at hb
  rename_i hbounds
  rw [h.lastIndex] at hbounds
  split at hb
  · simp at hb
  rename_i prevTerm hprev
  rw [h.termAtLocked_eq_ok] at hprev
  obtain ⟨hsnap, hle, hterm⟩ := hprev
  have hdrop : s.entries.drop (next - s.snapshotIndex - 1) = c.log.drop (next - 1) := by
    rw [h.entries, drop_drop]
    congr 1
    omega
  cases hb
  refine ⟨h.term, rfl, hsnap, ?_, hterm.symm, ?_⟩
  · simp only [hdrop, length_take, length_drop]
    omega
  · simp only [hdrop, length_take]
    rw [take_eq_take_min]

end Holds

/-! ### Taking over a batch -/

lemma conform_append (p a b : List RaftEntry) : conform (p ++ a) (p ++ b) = p ++ conform a b := by
  simp only [conform, prefix_append_right_inj]
  split <;> rfl

/-- The loop of `AppendEntries` over `m` entries of the leader's log `full`, of which the log has
what lies before them: the log conforms to the leader's up to the end of the batch, or it stays
because of an entry of another term.

`log` and `full` have the same entry wherever they have the same term. -/
lemma appendLoop_spec {log full : List RaftEntry} {snap commit : ℕ}
    (hvalid : ∀ e ∈ full, validateRaftEntry e = .ok ())
    (hagree : ∀ (i : ℕ) (d e : RaftEntry), log[i]? = some d → full[i]? = some e → d.term = e.term →
      d = e) {i m : ℕ} (hsnap : snap ≤ i) (hi : full.take i <+: log) (hm : i + m ≤ full.length)
    {x : Except RaftError Unit} {log' : List RaftEntry}
    (h : appendLoop commit snap (i + 1) ((full.drop i).take m) (log.drop snap) = (x, log')) :
    (x = .ok () ∧ log' = (conform log (full.take (i + m))).drop snap) ∨
    (∃ err, x = .error err) ∧ log' = log.drop snap ∧
      ∃ (k : ℕ) (d e : RaftEntry), log[k]? = some d ∧ full[k]? = some e ∧ d.term ≠ e.term := by
  obtain ⟨rest, rfl⟩ := hi
  have hlen := length_take_of_le (show i ≤ full.length by omega)
  have hget : ∀ (k : ℕ) (e : RaftEntry), ((full.drop i).take m)[k]? = some e → full[i + k]? = some e := by
    intro k e he
    rw [← getElem?_drop]
    exact getElem?_of_isPrefix (List.take_prefix _ _) he
  have hget' : ∀ k : ℕ, (full.take i ++ rest)[i + k]? = rest[k]? := by
    intro k
    rw [getElem?_append_right (by omega), hlen, Nat.add_sub_cancel_left]
  have hdrop : ∀ m : List RaftEntry, (full.take i ++ m).drop snap = (full.take i).drop snap ++ m :=
    fun m => drop_append_of_le_length (by omega)
  rw [hdrop] at h ⊢
  rw [take_add, conform_append, hdrop]
  rcases appendLoop_eq_takeOver (by rw [length_drop]; omega) h with
    ⟨hx, hlog⟩ | ⟨hx, ⟨e, he, hno⟩ | ⟨hlog, k, d, e, hd, he, hne⟩⟩
  · refine .inl ⟨hx, ?_⟩
    rw [hlog, conform]
    rcases takeOver_cases fun k d e hd he => hagree (i + k) d e ((hget' k).trans hd) (hget k e he)
      with ⟨hpre, heq⟩ | ⟨hpre, heq⟩ <;> simp [hpre, heq]
  · exact absurd (hvalid e (mem_of_mem_drop (mem_of_mem_take he))) hno
  · exact .inr ⟨hx, hlog, i + k, d, e, (hget' k).trans hd, hget k e he, hne⟩

lemma Holds.appendLoop {c : Cell RaftEntry} {s : RaftPersistentState} (h : Holds c s)
    {full : List RaftEntry} {prev m : ℕ}
    (hvalid : ∀ e ∈ full, validateRaftEntry e = .ok ())
    (hagree : ∀ (i : ℕ) (d e : RaftEntry), c.log[i]? = some d → full[i]? = some e → d.term = e.term →
      d = e)
    (hsnap : s.snapshotIndex ≤ prev) (hprev : full.take prev <+: c.log)
    (hm : prev + m ≤ full.length) {y : Except RaftError Unit} {log : List RaftEntry}
    (hloop : appendLoop s.commitIndex s.snapshotIndex (prev + 1)
      ((full.drop prev).take m) s.entries = (y, log)) :
    (y = .ok () ∧
      Holds ⟨c.term, conform c.log (full.take (prev + m))⟩ { s with entries := log } ∧
      c.log.take s.commitIndex <+: conform c.log (full.take (prev + m))) ∨
    (∃ err, y = .error err) ∧ log = s.entries ∧
      ∃ (k : ℕ) (d e : RaftEntry), c.log[k]? = some d ∧ full[k]? = some e ∧ d.term ≠ e.term := by
  have hcommit := h.commit_le
  have hsc := h.snapshot_commit
  have hkept := (appendLoop_take hloop (by rw [h.entries, length_drop]; omega)).2
  rw [h.entries] at hloop hkept ⊢
  rcases appendLoop_spec hvalid hagree hsnap hprev hm hloop with ⟨rfl, rfl⟩ | herr
  · -- what is committed stays, the snapshot included
    have hkeep : c.log.take s.commitIndex <+: conform c.log (full.take (prev + m)) := by
      obtain ⟨rest, hrest⟩ := hprev
      have hlen := length_take_of_le (show prev ≤ full.length by omega)
      have hcut : ∀ m : List RaftEntry, (full.take prev ++ m).take s.snapshotIndex =
          (full.take prev).take s.snapshotIndex := fun m => take_append_of_le_length (by omega)
      rw [← Nat.add_sub_cancel' hsc, take_add, ← hkept, ← hrest,
        take_add (l := full), conform_append, hcut, ← hcut (conform _ _), ← take_add]
      exact take_prefix _ _
    have hlen := hkeep.length_le
    rw [length_take, Nat.min_eq_left hcommit] at hlen
    refine .inl ⟨rfl, ⟨h.term, by simp only; omega, rfl, ?_, hsc, hlen⟩, hkeep⟩
    simp only [h.snapshotTerm]
    rw [← termAt_of_isPrefix (List.take_prefix s.commitIndex c.log)
        (by rw [length_take]; omega),
      termAt_of_isPrefix hkeep (by rw [length_take]; omega)]
  · exact .inr herr

/-! ### Logs that keep their end -/

namespace Holds

variable {c : Cell RaftEntry} {s s' : RaftPersistentState}

lemma congr (h : Holds c s) (hterm : s'.currentTerm = s.currentTerm)
    (hsnap : s'.snapshotIndex = s.snapshotIndex) (hsterm : s'.snapshotTerm = s.snapshotTerm)
    (hents : s'.entries = s.entries) (hge : s.snapshotIndex ≤ s'.commitIndex)
    (hle : s'.commitIndex ≤ c.log.length) : Holds c s' :=
  ⟨hterm.trans h.term, hsnap ▸ h.snapshot_le, by rw [hents, hsnap, h.entries],
    by rw [hsterm, hsnap, h.snapshotTerm], hsnap ▸ hge, hle⟩

lemma append (h : Holds c s) (e : RaftEntry) :
    Holds ⟨c.term, c.log ++ [e]⟩ { s with entries := s.entries ++ [e] } where
  term := h.term
  snapshot_le := by
    have := h.snapshot_le
    simp only [length_append]
    omega
  entries := by
    simp only
    rw [h.entries, drop_append_of_le_length h.snapshot_le]
  snapshotTerm := by
    simp only
    rw [h.snapshotTerm, termAt_of_isPrefix (prefix_append c.log [e]) h.snapshot_le]
  snapshot_commit := h.snapshot_commit
  commit_le := by
    have := h.commit_le
    simp only [length_append]
    omega

lemma applyThrough (h : Holds c s) {target : ℕ} (htgt : target ≤ c.log.length)
    (happly : s.applyThroughLocked target = .ok s') : Holds c s' := by
  obtain ⟨a, -, rfl⟩ := applyThroughLocked_ok happly
  have hsc := h.snapshot_commit
  have hcl := h.commit_le
  exact h.congr rfl rfl rfl rfl (by simp only; omega) (by simp only; omega)

lemma compact (h : Holds c s) {term : ℕ}
    (hterm : s.termAtLocked s.commitIndex = .ok term) (epoch : ℕ) (view : Option ViewDigests) :
    Holds c { s with
      entries := s.entries.drop (s.commitIndex - s.snapshotIndex)
      snapshotIndex := s.commitIndex
      snapshotTerm := term
      snapshotEpoch := epoch
      snapshotView := view } where
  term := h.term
  snapshot_le := h.commit_le
  entries := by
    have := h.snapshot_commit
    simp only
    rw [h.entries, drop_drop]
    congr 1
    omega
  snapshotTerm := ((h.termAtLocked_eq_ok.1 hterm).2.2).symm
  snapshot_commit := le_rfl
  commit_le := h.commit_le

/-- A snapshot of a log `ℓ` ahead of the commit index makes the store's log conform
to it. -/
lemma install (h : Holds c s) (ℓ : List RaftEntry) {q : RaftSnapshot}
    (hagree : ∀ i, i ≤ c.log.length → i ≤ ℓ.length →
      termAt RaftEntry.term c.log i = termAt RaftEntry.term ℓ i → c.log.take i = ℓ.take i)
    (hlen : q.lastIncludedIndex ≤ ℓ.length)
    (hterm : q.lastIncludedTerm = termAt RaftEntry.term ℓ q.lastIncludedIndex)
    (hahead : s.commitIndex < q.lastIncludedIndex) :
    Holds ⟨c.term, conform c.log (ℓ.take q.lastIncludedIndex)⟩ (installed s q) := by
  have hsc := h.snapshot_commit
  have htake : (ℓ.take q.lastIncludedIndex).length = q.lastIncludedIndex := by
    rw [length_take]
    omega
  by_cases hhas : s.termAtLocked q.lastIncludedIndex = .ok q.lastIncludedTerm
  · -- the store has the snapshot's last entry: its log goes on behind it
    obtain ⟨-, hle, hsame⟩ := h.termAtLocked_eq_ok.1 hhas
    have heq := hagree _ hle hlen (hsame.trans hterm)
    have hconf : conform c.log (ℓ.take q.lastIncludedIndex) = c.log := by
      rw [conform, if_pos]
      exact heq ▸ take_prefix _ _
    rw [hconf]
    refine ⟨h.term, hle, ?_, hsame.symm, le_rfl, hle⟩
    simp only [installed, retained, hhas, if_true]
    rw [h.entries, drop_drop]
    congr 1
    omega
  · -- the store lacks it: the log is the snapshot's
    have hconf : conform c.log (ℓ.take q.lastIncludedIndex) = ℓ.take q.lastIncludedIndex := by
      rw [conform, if_neg]
      intro hpre
      refine hhas (h.termAtLocked_eq_ok.2 ⟨by omega, htake ▸ hpre.length_le, ?_⟩)
      rw [hterm, ← termAt_of_isPrefix hpre htake.ge,
        termAt_of_isPrefix (List.take_prefix _ ℓ) htake.ge]
    rw [hconf]
    refine ⟨h.term, htake.ge, ?_, ?_, le_rfl, htake.ge⟩
    · simp only [installed, retained, hhas, if_false]
      rw [drop_of_length_le htake.le]
    · simp only [installed]
      rw [hterm, termAt_of_isPrefix (List.take_prefix _ ℓ) htake.ge]

end Holds

end GideonDB.Cluster
