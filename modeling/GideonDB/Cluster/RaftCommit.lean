/-
What a group commits and applies is decided in the protocol.

`CommitInv` says that the log of every node up to its commit index, and what requests and
snapshots declare committed, is an initial segment that a quorum has acknowledged to the
leader of some term (`Sys.Decided`).  Decided segments agree, so nodes that apply an index
apply the same command there.

A follower moves its commit index to the smaller of the leader's commit index and the
end of its own log.  When the batch stops short of both, that index lies in a part of
the follower's log which the request says nothing about; `TailAgrees` is what has to
hold of that part.
-/
import GideonDB.Cluster.RaftFixed

namespace GideonDB.Cluster

open Go Consensus RaftPersistentState RaftStore Sys List Cluster.Group
open Option (ite_none_left_eq_some ite_none_right_eq_some)

/-- The protocol has them too. -/
def AcksOK (g : Group) (a : Sys GoString RaftEntry) : Prop :=
  ∀ x ∈ g.acks, ∃ b ∈ a.acks, b.node = x.node ∧ b.term = x.term ∧ x.index ≤ b.index

/-- What was sent as committed, acknowledged and applied belongs to the protocol's history. -/
structure SentInv (P : Rules GoString RaftEntry) (g : Group) (a : Sys GoString RaftEntry) :
    Prop where
  appends : ∀ m ∈ g.appends, ∃ ℓ, AppendOK a m ℓ ∧
    a.Decided P m.request.term (ℓ.take m.request.leaderCommit)
  snapshots : ∀ q ∈ g.snapshots, ∃ ℓ, SnapshotOK a q ℓ ∧
    a.Decided P q.term (ℓ.take q.snapshot.lastIncludedIndex)
  acks : AcksOK g a
  applied : ∀ x ∈ g.applied, ∃ t p e, a.Decided P t p ∧ 0 < x.index ∧
    p[x.index - 1]? = some e ∧ e.command = x.command

/-- What is committed anywhere is decided. -/
structure CommitInv (P : Rules GoString RaftEntry) (g : Group) (a : Sys GoString RaftEntry) :
    Prop where
  memory : ∀ n, a.Decided P (a.memory n).term ((a.memory n).log.take (g.store n).state.commitIndex)
  file : ∀ n, a.Decided P (a.file n).term ((a.file n).log.take (g.store n).file.commitIndex)
  sent : SentInv P g a

variable {g : Group} {a a' : Sys GoString RaftEntry}

lemma AcksOK.mono (h : AcksOK g a) (hext : a.Extends a') : AcksOK g a' := by
  intro x hx
  obtain ⟨b, hb, hbx⟩ := h x hx
  exact ⟨b, hext.acks hb, hbx⟩

variable {P : Rules GoString RaftEntry}

lemma SentInv.mono (h : SentInv P g a) (hext : a.Extends a') : SentInv P g a' where
  appends := by
    intro m hm
    obtain ⟨ℓ, hℓ, hd⟩ := h.appends m hm
    exact ⟨ℓ, hℓ.mono hext, hd.mono hext le_rfl⟩
  snapshots := by
    intro q hq
    obtain ⟨ℓ, hℓ, hd⟩ := h.snapshots q hq
    exact ⟨ℓ, hℓ.mono hext, hd.mono hext le_rfl⟩
  acks := h.acks.mono hext
  applied := by
    intro x hx
    obtain ⟨t, p, e, hd, hrest⟩ := h.applied x hx
    exact ⟨t, p, e, hd.mono hext le_rfl, hrest⟩

lemma SentInv.congr {g' : Group} (h : SentInv P g a) (happ : g'.appends = g.appends)
    (hsnap : g'.snapshots = g.snapshots) (hacks : g'.acks = g.acks)
    (happlied : g'.applied = g.applied) : SentInv P g' a :=
  ⟨happ ▸ h.appends, hsnap ▸ h.snapshots, by rw [AcksOK, hacks]; exact h.acks, happlied ▸ h.applied⟩

/-! ### Calls that leave the committed part alone -/

/-- The state `s'` retains what `s` does, with the same snapshot and commit index. -/
structure Keeps (s s' : RaftPersistentState) : Prop where
  term : s.currentTerm ≤ s'.currentTerm
  snapshotIndex : s'.snapshotIndex = s.snapshotIndex
  snapshotTerm : s'.snapshotTerm = s.snapshotTerm
  commitIndex : s'.commitIndex = s.commitIndex
  entries : s.entries <+: s'.entries

/-- A call keeps the committed part in memory and writes either nothing or all of it. -/
def StoreKeeps (r r' : RaftStore) : Prop :=
  Keeps r.state r'.state ∧ (r'.file = r.file ∨ r'.file = r'.state)

variable {s s' : RaftPersistentState}

lemma SameLog.keeps (h : SameLog s s') : Keeps s s' :=
  ⟨h.term, h.snapshotIndex, h.snapshotTerm, congrArg Applied.commitIndex h.applied,
    h.entries ▸ prefix_rfl⟩

variable {r : RaftStore}

lemma StoreSameLog.keeps {r' : RaftStore} (h : StoreSameLog r r') : StoreKeeps r r' :=
  ⟨h.1.keeps, h.2⟩

variable {n : GoString}

namespace StoreKeeps

lemma refl (r : RaftStore) : StoreKeeps r r := (StoreSameLog.refl r).keeps

lemma appendCommand (r : RaftStore) (t : ℕ) (command : MetadataCommand) :
    StoreKeeps r (r.appendCommand t command true).2 := by
  rcases r.appendCommand_cases t command true with ⟨err, hcall⟩ |
    ⟨-, -, -, -, ⟨-, -, hcall⟩ | ⟨-, s, rfl, hcall⟩⟩ <;> rw [hcall]
  · exact refl r
  · exact refl r
  · exact ⟨⟨le_rfl, rfl, rfl, rfl, prefix_append _ _⟩, .inr rfl⟩

lemma setStore (h : StoreKeeps (g.store n) r)
    (m : GoString) : StoreKeeps (g.store m) ((g.setStore n r).store m) := by
  by_cases hm : m = n
  · subst hm
    simpa [setStore] using h
  · simpa [Group.setStore, hm] using refl (g.store m)

end StoreKeeps

variable {c d : Cell RaftEntry} {leader : GoString} {t : ℕ}

namespace CommitInv

variable {P : Rules GoString RaftEntry} {g g' : Group} {a a' : Sys GoString RaftEntry}

lemma init (P : Rules GoString RaftEntry) (epoch : ℕ) (voters : List GoString) :
    CommitInv P (Group.init epoch voters) Sys.init :=
  ⟨fun _ => .inl (by simp [Sys.init]), fun _ => .inl (by simp [Sys.init]),
    ⟨by simp [Group.init], by simp [Group.init], by simp [Group.init, AcksOK],
      by simp [Group.init]⟩⟩

lemma decided_of_keeps (hsim : Sim P g a') (hext : a.Extends a') {c' : Cell RaftEntry}
    (hc : a.Traced P c.log) (hc' : a'.Traced P c'.log) (hs : Holds c s) (hs' : Holds c' s')
    (hk : Keeps s s') (hd : a.Decided P c.term (c.log.take s.commitIndex)) :
    a'.Decided P c'.term (c'.log.take s'.commitIndex) := by
  have hlog := hsim.log_prefix (hc.mono hext) hc' hs hs' hk.snapshotIndex hk.snapshotTerm hk.entries
  have hterm : c.term ≤ c'.term := by
    rw [← hs.term, ← hs'.term]
    exact hk.term
  rw [hk.commitIndex, ← take_eq_take_of_isPrefix hlog hs.commit_le]
  exact hd.mono hext hterm

lemma quiet (h : CommitInv P g a) (hsim : Sim P g a) (hext : a.Extends a') (hsim' : Sim P g' a')
    (hkeeps : ∀ n, StoreKeeps (g.store n) (g'.store n)) (happ : g'.appends = g.appends)
    (hsnap : g'.snapshots = g.snapshots) (hacks : g'.acks = g.acks)
    (happlied : g'.applied = g.applied) : CommitInv P g' a' where
  memory := fun n => decided_of_keeps hsim' hext (hsim.inv.memory n).traced
    (hsim'.inv.memory n).traced (hsim.memory n) (hsim'.memory n) (hkeeps n).1 (h.memory n)
  file := by
    intro n
    rcases (hkeeps n).2 with hfile | hfile
    · -- the file is the old one
      have hk : Keeps (g.store n).file (g'.store n).file := by
        rw [hfile]
        exact ⟨le_rfl, rfl, rfl, rfl, prefix_rfl⟩
      exact decided_of_keeps hsim' hext (hsim.inv.file n).traced (hsim'.inv.file n).traced
        (hsim.file n) (hsim'.file n) hk (h.file n)
    · -- the file is the new state
      have hk : Keeps (g.store n).state (g'.store n).file := by
        rw [hfile]
        exact (hkeeps n).1
      exact decided_of_keeps hsim' hext (hsim.inv.memory n).traced (hsim'.inv.file n).traced
        (hsim.memory n) (hsim'.file n) hk (h.memory n)
  sent := (h.sent.mono hext).congr happ hsnap hacks happlied

/-! ### Calls that move the commit index -/

lemma setCells (h : CommitInv P g a) (hext : a.Extends (a.setCells n c d))
    (hc : a.Decided P c.term (c.log.take r.state.commitIndex))
    (hd : a.Decided P d.term (d.log.take r.file.commitIndex)) :
    CommitInv P (g.setStore n r) (a.setCells n c d) := by
  have hc := hc.mono hext le_rfl
  have hd := hd.mono hext le_rfl
  refine ⟨fun m => ?_, fun m => ?_, (h.sent.mono hext).congr rfl rfl rfl rfl⟩
  · by_cases hm : m = n
    · subst hm
      simpa [setStore, setCells] using hc
    · simpa [setStore, Sys.setCells, hm] using (h.memory m).mono hext le_rfl
  · by_cases hm : m = n
    · subst hm
      simpa [setStore, setCells] using hd
    · simpa [setStore, Sys.setCells, hm] using (h.file m).mono hext le_rfl

lemma mono (h : CommitInv P g a) (hext : a.Extends a') (hmem : a'.memory = a.memory)
    (hfile : a'.file = a.file) : CommitInv P g a' where
  memory := fun n => hmem ▸ (h.memory n).mono hext le_rfl
  file := fun n => hfile ▸ (h.file n).mono hext le_rfl
  sent := h.sent.mono hext

lemma acknowledge (h : CommitInv P g a) {m : ℕ} (hext : a.Extends (a.acknowledge n t m)) :
    CommitInv P { g with acks := g.acks ++ [⟨n, leader, t, m⟩] } (a.acknowledge n t m) := by
  have h' := h.mono hext rfl rfl
  exact ⟨h'.memory, h'.file, { h'.sent with
    acks := forall_mem_concat h'.sent.acks ⟨⟨n, t, m⟩, Set.mem_insert _ _, rfl, rfl, le_rfl⟩ }⟩

lemma of_mem_newlyApplied (hs' : Holds c s') (hsnap : s'.snapshotIndex ≤ s.commitIndex)
    {x : AppliedCommand} (hx : x ∈ newlyApplied n s s') :
    0 < x.index ∧ ∃ e, (c.log.take s'.commitIndex)[x.index - 1]? = some e ∧
      e.command = x.command := by
  rw [newlyApplied, mem_filterMap] at hx
  obtain ⟨i, hi, hx⟩ := hx
  obtain ⟨hle, hlt⟩ := mem_range'_1.1 hi
  rw [Option.map_eq_some_iff] at hx
  obtain ⟨e, he, rfl⟩ := hx
  rw [hs'.getElem?_entries, show s'.snapshotIndex + (i - s'.snapshotIndex) = i by omega] at he
  refine ⟨Nat.succ_pos i, e, ?_, rfl⟩
  rw [Nat.add_sub_cancel, getElem?_take_of_lt (by omega)]
  exact he

lemma advance (h : CommitInv P (g.setStore n r) a) (hholds : Holds (a.memory n) r.state)
    (hsnap : r.state.snapshotIndex ≤ (g.state n).commitIndex) : CommitInv P (g.advance n r) a := by
  refine ⟨h.memory, h.file, { h.sent with applied := fun x hx => ?_ }⟩
  rcases mem_append.1 hx with hx | hx
  · exact h.sent.applied x hx
  · obtain ⟨hpos, e, he, hcommand⟩ := of_mem_newlyApplied hholds hsnap hx
    have hd := h.memory n
    rw [show (g.setStore n r).store n = r by simp [setStore]] at hd
    exact ⟨_, _, e, hd, hpos, he, hcommand⟩

end CommitInv

/-! ### Append requests -/

/-- No entry of the batch contradicts the entry the receiver has at its index. -/
def NoConflict (s : RaftPersistentState) (request : AppendEntriesRequest) : Prop :=
  ∀ k < request.entries.length, ∀ entry ∈ request.entries[k]?,
    ∀ term ∈ (s.termAtLocked (request.prevLogIndex + 1 + k)).toOption, term = entry.term

instance (s : RaftPersistentState) (request : AppendEntriesRequest) :
    Decidable (NoConflict s request) := by
  rw [NoConflict]
  infer_instance

/-- When the receiver keeps its log as it is, the entries it has beyond the batch are, as
far as the leader's commit index reaches, of the same terms as the leader's. -/
def TailAgrees (s : RaftPersistentState) (m : AppendMessage) : Prop :=
  matchesPrevious s m.request → NoConflict s m.request →
    ∀ i ≤ m.request.leaderCommit, m.request.prevLogIndex + m.request.entries.length < i →
      i ≤ s.lastLogLocked.1 → s.termAtLocked i = m.sender.termAtLocked i

instance (s : RaftPersistentState) (m : AppendMessage) : Decidable (TailAgrees s m) := by
  rw [TailAgrees]
  infer_instance

lemma matchesPrevious_withTerm (s : RaftPersistentState) (t : ℕ) (q : AppendEntriesRequest) :
    matchesPrevious (s.withTerm t) q = matchesPrevious s q := by
  rw [withTerm]
  split <;> rfl

variable {m : AppendMessage} {x : Except RaftError AppendEntriesResponse} {ℓ : List RaftEntry}
  {message index epoch : ℕ} {nodes : List GoString}

section

variable {P : Rules GoString RaftEntry} {g g' : Group} {a a' : Sys GoString RaftEntry}

lemma Except.eq_ok_of_mem_toOption {α ε : Type} {x : Except ε α} {y : α} (h : y ∈ x.toOption) :
    x = .ok y := by
  cases x with
  | error => simp [Except.toOption] at h
  | ok z => simpa [Except.toOption] using h

/-- A log that has the batch contradicts none of its entries. -/
lemma noConflict_of_isPrefix (hs : Holds c s) (hℓ : AppendOK a m ℓ)
    (hpre : ℓ.take (m.request.prevLogIndex + m.request.entries.length) <+: c.log) :
    NoConflict s m.request := by
  intro k hlt entry hk term hterm
  rw [Option.mem_def, hℓ.entries, getElem?_take_of_lt hlt, getElem?_drop] at hk
  obtain ⟨-, -, rfl⟩ := hs.termAtLocked_eq_ok.1 (Except.eq_ok_of_mem_toOption hterm)
  have hlog : c.log[m.request.prevLogIndex + k]? = some entry :=
    getElem?_of_isPrefix hpre (by rw [getElem?_take_of_lt (by omega)]; exact hk)
  have := termAt_succ RaftEntry.term hlog
  rwa [show m.request.prevLogIndex + k + 1 = m.request.prevLogIndex + 1 + k by omega] at this

/-- Once the batch is in it, the log of a node is the leader's as far as the leader's
commit index and the log itself reach. -/
lemma Sim.take_of_tailAgrees (h : Sim P g a)
    (hℓ : AppendOK a m ℓ) (htail : TailAgrees (g.state n) m)
    (hprev : matchesPrevious ((g.state n).withTerm m.request.term) m.request)
    (log : List RaftEntry) (hlog : log = conform (a.memory n).log
      (ℓ.take (m.request.prevLogIndex + m.request.entries.length)))
    {i : ℕ} (hi : i ≤ m.request.leaderCommit) (hlen : i ≤ log.length) : log.take i = ℓ.take i := by
  have hbatch := hℓ.length_le
  have hcommit : i ≤ ℓ.length := hi.trans (hℓ.commit ▸ hℓ.sender.commit_le)
  by_cases hpre : ℓ.take (m.request.prevLogIndex + m.request.entries.length) <+: (a.memory n).log
  · rw [conform, if_pos hpre] at hlog
    rw [hlog] at hlen ⊢
    by_cases hik : i ≤ m.request.prevLogIndex + m.request.entries.length
    · have htake := take_eq_take_of_isPrefix hpre (i := i) (by rw [length_take]; omega)
      rw [← htake, take_take, Nat.min_eq_left hik]
    · -- beyond the batch nothing but the assumption speaks for the log
      rw [matchesPrevious_withTerm] at hprev
      have hholds : Holds (a.memory n) (g.state n) := h.memory n
      have hterms := htail hprev (noConflict_of_isPrefix hholds hℓ hpre) i hi (by omega)
        (by rw [hholds.lastIndex]; exact hlen)
      obtain ⟨hsnap, -⟩ := matchesPrevious_iff.1 hprev
      have hmem : (g.state n).termAtLocked i = .ok (termAt RaftEntry.term (a.memory n).log i) :=
        hholds.termAtLocked_eq_ok.2 ⟨by omega, hlen, rfl⟩
      have hsender : m.sender.termAtLocked i = .ok (termAt RaftEntry.term ℓ i) :=
        hℓ.sender.termAtLocked_eq_ok.2 ⟨by have := hℓ.snapshot_le; omega, hcommit, rfl⟩
      rw [hmem, hsender, Except.ok.injEq] at hterms
      exact h.take_eq (h.inv.memory n).traced (h.traced_of_leader hℓ.leader) hlen hcommit hterms
  · rw [conform, if_neg hpre] at hlog
    rw [hlog, length_take] at hlen
    rw [hlog, take_take, Nat.min_eq_left (by omega)]

lemma prefix_conform (ℓ m : List RaftEntry) : m <+: conform ℓ m := by
  rw [conform]
  split
  · assumption
  · exact prefix_rfl

lemma step_acknowledge {k : ℕ} (hr : a.reign t ≠ none) (hterm : c.term = t)
    (hk : k ≤ (a.full t).length) (hpre : (a.full t).take k <+: c.log) :
    Sys.Step P (a.setCells n c c) ((a.setCells n c c).acknowledge n t k) := by
  refine .acknowledge hr ?_ ?_ hk ?_ ?_
  · rw [setCells_memory_self, hterm]
  · rw [setCells_file_self, hterm]
  · rw [setCells_memory_self]
    exact hpre
  · rw [setCells_file_self]
    exact hpre

lemma setStore_store_self (g : Group) (n : GoString) (r : RaftStore) :
    (g.setStore n r).store n = r := by
  simp [setStore]

lemma accepted_eq_nil
    (hx : ∀ y, x = .ok y → y.success = false) : accepted n leader t x = [] := by
  cases x with
  | error => rfl
  | ok y => simp [accepted, hx y rfl]

lemma CommitInv.setCells_follows (h : CommitInv P g a) (hext : a.Extends (a.setCells n c d))
    (hfollow : Sim.FileFollows a (a.setCells n c d) n (g.store n) r)
    (hc : a.Decided P c.term (c.log.take r.state.commitIndex)) :
    CommitInv P (g.setStore n r) (a.setCells n c d) := by
  refine h.setCells hext hc ?_
  rcases hfollow with ⟨hcell, hfile⟩ | ⟨hcell, hfile⟩
  · rw [setCells_file_self] at hcell
    rw [hcell, hfile]
    exact h.file n
  · rw [setCells_file_self, setCells_memory_self] at hcell
    rw [hcell, hfile]
    exact hc

/-- A leader whose entry a quorum has acknowledged acknowledges it itself, and the entry
is committed in the protocol. -/
lemma Sim.committed_of_acks (h : Sim P g a) (hacks : AcksOK g a) (hwin : (n, t) ∈ g.winners)
    (ht : (g.state n).currentTerm = t) (hack : g.acknowledged n t index nodes)
    (hpos : 0 < index) (hlen : index ≤ (a.memory n).log.length)
    (hterm : termAt RaftEntry.term (a.memory n).log index = t)
    (hq : P.quorum ((a.memory n).log.take index) {v | v ∈ nodes}) :
    Sys.Step P a (a.acknowledge n t index) ∧ (a.acknowledge n t index).Committed P t index := by
  obtain ⟨r, hr, -, hmem⟩ := h.leader_memory hwin ht
  have hfull : a.full t = (a.memory n).log := by
    rw [full_of_reign hr, hmem]
    rfl
  have hfile := h.leader_file hwin ht
  refine ⟨.acknowledge (by simp [hr]) (by rw [hmem]) (by rw [hfile, hmem]) (hfull ▸ hlen) ?_ ?_,
    hpos, hfull ▸ hlen, ?_, {v | v ∈ nodes}, ?_, ?_⟩
  · rw [hfull]
    exact take_prefix _ _
  · rw [hfull, hfile]
    exact take_prefix _ _
  · change termAt P.term (a.full t) index = t
    rw [hfull, h.rules]
    exact hterm
  · change P.quorum ((a.full t).take index) {v | v ∈ nodes}
    rw [hfull]
    exact hq
  · intro v hv
    rw [acknowledged, all_eq_true] at hack
    have hv := hack v hv
    rw [Bool.or_eq_true] at hv
    rcases hv with hv | hv
    · exact ⟨⟨n, t, index⟩, Set.mem_insert _ _, (eq_of_beq hv).symm, rfl, le_rfl⟩
    · rw [any_eq_true] at hv
      obtain ⟨x, hx, hxv⟩ := hv
      simp only [Bool.and_eq_true, beq_iff_eq, decide_eq_true_eq] at hxv
      obtain ⟨b, hb, hnode, hbt, hindex⟩ := hacks x hx
      exact ⟨b, Set.mem_insert_of_mem _ hb, hnode.trans hxv.1.1.1, hbt.trans hxv.1.2,
        le_trans hxv.2 hindex⟩

section

variable (h : CommitInv P g a) (hsim : Sim P g a)

include h hsim

lemma decided_of_prefix {k : ℕ} (hk : k = (g.state n).commitIndex)
    (hterm : (a.memory n).term ≤ c.term) (hpre : (a.memory n).log.take k <+: c.log) :
    a.Decided P c.term (c.log.take k) := by
  have hlen : ((a.memory n).log.take k).length = k := by
    have := (hsim.memory n).commit_le
    rw [length_take, hk]
    exact Nat.min_eq_left this
  have heq : c.log.take k = (a.memory n).log.take k := by
    rw [prefix_iff_eq_take, hlen] at hpre
    exact hpre.symm
  rw [heq, hk]
  exact (h.memory n).mono (.refl a) hterm

/-- After an append request the committed part of the receiver's log is decided. -/
lemma CommitInv.appended_decided (hℓ : AppendOK a m ℓ)
    (hd : a.Decided P m.request.term (ℓ.take m.request.leaderCommit))
    (htail : TailAgrees (g.state n) m) (hout : Sim.Appended a a' n m ℓ (g.state n) s' x)
    (hholds : Holds (a'.memory n) s') :
    a.Decided P (a'.memory n).term ((a'.memory n).log.take s'.commitIndex) ∧
      s'.snapshotIndex ≤ (g.state n).commitIndex := by
  have hmem : Holds (a.memory n) (g.state n) := hsim.memory n
  have hwith := (StoreSameLog.withTerm (g.state n) m.request.term).keeps
  cases hout with
  | kept _ hlog hstate =>
    have hkeeps : Keeps (g.state n) s' := by
      rcases hstate with rfl | rfl
      · exact ⟨le_rfl, rfl, rfl, rfl, prefix_rfl⟩
      · exact hwith
    have hterm : (a.memory n).term ≤ (a'.memory n).term := by
      rw [← hmem.term, ← hholds.term]
      exact hkeeps.term
    refine ⟨?_, by rw [hkeeps.snapshotIndex]; exact hmem.snapshot_commit⟩
    exact decided_of_prefix h hsim hkeeps.commitIndex hterm (by rw [hlog]; exact take_prefix _ _)
  | stuck hle hlog hkeep _ hstate =>
    rw [hstate, withTerm_eq]
    refine ⟨?_, hmem.snapshot_commit⟩
    exact decided_of_prefix h hsim rfl (by rw [hlog, ← hmem.term]; exact hle) hkeep
  | @success s₁ hle hprev hlog hkeep hstate hholds₁ hcommit =>
    have hsnap : s₁.snapshotIndex = (g.state n).snapshotIndex := by
      rw [hstate]
      exact hwith.snapshotIndex
    have hci : s₁.commitIndex = (g.state n).commitIndex := by
      rw [hstate]
      exact hwith.commitIndex
    have hold : a.Decided P (a'.memory n).term ((a'.memory n).log.take s₁.commitIndex) := by
      refine decided_of_prefix h hsim hci (by rw [hlog, ← hmem.term]; exact hle) ?_
      rw [hci]
      exact hkeep
    rcases hcommit with ⟨-, rfl⟩ | ⟨hlt, happly⟩
    · exact ⟨hold, hsnap ▸ hmem.snapshot_commit⟩
    obtain ⟨b, -, rfl⟩ := applyThroughLocked_ok happly
    refine ⟨?_, hsnap ▸ hmem.snapshot_commit⟩
    rw [hholds₁.lastIndex]
    -- the commit index moves to the leader's or to the end of the log, or stays
    rcases Nat.le_total s₁.commitIndex (min m.request.leaderCommit (a'.memory n).log.length)
      with hle' | hle'
    · rw [Nat.max_eq_right hle']
      have htake := hsim.take_of_tailAgrees hℓ htail hprev (a'.memory n).log
        (by rw [hlog]) (Nat.min_le_left _ _) (Nat.min_le_right _ _)
      rw [htake, hlog]
      exact hd.of_isPrefix (take_prefix_take_left (Nat.min_le_left _ _))
    · rw [Nat.max_eq_left hle']
      exact hold

lemma CommitInv.appendEntries (htail : ∀ m, g.appends[message]? = some m → TailAgrees (g.state n) m)
    (hstep : g.appendEntries n message = some g') : ∃ a', Sim P g' a' ∧ CommitInv P g' a' := by
  rw [Group.appendEntries] at hstep
  split at hstep
  · simp at hstep
  rename_i m hm
  rw [ite_none_left_eq_some, Option.some.injEq] at hstep
  replace hstep := hstep.2
  obtain ⟨ℓ, hℓ, hd⟩ := h.sent.appends m (mem_of_getElem? hm)
  generalize hcall : (g.store n).appendEntries m.request true = call at hstep
  obtain ⟨c, d, ⟨hrun, hsim', hfollow⟩, hout⟩ := hsim.appendEntriesStore hℓ hcall
  have hext := (hsim.inv.run hrun).2
  have hholds : Holds ((a.setCells n c d).memory n) call.2.state := by
    have := hsim'.memory n
    rwa [setStore_store_self] at this
  obtain ⟨hdec, hsnap⟩ := h.appended_decided hsim hℓ hd (htail m hm) hout hholds
  have hcommit : CommitInv P (g.advance n call.2) (a.setCells n c d) := by
    refine (h.setCells_follows hext hfollow ?_).advance hholds hsnap
    rwa [setCells_memory_self] at hdec
  have hquiet : (∀ y, call.1 = .ok y → y.success = false) →
      ∃ a', Sim P g' a' ∧ CommitInv P g' a' := by
    intro hx
    rw [accepted_eq_nil hx, append_nil] at hstep
    subst hstep
    exact ⟨_, hsim'.congr, hcommit⟩
  generalize hx : call.1 = x at hout hstep hquiet
  cases hout with
  | kept hx => exact hquiet hx
  | stuck => exact hquiet (by simp)
  | success hle _ hlog _ _ _ _ hfile =>
    rw [setCells_memory_self, setCells_file_self] at hfile
    subst hfile
    rw [setCells_memory_self] at hlog
    have hlen := hℓ.length_le
    have hack : Sys.Step P _ _ := step_acknowledge (n := n) (c := d)
      (k := m.request.prevLogIndex + m.request.entries.length) (Sim.leader_ne hℓ.leader)
      (by rw [hlog]) (hlen.trans hℓ.leader.2.length_le) (by
        rw [← take_eq_take_of_isPrefix hℓ.leader.2 hlen, hlog]
        exact prefix_conform _ _)
    have hsim'' := hsim'.acknowledge hack
    have hext' := hsim'.inv.extends_step hack
    subst hstep
    exact ⟨_, hsim''.congr, hcommit.acknowledge hext'⟩

lemma CommitInv.installSnapshot (hlaw : P.Lawful) (hstep : g.installSnapshot n message = some g') :
    ∃ a', Sim P g' a' ∧ CommitInv P g' a' := by
  rw [Group.installSnapshot] at hstep
  split at hstep
  · simp at hstep
  rename_i q hq
  rw [ite_none_left_eq_some, Option.some.injEq] at hstep
  replace hstep := hstep.2
  obtain ⟨ℓ, hℓ, hd⟩ := h.sent.snapshots q (mem_of_getElem? hq)
  generalize hcall : (g.store n).installSnapshot q true = call at hstep
  obtain ⟨c, d, ⟨hrun, hsim', hfollow⟩, hout⟩ := hsim.installSnapshotStore hℓ hcall
  have hext := (hsim.inv.run hrun).2
  have hmem : Holds (a.memory n) (g.state n) := hsim.memory n
  have hcell : (a.setCells n c d).memory n = c := setCells_memory_self
  -- the node holds the leader's log up to `k` and says so
  have hans : ∀ {k}, a.Decided P c.term (c.log.take call.2.state.commitIndex) → d = c →
      c.term = q.term → k ≤ (a.full q.term).length → (a.full q.term).take k <+: c.log →
      call.1 = .ok ⟨q.term, true, k⟩ →
      ∃ a', Sim P g' a' ∧ CommitInv P g' a' := by
    rintro k hdec rfl hterm hk hpre hx
    have hack : Sys.Step P _ _ := step_acknowledge (n := n) (Sim.leader_ne hℓ.leader) hterm hk hpre
    have hcommit := h.setCells_follows hext hfollow hdec
    rw [hx] at hstep
    subst hstep
    exact ⟨_, (hsim'.acknowledge hack).congr,
      hcommit.acknowledge (hsim'.inv.extends_step hack)⟩
  generalize hx : call.1 = x at hout
  generalize hs' : call.2.state = s' at hout hans
  cases hout with
  | kept hfail hkept hstate =>
    rw [hx, accepted_eq_nil hfail, append_nil] at hstep
    rw [hcell] at hkept
    subst hstep hkept
    refine ⟨_, hsim'.congr, h.setCells_follows hext hfollow ?_⟩
    rw [hs', hstate]
    exact h.memory n
  | covered hle hlog hfile hindex hstate =>
    rw [hcell] at hlog hfile
    rw [setCells_file_self] at hfile
    have hterm : (a.memory n).term ≤ q.term := hmem.term ▸ hle
    have hpre : (a.memory n).log.take (g.state n).commitIndex <+: a.full q.term :=
      (h.memory n).prefix_full hsim.inv.history hlaw hterm (Sim.leader_ne hℓ.leader)
    have hci := hmem.commit_le
    have hlen : ((a.memory n).log.take (g.state n).commitIndex).length = (g.state n).commitIndex := by
      rw [length_take]
      exact Nat.min_eq_left hci
    refine hans ?_ hfile (by rw [hlog]) (hlen ▸ hpre.length_le) ?_ hx
    · rw [hlog, hstate, (StoreSameLog.withTerm _ _).keeps.commitIndex]
      exact (h.memory n).mono (.refl a) hterm
    · rw [prefix_iff_eq_take, hlen] at hpre
      rw [← hpre, hlog]
      exact take_prefix _ _
  | installed hle hlog hfile hindex _ _ hstate =>
    rw [hcell] at hlog hfile
    rw [setCells_file_self] at hfile
    have hpre : ℓ.take q.snapshot.lastIncludedIndex <+: c.log := by
      rw [hlog]
      exact prefix_conform _ _
    have hlen : (ℓ.take q.snapshot.lastIncludedIndex).length = q.snapshot.lastIncludedIndex := by
      rw [length_take]
      exact Nat.min_eq_left hℓ.length_le
    refine hans ?_ hfile (by rw [hlog]) (hℓ.length_le.trans hℓ.leader.2.length_le) ?_ hx
    · rw [prefix_iff_eq_take, hlen] at hpre
      rw [hstate, installed, ← hpre, hlog]
      exact hd
    · rw [← take_eq_take_of_isPrefix hℓ.leader.2 hℓ.length_le]
      exact hpre

/-! ### Commits -/

/-- A leader commits an index its quorum has acknowledged, or fails to. -/
lemma CommitInv.commit (hwin : (n, t) ∈ g.winners) (hack : g.acknowledged n t index nodes) (hq :
    (g.state n).hasVoterQuorum nodes → t = (g.state n).currentTerm → P.quorum ((a.memory n).log.take
    index) {v | v ∈ nodes}) {call : Except RaftError Unit × RaftStore}
    (hcall : (g.store n).commitWithVoterAcks index t nodes true = call) :
    ∃ a', Sim P (g.advance n call.2) a' ∧ CommitInv P (g.advance n call.2) a' := by
  have hmem : Holds (a.memory n) (g.state n) := hsim.memory n
  rcases hsim.commitStore hcall with ⟨hsame, -⟩ | ⟨hok, hquor, hterm, hlen, hpos, htermAt, -⟩
  · rw [hsame]
    have hstore : g.setStore n (g.store n) = g := Sim.setStore_self g n
    have hsim' : Sim P (g.setStore n (g.store n)) a := by rwa [hstore]
    have hcommit : CommitInv P (g.setStore n (g.store n)) a := by rwa [hstore]
    exact ⟨a, hsim'.congr,
      hcommit.advance (hsim.memory n) hmem.snapshot_commit⟩
  · obtain ⟨hstep, hcmtd⟩ := hsim.committed_of_acks h.sent.acks hwin hterm.symm hack hpos hlen
      htermAt (hq hquor hterm)
    have hext := hsim.inv.extends_step hstep
    have h₁ := h.mono hext rfl rfl
    have hsim₁ := hsim.acknowledge hstep
    rcases hsim₁.commitStore hcall with ⟨-, err, herr⟩ | ⟨-, -, -, -, -, -, s, hs, hr, hrun, hsim'⟩
    · simp [hok] at herr
    obtain ⟨b, -, hseq⟩ := applyThroughLocked_ok hs
    -- the leader's log up to the new commit index
    have hdecided : (a.acknowledge n t index).Decided P (a.memory n).term
        ((a.memory n).log.take s.commitIndex) := by
      obtain ⟨r, hreign, -, hcell⟩ := hsim.leader_memory hwin hterm.symm
      have hfull : (a.acknowledge n t index).full t = (a.memory n).log := by
        rw [hcell]
        exact full_of_reign hreign
      rw [hseq]
      rcases Nat.le_total (g.state n).commitIndex index with hle | hle
      · rw [Nat.max_eq_right hle, ← hmem.term, ← hterm, ← hfull]
        exact hcmtd.decided
      · rw [Nat.max_eq_left hle]
        exact h₁.memory n
    rw [hr]
    refine ⟨_, hsim'.congr,
      (h₁.setCells (r := ⟨n, s, s⟩) (hsim₁.inv.run hrun).2 hdecided hdecided).advance ?_ ?_⟩
    · have := hsim'.memory n
      rwa [setStore_store_self] at this
    · rw [hseq]
      exact hmem.snapshot_commit

end

/-! ### The other events -/

section

variable (h : CommitInv P g a) (hsim : Sim P g a)

include h hsim

lemma CommitInv.sendAppend {next limit : ℕ} (hstep : g.sendAppend n next limit = some g') :
    Sim P g' a ∧ CommitInv P g' a := by
  obtain ⟨m, ℓ, hm, hsender, rfl, -, -, rfl⟩ := hsim.sendAppend hstep
  refine ⟨hsim.addAppend hm, h.memory, h.file,
    { h.sent with appends := forall_mem_concat h.sent.appends ⟨_, hm, ?_⟩ }⟩
  have hterm : (a.memory n).term = m.request.term := by
    have := hm.sender.term
    rw [hsender] at this
    exact (hsim.memory n).term.symm.trans this
  rw [hm.commit, hsender, ← hterm]
  exact h.memory n

lemma CommitInv.sendSnapshot (hstep : g.sendSnapshot n = some g') :
    Sim P g' a ∧ CommitInv P g' a := by
  obtain ⟨q, ℓ, hq, hqeq, rfl, -, rfl⟩ := hsim.sendSnapshot hstep
  refine ⟨hsim.addSnapshot hq, h.memory, h.file,
    { h.sent with snapshots := forall_mem_concat h.sent.snapshots ⟨_, hq, ?_⟩ }⟩
  have hmem : Holds (a.memory n) (g.state n) := hsim.memory n
  rw [hqeq]
  change a.Decided P (g.state n).currentTerm ((a.memory n).log.take (g.state n).snapshotIndex)
  rw [hmem.term]
  exact (h.memory n).of_isPrefix (take_prefix_take_left hmem.snapshot_commit)

lemma CommitInv.compact (hstep : g.compact n = some g') :
    ∃ a', Sim P g' a' ∧ CommitInv P g' a' := by
  rw [Group.compact, Option.some.injEq] at hstep
  subst hstep
  rcases hsim.compactStore n with hsame | ⟨-, term, -, s, hs, hcall, hrun, hsim'⟩
  · rw [hsame, Sim.setStore_self]
    exact ⟨a, hsim, h⟩
  · rw [hcall]
    have hd : a.Decided P (a.memory n).term ((a.memory n).log.take s.commitIndex) := by
      rw [hs]
      exact h.memory n
    exact ⟨_, hsim', h.setCells (r := ⟨n, s, s⟩) (hsim.inv.run hrun).2 hd hd⟩

lemma CommitInv.restart (hstep : g.restart epoch n = some g') :
    ∃ a', Sim P g' a' ∧ CommitInv P g' a' := by
  obtain ⟨snapshotEpoch, view, s, hs, -, -, rfl, hrun, hsim'⟩ := hsim.restart hstep
  have hd : a.Decided P (a.file n).term ((a.file n).log.take s.commitIndex) := by
    rw [hs]
    exact h.file n
  have hcommit := h.setCells (r := ⟨n, s, (g.store n).file⟩) (hsim.inv.run hrun).2 hd (h.file n)
  exact ⟨_, hsim', hcommit.memory, hcommit.file, hcommit.sent.congr rfl rfl rfl rfl⟩

end

end

/-! ### State-machine safety -/

/-- The condition on an append request that is about to be delivered. -/
def Event.tailAgrees (g : Group) : Event → Prop
  | .appendEntries n message => ∀ m ∈ g.appends[message]?, TailAgrees (g.state n) m
  | _ => True

instance (g : Group) (event : Event) : Decidable (event.tailAgrees g) := by
  induction event using Event.casesOn <;> dsimp only [Event.tailAgrees] <;> infer_instance

section

variable {V : List GoString} {g g' : Group} {a : Sys GoString RaftEntry}

lemma CommitInv.step (h : CommitInv (fixedRules V) g a) (hsim : Sim (fixedRules V) g a)
    (hfix : FixedGroup V g) {epoch : ℕ} {event : Event} (hkeep : event.keepsMembership)
    (hfits : event.termFits g) (htail : event.tailAgrees g) (hstep : g.step epoch event = some g') :
    ∃ a', Sim (fixedRules V) g' a' ∧ CommitInv (fixedRules V) g' a' := by
  -- calls that keep the committed part: whatever the protocol does, the logs are continued
  have hquiet : (∀ n, StoreKeeps (g.store n) (g'.store n)) → g'.appends = g.appends →
      g'.snapshots = g.snapshots → g'.acks = g.acks → g'.applied = g.applied →
      ∃ a', Sim (fixedRules V) g' a' ∧ CommitInv (fixedRules V) g' a' := by
    intro hkeeps happ hsnap hacks happlied
    obtain ⟨a', hrun, hsim'⟩ := hsim.step_fixed hfix hkeep hfits hstep
    exact ⟨a', hsim', h.quiet hsim (hsim.inv.run hrun).2 hsim' hkeeps happ hsnap hacks happlied⟩
  have happend : ∀ {n command}, g.appendCommand n command = some g' →
      ∃ a', Sim (fixedRules V) g' a' ∧ CommitInv (fixedRules V) g' a' := by
    intro n command happend
    obtain ⟨-, ⟨⟩⟩ := ite_none_right_eq_some.1 happend
    exact hquiet (StoreKeeps.appendCommand _ _ _).setStore rfl rfl rfl rfl
  obtain ⟨-, hevent⟩ := ite_none_left_eq_some.1 hstep
  cases event with
  | beginElection | requestVote | countVotes | observeTerm =>
    have hc := canvasses_of_step hfits hstep trivial
    exact hquiet (fun n => (hc.store n).keeps) hc.appends hc.snapshots hc.acks hc.applied
  | appendCommand n command => exact happend hevent
  | propose n command =>
    obtain ⟨-, hevent⟩ := ite_none_right_eq_some.1 hevent
    exact happend hevent
  | sendAppend n next limit => exact ⟨a, h.sendAppend hsim hevent⟩
  | appendEntries n message => exact h.appendEntries hsim htail hevent
  | sendSnapshot n => exact ⟨a, h.sendSnapshot hsim hevent⟩
  | installSnapshot n message => exact h.installSnapshot hsim (fixedRules_lawful V) hevent
  | commit n index nodes =>
    obtain ⟨hlead, ⟨⟩⟩ := ite_none_right_eq_some.1 hevent
    exact h.commit hsim (by simpa [Group.leads] using hlead.1) hlead.2.2
      (fun hq _ => ⟨nodes, (hfix.store n).1.voterMajority hq, fun v _ hv => hv⟩) rfl
  | compact n => exact h.compact hsim hevent
  | restart n => exact h.restart hsim hevent
  | changeVoters | beginJoint | commitJoint | finalizeJoint | commitFinal => exact hkeep.elim

end

lemma Group.Reachable.commitInv {voters : List GoString} (h : Group.Reachable epoch voters
      (fun g event => event.keepsMembership ∧ event.termFits g ∧ event.tailAgrees g) g) :
    FixedGroup (foundingVoters voters) g ∧ ∃ a, Sim (fixedRules (foundingVoters voters)) g a ∧
        CommitInv (fixedRules (foundingVoters voters)) g a := by
  induction h with
  | init => exact ⟨FixedGroup.init epoch voters, _, Sim.init _ rfl epoch voters, CommitInv.init ..⟩
  | step _ hallow hstep ih =>
    obtain ⟨hfix, a, hsim, hcommit⟩ := ih
    obtain ⟨hkeep, hfits, htail⟩ := hallow
    exact ⟨hfix.step hkeep hfits hstep, hcommit.step hsim hfix hkeep hfits htail hstep⟩

/-- **State-machine safety.**  As long as every append request that is delivered finds the
receiver's tail in agreement with the leader's log, nodes that applied a command at the
same index applied the same command. -/
theorem applied_agree {epoch : ℕ} {voters : List GoString} {g : Group}
    (h : Group.Reachable epoch voters
      (fun g event => event.keepsMembership ∧ event.termFits g ∧ event.tailAgrees g) g)
    {x y : AppliedCommand} (hx : x ∈ g.applied) (hy : y ∈ g.applied) (hindex : x.index = y.index) :
    x.command = y.command := by
  obtain ⟨-, a, hsim, hcommit⟩ := h.commitInv
  obtain ⟨t, p, e, hp, -, he, hxe⟩ := hcommit.sent.applied x hx
  obtain ⟨t', p', e', hp', -, he', hye⟩ := hcommit.sent.applied y hy
  rw [hindex] at he
  have := hp.getElem?_eq hp' hsim.inv.history (fixedRules_lawful _) he he'
  rw [← hxe, ← hye, this]

def followedEvents : List Event :=
  let n₁ := sampleNode 1
  let n₂ := sampleNode 2
  [.beginElection n₁, .requestVote n₂ 0, .countVotes n₁ [n₁, n₂],
    .appendCommand n₁ (sampleAdvance 2 4), .appendCommand n₁ (sampleAdvance 3 5),
    .sendAppend n₁ 1 2, .appendEntries n₂ 0, .commit n₁ 2 [n₁, n₂], .sendAppend n₁ 1 1,
    .appendEntries n₂ 1]

theorem applied_agree_followed :
    ∃ g, Group.Reachable 1 [sampleNode 1, sampleNode 2, sampleNode 3]
        (fun g event => event.keepsMembership ∧ event.termFits g ∧ event.tailAgrees g) g ∧
      ∃ x ∈ g.applied, ∃ y ∈ g.applied, x.node ≠ y.node ∧ x.index = y.index ∧
        x.command = y.command := by
  obtain ⟨g, hg, happlied⟩ := Option.map_eq_some_iff.1 (show ((Group.init 1 [sampleNode 1,
    sampleNode 2, sampleNode 3]).run
      (fun g event => event.keepsMembership ∧ event.termFits g ∧ event.tailAgrees g) 1
      followedEvents).map Group.applied = some
        [⟨sampleNode 1, 1, sampleAdvance 2 4⟩, ⟨sampleNode 1, 2, sampleAdvance 3 5⟩,
          ⟨sampleNode 2, 1, sampleAdvance 2 4⟩, ⟨sampleNode 2, 2, sampleAdvance 3 5⟩] by
    decide +kernel)
  have hreach := Group.Reachable.init.run hg
  have hx : ⟨sampleNode 1, 2, sampleAdvance 3 5⟩ ∈ g.applied := by simp [happlied]
  have hy : ⟨sampleNode 2, 2, sampleAdvance 3 5⟩ ∈ g.applied := by simp [happlied]
  exact ⟨g, hreach, _, hx, _, hy, by decide +kernel, rfl, applied_agree hreach hx hy rfl⟩

/-- **Leader completeness.**  A leader has every entry that a node of no later term has
committed. -/
theorem leader_has_committed {voters : List GoString}
    (h : Group.Reachable epoch voters
      (fun g event => event.keepsMembership ∧ event.termFits g ∧ event.tailAgrees g) g)
    {m : GoString} (hlead : g.leads n)
    (hterm : (g.state m).currentTerm ≤ (g.state n).currentTerm) :
    (g.state m).commitIndex ≤ (g.state n).lastLogLocked.1 ∧
      ∀ i ≤ (g.state m).commitIndex, ∀ e e', (g.state m).entryAt i = some e →
        (g.state n).entryAt i = some e' → e = e' := by
  obtain ⟨-, a, hsim, hcommit⟩ := h.commitInv
  have hholds : Holds (a.memory m) (g.state m) := hsim.memory m
  have hleader : Holds (a.memory n) (g.state n) := hsim.memory n
  have hlen := hholds.commit_le
  obtain ⟨r, hr, -, hmem⟩ := hsim.leader_memory (by simpa [Group.leads] using hlead) rfl
  have hpre : (a.memory m).log.take (g.state m).commitIndex <+: (a.memory n).log := by
    rcases hcommit.memory m with hnil | ⟨u, hu, i, hc, hpre⟩
    · exact hnil ▸ nil_prefix
    · -- the segment was committed in the leader's term or before
      rw [← hholds.term] at hu
      have hfull := hsim.inv.history.committed_full (fixedRules_lawful _) (hu.trans hterm) hc
        (by simp [hr])
      rw [full_of_reign hr] at hfull
      exact hmem ▸ hpre.trans hfull
  constructor
  · have hle := hpre.length_le
    rwa [length_take, min_eq_left hlen, ← hleader.lastIndex] at hle
  · intro i hi e e' he he'
    obtain ⟨hpos, he⟩ := hholds.entryAt he
    obtain ⟨-, he'⟩ := hleader.entryAt he'
    rw [← getElem?_take_of_lt (show i - 1 < (g.state m).commitIndex by omega)] at he
    exact Option.some.inj ((getElem?_of_isPrefix hpre he).symm.trans he')

theorem leader_has_committed_followed :
    ∃ g, Group.Reachable 1 [sampleNode 1, sampleNode 2, sampleNode 3]
        (fun g event => event.keepsMembership ∧ event.termFits g ∧ event.tailAgrees g) g ∧
      g.leads (sampleNode 1) ∧ (g.state (sampleNode 2)).commitIndex = 2 ∧
      2 ≤ (g.state (sampleNode 1)).lastLogLocked.1 := by
  obtain ⟨g, hg, hstate⟩ := Option.map_eq_some_iff.1 (show ((Group.init 1 [sampleNode 1,
    sampleNode 2, sampleNode 3]).run
      (fun g event => event.keepsMembership ∧ event.termFits g ∧ event.tailAgrees g) 1
      followedEvents).map (fun g => (g.leads (sampleNode 1), (g.state (sampleNode 2)).commitIndex,
        decide ((g.state (sampleNode 2)).currentTerm ≤ (g.state (sampleNode 1)).currentTerm))) =
      some (true, 2, true) by decide +kernel)
  obtain ⟨hlead, hcommit, hterm⟩ : _ ∧ _ ∧ _ := by simpa using hstate
  have hreach := Group.Reachable.init.run hg
  exact ⟨g, hreach, hlead, hcommit, hcommit ▸ (leader_has_committed hreach hlead hterm).1⟩

/-- A run in which a follower with a stale entry learns, from a batch that stops short of
it, that the leader has committed further. -/
def staleTailEvents : List Event :=
  let n₁ := sampleNode 1
  let n₂ := sampleNode 2
  let n₃ := sampleNode 3
  [ -- node 1 leads term 1 and appends two entries, of which node 2 receives the first
    .beginElection n₁, .requestVote n₂ 0, .countVotes n₁ [n₁, n₂],
    .appendCommand n₁ (sampleAdvance 2 4), .appendCommand n₁ (sampleAdvance 3 5),
    .sendAppend n₁ 1 1, .appendEntries n₂ 0,
    -- node 2 leads term 2 and commits another second entry with node 3
    .beginElection n₂, .requestVote n₃ 1, .countVotes n₂ [n₂, n₃],
    .appendCommand n₂ (sampleAdvance 3 6), .sendAppend n₂ 1 2, .appendEntries n₃ 1,
    .commit n₂ 2 [n₂, n₃],
    -- node 1 receives a batch of one entry with commit index 2
    .sendAppend n₂ 1 1, .appendEntries n₁ 2]

/-- Without the condition on the tail, two nodes apply different commands at index 2. -/
theorem applied_disagree_staleTail :
    ∃ g, Group.Reachable 1 [sampleNode 1, sampleNode 2, sampleNode 3]
        (fun g event => event.keepsMembership ∧ event.termFits g) g ∧
      ∃ x ∈ g.applied, ∃ y ∈ g.applied, x.index = y.index ∧ x.command ≠ y.command := by
  obtain ⟨g, hg, happlied⟩ := Option.map_eq_some_iff.1 (show ((Group.init 1 [sampleNode 1,
    sampleNode 2, sampleNode 3]).run (fun g event => event.keepsMembership ∧ event.termFits g) 1
      staleTailEvents).map Group.applied = some
        [⟨sampleNode 2, 1, sampleAdvance 2 4⟩, ⟨sampleNode 2, 2, sampleAdvance 3 6⟩,
          ⟨sampleNode 1, 1, sampleAdvance 2 4⟩, ⟨sampleNode 1, 2, sampleAdvance 3 5⟩] by
    decide +kernel)
  refine ⟨g, Group.Reachable.init.run hg, ⟨sampleNode 2, 2, sampleAdvance 3 6⟩, ?_,
    ⟨sampleNode 1, 2, sampleAdvance 3 5⟩, ?_, rfl, by decide +kernel⟩
  · simp [happlied]
  · simp [happlied]

end GideonDB.Cluster
