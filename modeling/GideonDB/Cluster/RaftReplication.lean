/-
The simulation of `Cluster/RaftSimulation.lean`, continued: appending, sending and
taking over entries, snapshots, commits, compaction and restarts.

The lemmas about a single store (`appendStore`, `appendEntriesStore`, ...) say, beside the
simulation, how the store's log and commit index moved; what a group makes of it is
added where a property needs it.
-/
import GideonDB.Cluster.RaftSimulation

namespace GideonDB.Cluster

open Go Consensus Relation RaftPersistentState RaftStore Sys List
open Option (ite_none_left_eq_some ite_none_right_eq_some)

variable {n : GoString} {s s' : RaftPersistentState}

lemma VoteOK.congr {a : Sys GoString RaftEntry} (h : VoteOK a n s)
    (hterm : s'.currentTerm = s.currentTerm) (hvote : s'.votedFor = s.votedFor) : VoteOK a n s' :=
  ⟨by rw [hterm, hvote]; exact h.held, by rw [hterm, hvote]; exact h.given⟩

variable {ℓ : List RaftEntry} {leader : GoString} {t : ℕ}
  {call : Except RaftError AppendEntriesResponse × RaftStore}

namespace Sim

variable {P : Rules GoString RaftEntry} {g g' : Group} {a : Sys GoString RaftEntry}

/-- Two logs of the group, or of a leader, agree up to an index where they have the same
term. -/
lemma take_eq (h : Sim P g a) {ℓ' : List RaftEntry} (hℓ : a.Traced P ℓ) (hℓ' : a.Traced P ℓ')
    {i : ℕ} (hi : i ≤ ℓ.length) (hi' : i ≤ ℓ'.length)
    (hterm : termAt RaftEntry.term ℓ i = termAt RaftEntry.term ℓ' i) : ℓ.take i = ℓ'.take i :=
  hℓ.take_eq hℓ' hi hi' (by rw [h.rules]; exact hterm)

lemma traced_of_leader (h : Sim P g a) (hℓ : LeaderLog a leader t ℓ) : a.Traced P ℓ := by
  rw [prefix_iff_eq_take.1 hℓ.2]
  exact (h.inv.history.full_traced t).take _

lemma leader_ne (hℓ : LeaderLog a leader t ℓ) : a.reign t ≠ none := by
  obtain ⟨⟨r, hr, -⟩, -⟩ := hℓ
  simp [hr]

lemma valid_of_leader (h : Sim P g a)
    (hℓ : LeaderLog a leader t ℓ) : ∀ e ∈ ℓ, validateRaftEntry e = .ok () :=
  fun e he => h.valid t e (hℓ.2.subset he)

section

variable (h : Sim P g a) (hwin : (n, t) ∈ g.winners) (ht : (g.state n).currentTerm = t)

include h hwin ht

lemma leader_memory : ∃ r, a.reign t = some r ∧ r.owner = n ∧ a.memory n = ⟨t, r.full⟩ := by
  obtain ⟨r, hr, hown⟩ := h.winners _ hwin
  have hterm : (a.memory n).term = t := (h.memory n).term.symm.trans ht
  have hlog : (a.memory n).log = r.full :=
    (h.inv.memory n).owner_log (by rw [hterm]; exact hr) hown
  exact ⟨r, hr, hown, Cell.ext hterm hlog⟩

lemma leader_file : a.file n = a.memory n := by
  obtain ⟨r, hr, hown, hmem⟩ := h.leader_memory hwin ht
  have hterm : (a.file n).term = t := by
    refine le_antisymm ?_ ((h.inv.file n).cand_term (hown ▸ h.inv.history.reign_cand hr))
    have := h.inv.file_le n
    rwa [hmem] at this
  rw [hmem]
  exact Cell.ext hterm ((h.inv.file n).owner_log (by rw [hterm]; exact hr) hown)

end

/-! ### Leaders -/

/-- What a call of `AppendCommand` by the leader of term `t` does. -/
inductive AppendOutcome (g : Group) (a : Sys GoString RaftEntry) (n : GoString) (t : ℕ)
    (command : MetadataCommand) : Sys GoString RaftEntry → Except RaftError ℕ × RaftStore → Prop
  /-- The command is refused. -/
  | refused {err : RaftError} : AppendOutcome g a n t command a (.error err, g.store n)
  /-- The log ends with the uncommitted entry already. -/
  | repeated (hterm : t = (g.state n).currentTerm)
      (hlast : (a.memory n).log.getLast? = some ⟨t, command⟩)
      (hcommit : (g.state n).commitIndex < (a.memory n).log.length) :
      AppendOutcome g a n t command a (.ok (a.memory n).log.length, g.store n)
  /-- The entry is appended. -/
  | appended {ρ : Reign GoString RaftEntry} {s : RaftPersistentState}
      (hterm : t = (g.state n).currentTerm) (hvalid : ValidEntry ⟨t, command⟩)
      (hfresh : ¬ ((g.state n).commitIndex < (a.memory n).log.length ∧
        (a.memory n).log.getLast? = some ⟨t, command⟩))
      (hreign : a.reign t = some ρ) (howner : ρ.owner = n) (hmemory : a.memory n = ⟨t, ρ.full⟩)
      (hstate : s = { g.state n with entries := (g.state n).entries ++ [⟨t, command⟩] }) :
      AppendOutcome g a n t command (a.append t ρ ⟨t, command⟩)
        (.ok ((a.memory n).log.length + 1), ⟨n, s, s⟩)

/-- What an append request does to the log and the commit index of a node: `s` is the
state before, `s'` the state after, `ℓ` the leader's log. -/
inductive Appended (a a' : Sys GoString RaftEntry) (n : GoString) (m : AppendMessage)
    (ℓ : List RaftEntry) (s s' : RaftPersistentState) :
    Except RaftError AppendEntriesResponse → Prop
  /-- The log and everything applied stay as they are. -/
  | kept {x : Except RaftError AppendEntriesResponse} (hx : ∀ y, x = .ok y → y.success = false)
      (hlog : (a'.memory n).log = (a.memory n).log) (hstate : s' = s ∨ s' = s.withTerm m.request.term) :
      Appended a a' n m ℓ s s' x
  /-- The batch is in the log but the leader's commit index cannot be applied. -/
  | stuck {err : RaftError} (hle : s.currentTerm ≤ m.request.term)
      (hlog : a'.memory n = ⟨m.request.term, conform (a.memory n).log
        (ℓ.take (m.request.prevLogIndex + m.request.entries.length))⟩)
      (hkeep : (a.memory n).log.take s.commitIndex <+: (a'.memory n).log)
      (hlt : s.commitIndex < m.request.leaderCommit)
      (hstate : s' = { s.withTerm m.request.term with entries := s'.entries })
      (herr : s'.applyThroughLocked (min m.request.leaderCommit s'.lastLogLocked.1) = .error err) :
      Appended a a' n m ℓ s s' (.error err)
  /-- The batch is in the log and the commit index follows the leader's. -/
  | success {s₁ : RaftPersistentState} (hle : s.currentTerm ≤ m.request.term)
      (hprev : matchesPrevious (s.withTerm m.request.term) m.request = true)
      (hlog : a'.memory n = ⟨m.request.term, conform (a.memory n).log
        (ℓ.take (m.request.prevLogIndex + m.request.entries.length))⟩)
      (hkeep : (a.memory n).log.take s.commitIndex <+: (a'.memory n).log)
      (hstate : s₁ = { s.withTerm m.request.term with entries := s₁.entries })
      (hholds : Holds (a'.memory n) s₁)
      (hcommit : RaftStore.Committing s₁ s' m.request.leaderCommit)
      (hfile : a'.file n = a'.memory n) :
      Appended a a' n m ℓ s s' (.ok ⟨m.request.term, true,
        m.request.prevLogIndex + m.request.entries.length⟩)

/-- The file of a node either stays as it is or becomes what the node has in memory. -/
def FileFollows (a a' : Sys GoString RaftEntry) (n : GoString) (r r' : RaftStore) : Prop :=
  a'.file n = a.file n ∧ r'.file = r.file ∨ a'.file n = a'.memory n ∧ r'.file = r'.state

lemma setCells_self (a : Sys GoString RaftEntry) (n : GoString) :
    a.setCells n (a.memory n) (a.file n) = a := by
  simp [Sys.setCells]

/-- The protocol follows a node whose store becomes `r`. -/
def Turns (P : Rules GoString RaftEntry) (g : Group) (a : Sys GoString RaftEntry) (n : GoString)
    (c d : Cell RaftEntry) (r : RaftStore) : Prop :=
  ReflTransGen (Sys.Step P) a (a.setCells n c d) ∧ Sim P (g.setStore n r) (a.setCells n c d) ∧
    FileFollows a (a.setCells n c d) n (g.store n) r

/-- What a snapshot request does to the log and the commit index of a node. -/
inductive Installed (a a' : Sys GoString RaftEntry) (n : GoString) (q : InstallSnapshotRequest)
    (ℓ : List RaftEntry) (s s' : RaftPersistentState) :
    Except RaftError AppendEntriesResponse → Prop
  /-- The request is refused. -/
  | kept {x : Except RaftError AppendEntriesResponse} (hx : ∀ y, x = .ok y → y.success = false)
      (hmem : a'.memory n = a.memory n) (hstate : s' = s) : Installed a a' n q ℓ s s' x
  /-- The commit index covers the snapshot. -/
  | covered (hle : s.currentTerm ≤ q.term) (hmem : a'.memory n = ⟨q.term, (a.memory n).log⟩)
      (hfile : a'.file n = a'.memory n) (hindex : q.snapshot.lastIncludedIndex ≤ s.commitIndex)
      (hstate : s' = s.withTerm q.term) :
      Installed a a' n q ℓ s s' (.ok ⟨q.term, true, s.commitIndex⟩)
  /-- The snapshot is installed. -/
  | installed (hle : s.currentTerm ≤ q.term)
      (hmem : a'.memory n = ⟨q.term, conform (a.memory n).log
        (ℓ.take q.snapshot.lastIncludedIndex)⟩)
      (hfile : a'.file n = a'.memory n) (hindex : s.commitIndex < q.snapshot.lastIncludedIndex)
      (hvalid : validSnapshot n q.snapshot = true)
      (hvoters : s.voters = [] ∨ s.voters = q.snapshot.voters)
      (hstate : s' = installed (s.withTerm q.term) q.snapshot) :
      Installed a a' n q ℓ s s' (.ok ⟨q.term, true, q.snapshot.lastIncludedIndex⟩)

section

variable (h : Sim P g a)

include h

/-- A leader appends a command: the protocol appends the entry, unless the store refuses
the command or already has it at its end. -/
lemma appendStore {command : MetadataCommand} (hwin : (n, t) ∈ g.winners) (hcfg : t = (g.state
    n).currentTerm → ValidEntry ⟨t, command⟩ → P.reconf ⟨t, command⟩ → a.Committed P t (a.full
    t).length ∧ P.Adjacent (a.full t) ⟨t, command⟩) {call : Except RaftError ℕ × RaftStore}
    (hcall : (g.store n).appendCommand t command true = call) :
    ∃ a', ReflTransGen (Sys.Step P) a a' ∧ Sim P (g.setStore n call.2) a' ∧
      AppendOutcome g a n t command a' call := by
  have hmemory : Holds (a.memory n) (g.state n) := h.memory n
  -- beyond the commit index, the last entry of the log is retained
  have hgetLast : (g.state n).commitIndex < (a.memory n).log.length →
      (g.state n).entries.getLast? = (a.memory n).log.getLast? := by
    intro hlt
    have := hmemory.snapshot_commit
    rw [hmemory.entries, getLast?_drop, if_neg (by omega)]
  rcases (g.store n).appendCommand_cases t command true with ⟨err, hcase⟩ |
    ⟨-, hterm, -, hvalid, ⟨hlt, hlast, hcase⟩ | ⟨hfresh, s, hs, hcase⟩⟩
  · rw [hcase] at hcall
    subst hcall
    exact ⟨a, .refl, by rwa [setStore_self], .refused⟩
  · rw [hcase, show (g.store n).state = g.state n from rfl, hmemory.lastIndex] at hcall
    subst hcall
    change (g.state n).lastLogLocked.1 > (g.state n).commitIndex at hlt
    rw [hmemory.lastIndex] at hlt
    exact ⟨a, .refl, by rwa [setStore_self], .repeated hterm ((hgetLast hlt).symm.trans hlast) hlt⟩
  · obtain ⟨r, hr, hown, hmem⟩ := h.leader_memory hwin hterm.symm
    have hfull : a.full t = r.full := full_of_reign hr
    have hstep : Sys.Step P a (a.append t r ⟨t, command⟩) := by
      refine .append hr (by rw [hown, hmem]) (by rw [h.rules]) ?_
      rw [← hfull]
      exact hcfg hterm hvalid
    have hrun := ReflTransGen.single hstep
    have hext : Sys.Extends a (a.append t r ⟨t, command⟩) := Sys.Extends.append hr
    have hholds : Holds ⟨t, r.full ++ [⟨t, command⟩]⟩ s := by
      have := (h.memory n).append ⟨t, command⟩
      rw [hmem] at this
      rwa [hs]
    have hvote : VoteOK (a.append t r ⟨t, command⟩) n s := by
      rw [hs]
      exact ((h.vote_memory n).mono hext (fun w hw _ => hw)).congr rfl rfl
    have hindex : s.lastLogLocked.1 = (a.memory n).log.length + 1 := by
      rw [hholds.lastIndex, hmem, length_append, length_singleton]
    rw [hcase, persisted_true, hindex, h.nodeID] at hcall
    subst hcall
    have hfresh' : ¬ ((g.state n).commitIndex < (a.memory n).log.length ∧
        (a.memory n).log.getLast? = some ⟨t, command⟩) := by
      rintro ⟨hlt, hlast⟩
      refine hfresh ⟨?_, (hgetLast hlt).trans hlast⟩
      change (g.state n).lastLogLocked.1 > (g.state n).commitIndex
      rwa [hmemory.lastIndex]
    refine ⟨_, hrun, ?_, .appended hterm hvalid hfresh' hr hown hmem hs⟩
    refine h.update (r := ⟨n, s, s⟩) hrun rfl (fun m hm => ?_) (fun m hm => ?_)
      (fun w hw => .inl hw) ?_ ?_ hvote hvote ?_
    · rw [← hown] at hm
      simp [append, hm]
    · rw [← hown] at hm
      simp [append, hm]
    · simpa [append, hown] using hholds
    · simpa [append, hown] using hholds
    · intro u e he
      by_cases hu : u = t
      · subst hu
        rw [full_of_reign (r := ⟨r.owner, r.base, r.own ++ [⟨u, command⟩]⟩)
          (by simp [append]), ← append_assoc] at he
        rcases mem_append.1 he with he | he
        · exact h.valid u e (hfull ▸ he)
        · rw [mem_singleton.1 he]
          exact hvalid
      · refine h.valid u e ?_
        simpa [Sys.full, append, hu] using he

lemma sendAppend {next limit : ℕ} (hstep : g.sendAppend n next limit = some g') :
    ∃ m ℓ, AppendOK a m ℓ ∧ m.sender = g.state n ∧ ℓ = (a.memory n).log ∧ m.request.leaderID = n ∧
      g.leads n ∧ g' = { g with appends := g.appends ++ [m] } := by
  obtain ⟨hlead, hstep⟩ := ite_none_right_eq_some.1 hstep
  split at hstep
  · simp at hstep
  rename_i b hb
  rw [Option.some.injEq] at hstep
  obtain ⟨hterm, hcommit, hsnap, hlen, hprev, hents⟩ := (h.memory n).logBatch hb
  obtain ⟨r, hr, hown, hmem⟩ := h.leader_memory (t := (g.state n).currentTerm)
    (by simpa [Group.leads] using hlead) rfl
  have hbt : b.term = (g.state n).currentTerm := hterm.trans (h.memory n).term.symm
  refine ⟨_, _, ⟨?_, ?_, hsnap, hlen, hents, hprev, hcommit⟩, rfl, rfl, rfl, hlead, hstep.symm⟩
  · refine ⟨⟨r, by rw [hbt]; exact hr, hown⟩, ?_⟩
    simp only [hbt]
    rw [hmem, full_of_reign hr]
    exact prefix_rfl
  · have hcell : (⟨b.term, (a.memory n).log⟩ : Cell RaftEntry) = a.memory n :=
      Cell.ext hterm rfl
    simp only [hcell]
    exact h.memory n

lemma sendSnapshot (hstep : g.sendSnapshot n = some g') :
    ∃ q ℓ, SnapshotOK a q ℓ ∧ q = ⟨(g.state n).currentTerm, n, (g.state n).snapshotLocked⟩ ∧
      ℓ = (a.memory n).log ∧ g.leads n ∧ g' = { g with snapshots := g.snapshots ++ [q] } := by
  obtain ⟨hlead, hstep⟩ := ite_none_right_eq_some.1 hstep
  split at hstep
  · simp at hstep
  rename_i q hq
  obtain ⟨-, ⟨⟩⟩ := ite_none_left_eq_some.1 hq
  rw [Option.some.injEq] at hstep
  have hmemory := h.memory n
  obtain ⟨r, hr, hown, hmem⟩ := h.leader_memory (t := (g.state n).currentTerm)
    (by simpa [Group.leads] using hlead) rfl
  refine ⟨_, (a.memory n).log, ⟨⟨⟨r, hr, hown⟩, ?_⟩, hmemory.snapshot_le, hmemory.snapshotTerm⟩, rfl,
    rfl, hlead, hstep.symm⟩
  rw [hmem, full_of_reign hr]
  exact prefix_rfl

/-! ### Followers -/

lemma turns_kept : Turns P g a n (a.memory n) (a.file n) (g.store n) := by
  rw [Turns, setCells_self, setStore_self]
  exact ⟨.refl, h, .inl ⟨rfl, rfl⟩⟩

section

variable {c d : Cell RaftEntry} (hholds : Holds c s) (hvote : VoteOK a n s)

include hholds hvote

lemma turns_memory (hrun : ReflTransGen (Sys.Step P) a (a.setCells n c (a.file n))) :
    Turns P g a n c (a.file n) { g.store n with state := s } :=
  ⟨hrun, h.setCells hrun (h.nodeID n) hholds (h.file n) hvote (h.vote_file n),
    .inl ⟨setCells_file_self, rfl⟩⟩

lemma turns_written (hrun : ReflTransGen (Sys.Step P) a (a.setCells n c d)) :
    Turns P g a n c c { g.store n with state := s, file := s } := by
  have hrun := run_then_persist hrun
  refine ⟨hrun, h.setCells hrun (h.nodeID n) hholds hholds hvote hvote, .inr ⟨?_, rfl⟩⟩
  rw [setCells_memory_self, setCells_file_self]

end

lemma appendEntriesStore {m : AppendMessage} (hm : AppendOK a m ℓ)
    (hcall : (g.store n).appendEntries m.request true = call) :
    ∃ c d, Turns P g a n c d call.2 ∧
      Appended a (a.setCells n c d) n m ℓ (g.state n) call.2.state call.1 := by
  rcases (g.store n).appendEntries_cases m.request true with ⟨x, hx, hcase⟩ | ⟨hle, s, hs, hrest⟩
  · -- refused as it stands
    rw [hcase] at hcall
    subst hcall
    exact ⟨_, _, h.turns_kept, .kept hx (by rw [setCells_memory_self]) (.inl rfl)⟩
  have hle' := (h.memory n).term.ge.trans hle
  have hwith := (h.memory n).withTerm hle'
  have hvote := h.vote_withTerm n m.request.term
  have hobserve := run_observe (P := P) hle'
  rw [← hs] at hwith
  have hvs : VoteOK a n s := hs ▸ hvote
  rcases hrest with hcase | ⟨hmatch, y, log, hloop, hrest⟩
  · -- the log does not reach the batch
    rw [hcase, persisted_true] at hcall
    subst hcall
    refine ⟨_, _, h.turns_written hwith hvs hobserve, ?_⟩
    exact .kept (by simp) (by rw [setCells_memory_self]) (.inr hs)
  obtain ⟨hsnap, hprevle, hprevterm⟩ := matchesPrevious_iff.1 hmatch
  obtain ⟨-, hprevlog, hprevterm⟩ := hwith.termAtLocked_eq_ok.1 hprevterm
  have htraced := (h.inv.memory n).traced
  have htraced' := h.traced_of_leader hm.leader
  have hlen := hm.length_le
  -- the log and the leader's agree up to the batch
  have hprev : ℓ.take m.request.prevLogIndex <+: (a.memory n).log := by
    rw [← h.take_eq htraced htraced' hprevlog (by omega) (hprevterm.trans hm.prevTerm)]
    exact take_prefix _ _
  have hagree : ∀ (i : ℕ) (x e : RaftEntry), (a.memory n).log[i]? = some x → ℓ[i]? = some e →
      x.term = e.term → x = e := by
    intro i x e hx he hxe
    have htake := htraced.agree htraced' hx he (by rw [h.rules]; exact hxe)
    rw [← getElem?_take_of_lt i.lt_succ_self, htake, getElem?_take_of_lt i.lt_succ_self, he] at hx
    exact (Option.some.inj hx).symm
  rw [hm.entries] at hloop
  have hfull : (a.full m.request.term).take (m.request.prevLogIndex + m.request.entries.length) =
      ℓ.take (m.request.prevLogIndex + m.request.entries.length) :=
    (take_eq_take_of_isPrefix hm.leader.2 hlen).symm
  have hadopt := run_adopt (P := P) (n := n) (t := m.request.term)
    (k := m.request.prevLogIndex + m.request.entries.length) (leader_ne hm.leader) hle'
    (hlen.trans hm.leader.2.length_le)
  rw [hfull] at hadopt
  rcases hwith.appendLoop (h.valid_of_leader hm.leader) hagree hsnap hprev hlen hloop with
    ⟨rfl, hholds, hkeep⟩ | ⟨⟨err, rfl⟩, rfl, -⟩
  · have hvs' : VoteOK a n { s with entries := log } := hvs.congr rfl rfl
    have hcommit : s.commitIndex = (g.state n).commitIndex := by
      rw [hs, withTerm_eq]
      rfl
    rw [hcommit] at hkeep
    rcases hrest with ⟨err, herr, -⟩ | ⟨-, err, hlt, herr, hcase⟩ | ⟨-, s', hs', hcase⟩
    · simp at herr
    · rw [hcase] at hcall
      subst hcall
      exact ⟨_, _, h.turns_memory hholds hvs' hadopt, .stuck hle setCells_memory_self
        (by rwa [setCells_memory_self]) (hcommit ▸ hlt) (by rw [hs]; rfl) herr⟩
    · rw [hcase, persisted_true] at hcall
      subst hcall
      have hholds' : Holds ⟨m.request.term, conform (a.memory n).log
          (ℓ.take (m.request.prevLogIndex + m.request.entries.length))⟩ s' := by
        rcases hs' with ⟨-, rfl⟩ | ⟨-, hs'⟩
        · exact hholds
        · refine hholds.applyThrough ?_ hs'
          rw [hholds.lastIndex]
          exact Nat.min_le_right _ _
      have hvs'' : VoteOK a n s' := by
        rcases hs' with ⟨-, rfl⟩ | ⟨-, hs'⟩
        · exact hvs'
        · obtain ⟨b, -, rfl⟩ := applyThroughLocked_ok hs'
          exact hvs'.congr rfl rfl
      refine ⟨_, _, h.turns_written hholds' hvs'' hadopt, ?_⟩
      exact @Appended.success _ _ _ _ _ _ _ { s with entries := log } hle (hs ▸ hmatch)
        setCells_memory_self (by rwa [setCells_memory_self]) (by rw [hs]; rfl)
        (by rwa [setCells_memory_self]) hs' (by rw [setCells_memory_self, setCells_file_self])
  · -- the batch disagrees with a committed entry
    rcases hrest with ⟨err', herr, hcase⟩ | ⟨herr, -⟩ | ⟨herr, -⟩
    · rw [hcase] at hcall
      subst hcall
      refine ⟨_, _, h.turns_memory hwith hvs hobserve, ?_⟩
      exact .kept (by simp) (by rw [setCells_memory_self]) (.inr hs)
    · simp at herr
    · simp at herr

lemma installSnapshotStore {q : InstallSnapshotRequest} (hq : SnapshotOK a q ℓ)
    (hcall : (g.store n).installSnapshot q true = call) :
    ∃ c d, Turns P g a n c d call.2 ∧
      Installed a (a.setCells n c d) n q ℓ (g.state n) call.2.state call.1 := by
  rcases (g.store n).installSnapshot_cases q true with ⟨x, hx, hcase⟩ |
    ⟨hle, hvalid, hvoters, s, hs, hrest⟩
  · rw [hcase] at hcall
    subst hcall
    exact ⟨_, _, h.turns_kept, .kept hx setCells_memory_self rfl⟩
  have hle' := (h.memory n).term.ge.trans hle
  have hwith := (h.memory n).withTerm hle'
  have hvs : VoteOK a n s := hs ▸ h.vote_withTerm n q.term
  have hcommit : s.commitIndex = (g.state n).commitIndex := by
    rw [hs, withTerm_eq]
    rfl
  rw [← hs] at hwith
  rcases hrest with ⟨hindex, hcase⟩ | ⟨hindex, hcase⟩
  · rw [hcase, persisted_true, hcommit] at hcall
    subst hcall
    refine ⟨_, _, h.turns_written hwith hvs (run_observe hle'), ?_⟩
    exact .covered hle setCells_memory_self
      (by rw [setCells_memory_self, setCells_file_self]) (hcommit ▸ hindex) hs
  · rw [hcase, persisted_true] at hcall
    subst hcall
    have hfull : (a.full q.term).take q.snapshot.lastIncludedIndex =
        ℓ.take q.snapshot.lastIncludedIndex :=
      (take_eq_take_of_isPrefix hq.leader.2 hq.length_le).symm
    have hadopt := run_adopt (P := P) (n := n) (t := q.term)
      (k := q.snapshot.lastIncludedIndex) (leader_ne hq.leader) hle'
      (hq.length_le.trans hq.leader.2.length_le)
    rw [hfull] at hadopt
    have hholds := hwith.install ℓ
      (fun i hi hi' ht => h.take_eq (h.inv.memory n).traced (h.traced_of_leader hq.leader) hi hi' ht)
      hq.length_le hq.term hindex
    have hvs' : VoteOK a n (installed s q.snapshot) := hvs.congr rfl rfl
    refine ⟨_, _, h.turns_written hholds hvs' hadopt, ?_⟩
    exact .installed hle setCells_memory_self
      (by rw [setCells_memory_self, setCells_file_self]) (hcommit ▸ hindex)
      (h.nodeID n ▸ hvalid) hvoters (by rw [hs]; rfl)

/-! ### Commits, compaction and restarts -/

/-- A commit either fails and changes nothing, or applies the log up to the index under
the quorum it was given. -/
lemma commitStore {index : ℕ} {nodes : List GoString} {call : Except RaftError Unit × RaftStore}
    (hcall : (g.store n).commitWithVoterAcks index t nodes true = call) :
    (call.2 = g.store n ∧ ∃ err, call.1 = .error err) ∨
    (call.1 = .ok () ∧ (g.state n).hasVoterQuorum nodes ∧ t = (g.state n).currentTerm ∧
      index ≤ (a.memory n).log.length ∧ 0 < index ∧
      termAt RaftEntry.term (a.memory n).log index = t ∧
      ∃ s, (g.state n).applyThroughLocked index = .ok s ∧ call.2 = ⟨n, s, s⟩ ∧
        ReflTransGen (Sys.Step P) a (a.setCells n (a.memory n) (a.memory n)) ∧
        Sim P (g.setStore n ⟨n, s, s⟩) (a.setCells n (a.memory n) (a.memory n))) := by
  rcases (g.store n).commitWithVoterAcks_cases index t nodes true with ⟨err, hcase⟩ |
    ⟨hquor, hterm, hsnap, hentry, s, hs, hcase⟩
  · rw [hcase] at hcall
    subst hcall
    exact .inl ⟨rfl, err, rfl⟩
  · rw [hcase, persistLocked_true, h.nodeID] at hcall
    subst hcall
    obtain ⟨-, hle, htermAt⟩ := (h.memory n).termAtLocked_eq_ok.1 hentry
    have hrun := run_persist (P := P) (s := a) n
    have hholds := (h.memory n).applyThrough hle hs
    have hvote : VoteOK a n s := by
      obtain ⟨b, -, rfl⟩ := applyThroughLocked_ok hs
      exact (h.vote_memory n).congr rfl rfl
    exact .inr ⟨rfl, hquor, hterm, hle, by omega, htermAt, s, hs, rfl, hrun,
      h.setCells hrun rfl hholds hholds hvote hvote⟩

lemma compactStore (n : GoString) :
    ((g.store n).compactCommitted true).2 = g.store n ∨
    (g.state n).jointOldVoters = [] ∧ ∃ term, (g.state n).termAtLocked (g.state n).commitIndex = .ok term ∧
      ∃ s, s = { g.state n with
          entries := (g.state n).entries.drop ((g.state n).commitIndex - (g.state n).snapshotIndex)
          snapshotIndex := (g.state n).commitIndex
          snapshotTerm := term
          snapshotEpoch := (g.state n).appliedEpoch
          snapshotView := (g.state n).committedView } ∧
        ((g.store n).compactCommitted true).2 = ⟨n, s, s⟩ ∧
        ReflTransGen (Sys.Step P) a (a.setCells n (a.memory n) (a.memory n)) ∧
        Sim P (g.setStore n ⟨n, s, s⟩) (a.setCells n (a.memory n) (a.memory n)) := by
  rcases (g.store n).compactCommitted_cases true with ⟨x, hcase⟩ | ⟨hjoint, -, term, hterm, hcase⟩
  · exact .inl (by rw [hcase])
  · have hrun := run_persist (P := P) (s := a) n
    refine .inr ⟨hjoint, term, hterm, _, rfl, ?_, hrun, ?_⟩
    · rw [hcase, persistLocked_true]
      simp only [h.nodeID]
      rfl
    · have hholds := (h.memory n).compact hterm (g.state n).appliedEpoch
        (g.state n).committedView
      exact h.setCells hrun rfl hholds hholds ((h.vote_memory n).congr rfl rfl)
        ((h.vote_memory n).congr rfl rfl)

lemma restart {epoch : ℕ} (hstep : g.restart epoch n = some g') :
    ∃ snapshotEpoch view s, s = { (g.store n).file with
        snapshotEpoch := snapshotEpoch
        committedView := view } ∧
      epoch ≠ 0 ∧ (g.store n).file.validateLocked epoch = .ok s ∧
      g' = (g.setStore n ⟨n, s, (g.store n).file⟩).setChange n none ∧
      ReflTransGen (Sys.Step P) a (a.setCells n (a.file n) (a.file n)) ∧
      Sim P g' (a.setCells n (a.file n) (a.file n)) := by
  rw [Group.restart, openRaftStore] at hstep
  split at hstep
  · simp at hstep
  rename_i r hopen
  split at hopen
  · simp at hopen
  rename_i hguard
  split at hopen
  · simp at hopen
  rename_i s hs
  obtain ⟨snapshotEpoch, view, heq⟩ := validateLocked_ok hs
  rw [Except.ok.injEq] at hopen
  rw [Option.some.injEq] at hstep
  subst hopen hstep
  have hfile := h.file n
  have hrun := run_restart (P := P) (s := a) n
  refine ⟨snapshotEpoch, view, s, heq, fun h0 => hguard (.inr h0), hs, rfl, hrun, ?_⟩
  have hholds : Holds (a.file n) s := by
    rw [heq]
    exact hfile.congr rfl rfl rfl rfl hfile.snapshot_commit hfile.commit_le
  have hvote : VoteOK a n s := by
    rw [heq]
    exact (h.vote_file n).congr rfl rfl
  exact (h.setCells (r := ⟨n, s, (g.store n).file⟩) hrun rfl hholds hfile hvote
    (h.vote_file n)).congr

/-! ### Logs are determined by what is retained of them -/

/-- The log of a state is continued by the log of another one that retains at least the
same entries behind the same snapshot. -/
lemma log_prefix {c c' : Cell RaftEntry} (hc : a.Traced P c.log) (hc' : a.Traced P c'.log)
    (hs : Holds c s) (hs' : Holds c' s') (hindex : s'.snapshotIndex = s.snapshotIndex)
    (hterm : s'.snapshotTerm = s.snapshotTerm) (hents : s.entries <+: s'.entries) :
    c.log <+: c'.log := by
  have htake : c.log.take s.snapshotIndex = c'.log.take s.snapshotIndex := by
    refine h.take_eq hc hc' hs.snapshot_le (hindex ▸ hs'.snapshot_le) ?_
    rw [← hs.snapshotTerm, ← hterm, hs'.snapshotTerm, hindex]
  rw [hs.entries, hs'.entries, hindex] at hents
  rw [← take_append_drop s.snapshotIndex c.log, ← take_append_drop s.snapshotIndex c'.log,
    htake]
  exact (prefix_append_right_inj _).2 hents

lemma acknowledge {m : ℕ} (hstep : Sys.Step P a (a.acknowledge n t m)) :
    Sim P g (a.acknowledge n t m) := by
  refine { h with
    inv := h.inv.step hstep
    vote_memory := fun n => { h.vote_memory n with }
    vote_file := fun n => { h.vote_file n with }
    appends := fun m hm => ?_
    snapshots := fun q hq => ?_ }
  · obtain ⟨ℓ, hℓ⟩ := h.appends m hm
    exact ⟨ℓ, hℓ.mono (h.inv.extends_step hstep)⟩
  · obtain ⟨ℓ, hℓ⟩ := h.snapshots q hq
    exact ⟨ℓ, hℓ.mono (h.inv.extends_step hstep)⟩

end

end Sim

end GideonDB.Cluster
