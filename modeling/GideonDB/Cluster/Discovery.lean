/-
The peers a node discovers.

`store` keeps the health of a seed's peer from answer to answer: a peer that was distrusted is
recovering after one good answer and healthy after two.  The answers of a poll are stored one at a
time as they arrive, and only when all are in does `reconcileDuplicateNodeIDs` distrust the seeds
that report the same node.

In the middle of a poll two such seeds can therefore both be shown healthy
(`peers_shows_duplicates`).  If polls do not overlap and the peers are read between them, neither
gets past recovering while both report the node (`duplicates_distrusted`).
-/
import GideonDB.Cluster.View
import GideonDB.Go.Format
import GideonDB.Go.Map

namespace GideonDB.Cluster.Discovery

open Go GoMap List

/-- The states of a peer; `zero` is the empty string of a seed without an entry. -/
inductive PeerState
  | zero | unknown | healthy | suspected | unhealthy | recovering
deriving DecidableEq, Inhabited

/-- The fields of a decoded response that are read. -/
structure Body where
  nodeID : GoString
  clusterID : GoString
  advertiseAddress : GoString
  metadataEpoch : ℕ
  replicationFactor : ℤ
  placementCapacity : ℕ
  membershipDigest : GoString
  catalogDigest : GoString
  placementDigest : GoString
  minProtocolVersion : ℕ
  protocolVersion : ℕ
deriving Inhabited

/-- The fields that a failed answer takes over from the previous one. -/
structure Identity extends Body where
  lastSeen : ℕ
  negotiatedProtocol : ℕ
deriving Inhabited

/-- A peer.  Times are counted from the zero time. -/
structure Peer extends Identity where
  seedURL : GoString
  healthy : Bool
  state : PeerState
  consecutiveFailures : ℕ
  consecutiveSuccesses : ℕ
  lastTransition : ℕ
  lastChecked : ℕ
  error : GoString
deriving Inhabited

/-- The peers by seed. -/
abbrev Peers := GoMap GoString Peer

/-- The entries that `NewDiscovery` makes for the normalized seeds. -/
def newPeers (now : ℕ) (seeds : List GoString) : Peers :=
  GoMap.empty.setAll (seeds.map fun seed =>
    (seed, { (default : Peer) with seedURL := seed, state := .unknown, lastTransition := now }))

/-- The health of a peer after an answer. -/
def assess (previous peer : Peer) : Peer :=
  if peer.healthy then
    let successes := min (previous.consecutiveSuccesses + 1) 2
    let peer := { peer with consecutiveFailures := 0, consecutiveSuccesses := successes }
    if (previous.state = .suspected ∨ previous.state = .unhealthy ∨ previous.state = .recovering) ∧
        successes < 2 then
      { peer with state := .recovering, healthy := false }
    else { peer with state := .healthy }
  else
    let failures := min (previous.consecutiveFailures + 1) 3
    { peer with
      toIdentity := previous.toIdentity
      consecutiveFailures := failures
      consecutiveSuccesses := 0
      state :=
        if previous.nodeID = [] then .unknown
        else if 3 ≤ failures then .unhealthy else .suspected }

/-- `store`. -/
def store (d : Peers) (peer : Peer) : Peers :=
  let previous := d.getD peer.seedURL default
  let next := assess previous peer
  d.set peer.seedURL { next with
    lastTransition :=
      if next.state ≠ previous.state then peer.lastChecked else previous.lastTransition }

/-- `storeTerminal`. -/
def storeTerminal (d : Peers) (peer : Peer) : Peers :=
  let previous := d.getD peer.seedURL default
  d.set peer.seedURL { peer with
    toIdentity := previous.toIdentity
    healthy := false
    state := .unhealthy
    consecutiveFailures := min (previous.consecutiveFailures + 1) 3
    consecutiveSuccesses := 0
    lastTransition :=
      if previous.state ≠ .unhealthy then peer.lastChecked else previous.lastTransition }

/-- What a request to a seed comes to. -/
inductive Reply
  | failed (error : GoString)
  | terminal (error : GoString)
  /-- The seed leads back to the node itself. -/
  | itself
  | node (identity : Identity)

def negotiateProtocol (localMin localMax remoteMin remoteMax : ℕ) : Except GoString ℕ :=
  if localMin = 0 ∨ remoteMin = 0 ∨ localMin > localMax ∨ remoteMin > remoteMax then
    .error (bytes "invalid cluster protocol range")
  else if max localMin remoteMin > min localMax remoteMax then
    .error (bytes "cluster protocol ranges do not overlap")
  else .ok (min localMax remoteMax)

/-- The checks of `pollOne` on a response of status 200 that was decoded.  Every other answer is
`failed`. -/
def Body.reply (localNodeID clusterID : GoString) (checked : ℕ) (body : Body) : Reply :=
  if validNodeID body.nodeID = false ∨ body.advertiseAddress = [] then
    .terminal (bytes "node response has invalid identity or missing advertised address")
  else if body.clusterID ≠ clusterID then .terminal (bytes "peer belongs to a different cluster")
  else if body.nodeID = localNodeID then .itself
  else
    let capacity := if body.placementCapacity = 0 then 1 else body.placementCapacity
    if capacity > 256 then .terminal (bytes "node response has invalid placement capacity")
    else
      let (least, version) :=
        if body.protocolVersion = 0 then (1, 1)
        else if body.minProtocolVersion = 0 then (body.protocolVersion, body.protocolVersion)
        else (body.minProtocolVersion, body.protocolVersion)
      match negotiateProtocol 1 2 least version with
      | .error err => .terminal (bytes "incompatible cluster protocol: " ++ err)
      | .ok negotiated => .node { body with
          placementCapacity := capacity
          minProtocolVersion := least
          protocolVersion := version
          lastSeen := checked
          negotiatedProtocol := negotiated }

/-- `pollOne`, by its reply. -/
def pollOne (d : Peers) (seed : GoString) (checked : ℕ) (reply : Reply) : Peers :=
  let peer : Peer := { (default : Peer) with seedURL := seed, lastChecked := checked }
  match reply with
  | .failed error => store d { peer with error }
  | .terminal error => storeTerminal d { peer with error }
  | .itself => d.delete seed
  | .node identity => store d { peer with toIdentity := identity, healthy := true }

/-- The seeds without an error that report each node. -/
def byID (d : Peers) : GoMap GoString (List GoString) :=
  d.toList.foldl (fun byID e =>
    if e.2.error = [] ∧ e.2.nodeID ≠ [] then
      byID.set e.2.nodeID (byID.getD e.2.nodeID [] ++ [e.1])
    else byID) .empty

/-- A peer whose id is shared. -/
def distrust (nodeID : GoString) (count : ℕ) (peer : Peer) : Peer :=
  { peer with
    healthy := false
    state := .unhealthy
    consecutiveFailures := 3
    consecutiveSuccesses := 0
    lastTransition :=
      if peer.lastTransition = 0 ∨ peer.state ≠ .unhealthy then peer.lastChecked
      else peer.lastTransition
    error := bytes "duplicate node ID " ++ nodeID ++ bytes " reported by " ++ formatUint count ++
      bytes " peer seeds" }

/-- All peers with a shared id. -/
def distrustAll (d : Peers) (nodeID : GoString) (seeds : List GoString) : Peers :=
  if seeds.length < 2 then d
  else (seeds.insertionSort StringLE).foldl (fun d seed =>
    d.set seed (distrust nodeID seeds.length (d.getD seed default))) d

/-- The order in which Go walks the maps does not matter: a seed reports one node. -/
def reconcileDuplicateNodeIDs (d : Peers) : Peers :=
  (byID d).toList.foldl (fun d e => distrustAll d e.1 e.2) d

/-- The answer of `Peers()`. -/
def list (d : Peers) : List Peer :=
  (d.toList.map Prod.snd).insertionSort fun p q => StringLE p.seedURL q.seedURL

/-- The steps under the lock. -/
inductive Event
  | pollOne (seed : GoString) (checked : ℕ) (reply : Reply)
  | reconcile
  | peers

/-- The peers and, for the proofs only, the seeds stored since they were last reconciled. -/
structure Watch where
  peers : Peers
  polled : List GoString

namespace Watch

/-- Nothing has been polled. -/
def start (now : ℕ) (seeds : List GoString) : Watch := ⟨newPeers now seeds, []⟩

/-- One event. -/
def step (w : Watch) : Event → Watch
  | .pollOne seed checked reply =>
    ⟨Discovery.pollOne w.peers seed checked reply, seed :: w.polled⟩
  | .reconcile => ⟨reconcileDuplicateNodeIDs w.peers, []⟩
  | .peers => w

/-- A sequence of events. -/
def run (w : Watch) (events : List Event) : Watch := events.foldl step w

end Watch

/-- No two peers of the list are trusted to be the same node. -/
def NoTwins (peers : List Peer) : Prop :=
  peers.Pairwise fun p q => p.nodeID = q.nodeID → p.nodeID ≠ [] → ¬(p.healthy ∧ q.healthy)
deriving Decidable

/-- The seed's last answer was good and named the node. -/
def Reports (d : Peers) (id seed : GoString) : Prop :=
  ∃ p, d.get seed = some p ∧ p.error = [] ∧ p.nodeID = id

/-- An answer of the seed names the node. -/
def Event.names (id a : GoString) : Event → Prop
  | .pollOne seed _ reply =>
    seed = a → ∃ identity : Identity, reply = .node identity ∧ identity.nodeID = id
  | _ => True

/-- `Peers()` never shows twins, and two seeds found to report the same node are not healthy
again while they go on reporting it. -/
structure Watch.Distrusts (w : Watch) (events : List Event) : Prop where
  shown : ∀ before, before ++ [.peers] <+: events → NoTwins (list (w.run before).peers)
  held : ∀ before after id a b, before ++ .reconcile :: after <+: events → id ≠ [] → a ≠ b →
    Reports (w.run before).peers id a → Reports (w.run before).peers id b →
    (∀ event ∈ after, event.names id a ∧ event.names id b) →
    ∀ p, (w.run (before ++ .reconcile :: after)).peers.get a = some p → p.healthy = false

/-- Polls do not overlap: a seed is stored once before all are reconciled, and the peers are
read when there is nothing to reconcile. -/
def Event.orderly (w : Watch) : Event → Prop
  | .pollOne seed _ _ => seed ∉ w.polled
  | .reconcile => ∀ seed ∈ w.peers.keys, seed ∈ w.polled
  | .peers => w.polled = []

instance (w : Watch) (event : Event) : Decidable (event.orderly w) := by
  induction event using Event.casesOn <;> dsimp only [Event.orderly] <;> infer_instance

/-- All events are orderly. -/
def Watch.Orderly : Watch → List Event → Prop
  | _, [] => True
  | w, event :: events => event.orderly w ∧ (w.step event).Orderly events

/-! ### Reconciliation -/

variable {d : Peers} {id a b seed : GoString} {p : Peer} {w : Watch} {event : Event}

/-- A peer that needs two good answers. -/
def Distrusted (d : Peers) (seed : GoString) : Prop :=
  ∃ p, d.get seed = some p ∧ p.healthy = false ∧ p.state = .unhealthy ∧ p.consecutiveSuccesses = 0

/-- The entry of the seed is as it was, or distrusted. -/
def Judged (seed : GoString) (d d' : Peers) : Prop := d'.get seed = d.get seed ∨ Distrusted d' seed

lemma Judged.trans {d₁ d₂ : Peers} (h₁ : Judged seed d d₁) (h₂ : Judged seed d₁ d₂) :
    Judged seed d d₂ := by
  rcases h₂ with h₂ | h₂
  · rwa [Judged, Distrusted, h₂]
  · exact .inr h₂

section Loops

variable {α : Type} {f : Peers → α → Peers} (hf : ∀ d x, Judged seed d (f d x)) (l : List α)

include hf

lemma judged_foldl (d : Peers) : Judged seed d (l.foldl f d) :=
  foldlRecOn (motive := Judged seed d) l f (.inl rfl) fun d' hd' x _ => hd'.trans (hf d' x)

lemma distrusted_foldl {x : α} (hx : x ∈ l) (hreach : ∀ d, Distrusted (f d x) seed) :
    Distrusted (l.foldl f d) seed := by
  obtain ⟨l₁, l₂, rfl⟩ := append_of_mem hx
  rw [foldl_append, foldl_cons]
  rcases judged_foldl hf l₂ (f (l₁.foldl f d) x) with hsame | hdown
  · rw [Distrusted, hsame]
    exact hreach _
  · exact hdown

end Loops

lemma judged_set (n : ℕ) (d : Peers) (s : GoString) :
    Judged seed d (d.set s (distrust id n (d.getD s default))) := by
  rw [Judged, Distrusted, get_set]
  split
  · exact .inr ⟨_, rfl, rfl, rfl, rfl⟩
  · exact .inl rfl

lemma judged_distrustAll (d : Peers) (e : GoString × List GoString) :
    Judged seed d (distrustAll d e.1 e.2) := by
  rw [distrustAll]
  split
  · exact .inl rfl
  · exact judged_foldl (judged_set _) _ d

lemma Reports.mem_byID (h : Reports d id seed) (hid : id ≠ []) : seed ∈ (byID d).getD id [] := by
  obtain ⟨p, hget, herror, rfl⟩ := h
  obtain ⟨l₁, l₂, heq⟩ := append_of_mem (mem_toList.2 hget)
  rw [byID, heq, foldl_append, foldl_cons, if_pos ⟨herror, hid⟩]
  refine foldlRecOn (motive := fun m => seed ∈ GoMap.getD m p.nodeID []) l₂ _ ?_ fun m hm e _ => ?_
  · simp
  · split
    · rw [getD_set]
      split
      · rename_i heq
        exact mem_append_left _ (heq ▸ hm)
      · exact hm
    · exact hm

lemma Reports.distrusted (ha : Reports d id a) (hb : Reports d id b) (hid : id ≠ []) (hne : a ≠ b) :
    Distrusted (reconcileDuplicateNodeIDs d) a := by
  have ha := ha.mem_byID hid
  have hb := hb.mem_byID hid
  cases hget : (byID d).get id with
  | none => simp [GoMap.getD, hget] at ha
  | some seeds =>
    simp only [GoMap.getD, hget, Option.getD_some] at ha hb
    have hlength : ¬ seeds.length < 2 := fun hlt => by
      obtain ⟨s, hs⟩ := length_eq_one_iff.1 (show seeds.length = 1 by
        have := length_pos_of_mem ha
        omega)
      rw [hs, mem_singleton] at ha hb
      exact hne (ha.trans hb.symm)
    refine distrusted_foldl judged_distrustAll _ (mem_toList.2 hget) fun d => ?_
    rw [distrustAll, if_neg hlength]
    exact distrusted_foldl (judged_set _) _ ((mem_insertionSort _).2 ha) fun d =>
      ⟨_, get_set_self _ _ _, rfl, rfl, rfl⟩

/-! ### What a step keeps -/

/-- Only good answers are trusted, and there are no twins once they are reconciled. -/
structure Watch.Sound (w : Watch) : Prop where
  clean : ∀ seed p, w.peers.get seed = some p → p.healthy → p.error = []
  apart : w.polled = [] → ∀ a b p q, a ≠ b → w.peers.get a = some p → w.peers.get b = some q →
    p.nodeID = q.nodeID → p.nodeID ≠ [] → ¬(p.healthy ∧ q.healthy)

lemma Watch.Sound.start (now : ℕ) (seeds : List GoString) : (start now seeds).Sound := by
  have hdown : ∀ seed p, (newPeers now seeds).get seed = some p → p.healthy = false := by
    rw [newPeers, setAll]
    refine foldlRecOn (motive := fun m : Peers => ∀ seed p, m.get seed = some p →
      p.healthy = false) _ _ (fun _ _ h => by simp at h) fun m hm e he seed p hget => ?_
    obtain ⟨s, _, rfl⟩ := mem_map.1 he
    rw [get_set] at hget
    split at hget
    · cases hget
      rfl
    · exact hm _ _ hget
  refine ⟨fun seed p hget h => ?_, fun _ a b p q _ ha _ _ _ h => ?_⟩
  · simp [hdown _ _ hget] at h
  · simp [hdown _ _ ha] at h

lemma assess_healthy {previous peer : Peer} (h : (assess previous peer).healthy) :
    peer.healthy ∧ (assess previous peer).error = peer.error := by
  rw [assess] at h ⊢
  split
  · rename_i hpeer
    refine ⟨hpeer, ?_⟩
    simp only
    split <;> rfl
  · rename_i hpeer
    simp [hpeer] at h

lemma clean_set {s : GoString} (h : ∀ seed p, d.get seed = some p → p.healthy → p.error = [])
    {q : Peer} (hq : q.healthy → q.error = []) (hget : (d.set s q).get seed = some p)
    (hp : p.healthy) : p.error = [] := by
  rw [get_set] at hget
  split at hget
  · cases hget
    exact hq hp
  · exact h _ _ hget hp

lemma Watch.Sound.step (h : w.Sound) (event : Event) : (w.step event).Sound := by
  cases event with
  | pollOne seed checked reply =>
    refine ⟨fun s p hget hp => ?_, fun hpolled => by cases hpolled⟩
    cases reply with
    | failed error => exact clean_set h.clean (fun hq => by cases (assess_healthy hq).1) hget hp
    | terminal error => exact clean_set h.clean (fun hq => by cases hq) hget hp
    | itself =>
      simp only [Watch.step, pollOne, get_delete] at hget
      split at hget
      · cases hget
      · exact h.clean _ _ hget hp
    | node identity =>
      refine clean_set h.clean (fun hq => ?_) hget hp
      exact (assess_healthy hq).2
  | reconcile =>
    have hold : ∀ seed p, (reconcileDuplicateNodeIDs w.peers).get seed = some p → p.healthy →
        w.peers.get seed = some p ∧ p.error = [] := by
      intro seed p hget hp
      rcases judged_foldl judged_distrustAll (byID w.peers).toList w.peers with
        hsame | ⟨q, hq, hdown, _⟩
      · rw [reconcileDuplicateNodeIDs, hsame] at hget
        exact ⟨hget, h.clean _ _ hget hp⟩
      · rw [Option.some.inj (hget.symm.trans hq), hdown] at hp
        cases hp
    refine ⟨fun seed p hget hp => (hold seed p hget hp).2, ?_⟩
    intro _ a b p q hne ha hb hsame hid ⟨hp, hq⟩
    obtain ⟨hpa, hea⟩ := hold a p ha hp
    obtain ⟨hqb, heb⟩ := hold b q hb hq
    -- Both would have been good answers that name one node.
    have hra : Reports w.peers p.nodeID a := ⟨p, hpa, hea, rfl⟩
    have hrb : Reports w.peers p.nodeID b := ⟨q, hqb, heb, hsame.symm⟩
    obtain ⟨r, hr, hdown, _⟩ := hra.distrusted hrb hid hne
    rw [Option.some.inj (ha.symm.trans hr), hdown] at hp
    cases hp
  | peers => exact h

lemma Watch.Sound.noTwins (h : w.Sound) (hpolled : w.polled = []) : NoTwins (list w.peers) := by
  have hsymm : ∀ {p q : Peer}, (p.nodeID = q.nodeID → p.nodeID ≠ [] → ¬(p.healthy ∧ q.healthy)) →
      q.nodeID = p.nodeID → q.nodeID ≠ [] → ¬(q.healthy ∧ p.healthy) :=
    fun h heq hne hboth => h heq.symm (heq ▸ hne) hboth.symm
  rw [NoTwins, list, (perm_insertionSort _ _).pairwise_iff hsymm, pairwise_map]
  have hkeys : w.peers.toList.Pairwise fun e f => e.1 ≠ f.1 := by
    rw [← pairwise_map, map_fst_toList]
    exact nodup_keys _
  exact hkeys.imp_of_mem fun he hf hne =>
    h.apart hpolled _ _ _ _ hne (mem_toList.1 he) (mem_toList.1 hf)

/-- A seed that reports a node as another one does: distrusted until it is polled again, and not
healthy then. -/
def Watch.Quarantined (w : Watch) (id seed : GoString) : Prop :=
  ∃ p, w.peers.get seed = some p ∧ p.healthy = false ∧
    if seed ∈ w.polled then p.error = [] ∧ p.nodeID = id
    else p.state = .unhealthy ∧ p.consecutiveSuccesses = 0

lemma Distrusted.quarantined (h : Distrusted d seed) : (Watch.mk d []).Quarantined id seed := by
  simpa [Watch.Quarantined, Distrusted] using h

lemma Watch.Quarantined.reports (h : w.Quarantined id a) (horderly : Event.reconcile.orderly w) :
    Reports w.peers id a := by
  obtain ⟨p, hget, _, h⟩ := h
  rw [if_pos (horderly a (mem_keys.2 ⟨p, hget⟩))] at h
  exact ⟨p, hget, h⟩

lemma get_pollOne_of_ne {checked : ℕ} {reply : Reply} (hne : a ≠ seed) :
    (pollOne d seed checked reply).get a = d.get a := by
  cases reply with
  | itself => exact get_delete_of_ne _ hne
  | failed | terminal | node => exact get_set_of_ne _ _ hne

lemma Watch.Quarantined.step (ha : w.Quarantined id a) (hb : w.Quarantined id b) (hid : id ≠ [])
    (hne : a ≠ b) (horderly : event.orderly w) (hnames : event.names id a) :
    (w.step event).Quarantined id a := by
  cases event with
  | pollOne seed checked reply =>
    by_cases heq : a = seed
    · -- The first good answer of a distrusted peer makes it recovering.
      subst heq
      obtain ⟨identity, rfl, rfl⟩ := hnames rfl
      obtain ⟨p, hget, _, h⟩ := ha
      rw [if_neg horderly] at h
      have hclean : (default : Peer).error = [] := rfl
      refine ⟨_, get_set_self _ _ _, ?_⟩
      simp [assess, GoMap.getD, hget, h.1, h.2, Watch.step, hclean]
    · rw [Watch.Quarantined, Watch.step, get_pollOne_of_ne heq]
      simpa [Watch.Quarantined, heq] using ha
  | reconcile =>
    exact ((ha.reports horderly).distrusted (hb.reports horderly) hid hne).quarantined
  | peers => exact ha

/-! ### Runs -/

lemma Watch.Sound.run (h : w.Sound) (events : List Event) : (w.run events).Sound :=
  foldlRecOn _ _ h fun _ hw event _ => hw.step event

lemma Watch.Quarantined.run {events rest : List Event} (ha : w.Quarantined id a)
    (hb : w.Quarantined id b) (hid : id ≠ []) (hne : a ≠ b) (horderly : w.Orderly (events ++ rest))
    (hnames : ∀ event ∈ events, event.names id a ∧ event.names id b) :
    (w.run events).Quarantined id a := by
  induction events generalizing w with
  | nil => exact ha
  | cons e events ih =>
    obtain ⟨⟨hna, hnb⟩, hnames⟩ := forall_mem_cons.1 hnames
    exact ih (ha.step hb hid hne horderly.1 hna) (hb.step ha hid hne.symm horderly.1 hnb)
      horderly.2 hnames

lemma Watch.Orderly.run {before after : List Event} (h : w.Orderly (before ++ after)) :
    (w.run before).Orderly after := by
  induction before generalizing w with
  | nil => exact h
  | cons e before ih => exact ih h.2

/-- In every run in which polls do not overlap and the peers are read between them, no two peers
are trusted to be the same node. -/
theorem duplicates_distrusted (now : ℕ) (seeds : List GoString) (events : List Event)
    (h : (Watch.start now seeds).Orderly events) : (Watch.start now seeds).Distrusts events := by
  constructor
  · rintro before ⟨rest, rfl⟩
    rw [append_assoc] at h
    exact ((Watch.Sound.start now seeds).run before).noTwins h.run.1
  · rintro before after id a b ⟨rest, rfl⟩ hid hne ha hb hnames p hp
    rw [append_assoc] at h
    rw [Watch.run, foldl_append, ← Watch.run] at hp
    obtain ⟨q, hq, hdown, _⟩ := Watch.Quarantined.run (ha.distrusted hb hid hne).quarantined
      (hb.distrusted ha hid hne.symm).quarantined hid hne h.run.2 hnames
    rw [Option.some.inj (hp.symm.trans hq), hdown]

/-- Two seeds that answer with one node. -/
def twins : List Event :=
  let body : Body := { (default : Body) with
    nodeID := replicate 32 49, clusterID := [99], advertiseAddress := [104] }
  [.pollOne [97] 1 (body.reply [110] [99] 1), .pollOne [98] 1 (body.reply [110] [99] 1)]

theorem duplicates_distrusted_twins :
    (Watch.start 0 [[97], [98]]).Distrusts (twins ++ [.reconcile, .peers] ++ twins) :=
  duplicates_distrusted 0 [[97], [98]] _ (by
    refine ⟨?_, ?_, ?_, ?_, ?_, ?_, trivial⟩ <;> decide +kernel)

/-- The answers of both seeds are in and not reconciled yet. -/
theorem peers_shows_duplicates :
    ¬ (Watch.start 0 [[97], [98]]).Distrusts (twins ++ [.peers, .reconcile]) := by
  intro h
  have hshown := h.shown twins ⟨[.reconcile], rfl⟩
  revert hshown
  decide +kernel

end GideonDB.Cluster.Discovery
