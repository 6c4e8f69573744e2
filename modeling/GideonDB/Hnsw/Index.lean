/-
The mutable HNSW index (`internal/index/hnsw`): a graph in layers, in which a search descends
greedily to the bottom layer and then explores it from where the descent ended.

A delete only marks the node.  An insert searches each layer for candidates, keeps some that are
not marked, and links them in both directions; a list that gets too long is cut.  An upsert of an
id that is there builds the graph anew from the nodes that are not marked.

Scores are values of a linear order, and the level of an id is left open.  A node carries its
vector, of which the code keeps one array for all nodes.  Filters are left out, and so are the
graphs of immutable segments.
-/
import GideonDB.Core.Record
import GideonDB.Go.Heap

namespace GideonDB.Hnsw

open Go GideonDB.Core

/-! ### The graph -/

/-- `node`, with its vector.  The neighbours are given by layer. -/
structure Node where
  id : ℕ
  level : ℕ
  deleted : Bool
  vector : FloatVector
  neighbors : ℕ → List ℕ

instance : Inhabited Node := ⟨⟨0, 0, false, [], fun _ => []⟩⟩

/-- What `New` accepts, with what the machine and `deterministicLevel` add to it. -/
structure Config where
  dimension : ℕ
  m : ℕ
  efConstruction : ℕ
  efSearch : ℕ
  /-- `deterministicLevel(id, m)`. -/
  level : ℕ → ℕ
  /-- `runtime.GOMAXPROCS(0)`. -/
  workers : ℕ
  dimension_pos : 0 < dimension
  two_le_m : 2 ≤ m
  m_le_efConstruction : m ≤ efConstruction
  efSearch_pos : 1 ≤ efSearch

/-- `Index`. -/
structure Index where
  nodes : List Node
  ordinals : GoMap ℕ ℕ
  /-- `none` stands for -1. -/
  entry : Option ℕ
  /-- Read only if there is an entry. -/
  maxLevel : ℕ
  live : ℕ

/-- The errors of the index. -/
inductive Error
  /-- `core.ErrDimensionMismatch`. -/
  | dimensionMismatch
  /-- `core.ErrNotFound`. -/
  | notFound
  /-- `core.ErrInvalidArgument` with a text. -/
  | invalidArgument (text : String)
deriving DecidableEq

namespace Index

/-- No nodes. -/
def empty : Index := ⟨[], .empty, none, 0, 0⟩

/-- The node of an ordinal. -/
def node (h : Index) (ordinal : ℕ) : Node := h.nodes.getD ordinal default

/-- Its links in a layer. -/
def neighborsAt (h : Index) (ordinal layer : ℕ) : List ℕ :=
  if (h.node ordinal).level < layer then [] else (h.node ordinal).neighbors layer

/-- `scoredOrdinal`. -/
structure Scored (σ : Type) where
  ordinal : ℕ
  score : σ

section Searches

variable {σ : Type} [LinearOrder σ] (score : FloatVector → FloatVector → σ)

/-- `scoreLocked`. -/
def scoreAt (h : Index) (query : FloatVector) (ordinal : ℕ) : σ :=
  score query (h.node ordinal).vector

/-! ### The descent -/

/-- A neighbour that the descent prefers to the current node. -/
def improves (h : Index) (query : FloatVector) (neighbor current : ℕ) : Bool :=
  h.scoreAt score query current < h.scoreAt score query neighbor ||
    (h.scoreAt score query neighbor = h.scoreAt score query current &&
      (h.node neighbor).id < (h.node current).id)

/-- The loop over the neighbours in `greedyLocked`: the node it ends with, and `changed`. -/
def greedyRound (h : Index) (query : FloatVector) (layer current : ℕ) : ℕ × Bool :=
  (h.neighborsAt current layer).foldl (fun best neighbor =>
    if h.improves score query neighbor best.1 then (neighbor, true) else best) (current, false)

/-- The outer loop of `greedyLocked`. -/
def greedyLoop (h : Index) (query : FloatVector) (layer : ℕ) : ℕ → ℕ → ℕ
  | 0, current => current
  | rounds + 1, current =>
    if (h.greedyRound score query layer current).2 then
      greedyLoop h query layer rounds (h.greedyRound score query layer current).1
    else current

/-- `greedyLocked`.  As many rounds as there are nodes are enough (`greedy_stable`). -/
def greedy (h : Index) (query : FloatVector) (entry layer : ℕ) : ℕ :=
  h.greedyLoop score query layer h.nodes.length entry

/-- The layers above `floor`, from the given one down. -/
def descend (h : Index) (query : FloatVector) (floor : ℕ) : ℕ → ℕ → ℕ
  | 0, entry => entry
  | layer + 1, entry =>
    if layer + 1 ≤ floor then entry
    else descend h query floor layer (h.greedy score query entry (layer + 1))

/-! ### Searching a layer -/

/-- The state of `searchLayerLocked`. -/
structure Walk (σ : Type) where
  visited : List ℕ
  /-- A heap with the best score at the root. -/
  frontier : Array (Scored σ)
  /-- A heap with the worst score at the root. -/
  best : Array (Scored σ)

/-- The order of `minHeap`. -/
def minWorse (a b : Scored σ) : Bool := a.score < b.score

/-- The order of `maxHeap`. -/
def maxWorse (a b : Scored σ) : Bool := b.score < a.score

/-- `minPush`, and `minPop` if there are more than `ef` then. -/
def keep (ef : ℕ) (best : Array (Scored σ)) (scored : Scored σ) : Array (Scored σ) :=
  let best := pushHeap minWorse best scored
  if ef < best.size then ((popHeap minWorse best).map Prod.snd).getD best else best

/-- The parameters of one search. -/
structure Task where
  query : FloatVector
  ef : ℕ
  layer : ℕ
  excluded : Option ℕ
  accept : ℕ → Bool

/-- One neighbour of the node that is expanded. -/
def visit (h : Index) (t : Task) (w : Walk σ) (neighbor : ℕ) : Walk σ :=
  if t.excluded = some neighbor ∨ neighbor ∈ w.visited then w
  else
    let scored : Scored σ := ⟨neighbor, h.scoreAt score t.query neighbor⟩
    if w.best.size < t.ef ∨ w.best[0]?.any (fun worst => worst.score < scored.score) then
      { visited := neighbor :: w.visited
        frontier := pushHeap maxWorse w.frontier scored
        best := if t.accept neighbor then keep t.ef w.best scored else w.best }
    else { w with visited := neighbor :: w.visited }

/-- The loop over the frontier. -/
def walkLoop (h : Index) (t : Task) : ℕ → Walk σ → Walk σ
  | 0, w => w
  | rounds + 1, w =>
    match popHeap maxWorse w.frontier with
    | none => w
    | some (candidate, frontier) =>
      if t.ef ≤ w.best.size ∧ w.best[0]?.any (fun worst => candidate.score < worst.score) then
        { w with frontier := frontier }
      else
        walkLoop h t rounds ((h.neighborsAt candidate.ordinal t.layer).foldl
          (h.visit score t) { w with frontier := frontier })

/-- The state before the loop, with one entry. -/
def startWalk (h : Index) (t : Task) (entry : ℕ) : Walk σ :=
  if t.excluded = some entry then ⟨[], #[], #[]⟩
  else
    let scored : Scored σ := ⟨entry, h.scoreAt score t.query entry⟩
    { visited := [entry]
      frontier := pushHeap maxWorse #[] scored
      best := if t.accept entry then pushHeap minWorse #[] scored else #[] }

/-- The order of the results. -/
def behind (h : Index) (a b : Scored σ) : Bool :=
  a.score < b.score || (b.score = a.score && (h.node b.ordinal).id < (h.node a.ordinal).id)

/-- `sort.Slice` on scored ordinals.  Only nodes of one id tie, all but one of them marked.  Searches
and selections skip marked nodes, so a tie decides at most where the next layer is entered; the
proofs use that the result is a sorted permutation, and not how ties are ordered. -/
def sortScored (h : Index) (scored : List (Scored σ)) : List (Scored σ) :=
  scored.insertionSort (NotWorse h.behind)

/-- `searchLayerLocked`.  As many rounds as there are nodes are enough (`searchLayer_done`). -/
def searchLayer (h : Index) (t : Task) (entry : ℕ) : List (Scored σ) :=
  h.sortScored (h.walkLoop score t h.nodes.length (h.startWalk score t entry)).best.toList

/-- `Search`. -/
def search (cfg : Config) (h : Index) (query : FloatVector) (k : ℤ) :
    Except Error (List (ℕ × σ)) :=
  if query.length ≠ cfg.dimension then .error .dimensionMismatch
  else if k ≤ 0 then .error (.invalidArgument "k must be positive")
  else if h.live = 0 then .ok []
  else
    match h.entry with
    | none => .ok []
    | some entry =>
      let found := h.searchLayer score
        ⟨query, max k.toNat cfg.efSearch, 0, none, fun ordinal => !(h.node ordinal).deleted⟩
        (h.descend score query 0 h.maxLevel entry)
      .ok (((found.filter fun candidate => !(h.node candidate.ordinal).deleted).map
        fun candidate => ((h.node candidate.ordinal).id, candidate.score)).take k.toNat)

/-! ### Linking -/

/-- The loop of `selectNeighborsLocked`: the ordinals that are kept, and those set aside because
they are closer to one that is kept. -/
def selectStep (h : Index) (limit : ℕ) (acc : List ℕ × List ℕ) (candidate : Scored σ) :
    List ℕ × List ℕ :=
  if acc.1.length = limit ∨ (h.node candidate.ordinal).deleted = true then acc
  else if acc.1.any (fun kept =>
      candidate.score < h.scoreAt score (h.node candidate.ordinal).vector kept) then
    (acc.1, acc.2 ++ [candidate.ordinal])
  else (acc.1 ++ [candidate.ordinal], acc.2)

/-- `selectNeighborsLocked`. -/
def selectNeighbors (h : Index) (candidates : List (Scored σ)) (limit : ℕ) : List ℕ :=
  let acc := candidates.foldl (h.selectStep score limit) ([], [])
  acc.1 ++ acc.2.take (limit - acc.1.length)

/-- `maxNeighbors`. -/
def maxNeighbors (cfg : Config) (layer : ℕ) : ℕ := if layer = 0 then 2 * cfg.m else cfg.m

/-- `h.nodes[ordinal].neighbors[layer] = neighbors`. -/
def setNeighbors (h : Index) (ordinal layer : ℕ) (neighbors : List ℕ) : Index :=
  { h with nodes := h.nodes.modify ordinal fun node =>
      { node with neighbors := Function.update node.neighbors layer neighbors } }

/-- `pruneLocked` on a list of neighbours. -/
def pruned (cfg : Config) (h : Index) (ordinal layer : ℕ) (neighbors : List ℕ) : List ℕ :=
  if neighbors.length ≤ maxNeighbors cfg layer then neighbors
  else
    h.selectNeighbors score (h.sortScored (neighbors.map fun neighbor =>
      ⟨neighbor, h.scoreAt score (h.node ordinal).vector neighbor⟩)) (maxNeighbors cfg layer)

/-- New neighbours of a node, cut if there are too many then. -/
def addNeighbors (cfg : Config) (h : Index) (ordinal layer : ℕ) (added : List ℕ) : Index :=
  h.setNeighbors ordinal layer
    (h.pruned score cfg ordinal layer ((h.node ordinal).neighbors layer ++ added))

/-- One layer of `connectLocked`: the graph, and the entry for the next layer. -/
def connectLayer (cfg : Config) (h : Index) (ordinal layer entry : ℕ) : Index × ℕ :=
  let candidates := h.searchLayer score
    ⟨(h.node ordinal).vector, cfg.efConstruction, layer, some ordinal, fun _ => true⟩ entry
  let selected := h.selectNeighbors score candidates cfg.m
  (selected.foldl (fun h neighbor => h.addNeighbors score cfg neighbor layer [ordinal])
      (h.addNeighbors score cfg ordinal layer selected),
    (candidates.head?.map Scored.ordinal).getD entry)

/-- The layers of `connectLocked` from the given one down. -/
def connectLayers (cfg : Config) (h : Index) (ordinal : ℕ) : ℕ → ℕ → Index
  | 0, entry => (h.connectLayer score cfg ordinal 0 entry).1
  | layer + 1, entry =>
    connectLayers cfg (h.connectLayer score cfg ordinal (layer + 1) entry).1 ordinal layer
      (h.connectLayer score cfg ordinal (layer + 1) entry).2

/-- `connectLocked`. -/
def connect (cfg : Config) (h : Index) (ordinal entry maxLevel : ℕ) : Index :=
  h.connectLayers score cfg ordinal (min (h.node ordinal).level maxLevel)
    (h.descend score (h.node ordinal).vector (h.node ordinal).level maxLevel entry)

/-! ### Writes -/

/-- The node, without links. -/
def appendNode (cfg : Config) (h : Index) (id : ℕ) (vector : FloatVector) : Index :=
  { h with
    nodes := h.nodes ++ [⟨id, cfg.level id, false, vector, fun _ => []⟩]
    ordinals := h.ordinals.set id h.nodes.length
    live := h.live + 1 }

/-- `insertLocked`. -/
def insert (cfg : Config) (h : Index) (id : ℕ) (vector : FloatVector) : Index :=
  match h.entry with
  | none =>
    { h.appendNode cfg id vector with entry := some h.nodes.length, maxLevel := cfg.level id }
  | some entry =>
    let linked := (h.appendNode cfg id vector).connect score cfg h.nodes.length entry h.maxLevel
    if h.maxLevel < cfg.level id then
      { linked with entry := some h.nodes.length, maxLevel := cfg.level id }
    else linked

/-- The serial branch of `buildLocked`. -/
def build (cfg : Config) (entries : List (ℕ × FloatVector)) : Index :=
  entries.foldl (fun h entry => h.insert score cfg entry.1 entry.2) empty

/-- What `rebuildLocked` builds the graph from. -/
def survivors (h : Index) : List (ℕ × FloatVector) :=
  (h.nodes.filter fun node => !node.deleted).map fun node => (node.id, node.vector)

/-- `copy(h.vectorAt(ordinal), vector)`. -/
def setVector (h : Index) (ordinal : ℕ) (vector : FloatVector) : Index :=
  { h with nodes := h.nodes.modify ordinal fun node => { node with vector := vector } }

/-- `Upsert`, where a graph that is built anew is built by one worker. -/
def upsert (cfg : Config) (h : Index) (id : ℕ) (vector : FloatVector) : Index × Option Error :=
  if vector.length ≠ cfg.dimension then (h, some .dimensionMismatch)
  else
    match h.ordinals.get id with
    | some ordinal => (build score cfg (h.setVector ordinal vector).survivors, none)
    | none => (h.insert score cfg id vector, none)

end Searches

/-- `Delete`. -/
def delete (h : Index) (id : ℕ) : Index × Option Error :=
  match h.ordinals.get id with
  | none => (h, some .notFound)
  | some ordinal =>
    ({ h with
        nodes := h.nodes.modify ordinal fun node => { node with deleted := true }
        ordinals := h.ordinals.delete id
        live := h.live - 1 }, none)

/-! ### Runs -/

/-- The graph that several workers build from the entries.  Which neighbours the nodes get depends
on the workers; all that is said here is that the lists of a layer have nodes of that layer, and
that the entry is a node of the highest level it was set with. -/
structure BuiltInParallel (cfg : Config) (entries : List (ℕ × FloatVector)) (h : Index) : Prop where
  length : h.nodes.length = entries.length
  node : ∀ ordinal entry, entries[ordinal]? = some entry →
    (h.node ordinal).id = entry.1 ∧ (h.node ordinal).level = cfg.level entry.1 ∧
      (h.node ordinal).deleted = false ∧ (h.node ordinal).vector = entry.2
  links : ∀ ordinal layer, ∀ neighbor ∈ h.neighborsAt ordinal layer,
    neighbor < h.nodes.length ∧ layer ≤ (h.node neighbor).level
  ordinals : ∀ id ordinal, h.ordinals.get id = some ordinal ↔
    ∃ vector, entries[ordinal]? = some (id, vector)
  entry : ∃ entry < h.nodes.length, h.entry = some entry ∧ (h.node entry).level = h.maxLevel
  live : h.live = entries.length

/-- The writes. -/
inductive Call
  | upsert (id : ℕ) (vector : FloatVector)
  | delete (id : ℕ)

/-- Above it several workers build. -/
def parallelBuildThreshold : ℕ := 2048

/-- Whether an upsert builds the graph anew with several workers. -/
def buildsInParallel (cfg : Config) (h : Index) (id : ℕ) : Prop :=
  (h.ordinals.get id).isSome = true ∧ 1 < cfg.workers ∧
    parallelBuildThreshold ≤ h.survivors.length

/-- What a write can lead to. -/
inductive Step {σ : Type} [LinearOrder σ] (score : FloatVector → FloatVector → σ) (cfg : Config)
    (h : Index) : Call → Index → Prop
  | upsert {id : ℕ} {vector : FloatVector} (hserial : ¬ h.buildsInParallel cfg id) :
      Step score cfg h (.upsert id vector) (h.upsert score cfg id vector).1
  | parallel {id : ℕ} {vector : FloatVector} {h' : Index} (hparallel : h.buildsInParallel cfg id)
      (hlength : vector.length = cfg.dimension) {ordinal : ℕ}
      (hord : h.ordinals.get id = some ordinal)
      (hbuilt : BuiltInParallel cfg (h.setVector ordinal vector).survivors h') :
      Step score cfg h (.upsert id vector) h'
  | refused {id : ℕ} {vector : FloatVector} (hlength : vector.length ≠ cfg.dimension) :
      Step score cfg h (.upsert id vector) h
  | delete {id : ℕ} : Step score cfg h (.delete id) (h.delete id).1

end Index

end GideonDB.Hnsw
