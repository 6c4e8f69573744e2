/-
Node identifiers and the view digests that metadata commands carry.

Strings are judged byte by byte, as the source does.  The capacity manifest is a JSON
text that is only accepted in the form `json.Marshal` gives it, so the decoder below
reads that form and nothing else: every other text is refused by the comparison with
the canonical one in any case.
-/
import GideonDB.Go.Strings

namespace GideonDB.Cluster

open Go

def isLowerHex (b : UInt8) : Bool := (48 ≤ b && b ≤ 57) || (97 ≤ b && b ≤ 102)

/-- `ValidNodeID`: 16 bytes in lower-case hexadecimal, not all of them zero. -/
def validNodeID (value : GoString) : Bool :=
  value.length == 32 && value.all isLowerHex && value.any (· != 48)

lemma ne_nil_of_validNodeID {value : GoString} (h : validNodeID value) : value ≠ [] := by
  rintro rfl
  simp [validNodeID] at h

/-- `ViewDigests`: the fingerprints of the cluster view an epoch stands for. -/
structure ViewDigests where
  membership : GoString
  catalog : GoString
  placement : GoString
  /-- The capacities of the nodes, as canonical JSON. -/
  capacityManifest : GoString
deriving DecidableEq, Repr

/-- `NodeCapacity`. -/
structure NodeCapacity where
  nodeID : GoString
  /-- Its capacity, a `uint32`. -/
  capacity : ℕ
deriving DecidableEq, Repr

/-! ### The capacity manifest -/

/-- `validatePlacementCapacity` finds nothing to object to. -/
def validPlacementCapacity (capacity : ℕ) : Bool := 1 ≤ capacity && capacity ≤ 256

/-- `json.Marshal` of one item. -/
def marshalNodeCapacity (item : NodeCapacity) : GoString :=
  bytes "\x7b\"node_id\":\"" ++ item.nodeID ++ bytes "\",\"capacity\":" ++
    bytes (toString item.capacity) ++ bytes "\x7d"

/-- `json.Marshal` of a slice of items; `none` is the nil slice. -/
def marshalNodeCapacities : Option (List NodeCapacity) → GoString
  | none => bytes "null"
  | some items => bytes "[" ++ (bytes ",").intercalate (items.map marshalNodeCapacity) ++ bytes "]"

/-- The text after `literal`, if it starts with it. -/
def chop (literal text : GoString) : Option GoString :=
  if literal.isPrefixOf text then some (text.drop literal.length) else none

def isDigit (b : UInt8) : Bool := 48 ≤ b && b ≤ 57

/-- One item and the text after it. -/
def unmarshalItem (text : GoString) : Option (NodeCapacity × GoString) := do
  let text ← chop (bytes "\x7b\"node_id\":\"") text
  let nodeID := text.takeWhile (· != 34)
  let text ← chop (bytes "\",\"capacity\":") (text.drop nodeID.length)
  let digits := text.takeWhile isDigit
  let capacity := digits.foldl (fun n b => 10 * n + (b.toNat - 48)) 0
  let text ← chop (bytes "\x7d") (text.drop digits.length)
  return (⟨nodeID, capacity⟩, text)

/-- The items up to the closing bracket, which ends the text. -/
def unmarshalItems : ℕ → GoString → Option (List NodeCapacity)
  | 0, _ => none
  | fuel + 1, text => do
      let (item, text) ← unmarshalItem text
      if text = bytes "]" then return [item]
      let text ← chop (bytes ",") text
      let items ← unmarshalItems fuel text
      return item :: items

/-- `json.Unmarshal` into a slice of items, on the texts `json.Marshal` produces. -/
def unmarshalNodeCapacities (text : GoString) : Option (Option (List NodeCapacity)) :=
  if text = bytes "null" then some none
  else if text = bytes "[]" then some (some [])
  else do
    let body ← chop (bytes "[") text
    let items ← unmarshalItems body.length body
    return some items

/-- The items have valid identifiers and capacities and strictly increasing identifiers. -/
def validNodeCapacities : List NodeCapacity → Bool
  | [] => true
  | [item] => validNodeID item.nodeID && validPlacementCapacity item.capacity
  | item :: next :: items =>
    validNodeID item.nodeID && validPlacementCapacity item.capacity &&
      !leString next.nodeID item.nodeID && validNodeCapacities (next :: items)

/-- `ParseCapacityManifest`, with `none` for its errors. -/
def parseCapacityManifest (manifest : GoString) : Option (List NodeCapacity) :=
  if manifest = [] then some []
  else do
    let capacities ← unmarshalNodeCapacities manifest
    if validNodeCapacities (capacities.getD []) ∧ marshalNodeCapacities capacities = manifest then
      return capacities.getD []
    else none

/-! ### Digests -/

/-- `validDigest`: 64 lower-case hexadecimal digits. -/
def validDigest (value : GoString) : Bool := value.length == 64 && value.all isLowerHex

/-- `validView`. -/
def validView (view : ViewDigests) : Bool :=
  validDigest view.membership && validDigest view.catalog && validDigest view.placement &&
    (parseCapacityManifest view.capacityManifest).isSome

end GideonDB.Cluster
